import GroovyWorkspace.Proofs.Json.Cut
import GroovyWorkspace.Proofs.Json.TrailingComma

/-!
# The pieces of what is left

Without its decoration a text is cut into the pieces that are kept of it, comments apart (`pieces_plain`).
A comment never stands right behind a slash, and a bracket, before which a comma is dropped, goes on with
no comment, so that no two characters that come together open one. Hence literals are left as they are
(`literals_plain`). Nothing more can be taken off (`plain_idempotent`): the comma before a bracket has been
dropped already, or it is one that is kept, and comments make no difference to that.
-/

namespace GroovyWorkspace.Json.Decorated

/-! ## Neighbours among the pieces that are kept -/

namespace Piece

theorem EndsBefore.of_comma {p : Piece} (h : p.EndsBefore (some ',')) {c : Char}
    (hc : c = '}' ∨ c = ']') : p.EndsBefore (some c) := by
  cases p with
  | code d => exact ⟨h.1, fun _ => by rcases hc with rfl | rfl <;> decide⟩
  | quoted cs => exact .inl (h.resolve_right fun hopen => nomatch hopen.1)
  | line cs => simp [EndsBefore] at h
  | block cs =>
    obtain ⟨body, hbody, hcs⟩ := h
    exact ⟨body, hbody, .inl (hcs.resolve_right fun hopen => nomatch hopen.1)⟩

theorem EndsBefore.of_slash {p : Piece} (h : p.EndsBefore (some '/')) (next : Option Char) :
    p.EndsBefore next := by
  cases p with
  | code c => exact ⟨h.1, fun hc => absurd rfl (h.2 hc).1⟩
  | quoted cs => exact .inl (h.resolve_right fun hopen => nomatch hopen.1)
  | line cs => simp [EndsBefore] at h
  | block cs =>
    obtain ⟨body, hbody, hcs⟩ := h
    exact ⟨body, hbody, .inl (hcs.resolve_right fun hopen => nomatch hopen.1)⟩

theorem head?_text_of_isComment {p : Piece} {next : Option Char} (h : p.EndsBefore next)
    (hp : p.isComment = true) : p.text.head? = some '/' := by
  cases p with
  | code c => cases hp
  | quoted cs => cases hp
  | line cs =>
    obtain ⟨⟨body, -, rfl⟩, -⟩ := h
    rfl
  | block cs => obtain ⟨body, -, rfl | ⟨-, rfl⟩⟩ := h <;> rfl

end Piece

theorem head?_keep (out : List Piece) (p : Piece) : (keep out p).head? = some p := by
  cases p with
  | code c =>
    rw [keep]
    split <;> rfl
  | _ => rfl

/-- The piece that is added may stand behind what is kept before it, also if a comma is dropped between
them. -/
theorem isChain_keep {out : List Piece} {p : Piece} (hout : out.IsChain (flip Piece.Meets))
    (hp : ∀ q ∈ out.head?, q.Meets p) : (keep out p).IsChain (flip Piece.Meets) := by
  cases p with
  | code c =>
    rw [keep]
    split
    · rename_i hc
      rcases dropCommaPiece_cases out with h | ⟨idle, before, rfl, -, -, h⟩
      · rw [h]
        exact hout.cons hp
      · rw [h]
        have hcomma := hout.right_of_append
        exact hcomma.tail.cons fun q hq => (hcomma.rel_head? hq).of_comma hc
    · exact hout.cons hp
  | _ => exact hout.cons hp

theorem isChain_kept (text : List Char) : (kept text).IsChain Piece.Meets := by
  have hpieces : (pieces text).IsChain Piece.Meets := (cuts_iff.mp (cuts_pieces text)).2.1
  have hkept := kept_induction
    (I := fun out ps => ps.IsChain (flip Piece.Meets) → out.head? = ps.head? ∧
      out.IsChain (flip Piece.Meets))
    (fun _ => ⟨rfl, .nil⟩)
    (fun out ps p ih hchain => by
      obtain ⟨hhead, hout⟩ := ih hchain.tail
      refine ⟨head?_keep out p, isChain_keep hout fun q hq => ?_⟩
      exact hchain.rel_head? (hhead ▸ hq)) text
  exact List.isChain_reverse.mp (hkept (List.isChain_reverse.mpr hpieces)).2

/-! ## Without comments -/

/-- Pieces without the comments among them. -/
def uncommented (ps : List Piece) : List Piece := ps.filter fun p => !p.isComment

theorem uncommented_cons_of_isComment {p : Piece} (h : p.isComment = true) (ps : List Piece) :
    uncommented (p :: ps) = uncommented ps := by simp [uncommented, h]

theorem uncommented_cons {p : Piece} (h : p.isComment = false) (ps : List Piece) :
    uncommented (p :: ps) = p :: uncommented ps := by simp [uncommented, h]

theorem spelled_eq_flatMap (ps : List Piece) : spelled [] ps = (uncommented ps).flatMap Piece.text := by
  induction ps with
  | nil => rfl
  | cons p ps ih =>
    cases p with
    | code c => rw [spelled_cons, ih, uncommented_cons rfl, List.flatMap_cons]; rfl
    | quoted cs => rw [spelled_cons, ih, uncommented_cons rfl, List.flatMap_cons]; rfl
    | line cs => rw [spelled_cons, ih, uncommented_cons_of_isComment rfl]; rfl
    | block cs => rw [spelled_cons, ih, uncommented_cons_of_isComment rfl]; rfl

/-- Pieces that come together when comments are taken out between them may do so. -/
theorem isChain_cons_uncommented {p : Piece} {ps : List Piece} (h : (p :: ps).IsChain Piece.Meets)
    (hends : ∀ q ∈ ps, q.EndsBefore none) : (p :: uncommented ps).IsChain Piece.Meets := by
  induction ps generalizing p with
  | nil => exact h
  | cons q ps ih =>
    obtain ⟨hmeets, hchain⟩ := List.isChain_cons_cons.mp h
    rw [List.forall_mem_cons] at hends
    cases hq : q.isComment with
    | true =>
      unfold Piece.Meets at hmeets
      rw [Piece.head?_text_of_isComment hends.1 hq] at hmeets
      rw [uncommented_cons_of_isComment hq]
      exact ih (hchain.tail.cons fun r _ => hmeets.of_slash _) hends.2
    | false =>
      rw [uncommented_cons hq]
      exact .cons_cons hmeets (ih hchain hends.2)

/-- What is left of a text is cut into the pieces that are kept, comments apart. -/
theorem pieces_plain (text : List Char) : pieces (plain text) = uncommented (kept text) := by
  have hends : ∀ p ∈ kept text, p.EndsBefore none := fun p hp =>
    (cuts_iff.mp (cuts_pieces text)).2.2 p ((kept_sublist text).subset hp)
  rw [pieces_eq_iff, cuts_iff]
  refine ⟨?_, ?_, fun p hp => hends p (List.mem_of_mem_filter hp)⟩
  · rw [← spelled_eq_flatMap, plain_eq_render, render_eq_spelled (by simp)]
  · -- a line break in front may stand before every piece
    have hbreak : ∀ q, (Piece.code '\n').Meets q := fun q => ⟨by decide, fun h => by cases h⟩
    exact (isChain_cons_uncommented ((isChain_kept text).cons fun q _ => hbreak q) hends).tail

theorem pieces_plain_sublist (text : List Char) : (pieces (plain text)).Sublist (pieces text) := by
  rw [pieces_plain]
  exact List.filter_sublist.trans (kept_sublist text)

theorem not_isComment_of_mem_pieces_plain {text : List Char} {p : Piece} (h : p ∈ pieces (plain text)) :
    p.isComment = false := by
  rw [pieces_plain, uncommented, List.mem_filter] at h
  simpa using h.2

/-! ## Literals -/

namespace Piece

def isLiteral : Piece → Bool
  | quoted _ => true
  | _ => false

/-- Whether a piece may be taken off: a comment, or a comma or a blank outside of literals. -/
def isSpare (p : Piece) : Bool := p.isIdle || p = code ','

theorem isSpare_of_isLiteral {p : Piece} (h : p.isLiteral = true) : p.isSpare = false := by
  cases p with
  | quoted cs => rfl
  | _ => cases h

theorem isSpare_of_isComment {p : Piece} (h : p.isComment = true) : p.isSpare = true := by
  cases p with
  | code c => cases h
  | quoted cs => cases h
  | line cs => rfl
  | block cs => rfl

end Piece

/-- Whatever is dropped with a comma may be taken off. -/
theorem Restores.filter_eq {out ps : List Piece} (h : Restores out ps) :
    out.filter (fun p => !p.isSpare) = ps.filter fun p => !p.isSpare := by
  induction h with
  | nil => rfl
  | piece p _ ih => rw [List.filter_cons, List.filter_cons, ih]
  | @comma out ps idle c _ hidle _ _ ih =>
    have hnone : (idle ++ [Piece.code ',']).filter (fun p => !p.isSpare) = [] := by
      rw [List.filter_eq_nil_iff, List.forall_mem_append, List.forall_mem_singleton]
      exact ⟨fun p hp => by simp [Piece.isSpare, hidle p hp], by decide⟩
    rw [List.append_cons, List.filter_cons, List.filter_cons, List.filter_append, hnone, ih]
    rfl

theorem filter_pieces_plain (text : List Char) :
    (pieces (plain text)).filter (fun p => !p.isSpare) = (pieces text).filter fun p => !p.isSpare := by
  have hkept : (kept text).filter (fun p => !p.isSpare) = (pieces text).filter fun p => !p.isSpare := by
    have hrestores := (restores_kept text).filter_eq
    rwa [List.filter_reverse, List.filter_reverse, List.reverse_inj] at hrestores
  rw [← hkept, pieces_plain, uncommented, List.filter_filter]
  refine List.filter_congr fun p _ => ?_
  cases hp : p.isComment with
  | true => simp [Piece.isSpare_of_isComment hp]
  | false => simp

/-- **Literals are left alone.** The text without decoration has the same literals in the same order. Its
pieces are those of the text, in their order, of which only comments and, outside of literals, commas and
blanks are missing. -/
theorem literals_plain (text : List Char) :
    (pieces (plain text)).filter Piece.isLiteral = (pieces text).filter Piece.isLiteral ∧
      (pieces (plain text)).Sublist (pieces text) ∧
      (pieces (plain text)).filter (fun p => !p.isSpare) = (pieces text).filter fun p => !p.isSpare := by
  refine ⟨?_, pieces_plain_sublist text, filter_pieces_plain text⟩
  have hliteral : ∀ ps : List Piece,
      ps.filter Piece.isLiteral = (ps.filter fun p => !p.isSpare).filter Piece.isLiteral := by
    intro ps
    rw [List.filter_filter]
    refine List.filter_congr fun p _ => ?_
    cases hp : p.isLiteral with
    | true => simp [Piece.isSpare_of_isLiteral hp]
    | false => simp
  rw [hliteral, filter_pieces_plain, ← hliteral]

/-! ## Nothing more to take off -/

/-- Pieces kept backwards in which no comma can be dropped. -/
inductive Tidy : List Piece → Prop
  | nil : Tidy []
  | cons {p : Piece} {out : List Piece} (hp : p.closes = true → dropCommaPiece out = out)
    (h : Tidy out) : Tidy (p :: out)

/-- Behind a comma that has been dropped there is no other one. -/
theorem dropCommaPiece_dropCommaPiece (out : List Piece) :
    dropCommaPiece (dropCommaPiece out) = dropCommaPiece out := by
  rcases dropCommaPiece_cases out with h | ⟨idle, before, -, -, hends, h⟩
  · rw [h, h]
  · rw [h]
    unfold dropCommaPiece
    split
    · rename_i hcomma
      unfold endsValuePiece at hends
      rw [hcomma] at hends
      cases hends
    · rfl

namespace Tidy

theorem of_append {xs out : List Piece} (h : Tidy (xs ++ out)) : Tidy out := by
  induction xs with
  | nil => exact h
  | cons p xs ih =>
    cases h with
    | cons _ h => exact ih h

theorem dropCommaPiece {out : List Piece} (h : Tidy out) : Tidy (dropCommaPiece out) := by
  rcases dropCommaPiece_cases out with heq | ⟨idle, before, rfl, -, -, heq⟩
  · rwa [heq]
  · rw [List.append_cons] at h
    rw [heq]
    exact h.of_append

theorem keep {out : List Piece} (h : Tidy out) (p : Piece) : Tidy (keep out p) := by
  cases p with
  | code c =>
    rw [Decorated.keep]
    split
    · exact .cons (fun _ => dropCommaPiece_dropCommaPiece out) h.dropCommaPiece
    · rename_i hc
      exact .cons (fun hcloses => absurd (Piece.closes_code.mp hcloses) hc) h
  | _ => exact .cons (fun hcloses => by cases hcloses) h

end Tidy

theorem tidy_kept (text : List Char) : Tidy (kept text).reverse :=
  kept_induction (I := fun out _ => Tidy out) .nil (fun _ _ p h => h.keep p) text

/-- Where no comma can be dropped all pieces are kept. -/
theorem Tidy.foldl_keep {out : List Piece} (h : Tidy out) :
    out.reverse.foldl Decorated.keep [] = out := by
  induction h with
  | nil => rfl
  | @cons p out hp _ ih =>
    rw [List.reverse_cons, List.foldl_append, ih, List.foldl_cons, List.foldl_nil]
    cases p with
    | code c =>
      rw [Decorated.keep]
      split
      · rename_i hc
        rw [hp (Piece.closes_code.mpr hc)]
      · rfl
    | _ => rfl

theorem dropWhile_uncommented (out : List Piece) :
    (uncommented out).dropWhile Piece.isIdle = uncommented (out.dropWhile Piece.isIdle) := by
  induction out with
  | nil => rfl
  | cons p out ih =>
    cases p with
    | code c =>
      rw [uncommented_cons rfl, List.dropWhile_cons, List.dropWhile_cons, ih]
      split
      · rfl
      · exact (uncommented_cons rfl _).symm
    | quoted cs => rfl
    | line cs => rw [uncommented_cons_of_isComment rfl, ih, List.dropWhile_cons_of_pos rfl]
    | block cs => rw [uncommented_cons_of_isComment rfl, ih, List.dropWhile_cons_of_pos rfl]

theorem endsValuePiece_uncommented (before : List Piece) :
    endsValuePiece (uncommented before) = endsValuePiece before := by
  unfold endsValuePiece
  rw [dropWhile_uncommented]
  rcases dropWhile_isIdle_cases before with h | ⟨c, rest, h⟩ | ⟨cs, rest, h⟩
  · rw [h]
    rfl
  · rw [h, uncommented_cons rfl]
  · rw [h, uncommented_cons rfl]

theorem dropCommaPiece_uncommented (out : List Piece) :
    dropCommaPiece (uncommented out) = uncommented (dropCommaPiece out) := by
  unfold dropCommaPiece
  rw [dropWhile_uncommented]
  rcases dropWhile_isIdle_cases out with h | ⟨c, before, h⟩ | ⟨cs, before, h⟩
  · rw [h]
    rfl
  · rw [h, uncommented_cons rfl]
    by_cases hc : c = ','
    · subst hc
      simp only [endsValuePiece_uncommented]
      split <;> rfl
    · simp [hc]
  · rw [h, uncommented_cons rfl]

theorem Tidy.uncommented {out : List Piece} (h : Tidy out) : Tidy (uncommented out) := by
  induction h with
  | nil => exact .nil
  | @cons p out hp _ ih =>
    cases hc : p.isComment with
    | true => rwa [uncommented_cons_of_isComment hc]
    | false =>
      rw [uncommented_cons hc]
      exact .cons (fun hcloses => by rw [dropCommaPiece_uncommented, hp hcloses]) ih

theorem kept_plain (text : List Char) : kept (plain text) = pieces (plain text) := by
  have hreverse : (pieces (plain text)).reverse = uncommented (kept text).reverse := by
    rw [pieces_plain, uncommented, uncommented, List.filter_reverse]
  have htidy : Tidy (pieces (plain text)).reverse := hreverse ▸ (tidy_kept text).uncommented
  have hfold := htidy.foldl_keep
  rw [List.reverse_reverse] at hfold
  rw [kept, hfold, List.reverse_reverse]

/-- **Taking the decoration off twice** is taking it off once. What comes together when comments and commas
are taken out makes no new comment, no new literal and no new comma that could be dropped. -/
theorem plain_idempotent (text : List Char) :
    plain (plain text) = plain text ∧ (∀ p ∈ pieces (plain text), p.isComment = false) ∧
      (pieces (plain text)).Sublist (pieces text) ∧ kept (plain text) = pieces (plain text) := by
  refine ⟨?_, fun p => not_isComment_of_mem_pieces_plain, pieces_plain_sublist text, kept_plain text⟩
  have hcomments : uncommented (pieces (plain text)) = pieces (plain text) :=
    List.filter_eq_self.mpr fun p hp => by simp [not_isComment_of_mem_pieces_plain hp]
  calc plain (plain text)
      = spelled [] (kept (plain text)) := by rw [plain_eq_render, render_eq_spelled (by simp)]
    _ = (pieces (plain text)).flatMap Piece.text := by rw [kept_plain, spelled_eq_flatMap, hcomments]
    _ = plain text := text_pieces _

end GroovyWorkspace.Json.Decorated
