import GroovyWorkspace.Proofs.Json.Piece
import GroovyWorkspace.Proofs.Json.Scalar
import Mathlib.Data.List.Chain

/-!
# Cutting a text into pieces

`Cuts` says without a scanner what the pieces of a text are: a literal goes up to its first quote outside
of an escape, a line comment up to the line break, a block comment up to the first mark that closes it, and
all else are single characters that open none of the three. A text is cut in exactly one way, and the
scanner finds it (`pieces_eq_iff`). Whether pieces are cut as they should be depends on neighbours only
(`cuts_iff`).
-/

namespace GroovyWorkspace.Json.Decorated

/-! ## Where a piece ends -/

/-- Characters behind a quote among which the literal does not end. A backslash may be the last one. -/
def StaysOpen (body : List Char) : Prop := IsBody body ∨ ∃ front, IsBody front ∧ body = front ++ ['\\']

/-- Whether a piece is cut where it ends, if `next` is the character behind it. A literal or a comment that
is left open goes on to the end of the text. -/
def Piece.EndsBefore (next : Option Char) : Piece → Prop
  | code c => c ≠ '"' ∧ (c = '/' → next ≠ some '/' ∧ next ≠ some '*')
  | quoted cs =>
    (∃ body, IsBody body ∧ cs = '"' :: (body ++ ['"'])) ∨
      next = none ∧ ∃ body, StaysOpen body ∧ cs = '"' :: body
  | line cs => (∃ body, '\n' ∉ body ∧ cs = '/' :: '/' :: body) ∧ (next = none ∨ next = some '\n')
  | block cs =>
    ∃ body, ¬ ['*', '/'] <:+: body ∧
      (cs = '/' :: '*' :: (body ++ ['*', '/']) ∨ next = none ∧ cs = '/' :: '*' :: body)

/-- A text is cut into pieces, each of which ends where it should. -/
inductive Cuts : List Char → List Piece → Prop
  | nil : Cuts [] []
  | cons {p : Piece} {rest : List Char} {ps : List Piece} (hp : p.EndsBefore rest.head?)
    (h : Cuts rest ps) : Cuts (p.text ++ rest) (p :: ps)

/-! ## The scanner finds the cuts -/

theorem scan_quoted_append {body : List Char} (h : IsBody body) (tail : List Char) :
    scan .quoted (body ++ tail) = (body ++ (scan .quoted tail).1, (scan .quoted tail).2) := by
  induction h with
  | nil => rfl
  | plain hquote hslash _ ih =>
    rw [List.cons_append, scan, if_neg hslash, if_neg hquote, ih]
    rfl
  | escaped _ ih =>
    rw [List.cons_append, List.cons_append, scan, if_pos rfl, scan, ih]
    rfl

theorem scan_quoted_of_staysOpen {body : List Char} (h : StaysOpen body) :
    scan .quoted body = (body, []) := by
  rcases h with h | ⟨front, h, rfl⟩
  · simpa [scan] using scan_quoted_append h []
  · simpa [scan, extended] using scan_quoted_append h ['\\']

theorem scan_line_append {body : List Char} (h : '\n' ∉ body) (tail : List Char) :
    scan .line (body ++ tail) = (body ++ (scan .line tail).1, (scan .line tail).2) := by
  induction body with
  | nil => rfl
  | cons c body ih =>
    rw [List.mem_cons, not_or] at h
    rw [List.cons_append, scan, if_neg (Ne.symm h.1), ih h.2]
    rfl

/-- One character on in a block comment that is not closed there. The asterisk right before the body, if
there is one, counts as part of it. -/
theorem not_closed_cons {star : Bool} {c : Char} {body : List Char}
    (h : ¬ ['*', '/'] <:+: (bif star then ['*'] else []) ++ c :: body) :
    ¬ (star = true ∧ c = '/') ∧
      ¬ ['*', '/'] <:+: (bif decide (c = '*') then ['*'] else []) ++ body := by
  constructor
  · rintro ⟨rfl, rfl⟩
    exact h (List.prefix_append ['*', '/'] body).isInfix
  · intro hbody
    refine h (hbody.trans (List.IsSuffix.isInfix ?_))
    by_cases hc : c = '*'
    · simp [hc]
    · simpa [hc] using (List.suffix_cons c body).trans (List.suffix_append _ _)

theorem scan_block_closed {star : Bool} {body : List Char}
    (h : ¬ ['*', '/'] <:+: (bif star then ['*'] else []) ++ body) (rest : List Char) :
    scan (.block star) (body ++ '*' :: '/' :: rest) = (body ++ ['*', '/'], pieces rest) := by
  induction body generalizing star with
  | nil => cases star <;> simp [scan, extended, scan_code_fst, pieces]
  | cons c body ih =>
    obtain ⟨hopen, hbody⟩ := not_closed_cons h
    rw [List.cons_append, scan, if_neg hopen, ih hbody]
    rfl

theorem scan_block_open {star : Bool} {body : List Char}
    (h : ¬ ['*', '/'] <:+: (bif star then ['*'] else []) ++ body) :
    scan (.block star) body = (body, []) := by
  induction body generalizing star with
  | nil => rfl
  | cons c body ih =>
    obtain ⟨hopen, hbody⟩ := not_closed_cons h
    rw [scan, if_neg hopen, ih hbody]
    rfl

theorem pieces_nil : pieces [] = [] := rfl

theorem pieces_code {c : Char} {rest : List Char} (h : (Piece.code c).EndsBefore rest.head?) :
    pieces (c :: rest) = .code c :: pieces rest := by
  unfold pieces
  rw [scan, if_neg h.1, if_neg fun hc => (h.2 hc.1).1 hc.2, if_neg fun hc => (h.2 hc.1).2 hc.2]

theorem pieces_append {p : Piece} {rest : List Char} (h : p.EndsBefore rest.head?) :
    pieces (p.text ++ rest) = p :: pieces rest := by
  cases p with
  | code c => exact pieces_code h
  | quoted cs =>
    have hopen : ∀ tail, pieces ('"' :: tail) = (opened .quoted '"' (scan .quoted tail)).2 := fun _ => rfl
    rcases h with ⟨body, hbody, rfl⟩ | ⟨hend, body, hbody, rfl⟩
    · rw [Piece.text, List.cons_append, hopen, List.append_assoc, scan_quoted_append hbody]
      simp [opened, scan, extended, scan_code_fst, pieces]
    · rw [List.head?_eq_none_iff] at hend
      rw [hend, Piece.text, List.append_nil, hopen, scan_quoted_of_staysOpen hbody]
      rfl
  | line cs =>
    have hopen : ∀ tail, pieces ('/' :: '/' :: tail) = (opened .line '/' (scan .line ('/' :: tail))).2 :=
      fun _ => rfl
    obtain ⟨⟨body, hbody, rfl⟩, hend⟩ := h
    have hslash : '\n' ∉ '/' :: body := by simpa using hbody
    rw [Piece.text, List.cons_append, List.cons_append, hopen, ← List.cons_append,
      scan_line_append hslash]
    rcases hend with hend | hend
    · rw [List.head?_eq_none_iff.mp hend]
      simp [opened, scan, pieces_nil]
    · obtain ⟨tail, rfl⟩ := List.head?_eq_some_iff.mp hend
      simp [opened, scan, pieces]
  | block cs =>
    have hopen : ∀ tail, pieces ('/' :: '*' :: tail) =
        (opened .block '/' (extended '*' (scan (.block false) tail))).2 := fun _ => rfl
    obtain ⟨body, hbody, rfl | ⟨hend, rfl⟩⟩ := h
    · rw [Piece.text, List.cons_append, List.cons_append, hopen, List.append_assoc]
      rw [show ['*', '/'] ++ rest = '*' :: '/' :: rest from rfl, scan_block_closed (by simpa using hbody)]
      rfl
    · rw [List.head?_eq_none_iff] at hend
      rw [hend, Piece.text, List.append_nil, hopen, scan_block_open (by simpa using hbody)]
      rfl

theorem Cuts.pieces_eq {text : List Char} {ps : List Piece} (h : Cuts text ps) : pieces text = ps := by
  induction h with
  | nil => rfl
  | cons hp _ ih => rw [pieces_append hp, ih]

/-! ## Every text can be cut -/

/-- Behind a quote a literal ends at some quote, or it stays open. -/
def HasEnd (text : List Char) : Prop :=
  (∃ body rest, IsBody body ∧ text = body ++ '"' :: rest) ∨ StaysOpen text

theorem HasEnd.append {front text : List Char} (hfront : IsBody front) (h : HasEnd text) :
    HasEnd (front ++ text) := by
  rcases h with ⟨body, rest, hbody, rfl⟩ | hbody | ⟨body, hbody, rfl⟩
  · exact .inl ⟨front ++ body, rest, hfront.append hbody, by rw [List.append_assoc]⟩
  · exact .inr (.inl (hfront.append hbody))
  · exact .inr (.inr ⟨front ++ body, hfront.append hbody, by rw [List.append_assoc]⟩)

theorem hasEnd (text : List Char) : HasEnd text := by
  match text with
  | [] => exact .inr (.inl .nil)
  | [c] =>
    by_cases hquote : c = '"'
    · exact .inl ⟨[], [], .nil, by rw [hquote]; rfl⟩
    by_cases hslash : c = '\\'
    · exact .inr (.inr ⟨[], .nil, by rw [hslash]; rfl⟩)
    · exact .inr (.inl (.plain hquote hslash .nil))
  | c :: d :: tail =>
    by_cases hquote : c = '"'
    · exact .inl ⟨[], d :: tail, .nil, by rw [hquote]; rfl⟩
    by_cases hslash : c = '\\'
    · rw [hslash]
      exact (hasEnd tail).append (.escaped (c := d) .nil)
    · exact (hasEnd (d :: tail)).append (.plain hquote hslash .nil)

theorem exists_closed_or_open (text : List Char) :
    (∃ body rest, ¬ ['*', '/'] <:+: body ∧ text = body ++ '*' :: '/' :: rest) ∨
      ¬ ['*', '/'] <:+: text := by
  induction text with
  | nil => exact .inr (by simp)
  | cons c text ih =>
    by_cases hclose : ['*', '/'] <+: c :: text
    · obtain ⟨rest, hrest⟩ := hclose
      exact .inl ⟨[], rest, by simp, hrest.symm⟩
    rcases ih with ⟨body, rest, hbody, rfl⟩ | hopen
    · refine .inl ⟨c :: body, rest, fun hinfix => ?_, rfl⟩
      rcases List.infix_cons_iff.mp hinfix with hfront | hinfix
      · exact hclose (hfront.trans (List.prefix_append (c :: body) _))
      · exact hbody hinfix
    · refine .inr fun hinfix => ?_
      rcases List.infix_cons_iff.mp hinfix with hfront | hinfix
      · exact hclose hfront
      · exact hopen hinfix

theorem exists_first (c : Char) (tail : List Char) :
    ∃ p rest, c :: tail = Piece.text p ++ rest ∧ p.EndsBefore rest.head? ∧
      rest.length < (c :: tail).length := by
  by_cases hquote : c = '"'
  · subst hquote
    rcases hasEnd tail with ⟨body, rest, hbody, rfl⟩ | hopen
    · exact ⟨.quoted ('"' :: (body ++ ['"'])), rest, by simp [Piece.text], .inl ⟨body, hbody, rfl⟩,
        by simp; omega⟩
    · exact ⟨.quoted ('"' :: tail), [], by simp [Piece.text], .inr ⟨rfl, tail, hopen, rfl⟩, by simp⟩
  by_cases hline : c = '/' ∧ tail.head? = some '/'
  · obtain ⟨rfl, hhead⟩ := hline
    obtain ⟨tail, rfl⟩ := List.head?_eq_some_iff.mp hhead
    by_cases hbreak : '\n' ∈ tail
    · obtain ⟨body, rest, rfl, hbody⟩ := List.eq_append_cons_of_mem hbreak
      exact ⟨.line ('/' :: '/' :: body), '\n' :: rest, by simp [Piece.text],
        ⟨⟨body, hbody, rfl⟩, .inr rfl⟩, by simp; omega⟩
    · exact ⟨.line ('/' :: '/' :: tail), [], by simp [Piece.text], ⟨⟨tail, hbreak, rfl⟩, .inl rfl⟩,
        by simp⟩
  by_cases hblock : c = '/' ∧ tail.head? = some '*'
  · obtain ⟨rfl, hhead⟩ := hblock
    obtain ⟨tail, rfl⟩ := List.head?_eq_some_iff.mp hhead
    rcases exists_closed_or_open tail with ⟨body, rest, hbody, rfl⟩ | hopen
    · exact ⟨.block ('/' :: '*' :: (body ++ ['*', '/'])), rest, by simp [Piece.text],
        ⟨body, hbody, .inl rfl⟩, by simp; omega⟩
    · exact ⟨.block ('/' :: '*' :: tail), [], by simp [Piece.text], ⟨tail, hopen, .inr ⟨rfl, rfl⟩⟩,
        by simp⟩
  · refine ⟨.code c, tail, rfl, ⟨hquote, fun hslash => ⟨?_, ?_⟩⟩, by simp⟩
    · exact fun hhead => hline ⟨hslash, hhead⟩
    · exact fun hhead => hblock ⟨hslash, hhead⟩

theorem exists_cuts (text : List Char) : ∃ ps, Cuts text ps := by
  match text with
  | [] => exact ⟨[], .nil⟩
  | c :: tail =>
    obtain ⟨p, rest, htext, hp, hless⟩ := exists_first c tail
    obtain ⟨ps, hps⟩ := exists_cuts rest
    exact ⟨p :: ps, htext ▸ .cons hp hps⟩
termination_by text.length
decreasing_by exact hless

/-- **The pieces of a text** are those that it is cut into. -/
theorem pieces_eq_iff {text : List Char} {ps : List Piece} : pieces text = ps ↔ Cuts text ps := by
  refine ⟨?_, Cuts.pieces_eq⟩
  rintro rfl
  obtain ⟨ps, hps⟩ := exists_cuts text
  rwa [hps.pieces_eq]

theorem cuts_pieces (text : List Char) : Cuts text (pieces text) := pieces_eq_iff.mp rfl

/-! ## Neighbours -/

namespace Piece

/-- Two pieces that may stand next to each other. -/
def Meets (p q : Piece) : Prop := p.EndsBefore q.text.head?

theorem EndsBefore.none {p : Piece} {next : Option Char} (h : p.EndsBefore next) :
    p.EndsBefore none := by
  cases p with
  | code c => exact ⟨h.1, fun _ => ⟨nofun, nofun⟩⟩
  | quoted cs => exact h.imp_right fun hopen => ⟨rfl, hopen.2⟩
  | line cs => exact ⟨h.1, .inl rfl⟩
  | block cs =>
    obtain ⟨body, hbody, hcs⟩ := h
    exact ⟨body, hbody, hcs.imp_right fun hopen => ⟨rfl, hopen.2⟩⟩

theorem EndsBefore.text_ne_nil {p : Piece} {next : Option Char} (h : p.EndsBefore next) :
    p.text ≠ [] := by
  cases p with
  | code c => exact List.cons_ne_nil _ _
  | quoted cs => rcases h with ⟨body, -, rfl⟩ | ⟨-, body, -, rfl⟩ <;> exact List.cons_ne_nil _ _
  | line cs =>
    obtain ⟨⟨body, -, rfl⟩, -⟩ := h
    exact List.cons_ne_nil _ _
  | block cs => obtain ⟨body, -, rfl | ⟨-, rfl⟩⟩ := h <;> exact List.cons_ne_nil _ _

end Piece

/-- Pieces are cut as they should be if each one ends before its neighbour. -/
theorem cuts_iff {text : List Char} {ps : List Piece} :
    Cuts text ps ↔ ps.flatMap Piece.text = text ∧ ps.IsChain Piece.Meets ∧ ∀ p ∈ ps, p.EndsBefore none := by
  have hhead : ∀ {p : Piece} {ps : List Piece}, p.text ≠ [] →
      ((p :: ps).flatMap Piece.text).head? = p.text.head? := by
    intro p ps hne
    rw [List.flatMap_cons, List.head?_append_of_ne_nil _ hne]
  constructor
  · intro h
    induction h with
    | nil => exact ⟨rfl, .nil, by simp⟩
    | @cons p rest ps hp _ ih =>
      obtain ⟨rfl, hchain, hends⟩ := ih
      refine ⟨List.flatMap_cons, hchain.cons fun q hq => ?_, List.forall_mem_cons.mpr ⟨hp.none, hends⟩⟩
      obtain ⟨qs, rfl⟩ := List.head?_eq_some_iff.mp hq
      rwa [hhead (hends q List.mem_cons_self).text_ne_nil] at hp
  · rintro ⟨rfl, hchain, hends⟩
    induction ps with
    | nil => exact .nil
    | cons p ps ih =>
      rw [List.forall_mem_cons] at hends
      rw [List.flatMap_cons]
      refine .cons ?_ (ih hchain.tail hends.2)
      cases ps with
      | nil => exact hends.1
      | cons q qs =>
        rw [hhead (hends.2 q List.mem_cons_self).text_ne_nil]
        exact (List.isChain_cons_cons.mp hchain).1

end GroovyWorkspace.Json.Decorated
