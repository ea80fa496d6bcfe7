import GroovyWorkspace.Proofs.Json.Written
import Mathlib.Tactic.SplitIfs

/-!
# The pieces of a decorated text

A decorated text is made of string literals, comments and single characters outside of both
(`text_pieces`). It is written without its decoration piece by piece (`plain_eq_render`). Which pieces are
kept does not depend on what is written for a block comment, as long as that is blank
(`render_eq_spelled`).
-/

namespace GroovyWorkspace.Json.Decorated

/-! ## Pieces -/

/-- A piece of a text, with the quotes around a literal and the marks around a comment. The line break
that ends a line comment is a piece of its own. -/
inductive Piece where
  | code (c : Char)
  | quoted (cs : List Char)
  | line (cs : List Char)
  | block (cs : List Char)
  deriving DecidableEq, Repr

namespace Piece

def text : Piece → List Char
  | code c => [c]
  | quoted cs => cs
  | line cs => cs
  | block cs => cs

/-- What is written of a piece, with `blank` for a block comment. -/
def spelled (blank : List Char) : Piece → List Char
  | code c => [c]
  | quoted cs => cs
  | line _ => []
  | block _ => blank

/-- Whether a piece is a comment or blank. -/
def isIdle : Piece → Bool
  | code c => Text.isBlank c
  | quoted _ => false
  | line _ => true
  | block _ => true

/-- Whether a piece is complete: literals end in a quote of their own, and no quote stands outside of
them. -/
def Closed : Piece → Prop
  | code c => c ≠ '"'
  | quoted cs => ∃ body, IsBody body ∧ cs = (Token.literal body).text
  | line _ => True
  | block _ => True

end Piece

/-- A piece that starts at `c`, behind which the rest of the text is scanned. -/
def opened (piece : List Char → Piece) (c : Char) (s : List Char × List Piece) :
    List Char × List Piece := ([], piece (c :: s.1) :: s.2)

/-- The piece before goes on with `c`. -/
def extended (c : Char) (s : List Char × List Piece) : List Char × List Piece := (c :: s.1, s.2)

/-- The characters that go on with the piece in which the text starts, and the pieces behind it. -/
def scan : Mode → List Char → List Char × List Piece
  | _, [] => ([], [])
  | .code, c :: rest =>
    if c = '"' then opened .quoted c (scan .quoted rest)
    else if c = '/' ∧ rest.head? = some '/' then opened .line c (scan .line rest)
    else if c = '/' ∧ rest.head? = some '*' then opened .block c (scan .opener rest)
    else ([], .code c :: (scan .code rest).2)
  | .quoted, c :: rest =>
    extended c (scan (if c = '\\' then .escaped else if c = '"' then .code else .quoted) rest)
  | .escaped, c :: rest => extended c (scan .quoted rest)
  | .line, c :: rest =>
    if c = '\n' then ([], .code c :: (scan .code rest).2) else extended c (scan .line rest)
  | .opener, c :: rest => extended c (scan (.block false) rest)
  | .block star, c :: rest =>
    extended c (scan (if star ∧ c = '/' then .code else .block (c = '*')) rest)

def pieces (text : List Char) : List Piece := (scan .code text).2

theorem scan_code_fst (text : List Char) : (scan .code text).1 = [] := by
  cases text with
  | nil => rfl
  | cons c rest =>
    rw [scan]
    split_ifs <;> rfl

theorem text_scan (mode : Mode) (text : List Char) :
    (scan mode text).1 ++ (scan mode text).2.flatMap Piece.text = text := by
  induction text generalizing mode with
  | nil => cases mode <;> rfl
  | cons c rest ih =>
    have hcode := ih .code
    rw [scan_code_fst, List.nil_append] at hcode
    cases mode with
    | code =>
      rw [scan]
      split_ifs <;> simp [opened, Piece.text, ih, hcode]
    | line =>
      rw [scan]
      split_ifs <;> simp [extended, Piece.text, ih, hcode]
    | _ => simp [scan, extended, ih]

theorem text_pieces (text : List Char) : (pieces text).flatMap Piece.text = text := by
  have hscan := text_scan .code text
  rwa [scan_code_fst, List.nil_append] at hscan

/-- Pieces of which only the last may be a literal that is left open. -/
inductive ClosedButLast : List Piece → Prop
  | nil : ClosedButLast []
  | last (cs : List Char) : ClosedButLast [.quoted ('"' :: cs)]
  | cons {p : Piece} {ps : List Piece} (hp : p.Closed) (h : ClosedButLast ps) : ClosedButLast (p :: ps)

/-- A literal goes on up to its closing quote, or to the end of the text. -/
theorem scan_quoted_cases (text : List Char) :
    ((scan .quoted text).2 = [] ∨ ∃ body, IsBody body ∧ (scan .quoted text).1 = body ++ ['"']) ∧
      ((scan .escaped text).2 = [] ∨
        ∃ c body, IsBody body ∧ (scan .escaped text).1 = c :: (body ++ ['"'])) := by
  induction text with
  | nil => exact ⟨.inl rfl, .inl rfl⟩
  | cons c rest ih =>
    constructor
    · rw [scan]
      split_ifs with hslash hquote
      · subst hslash
        refine ih.2.imp_right ?_
        rintro ⟨d, body, hbody, hrest⟩
        exact ⟨'\\' :: d :: body, .escaped hbody, by rw [extended, hrest]; rfl⟩
      · subst hquote
        exact .inr ⟨[], .nil, by rw [extended, scan_code_fst]; rfl⟩
      · refine ih.1.imp_right ?_
        rintro ⟨body, hbody, hrest⟩
        exact ⟨c :: body, .plain hquote hslash hbody, by rw [extended, hrest]; rfl⟩
    · rw [scan]
      refine ih.1.imp_right ?_
      rintro ⟨body, hbody, hrest⟩
      exact ⟨c, body, hbody, by rw [extended, hrest]⟩

theorem closedButLast_scan (mode : Mode) (text : List Char) : ClosedButLast (scan mode text).2 := by
  induction text generalizing mode with
  | nil => cases mode <;> exact .nil
  | cons c rest ih =>
    cases mode with
    | code =>
      rw [scan]
      split_ifs with hquote
      · subst hquote
        rcases (scan_quoted_cases rest).1 with hend | ⟨body, hbody, hrest⟩
        · rw [opened, hend]
          exact .last _
        · refine .cons ⟨body, hbody, ?_⟩ (ih .quoted)
          rw [hrest]
          rfl
      · exact .cons trivial (ih .line)
      · exact .cons trivial (ih .opener)
      · exact .cons hquote (ih .code)
    | line =>
      rw [scan]
      split_ifs with hbreak
      · subst hbreak
        have hclosed : (Piece.code '\n').Closed := show '\n' ≠ '"' by decide
        exact .cons hclosed (ih .code)
      · exact ih .line
    | _ => exact ih _

theorem closedButLast_pieces (text : List Char) : ClosedButLast (pieces text) :=
  closedButLast_scan .code text

theorem ClosedButLast.closed {ps qs : List Piece} {p : Piece} (h : ClosedButLast (ps ++ p :: qs)) :
    ∀ q ∈ ps, q.Closed := by
  induction ps with
  | nil => simp
  | cons q ps ih =>
    rw [List.cons_append] at h
    generalize hrest : ps ++ p :: qs = rest at h ih
    cases h with
    | last _ => simp at hrest
    | cons hq h => exact List.forall_mem_cons.mpr ⟨hq, ih h⟩

theorem ClosedButLast.sublist {ps qs : List Piece} (h : ClosedButLast ps) (hsub : qs.Sublist ps) :
    ClosedButLast qs := by
  induction h generalizing qs with
  | nil =>
    rw [List.sublist_nil.mp hsub]
    exact .nil
  | last cs =>
    cases hsub with
    | cons _ hsub =>
      rw [List.sublist_nil.mp hsub]
      exact .nil
    | cons_cons _ hsub =>
      rw [List.sublist_nil.mp hsub]
      exact .last cs
  | cons hp _ ih =>
    cases hsub with
    | cons _ hsub => exact ih hsub
    | cons_cons _ hsub => exact .cons hp (ih hsub)

/-! ## Writing piece by piece -/

/-- Writes one piece to a text kept backwards. A block comment is written as `blank`. -/
def write (blank out : List Char) : Piece → List Char
  | .code c => emit out (.code, c)
  | .quoted cs => cs.reverse ++ out
  | .line _ => out
  | .block _ => blank.reverse ++ out

/-- The text without line comments and trailing commas, in which `blank` stands for each block comment. -/
def render (blank text : List Char) : List Char := ((pieces text).foldl (write blank) []).reverse

/-- What is written of the piece in which a text starts. -/
def begun : Mode → List Char → List Char
  | .quoted, cs => cs
  | .escaped, cs => cs
  | _, _ => []

theorem written_eq_foldl (mode : Mode) (out text : List Char) :
    written mode out text =
      (scan mode text).2.foldl (write []) ((begun mode (scan mode text).1).reverse ++ out) := by
  induction text generalizing mode out with
  | nil => cases mode <;> rfl
  | cons c rest ih =>
    cases mode with
    | code =>
      rw [written, taggedFrom, scan]
      split_ifs
      · simpa [written, emit, opened, write, begun] using ih .quoted (c :: out)
      · exact ih .line out
      · exact ih .opener out
      · simpa [written, write, begun] using ih .code (emit out (.code, c))
    | quoted =>
      rw [written, taggedFrom, scan]
      split_ifs
      · simpa [written, emit, extended, begun] using ih .escaped (c :: out)
      · simpa [written, emit, extended, begun, scan_code_fst] using ih .code (c :: out)
      · simpa [written, emit, extended, begun] using ih .quoted (c :: out)
    | escaped => simpa [written, taggedFrom, scan, emit, extended, begun] using ih .quoted (c :: out)
    | line =>
      rw [written, taggedFrom, scan]
      split_ifs
      · simpa [written, write, begun] using ih .code (emit out (.code, c))
      · exact ih .line out
    | opener => exact ih (.block false) out
    | block star =>
      rw [written, taggedFrom, scan]
      split_ifs
      · exact ih .code out
      · exact ih (.block _) out

/-- Comments are taken off a text by writing nothing for them. -/
theorem plain_eq_render (text : List Char) : plain text = render [] text := by
  rw [plain_eq, written_eq_foldl]
  rfl

/-! ## The pieces that are kept -/

/-- What is written of pieces. -/
def spelled (blank : List Char) (ps : List Piece) : List Char := ps.flatMap (Piece.spelled blank)

/-- What is written of pieces kept backwards, also backwards. -/
def spelledBack (blank : List Char) (out : List Piece) : List Char :=
  out.flatMap fun p => (p.spelled blank).reverse

/-- Whether a comma behind pieces kept backwards may be dropped. -/
def endsValuePiece (before : List Piece) : Bool :=
  match before.dropWhile Piece.isIdle with
  | .code c :: _ => !(c = '[' || c = '{' || c = ',')
  | _ => true

/-- Drops the comma at the end of pieces kept backwards, with all that is idle behind it, if it is a
trailing one. -/
def dropCommaPiece (out : List Piece) : List Piece :=
  match out.dropWhile Piece.isIdle with
  | .code ',' :: before => if endsValuePiece before then before else out
  | _ => out

/-- Adds one piece to pieces kept backwards. -/
def keep (out : List Piece) : Piece → List Piece
  | .code c => if c = '}' ∨ c = ']' then .code c :: dropCommaPiece out else .code c :: out
  | p => p :: out

/-- The pieces of a text without its trailing commas. -/
def kept (text : List Char) : List Piece := ((pieces text).foldl keep []).reverse

theorem spelled_cons (blank : List Char) (p : Piece) (ps : List Piece) :
    spelled blank (p :: ps) = p.spelled blank ++ spelled blank ps := List.flatMap_cons

theorem spelled_append (blank : List Char) (ps qs : List Piece) :
    spelled blank (ps ++ qs) = spelled blank ps ++ spelled blank qs := List.flatMap_append

theorem spelled_concat (blank : List Char) (ps : List Piece) (p : Piece) :
    spelled blank (ps ++ [p]) = spelled blank ps ++ p.spelled blank := by
  rw [spelled_append, spelled, spelled, List.flatMap_singleton]

theorem reverse_spelledBack (blank : List Char) (out : List Piece) :
    (spelledBack blank out).reverse = spelled blank out.reverse := by
  rw [spelledBack, spelled, List.reverse_flatMap]
  simp [Function.comp_def]

theorem spelledBack_cons (blank : List Char) (p : Piece) (out : List Piece) :
    spelledBack blank (p :: out) = (p.spelled blank).reverse ++ spelledBack blank out :=
  List.flatMap_cons

theorem spelledBack_quoted {cs : List Char} (h : (Piece.quoted cs).Closed) (blank : List Char)
    (out : List Piece) : ∃ rest, spelledBack blank (.quoted cs :: out) = '"' :: rest := by
  obtain ⟨body, -, rfl⟩ := h
  refine ⟨('"' :: body).reverse ++ spelledBack blank out, ?_⟩
  rw [spelledBack_cons, Piece.spelled, Token.text, ← List.cons_append, List.reverse_concat,
    List.cons_append]

theorem dropWhile_isIdle_cases (out : List Piece) :
    out.dropWhile Piece.isIdle = [] ∨
      (∃ c before, out.dropWhile Piece.isIdle = .code c :: before) ∨
      ∃ cs before, out.dropWhile Piece.isIdle = .quoted cs :: before := by
  induction out with
  | nil => exact .inl rfl
  | cons p out ih =>
    cases p with
    | code c =>
      rw [List.dropWhile_cons]
      split
      · exact ih
      · exact .inr (.inl ⟨c, out, rfl⟩)
    | quoted cs => exact .inr (.inr ⟨cs, out, rfl⟩)
    | line cs => exact ih
    | block cs => exact ih

section Blank

variable {blank : List Char} (hblank : ∀ c ∈ blank, Text.isBlank c = true)
include hblank

theorem dropWhile_spelledBack {out : List Piece} (hout : ∀ p ∈ out, p.Closed) :
    (spelledBack blank out).dropWhile Text.isBlank = spelledBack blank (out.dropWhile Piece.isIdle) := by
  induction out with
  | nil => rfl
  | cons p out ih =>
    rw [List.forall_mem_cons] at hout
    cases p with
    | code c =>
      rw [spelledBack_cons, Piece.spelled, List.reverse_singleton, List.singleton_append,
        List.dropWhile_cons, List.dropWhile_cons, Piece.isIdle, ih hout.2]
      split <;> rfl
    | quoted cs =>
      obtain ⟨rest, hrest⟩ := spelledBack_quoted hout.1 blank out
      rw [List.dropWhile_cons_of_neg Bool.false_ne_true, hrest, List.dropWhile_cons_of_neg (by decide)]
    | line cs => exact ih hout.2
    | block cs =>
      rw [spelledBack_cons, Piece.spelled, List.dropWhile_append_of_pos (by simpa using hblank),
        List.dropWhile_cons_of_pos rfl, ih hout.2]

theorem endsValue_spelledBack {before : List Piece} (hbefore : ∀ p ∈ before, p.Closed) :
    endsValue (spelledBack blank before) = endsValuePiece before := by
  have hmem : ∀ p ∈ before.dropWhile Piece.isIdle, p.Closed := fun p hp =>
    hbefore p ((List.dropWhile_sublist _).subset hp)
  rw [endsValue, endsValuePiece, dropWhile_spelledBack hblank hbefore]
  rcases dropWhile_isIdle_cases before with h | ⟨c, rest, h⟩ | ⟨cs, rest, h⟩
  · rw [h]
    rfl
  · rw [h]
    rfl
  · rw [h] at hmem ⊢
    obtain ⟨more, hmore⟩ := spelledBack_quoted (hmem _ List.mem_cons_self) blank rest
    rw [hmore]
    rfl

theorem dropComma_spelledBack {out : List Piece} (hout : ∀ p ∈ out, p.Closed) :
    dropComma (spelledBack blank out) = spelledBack blank (dropCommaPiece out) := by
  have hmem : ∀ p ∈ out.dropWhile Piece.isIdle, p.Closed := fun p hp =>
    hout p ((List.dropWhile_sublist _).subset hp)
  rw [dropComma, dropCommaPiece, dropWhile_spelledBack hblank hout]
  rcases dropWhile_isIdle_cases out with h | ⟨c, before, h⟩ | ⟨cs, rest, h⟩
  · rw [h]
    rfl
  · rw [h] at hmem ⊢
    rw [spelledBack_cons]
    by_cases hc : c = ','
    · subst hc
      have hends := endsValue_spelledBack hblank fun p hp => hmem p (List.mem_cons_of_mem _ hp)
      simp only [Piece.spelled, List.reverse_singleton, List.singleton_append, hends]
      split <;> rfl
    · simp [Piece.spelled, hc]
  · rw [h] at hmem ⊢
    obtain ⟨more, hmore⟩ := spelledBack_quoted (hmem _ List.mem_cons_self) blank rest
    rw [hmore]
    rfl

end Blank

theorem dropCommaPiece_cases (out : List Piece) :
    dropCommaPiece out = out ∨ ∃ idle before, out = idle ++ .code ',' :: before ∧
      (∀ p ∈ idle, p.isIdle = true) ∧ endsValuePiece before = true ∧ dropCommaPiece out = before := by
  unfold dropCommaPiece
  split
  · rename_i before hcomma
    split
    · rename_i hends
      refine .inr ⟨out.takeWhile Piece.isIdle, before, ?_, ?_, hends, rfl⟩
      · rw [← hcomma, List.takeWhile_append_dropWhile]
      · intro p hp
        exact List.all_eq_true.mp (List.all_takeWhile) p hp
    · exact .inl rfl
  · exact .inl rfl

theorem keep_sublist (out : List Piece) (p : Piece) : (keep out p).Sublist (p :: out) := by
  cases p with
  | code c =>
    rw [keep]
    split
    · refine List.Sublist.cons_cons _ ?_
      rcases dropCommaPiece_cases out with h | ⟨idle, before, hout, -, -, h⟩
      · exact h.symm ▸ .refl out
      · rw [h, hout]
        exact (List.sublist_cons_self _ _).trans (List.sublist_append_right _ _)
    · exact .refl _
  | _ => exact .refl _

/-- What holds of no pieces and goes on to hold as each one is added holds of those that are kept of a
text and of all its pieces. -/
theorem kept_induction {I : List Piece → List Piece → Prop} (hnil : I [] [])
    (hkeep : ∀ out ps p, I out ps → I (keep out p) (p :: ps)) (text : List Char) :
    I (kept text).reverse (pieces text).reverse := by
  have hfold : ∀ ps out seen : List Piece, I out seen → I (ps.foldl keep out) (ps.reverse ++ seen) := by
    intro ps
    induction ps with
    | nil => exact fun _ _ h => h
    | cons p ps ih =>
      intro out seen h
      rw [List.reverse_cons, List.append_assoc]
      exact ih _ _ (hkeep out seen p h)
  rw [kept, List.reverse_reverse]
  simpa using hfold (pieces text) [] [] hnil

theorem kept_sublist (text : List Char) : (kept text).Sublist (pieces text) := by
  rw [← List.reverse_sublist]
  exact kept_induction (.refl _) (fun out _ p h => (keep_sublist out p).trans (h.cons_cons p)) text

theorem closedButLast_kept (text : List Char) : ClosedButLast (kept text) :=
  (closedButLast_pieces text).sublist (kept_sublist text)

theorem write_spelledBack {blank : List Char} (hblank : ∀ c ∈ blank, Text.isBlank c = true)
    {out : List Piece} (hout : ∀ p ∈ out, p.Closed) (p : Piece) :
    write blank (spelledBack blank out) p = spelledBack blank (keep out p) := by
  cases p with
  | code c =>
    rw [write, emit, keep]
    split
    · rw [dropComma_spelledBack hblank hout]
      rfl
    · rfl
  | _ => rfl

/-- **Writing and keeping.** Whatever blank text stands for block comments, the text that is written
spells the same pieces. -/
theorem render_eq_spelled {blank : List Char} (hblank : ∀ c ∈ blank, Text.isBlank c = true)
    (text : List Char) : render blank text = spelled blank (kept text) := by
  have hfold : ∀ ps out : List Piece, ClosedButLast ps → (∀ p ∈ out, p.Closed) →
      ps.foldl (write blank) (spelledBack blank out) = spelledBack blank (ps.foldl keep out) := by
    intro ps out hps
    induction hps generalizing out with
    | nil => exact fun _ => rfl
    | last cs => exact fun hout => write_spelledBack hblank hout (.quoted ('"' :: cs))
    | @cons p ps hp _ ih =>
      intro hout
      rw [List.foldl_cons, List.foldl_cons, write_spelledBack hblank hout]
      refine ih _ fun q hq => ?_
      rcases List.mem_cons.mp ((keep_sublist out p).subset hq) with rfl | hq
      · exact hp
      · exact hout q hq
  rw [render, kept, ← reverse_spelledBack, ← hfold _ _ (closedButLast_pieces text) (by simp)]
  rfl

end GroovyWorkspace.Json.Decorated
