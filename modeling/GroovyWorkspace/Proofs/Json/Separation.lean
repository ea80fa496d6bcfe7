import GroovyWorkspace.Proofs.Json.Decoration
import GroovyWorkspace.Proofs.Json.Piece
import Mathlib.Data.List.Infix

/-!
# Comments between words

White space parts words and numerals, and block comments are taken for white space by those who write
them. They do not part what stands around them once they are taken off: where a block comment has bare
characters on both sides, these become one word. Such a seam is the only way in which taking comments
off differs from leaving a space for each of them (`parse_separated_eq_ok_iff`).
-/

namespace GroovyWorkspace.Json

open Decorated

/-! ## Tokens, one character at a time -/

/-- How the tokens of a text change when `c` is put in front. The proposition `ends` says that a word
that ends in `c` ends there. -/
inductive Extends (c : Char) (ends : Prop) : List Token → List Token → Prop
  | space {ts : List Token} (hc : isSpace c = true) : Extends c ends ts ts
  | mark {ts : List Token} (hc : isMark c = true) : Extends c ends ts (.mark c :: ts)
  | word {ts : List Token} (hc : isBare c = true) (h : ends) : Extends c ends ts (.bare [c] :: ts)
  | more {w : List Char} {ts : List Token} (hc : isBare c = true) (h : ¬ ends) :
    Extends c ends (.bare w :: ts) (.bare (c :: w) :: ts)

theorem Extends.imp {c : Char} {ends ends' : Prop} {ts ts' : List Token}
    (hends : isBare c = true → (ends ↔ ends')) (h : Extends c ends ts ts') : Extends c ends' ts ts' := by
  cases h with
  | space hc => exact .space hc
  | mark hc => exact .mark hc
  | word hc h => exact .word hc ((hends hc).mp h)
  | more hc h => exact .more hc (mt (hends hc).mpr h)

/-- A bare character is a word of its own or starts the word behind it. -/
theorem Extends.of_isBare {c : Char} {ends : Prop} {more ts : List Token} (h : Extends c ends more ts)
    (hc : isBare c = true) :
    ends ∧ ts = .bare [c] :: more ∨
      ¬ ends ∧ ∃ w rest, more = .bare w :: rest ∧ ts = .bare (c :: w) :: rest := by
  cases h with
  | space hspace =>
    rw [not_isBare_of_isSpace hspace] at hc
    cases hc
  | mark hmark =>
    rw [not_isBare_of_isMark hmark] at hc
    cases hc
  | word _ h => exact .inl ⟨h, rfl⟩
  | more _ h => exact .inr ⟨h, _, _, rfl, rfl⟩

/-- Tokens that follow each other as they may do so without the first character. -/
theorem Extends.isChain {c : Char} {ends : Prop} {more ts : List Token} (h : Extends c ends more ts)
    (hchain : ts.IsChain Follows) : more.IsChain Follows := by
  cases h with
  | space _ => exact hchain
  | mark _ => exact (List.isChain_cons.mp hchain).2
  | word _ _ => exact (List.isChain_cons.mp hchain).2
  | more _ _ =>
    rw [List.isChain_cons] at hchain ⊢
    exact ⟨fun tok htok => ⟨fun hbare => (hchain.1 tok htok).1 ⟨trivial, hbare.2⟩, by simp⟩, hchain.2⟩

theorem boundary_cons {c : Char} {rest : List Char} : Boundary (c :: rest) ↔ isBare c = false := by
  simp [Boundary]

theorem Lexes.exists_extends {c : Char} {rest : List Char} {ts : List Token} (hc : c ≠ '"')
    (h : Lexes (c :: rest) ts) : ∃ more, Extends c (Boundary rest) more ts ∧ Lexes rest more := by
  rcases h.cases_text with ⟨heq, -⟩ | ⟨d, tail, heq, hd, htail⟩ |
    ⟨tok, tail, more, heq, rfl, hp, hb, htail⟩
  · cases heq
  · obtain ⟨rfl, rfl⟩ := List.cons.inj heq
    exact ⟨ts, .space hd, htail⟩
  · obtain ⟨d, ds, hds, -, hkind⟩ := hp.exists_head
    have hcons : c :: rest = d :: (ds ++ tail) := by rw [heq, hds, List.cons_append]
    obtain ⟨rfl, rfl⟩ := List.cons.inj hcons
    rcases hkind with ⟨hmark, rfl⟩ | ⟨hquote, -⟩ | ⟨hbare, w, rfl⟩
    · obtain rfl := (List.cons.inj hds).2
      exact ⟨more, .mark hmark, htail⟩
    · exact absurd hquote hc
    · replace hds : w = c :: ds := hds
      subst hds
      cases ds with
      | nil => exact ⟨more, .word hbare (hb trivial), htail⟩
      | cons e es =>
        have hes : ∀ x ∈ e :: es, isBare x = true := fun x hx => hp.2 x (List.mem_cons_of_mem _ hx)
        have hgoes : ¬ Boundary (e :: es ++ tail) := by
          rw [List.cons_append, boundary_cons, hes e List.mem_cons_self]
          decide
        have hproper : (Token.bare (e :: es)).Proper := ⟨List.cons_ne_nil _ _, hes⟩
        exact ⟨.bare (e :: es) :: more, .more hbare hgoes, .token hproper hb htail⟩

theorem Extends.lexes {c : Char} {rest : List Char} {ts more : List Token}
    (h : Extends c (Boundary rest) more ts) (hrest : Lexes rest more) : Lexes (c :: rest) ts := by
  cases h with
  | space hc => exact .space hc hrest
  | mark hc =>
    have hp : (Token.mark c).Proper := hc
    exact .token hp False.elim hrest
  | word hc hends =>
    have hp : (Token.bare [c]).Proper := ⟨List.cons_ne_nil _ _, by simpa using hc⟩
    exact .token hp (fun _ => hends) hrest
  | @more w ts hc hgoes =>
    rcases hrest.cases_text with ⟨-, hts⟩ | ⟨d, tail, rfl, hd, -⟩ |
      ⟨tok, tail, _, rfl, hts, hp, hb, htail⟩
    · cases hts
    · exact absurd (boundary_cons.mpr (not_isBare_of_isSpace hd)) hgoes
    · obtain ⟨rfl, rfl⟩ := List.cons.inj hts
      have hproper : (Token.bare (c :: w)).Proper :=
        ⟨List.cons_ne_nil _ _, List.forall_mem_cons.mpr ⟨hc, hp.2⟩⟩
      exact .token hproper hb htail

/-- Outside of literals, tokens are made of one character after the other. -/
theorem lexes_cons_iff {c : Char} {rest : List Char} {ts : List Token} (hc : c ≠ '"') :
    Lexes (c :: rest) ts ↔ ∃ more, Extends c (Boundary rest) more ts ∧ Lexes rest more :=
  ⟨Lexes.exists_extends hc, fun ⟨_, h, hrest⟩ => h.lexes hrest⟩

theorem lexes_space_iff {rest : List Char} {ts : List Token} :
    Lexes (' ' :: rest) ts ↔ Lexes rest ts := by
  have hskip : skipSpace (' ' :: rest) = skipSpace rest := rfl
  constructor
  · intro h
    rwa [← Lexes.skipSpace_iff, hskip, Lexes.skipSpace_iff] at h
  · exact .space rfl

theorem lexes_literal_iff {body rest : List Char} {ts : List Token} (hbody : IsBody body) :
    Lexes ((Token.literal body).text ++ rest) ts ↔
      ∃ more, ts = .literal body :: more ∧ Lexes rest more := by
  have hp : (Token.literal body).Proper := hbody
  constructor
  · intro h
    obtain ⟨tok, tail, more, heq, rfl, hp', hb, htail⟩ :
        ∃ tok tail more, (Token.literal body).text ++ rest = tok.text ++ tail ∧ ts = tok :: more ∧
          tok.Proper ∧ (tok.IsBare → Boundary tail) ∧ Lexes tail more := by
      rcases h.cases_text with ⟨heq, -⟩ | ⟨d, tail, heq, hd, -⟩ | htoken
      · cases heq
      · obtain ⟨rfl, -⟩ := List.cons.inj heq
        cases hd
      · exact htoken
    obtain ⟨rfl, rfl⟩ := hp.append_inj hp' False.elim hb heq
    exact ⟨more, rfl, htail⟩
  · rintro ⟨more, rfl, h⟩
    exact .token hp False.elim h

/-! ## Seams -/

namespace Decorated

def Piece.isComment : Piece → Bool
  | line _ => true
  | block _ => true
  | _ => false

/-- Two bare characters with comments between them, at least one of which is a block comment. -/
def IsSeam (w : List Piece) : Prop :=
  ∃ a comments b, w = .code a :: (comments ++ [.code b]) ∧ isBare a = true ∧ isBare b = true ∧
    (∀ p ∈ comments, p.isComment = true) ∧ ∃ cs, .block cs ∈ comments

/-- Whether there is a seam among the pieces of a text. -/
def HasSeam (ps : List Piece) : Prop := ∃ w, IsSeam w ∧ w <:+: ps

/-- The text without line comments and trailing commas, with a space for each block comment. -/
def separated (text : List Char) : List Char := render [' '] text

theorem hasSeam_cons {p : Piece} {ps : List Piece} :
    HasSeam (p :: ps) ↔ (∃ w, IsSeam w ∧ w <+: p :: ps) ∨ HasSeam ps := by
  simp only [HasSeam, List.infix_cons_iff, and_or_left, exists_or]

theorem IsSeam.mem {w : List Piece} (h : IsSeam w) {p : Piece} (hp : p ∈ w) :
    p.isComment = true ∨ ∃ c, p = .code c ∧ isBare c = true := by
  obtain ⟨a, comments, b, rfl, ha, hb, hcomments, -⟩ := h
  rw [List.mem_cons, List.mem_append, List.mem_singleton] at hp
  rcases hp with rfl | hp | rfl
  · exact .inr ⟨a, rfl, ha⟩
  · exact .inl (hcomments p hp)
  · exact .inr ⟨b, rfl, hb⟩

theorem not_hasSeam {ps : List Piece} (h : ∀ c, .code c ∈ ps → isBare c = false) : ¬ HasSeam ps := by
  rintro ⟨w, ⟨a, comments, b, rfl, ha, -⟩, hw⟩
  rw [h a (hw.subset List.mem_cons_self)] at ha
  cases ha

/-- What does not hold `p` stands before or behind it. -/
theorem infix_append_cons {α : Type} {w xs ys : List α} {p : α} (hp : p ∉ w) :
    w <:+: xs ++ p :: ys ↔ w <:+: xs ∨ w <:+: ys := by
  constructor
  · rintro ⟨before, behind, h⟩
    rcases List.append_eq_append_iff.mp h with ⟨more, rfl, -⟩ | ⟨cut, hcut, hrest⟩
    · exact .inl ⟨before, more, rfl⟩
    cases cut with
    | nil =>
      rw [List.append_nil] at hcut
      exact .inl ⟨before, [], by rw [List.append_nil, hcut]⟩
    | cons q cut =>
      obtain ⟨rfl, rfl⟩ := List.cons.inj hrest
      rcases List.append_eq_append_iff.mp hcut with ⟨front, -, rfl⟩ | ⟨front, -, hfront⟩
      · exact absurd (List.mem_append_right _ List.mem_cons_self) hp
      · cases front with
        | nil =>
          rw [List.nil_append] at hfront
          exact absurd (hfront ▸ List.mem_cons_self) hp
        | cons r front =>
          obtain ⟨rfl, rfl⟩ := List.cons.inj hfront
          exact .inr ⟨front, behind, rfl⟩
  · rintro (h | h)
    · exact h.trans (List.prefix_append xs _).isInfix
    · exact h.trans ((List.suffix_cons p ys).trans (List.suffix_append xs _)).isInfix

/-- No seam goes over a piece that is neither a comment nor bare. -/
theorem hasSeam_append_cons {xs ys : List Piece} {p : Piece} (hcomment : p.isComment = false)
    (hbare : ∀ c, p = .code c → isBare c = false) :
    HasSeam (xs ++ p :: ys) ↔ HasSeam xs ∨ HasSeam ys := by
  have hnot : ∀ w, IsSeam w → p ∉ w := by
    intro w hw hmem
    rcases hw.mem hmem with h | ⟨c, hc, h⟩
    · rw [hcomment] at h
      cases h
    · rw [hbare c hc] at h
      cases h
  simp only [HasSeam, ← exists_or, ← and_or_left]
  exact exists_congr fun w => and_congr_right fun hw => infix_append_cons (hnot w hw)

/-- Dropping a comma before a closing bracket neither opens nor closes a seam. -/
theorem hasSeam_keep (out : List Piece) (p : Piece) (rest : List Piece) :
    HasSeam ((keep out p).reverse ++ rest) ↔ HasSeam (out.reverse ++ p :: rest) := by
  have hcons : (p :: out).reverse ++ rest = out.reverse ++ p :: rest := by
    rw [List.reverse_cons, List.append_assoc, List.singleton_append]
  cases p with
  | code c =>
    rw [keep]
    split
    · rename_i hclose
      have hbare : ∀ d, Piece.code c = .code d → isBare d = false := by
        rintro d ⟨⟩
        rcases hclose with rfl | rfl <;> decide
      have hcomma : ∀ d, Piece.code ',' = .code d → isBare d = false := by
        rintro d ⟨⟩
        decide
      rcases dropCommaPiece_cases out with h | ⟨idle, before, rfl, hidle, -, h⟩
      · rw [h, hcons]
      · have hquiet : ¬ HasSeam idle.reverse := by
          refine not_hasSeam fun d hd => ?_
          have hblank := hidle _ (List.mem_reverse.mp hd)
          by_contra hd'
          rw [Piece.isIdle, not_isBlank_of_isBare (by simpa using hd')] at hblank
          cases hblank
        rw [h, List.reverse_cons, List.append_assoc, List.singleton_append, List.reverse_append,
          List.reverse_cons, List.append_assoc, List.append_assoc, List.singleton_append,
          hasSeam_append_cons rfl hbare, hasSeam_append_cons rfl hcomma, hasSeam_append_cons rfl hbare]
        simp only [hquiet, false_or]
    · rw [hcons]
  | _ => exact iff_of_eq (congrArg HasSeam hcons)

theorem hasSeam_kept (text : List Char) : HasSeam (kept text) ↔ HasSeam (pieces text) := by
  have hstep : ∀ (out ps : List Piece) (p : Piece),
      (∀ rest, HasSeam (out.reverse ++ rest) ↔ HasSeam (ps.reverse ++ rest)) →
      ∀ rest, HasSeam ((keep out p).reverse ++ rest) ↔ HasSeam ((p :: ps).reverse ++ rest) := by
    intro out ps p h rest
    rw [hasSeam_keep, h, List.reverse_cons, List.append_assoc, List.singleton_append]
  simpa using kept_induction (fun _ => Iff.rfl) hstep text []

/-! ## Words that meet -/

/-- A space for each block comment ends a word, and else words end as they do without. -/
theorem boundary_separated {ps : List Piece} (h : ClosedButLast ps) :
    Boundary (spelled [' '] ps) ↔
      (∃ cs, .block cs ∈ ps.takeWhile Piece.isComment) ∨ Boundary (spelled [] ps) := by
  induction h with
  | nil => simp [spelled]
  | last cs => simp [spelled, Piece.spelled, List.takeWhile, Piece.isComment]
  | @cons p ps hp _ ih =>
    cases p with
    | code c => simp [spelled_cons, Piece.spelled, boundary_cons, List.takeWhile, Piece.isComment]
    | quoted cs =>
      obtain ⟨body, -, rfl⟩ := hp
      simp [spelled_cons, Piece.spelled, Token.text, boundary_cons, List.takeWhile, Piece.isComment]
    | line cs =>
      rw [List.takeWhile_cons_of_pos rfl]
      simpa [spelled_cons, Piece.spelled] using ih
    | block cs =>
      have hspace : isBare ' ' = false := by decide
      simp [spelled_cons, Piece.spelled, boundary_cons, List.takeWhile, Piece.isComment, hspace]

/-- A word goes on behind comments only if a bare character follows them. -/
theorem exists_of_not_boundary {ps : List Piece} (h : ClosedButLast ps)
    (hgoes : ¬ Boundary (spelled [] ps)) :
    ∃ b rest, ps = ps.takeWhile Piece.isComment ++ .code b :: rest ∧ isBare b = true := by
  induction h with
  | nil => exact absurd (by simp [spelled, Boundary]) hgoes
  | last cs => exact absurd (by simp [spelled, Piece.spelled, boundary_cons]; decide) hgoes
  | @cons p ps hp _ ih =>
    cases p with
    | code c => exact ⟨c, ps, rfl, by simpa [spelled_cons, Piece.spelled, boundary_cons] using hgoes⟩
    | quoted cs =>
      obtain ⟨body, -, rfl⟩ := hp
      exact absurd (boundary_cons.mpr (by decide)) hgoes
    | line cs =>
      obtain ⟨b, rest, hps, hb⟩ := ih hgoes
      refine ⟨b, rest, ?_, hb⟩
      rw [List.takeWhile_cons_of_pos rfl, List.cons_append, ← hps]
    | block cs =>
      obtain ⟨b, rest, hps, hb⟩ := ih hgoes
      refine ⟨b, rest, ?_, hb⟩
      rw [List.takeWhile_cons_of_pos rfl, List.cons_append, ← hps]

/-- Behind a bare character that starts no seam, a word ends with spaces as it does without. -/
theorem boundary_iff_of_not_hasSeam {c : Char} {ps : List Piece} (h : ClosedButLast ps)
    (hc : isBare c = true) (hseam : ¬ HasSeam (.code c :: ps)) :
    Boundary (spelled [] ps) ↔ Boundary (spelled [' '] ps) := by
  rw [boundary_separated h, or_iff_right_of_imp]
  intro hblock
  by_contra hgoes
  obtain ⟨b, rest, hps, hb⟩ := exists_of_not_boundary h hgoes
  have hcomments : ∀ p ∈ ps.takeWhile Piece.isComment, p.isComment = true :=
    List.all_eq_true.mp List.all_takeWhile
  refine hseam (hasSeam_cons.mpr (.inl ⟨_, ⟨c, _, b, rfl, hc, hb, hcomments, hblock⟩, ?_⟩))
  refine List.cons_prefix_cons.mpr ⟨rfl, rest, ?_⟩
  rw [List.append_assoc, List.singleton_append, ← hps]

/-- Without a seam, spaces for block comments change no token. -/
theorem lexes_spelled_iff {ps : List Piece} (h : ClosedButLast ps) (hseam : ¬ HasSeam ps)
    (ts : List Token) : Lexes (spelled [] ps) ts ↔ Lexes (spelled [' '] ps) ts := by
  induction h generalizing ts with
  | nil => rfl
  | last cs => rfl
  | @cons p ps hp hps ih =>
    have ih := ih fun htail => hseam (hasSeam_cons.mpr (.inr htail))
    cases p with
    | code c =>
      have hends : isBare c = true → (Boundary (spelled [] ps) ↔ Boundary (spelled [' '] ps)) :=
        fun hc => boundary_iff_of_not_hasSeam hps hc hseam
      rw [spelled_cons, spelled_cons]
      refine (lexes_cons_iff hp).trans (Iff.trans (exists_congr fun more => ?_) (lexes_cons_iff hp).symm)
      exact and_congr ⟨.imp hends, .imp fun hc => (hends hc).symm⟩ (ih more)
    | quoted cs =>
      obtain ⟨body, hbody, rfl⟩ := hp
      rw [spelled_cons, spelled_cons, Piece.spelled, lexes_literal_iff hbody, Piece.spelled,
        lexes_literal_iff hbody]
      exact exists_congr fun more => and_congr_right fun _ => ih more
    | line cs => exact ih ts
    | block cs => exact (ih ts).trans lexes_space_iff.symm

/-- Comments that leave spaces have no tokens, and a bare character behind them starts a word. -/
theorem exists_bare_of_lexes {comments rest : List Piece} {b : Char} {ts : List Token}
    (hcomments : ∀ p ∈ comments, p.isComment = true) (hb : isBare b = true)
    (h : Lexes (spelled [' '] (comments ++ .code b :: rest)) ts) : ∃ w more, ts = .bare w :: more := by
  induction comments with
  | nil =>
    have hquote : b ≠ '"' := by
      rintro rfl
      cases hb
    obtain ⟨more, hext, -⟩ := (lexes_cons_iff hquote).mp h
    rcases hext.of_isBare hb with ⟨-, hts⟩ | ⟨-, w, rest, -, hts⟩
    · exact ⟨_, _, hts⟩
    · exact ⟨_, _, hts⟩
  | cons p comments ih =>
    rw [List.forall_mem_cons] at hcomments
    cases p with
    | line cs => exact ih hcomments.2 h
    | block cs => exact ih hcomments.2 (lexes_space_iff.mp h)
    | code c => cases hcomments.1
    | quoted cs => cases hcomments.1

/-- A seam that is kept apart by a space makes two words that meet. -/
theorem not_isChain_of_hasSeam {ps : List Piece} (h : ClosedButLast ps) (hseam : HasSeam ps)
    {ts : List Token} (hlexes : Lexes (spelled [' '] ps) ts) : ¬ ts.IsChain Follows := by
  induction h generalizing ts with
  | nil => exact absurd hseam (not_hasSeam (by simp))
  | last cs => exact absurd hseam (not_hasSeam (by simp))
  | @cons p ps hp hps ih =>
    rcases hasSeam_cons.mp hseam with ⟨w, ⟨a, comments, b, rfl, ha, hb, hcomments, hblock⟩, hw⟩ | htail
    · obtain ⟨rfl, rest, rfl⟩ := List.cons_prefix_cons.mp hw
      rw [List.append_assoc, List.singleton_append] at hps hlexes
      obtain ⟨more, hext, hmore⟩ := (lexes_cons_iff hp).mp hlexes
      have hends : Boundary (spelled [' '] (comments ++ .code b :: rest)) := by
        obtain ⟨cs, hcs⟩ := hblock
        refine (boundary_separated hps).mpr (.inl ⟨cs, ?_⟩)
        rw [List.takeWhile_append_of_pos hcomments]
        exact List.mem_append_left _ hcs
      obtain ⟨v, behind, rfl⟩ := exists_bare_of_lexes hcomments hb hmore
      rcases hext.of_isBare ha with ⟨-, rfl⟩ | ⟨hgoes, -⟩
      · exact fun hchain => ((List.isChain_cons.mp hchain).1 _ rfl).1 ⟨trivial, trivial⟩
      · exact absurd hends hgoes
    · cases p with
      | code c =>
        obtain ⟨more, hext, hmore⟩ := (lexes_cons_iff hp).mp hlexes
        exact fun hchain => ih htail hmore (hext.isChain hchain)
      | quoted cs =>
        obtain ⟨body, hbody, rfl⟩ := hp
        obtain ⟨more, rfl, hmore⟩ := (lexes_literal_iff hbody).mp hlexes
        exact fun hchain => ih htail hmore (List.isChain_cons.mp hchain).2
      | line cs => exact ih htail hlexes
      | block cs => exact ih htail (lexes_space_iff.mp hlexes)

end Decorated

/-- **Comments between words.** With a space for each block comment a text is read as a value exactly if
it is read as that value without its comments and no block comment stands between two bare
characters. -/
theorem parse_separated_eq_ok_iff (text : List Char) (v : Value) :
    parse (separated text) = .ok v ↔ parse (plain text) = .ok v ∧ ¬ HasSeam (pieces text) := by
  have hclosed : ClosedButLast (kept text) := (closedButLast_pieces text).sublist (kept_sublist text)
  have hblank : ∀ c ∈ [' '], Text.isBlank c = true := List.forall_mem_singleton.mpr (by decide)
  rw [parse_eq_ok_iff, parse_eq_ok_iff, separated, plain_eq_render, render_eq_spelled hblank,
    render_eq_spelled (by simp), ← hasSeam_kept]
  constructor
  · rintro ⟨toks, hlexes, hspells⟩
    have hseam : ¬ HasSeam (kept text) := fun h =>
      not_isChain_of_hasSeam hclosed h hlexes hspells.smooth.2.chain
    exact ⟨⟨toks, (lexes_spelled_iff hclosed hseam toks).mpr hlexes, hspells⟩, hseam⟩
  · rintro ⟨⟨toks, hlexes, hspells⟩, hseam⟩
    exact ⟨toks, (lexes_spelled_iff hclosed hseam toks).mp hlexes, hspells⟩

/-- Settings in which a block comment stands between two digits. -/
def partedDigits : List Char := "\x7b\"a\": 1/**/2\x7d".toList

/-- The digits are read as one numeral when the comment is taken off, and cannot be read when it leaves
a space. -/
theorem parse_separated_partedDigits :
    parse (plain partedDigits) = .ok (.object [("a", .int 12)]) ∧
      ∀ v, parse (separated partedDigits) ≠ .ok v := by
  have hseam : HasSeam (pieces partedDigits) := by
    refine ⟨[.code '1', .block ['/', '*', '*', '/'], .code '2'], ?_, by decide⟩
    exact ⟨'1', [.block ['/', '*', '*', '/']], '2', rfl, by decide, by decide, by decide, _,
      List.mem_singleton_self _⟩
  refine ⟨rfl, fun v hv => ?_⟩
  exact ((parse_separated_eq_ok_iff partedDigits v).mp hv).2 hseam

end GroovyWorkspace.Json
