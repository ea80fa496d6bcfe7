import GroovyWorkspace.Proofs.Json.Separation
import Mathlib.Data.List.TakeWhile

/-!
# Trailing commas

A comma is dropped only before a closing bracket, and only if something stands between the two brackets.
If what is left of a text is a value, then the text differs from it by such commas alone
(`addsCommas_plain`). A comma where an element is missing is kept, or it is dropped behind a colon, and
what is left is no value (`not_hasEmptyElement`).
-/

namespace GroovyWorkspace.Json

open Decorated

/-! ## Tokens up to a mark -/

theorem Extends.of_isMark {c : Char} {ends : Prop} {more ts : List Token} (h : Extends c ends more ts)
    (hc : isMark c = true) : ts = .mark c :: more := by
  cases h with
  | space hspace =>
    rw [not_isMark_of_isSpace hspace] at hc
    cases hc
  | mark _ => rfl
  | word hbare _ =>
    rw [not_isBare_of_isMark hc] at hbare
    cases hbare
  | more hbare _ =>
    rw [not_isBare_of_isMark hc] at hbare
    cases hbare

theorem Extends.of_append {c m : Char} {ends : Prop} {ts us toks : List Token}
    (h : Extends c ends (ts ++ .mark m :: us) toks) :
    ∃ ts', toks = ts' ++ .mark m :: us ∧ Extends c ends ts ts' := by
  generalize hmore : ts ++ Token.mark m :: us = more at h
  cases h with
  | space hc => exact ⟨ts, hmore.symm, .space hc⟩
  | mark hc => exact ⟨.mark c :: ts, by rw [← hmore]; rfl, .mark hc⟩
  | word hc hends => exact ⟨.bare [c] :: ts, by rw [← hmore]; rfl, .word hc hends⟩
  | more hc hends =>
    cases ts with
    | nil => cases hmore
    | cons tok ts =>
      obtain ⟨rfl, rfl⟩ := List.cons.inj hmore
      exact ⟨_ :: ts, rfl, .more hc hends⟩

theorem boundary_append_mark {m : Char} (hm : isMark m = true) (cs rest : List Char) :
    Boundary (cs ++ m :: rest) ↔ Boundary cs := by
  cases cs with
  | nil => simp [Boundary, not_isBare_of_isMark hm]
  | cons c cs => rw [List.cons_append, boundary_cons, boundary_cons]

/-- Tokens never go over a mark that stands outside of literals. -/
theorem exists_split_of_lexes {xs ys : List Piece} {m : Char} {toks : List Token}
    (hxs : ∀ p ∈ xs, p.Closed) (hm : isMark m = true)
    (h : Lexes (spelled [] (xs ++ .code m :: ys)) toks) :
    ∃ ts us, toks = ts ++ .mark m :: us ∧ Lexes (spelled [] xs) ts ∧ Lexes (spelled [] ys) us := by
  induction xs generalizing toks with
  | nil =>
    have hquote : m ≠ '"' := by
      rintro rfl
      cases hm
    obtain ⟨us, hext, hus⟩ := (lexes_cons_iff hquote).mp h
    exact ⟨[], us, hext.of_isMark hm, .nil, hus⟩
  | cons p xs ih =>
    rw [List.forall_mem_cons] at hxs
    cases p with
    | code c =>
      obtain ⟨more, hext, hmore⟩ := (lexes_cons_iff hxs.1).mp h
      obtain ⟨ts, us, rfl, hts, hus⟩ := ih hxs.2 hmore
      obtain ⟨ts', rfl, hext'⟩ := hext.of_append
      have hends : Boundary (spelled [] (xs ++ .code m :: ys)) ↔ Boundary (spelled [] xs) := by
        rw [spelled_append]
        exact boundary_append_mark hm _ _
      exact ⟨ts', us, rfl, (lexes_cons_iff hxs.1).mpr ⟨ts, hext'.imp fun _ => hends, hts⟩, hus⟩
    | quoted cs =>
      obtain ⟨body, hbody, rfl⟩ := hxs.1
      obtain ⟨more, rfl, hmore⟩ := (lexes_literal_iff hbody).mp h
      obtain ⟨ts, us, rfl, hts, hus⟩ := ih hxs.2 hmore
      exact ⟨.literal body :: ts, us, rfl, (lexes_literal_iff hbody).mpr ⟨ts, rfl, hts⟩, hus⟩
    | line cs => exact ih hxs.2 h
    | block cs => exact ih hxs.2 h

theorem Lexes.eq_nil_of_isBlank {cs : List Char} {ts : List Token} (h : Lexes cs ts)
    (hblank : ∀ c ∈ cs, Text.isBlank c = true) : ts = [] := by
  induction h with
  | nil => rfl
  | space _ _ ih => exact ih (List.forall_mem_cons.mp hblank).2
  | @token tok rest ts hp _ _ _ =>
    have hlast := not_isBlank_of_getLast? hp (List.getLast?_eq_some_getLast hp.text_ne_nil)
    rw [hblank _ (List.mem_append_left _ (List.getLast_mem hp.text_ne_nil))] at hlast
    cases hlast

theorem Lexes.exists_last {cs : List Char} {ts : List Token} {tok : Token} (h : Lexes cs (ts ++ [tok])) :
    ∃ front blanks, cs = front ++ (tok.text ++ blanks) ∧ ∀ c ∈ blanks, isSpace c = true := by
  generalize htoks : ts ++ [tok] = toks at h
  induction h generalizing ts with
  | nil => simp at htoks
  | @space c _ _ _ _ ih =>
    obtain ⟨front, blanks, rfl, hblanks⟩ := ih htoks
    exact ⟨c :: front, blanks, rfl, hblanks⟩
  | @token first rest _ _ _ hrest ih =>
    cases ts with
    | nil =>
      obtain ⟨rfl, rfl⟩ := List.cons.inj htoks
      exact ⟨[], rest, rfl, List.dropWhile_eq_nil_iff.mp hrest.skipSpace_eq_nil⟩
    | cons tok' ts =>
      obtain ⟨rfl, hts⟩ := List.cons.inj htoks
      obtain ⟨front, blanks, rfl, hblanks⟩ := ih hts
      exact ⟨tok'.text ++ front, blanks, (List.append_assoc _ _ _).symm, hblanks⟩

theorem endsValue_of_opens {cs : List Char} {ts : List Token} {a : Char} (ha : (Token.mark a).Opens)
    (h : Lexes cs (ts ++ [.mark a])) : endsValue cs.reverse = false := by
  obtain ⟨front, blanks, rfl, hblanks⟩ := h.exists_last
  have hblank : ∀ c ∈ blanks.reverse, Text.isBlank c = true := fun c hc =>
    isBlank_of_isSpace (hblanks c (List.mem_reverse.mp hc))
  have hreverse : (front ++ ((Token.mark a).text ++ blanks)).reverse =
      blanks.reverse ++ a :: front.reverse := by simp [Token.text]
  rw [hreverse, endsValue, List.dropWhile_append_of_pos hblank]
  rcases ha with ha | ha <;> cases ha <;> rfl

namespace Decorated

/-! ## The pieces that are dropped -/

/-- Pieces kept backwards, and all pieces that they are kept of, also backwards. Before a closing bracket
a comma may be missing, with all that is idle behind it. -/
inductive Restores : List Piece → List Piece → Prop
  | nil : Restores [] []
  | piece {out ps : List Piece} (p : Piece) (h : Restores out ps) : Restores (p :: out) (p :: ps)
  | comma {out ps idle : List Piece} {c : Char} (hc : c = '}' ∨ c = ']')
    (hidle : ∀ p ∈ idle, p.isIdle = true) (hends : endsValuePiece out = true) (h : Restores out ps) :
    Restores (.code c :: out) (.code c :: (idle ++ .code ',' :: ps))

namespace Piece

def closes : Piece → Bool
  | code c => c = '}' || c = ']'
  | _ => false

theorem closes_code {c : Char} : (code c).closes = true ↔ c = '}' ∨ c = ']' := by simp [closes]

theorem closes_of_isIdle {p : Piece} (h : p.isIdle = true) : p.closes = false := by
  cases p with
  | code c =>
    rw [Bool.eq_false_iff]
    intro hc
    rcases closes_code.mp hc with rfl | rfl <;> cases h
  | _ => rfl

end Piece

namespace Restores

/-- If the last pieces that are kept are not closing brackets, they are the last of all. -/
theorem exists_of_append {xs out ps : List Piece} (h : Restores (xs ++ out) ps)
    (hxs : ∀ p ∈ xs, p.closes = false) : ∃ rest, ps = xs ++ rest ∧ Restores out rest := by
  induction xs generalizing ps with
  | nil => exact ⟨ps, rfl, h⟩
  | cons p xs ih =>
    rw [List.forall_mem_cons] at hxs
    cases h with
    | piece _ h =>
      obtain ⟨rest, rfl, hrest⟩ := ih h hxs.2
      exact ⟨rest, rfl, hrest⟩
    | comma hc =>
      rw [Piece.closes_code.mpr hc] at hxs
      cases hxs.1

theorem exists_cons {out ps : List Piece} {p : Piece} (h : Restores out (p :: ps))
    (hp : p.closes = false) : ∃ rest, out = p :: rest ∧ Restores rest ps := by
  cases h with
  | piece _ h => exact ⟨_, rfl, h⟩
  | comma hc =>
    rw [Piece.closes_code.mpr hc] at hp
    cases hp

theorem exists_append {out xs ps : List Piece} (h : Restores out (xs ++ ps))
    (hxs : ∀ p ∈ xs, p.closes = false) : ∃ rest, out = xs ++ rest ∧ Restores rest ps := by
  induction xs generalizing out with
  | nil => exact ⟨out, rfl, h⟩
  | cons p xs ih =>
    rw [List.forall_mem_cons] at hxs
    obtain ⟨rest, rfl, hrest⟩ := h.exists_cons hxs.1
    obtain ⟨rest', rfl, hrest'⟩ := ih hrest hxs.2
    exact ⟨rest', rfl, hrest'⟩

/-- One more piece is added, and a comma before it may be dropped. -/
theorem keep {out ps : List Piece} (h : Restores out ps) (p : Piece) :
    Restores (Decorated.keep out p) (p :: ps) := by
  cases p with
  | code c =>
    rw [Decorated.keep]
    split
    · rename_i hc
      rcases dropCommaPiece_cases out with hout | ⟨idle, before, rfl, hidle, hends, hout⟩
      · rw [hout]
        exact .piece _ h
      · rw [hout]
        obtain ⟨rest, rfl, hrest⟩ := h.exists_of_append fun p hp => Piece.closes_of_isIdle (hidle p hp)
        have hcomma : Restores ([.code ','] ++ before) rest := hrest
        obtain ⟨rest', rfl, hrest'⟩ := hcomma.exists_of_append (by decide)
        exact .comma hc hidle hends hrest'
    · exact .piece _ h
  | _ => exact .piece _ h

end Restores

/-- Of a text some commas before closing brackets are dropped, and nothing else. -/
theorem restores_kept (text : List Char) : Restores (kept text).reverse (pieces text).reverse :=
  kept_induction .nil (fun _ _ p h => h.keep p) text

/-! ## Commas that may be dropped -/

/-- The bracket `c` behind the text `before` stands outside of literals and closes a list or an object
that is not empty. -/
def ClosesNonEmpty (before : List Char) (c : Char) : Prop :=
  ∃ ts a inner, Lexes before (ts ++ .mark a :: inner) ∧ Encloses a c inner ∧ inner ≠ []

/-- A text with commas added to `plain`: before a bracket that closes a list or an object that is not
empty, there may be one comma more, and blanks behind it. -/
inductive AddsCommas : List Char → List Char → Prop
  | nil : AddsCommas [] []
  | char {plain text : List Char} (c : Char) (h : AddsCommas plain text) :
    AddsCommas (plain ++ [c]) (text ++ [c])
  | comma {plain text blanks : List Char} {c : Char} (hc : ClosesNonEmpty plain c)
    (hblanks : ∀ b ∈ blanks, Text.isBlank b = true) (h : AddsCommas plain text) :
    AddsCommas (plain ++ [c]) (text ++ ',' :: (blanks ++ [c]))

theorem AddsCommas.append {plain text : List Char} (h : AddsCommas plain text) (cs : List Char) :
    AddsCommas (plain ++ cs) (text ++ cs) := by
  induction cs generalizing plain text with
  | nil => simpa using h
  | cons c cs ih => simpa using ih (h.char c)

namespace Piece

theorem spelled_of_not_isComment {p : Piece} (h : p.isComment = false) : p.spelled [] = p.text := by
  cases p with
  | code _ => rfl
  | quoted _ => rfl
  | line _ => cases h
  | block _ => cases h

theorem isBlank_of_isIdle {p : Piece} (hidle : p.isIdle = true) (h : p.isComment = false) :
    ∀ c ∈ p.text, Text.isBlank c = true := by
  cases p with
  | code c => exact List.forall_mem_singleton.mpr hidle
  | quoted _ => cases hidle
  | line _ => cases h
  | block _ => cases h

theorem closed_of_isIdle {p : Piece} (h : p.isIdle = true) : p.Closed := by
  cases p with
  | code c =>
    rintro rfl
    cases h
  | quoted _ => cases h
  | line _ => trivial
  | block _ => trivial

end Piece

theorem isBlank_of_mem_spelled {idle : List Piece} (hidle : ∀ p ∈ idle, p.isIdle = true) :
    ∀ c ∈ spelled [] idle, Text.isBlank c = true := by
  intro c hc
  obtain ⟨p, hp, hcp⟩ := List.mem_flatMap.mp hc
  have hblank := hidle p hp
  cases p with
  | code d =>
    obtain rfl := List.mem_singleton.mp hcp
    exact hblank
  | quoted _ => cases hblank
  | line _ => cases hcp
  | block _ => cases hcp

/-- If the brackets before which a comma may be dropped close something that is not empty, then nothing
but commas before such brackets is dropped. -/
theorem Restores.addsCommas {out ps : List Piece} (h : Restores out ps)
    (hcomment : ∀ p ∈ ps, p.isComment = false)
    (hcloses : ∀ c before, .code c :: before <:+ out → c = '}' ∨ c = ']' → endsValuePiece before = true →
      ClosesNonEmpty (spelled [] before.reverse) c) :
    AddsCommas (spelled [] out.reverse) (ps.reverse.flatMap Piece.text) := by
  induction h with
  | nil => exact .nil
  | @piece out ps p _ ih =>
    rw [List.forall_mem_cons] at hcomment
    have hadds := ih hcomment.2 fun c before hsuffix =>
      hcloses c before (hsuffix.trans (List.suffix_cons p out))
    rw [List.reverse_cons, List.reverse_cons, spelled_concat, List.flatMap_append,
      List.flatMap_singleton, Piece.spelled_of_not_isComment hcomment.1]
    exact hadds.append p.text
  | @comma out ps idle c hc hidle hends _ ih =>
    have hadds := ih (fun p hp => hcomment p (by simp [hp])) fun d before hsuffix =>
      hcloses d before (hsuffix.trans (List.suffix_cons _ out))
    have hblanks : ∀ b ∈ idle.reverse.flatMap Piece.text, Text.isBlank b = true := by
      intro b hb
      obtain ⟨p, hp, hbp⟩ := List.mem_flatMap.mp hb
      rw [List.mem_reverse] at hp
      exact Piece.isBlank_of_isIdle (hidle p hp) (hcomment p (by simp [hp])) b hbp
    have hbracket := hcloses c out List.suffix_rfl hc hends
    simpa [spelled_concat, Piece.spelled, Piece.text] using hadds.comma hbracket hblanks

theorem closes_mark {c : Char} (hc : c = '}' ∨ c = ']') : (Token.mark c).Closes := by
  rcases hc with rfl | rfl
  · exact .inr rfl
  · exact .inl rfl

theorem exists_tokens_kept {text : List Char} {v : Value} (h : parse (plain text) = .ok v) :
    ∃ toks, Lexes (spelled [] (kept text)) toks ∧ Spells depthLimit v toks := by
  rwa [plain_eq_render, render_eq_spelled (by simp), parse_eq_ok_iff] at h

/-- A bracket that closes something, behind pieces that end in a value. -/
theorem closesNonEmpty_of_spells {depth : Nat} {v : Value} {toks : List Token} {c : Char}
    {before after : List Piece} (hspells : Spells depth v toks)
    (hclosed : ClosedButLast (before.reverse ++ .code c :: after))
    (hlexes : Lexes (spelled [] (before.reverse ++ .code c :: after)) toks) (hc : c = '}' ∨ c = ']')
    (hends : endsValuePiece before = true) : ClosesNonEmpty (spelled [] before.reverse) c := by
  have hmark : isMark c = true := by rcases hc with rfl | rfl <;> rfl
  obtain ⟨ts, us, rfl, hts, -⟩ := exists_split_of_lexes hclosed.closed hmark hlexes
  obtain ⟨front, a, inner, rfl, hinner⟩ := hspells.matched ts c us rfl (closes_mark hc)
  refine ⟨front, a, inner, hts, hinner, ?_⟩
  rintro rfl
  have hbefore : ∀ p ∈ before, p.Closed := by simpa using hclosed.closed
  have hfalse := endsValue_of_opens hinner.opens hts
  rw [← reverse_spelledBack, List.reverse_reverse, endsValue_spelledBack (by simp) hbefore,
    hends] at hfalse
  cases hfalse

/-! ## Missing elements -/

/-- Whether there is a comma with no element before it: behind an opening bracket, a comma or a colon,
with blanks and comments between them. -/
def HasEmptyElement (ps : List Piece) : Prop :=
  ∃ a idle, (a = '[' ∨ a = '{' ∨ a = ',' ∨ a = ':') ∧ (∀ p ∈ idle, p.isIdle = true) ∧
    .code a :: (idle ++ [.code ',']) <:+: ps

/-- A comma that is not among `gap` is the one behind it or stands further behind. -/
theorem split_comma {gap ps after rest : List Piece} (hgap : ∀ p ∈ gap, p.isIdle = true)
    (h : gap ++ .code ',' :: ps = after ++ .code ',' :: rest) :
    (after = gap ∧ ps = rest) ∨
      ∃ mid, after = gap ++ .code ',' :: mid ∧ ps = mid ++ .code ',' :: rest := by
  induction gap generalizing after with
  | nil =>
    cases after with
    | nil => exact .inl ⟨rfl, (List.cons.inj h).2⟩
    | cons p after =>
      obtain ⟨rfl, rfl⟩ := List.cons.inj h
      exact .inr ⟨after, rfl, rfl⟩
  | cons p gap ih =>
    rw [List.forall_mem_cons] at hgap
    cases after with
    | nil =>
      obtain ⟨rfl, -⟩ := List.cons.inj h
      cases hgap.1
    | cons q after =>
      obtain ⟨rfl, htail⟩ := List.cons.inj h
      rcases ih hgap.2 htail with ⟨rfl, hps⟩ | ⟨mid, rfl, hps⟩
      · exact .inl ⟨rfl, hps⟩
      · exact .inr ⟨mid, rfl, hps⟩

/-- A comma with no element before it is kept with what stands before it, or it is dropped behind a
colon. -/
theorem Restores.exists_emptyElement {out ps after idle rest : List Piece} {a : Char}
    (h : Restores out ps) (ha : a = '[' ∨ a = '{' ∨ a = ',' ∨ a = ':')
    (hidle : ∀ p ∈ idle, p.isIdle = true) (hps : ps = after ++ .code ',' :: (idle ++ .code a :: rest)) :
    ∃ after' b rest', out = after' ++ .code b :: (idle ++ .code a :: rest') ∧
      (b = ',' ∨ a = ':' ∧ (b = '}' ∨ b = ']')) := by
  have hblank : Text.isBlank a = false := by rcases ha with rfl | rfl | rfl | rfl <;> decide
  have hopen : ∀ p ∈ idle ++ [.code a], p.closes = false := by
    rw [List.forall_mem_append, List.forall_mem_singleton]
    refine ⟨fun p hp => Piece.closes_of_isIdle (hidle p hp), ?_⟩
    rcases ha with rfl | rfl | rfl | rfl <;> rfl
  -- Of what stands before the comma nothing is dropped.
  have hbefore : ∀ out, Restores out (idle ++ .code a :: rest) →
      ∃ rest', out = idle ++ .code a :: rest' := by
    intro out hout
    rw [← List.singleton_append, ← List.append_assoc] at hout
    obtain ⟨rest', rfl, -⟩ := hout.exists_append hopen
    exact ⟨rest', by simp⟩
  induction h generalizing after with
  | nil => simp at hps
  | @piece out ps p hout ih =>
    cases after with
    | nil =>
      obtain ⟨rfl, rfl⟩ := List.cons.inj hps
      obtain ⟨rest', rfl⟩ := hbefore out hout
      exact ⟨[], ',', rest', rfl, .inl rfl⟩
    | cons q after =>
      obtain ⟨rfl, rfl⟩ := List.cons.inj hps
      obtain ⟨after', b, rest', rfl, hb⟩ := ih rfl
      exact ⟨p :: after', b, rest', rfl, hb⟩
  | @comma out ps gap c hc hgap hends hout ih =>
    cases after with
    | nil =>
      obtain ⟨rfl⟩ := (List.cons.inj hps).1
      simp at hc
    | cons q after =>
      rcases split_comma hgap (List.cons.inj hps).2 with ⟨-, rfl⟩ | ⟨mid, -, rfl⟩
      · obtain ⟨rest', rfl⟩ := hbefore out hout
        refine ⟨[], c, rest', rfl, .inr ⟨?_, hc⟩⟩
        rw [endsValuePiece, List.dropWhile_append_of_pos hidle,
          List.dropWhile_cons_of_neg (by simp [Piece.isIdle, hblank])] at hends
        rcases ha with rfl | rfl | rfl | rfl
        · cases hends
        · cases hends
        · cases hends
        · rfl
      · obtain ⟨after', b, rest', rfl, hb⟩ := ih rfl
        exact ⟨.code c :: after', b, rest', rfl, hb⟩

/-- Marks with nothing but blanks and comments between them stand next to each other. -/
theorem adjoins_of_idle {depth : Nat} {v : Value} {toks : List Token} {xs idle ys : List Piece}
    {a b : Char} (hspells : Spells depth v toks)
    (hclosed : ClosedButLast (xs ++ .code a :: (idle ++ .code b :: ys)))
    (hlexes : Lexes (spelled [] (xs ++ .code a :: (idle ++ .code b :: ys))) toks)
    (hidle : ∀ p ∈ idle, p.isIdle = true) (ha : isMark a = true) (hb : isMark b = true) :
    Adjoins (.mark a) (.mark b) := by
  obtain ⟨ts, us, rfl, -, hus⟩ := exists_split_of_lexes hclosed.closed ha hlexes
  obtain ⟨vs, ws, rfl, hvs, -⟩ :=
    exists_split_of_lexes (fun p hp => Piece.closed_of_isIdle (hidle p hp)) hb hus
  obtain rfl := hvs.eq_nil_of_isBlank (isBlank_of_mem_spelled hidle)
  have hchain := (List.isChain_append.mp hspells.composed.chain).2.1
  exact (List.isChain_cons_cons.mp hchain).1

/-- A text with a missing element is not read, whatever stands around it. -/
theorem not_hasEmptyElement {text : List Char} {v : Value} (h : parse (plain text) = .ok v) :
    ¬ HasEmptyElement (pieces text) := by
  rintro ⟨a, idle, ha, hidle, before, after, hpieces⟩
  have hreverse : (pieces text).reverse =
      after.reverse ++ .code ',' :: (idle.reverse ++ .code a :: before.reverse) := by
    rw [← hpieces]
    simp
  obtain ⟨after', b, rest, hkept, hb⟩ := (restores_kept text).exists_emptyElement ha
    (fun p hp => hidle p (List.mem_reverse.mp hp)) hreverse
  replace hkept : kept text = rest.reverse ++ .code a :: (idle ++ .code b :: after'.reverse) := by
    rw [← List.reverse_reverse (kept text), hkept]
    simp
  obtain ⟨toks, hlexes, hspells⟩ := exists_tokens_kept h
  have hclosed := closedButLast_kept text
  rw [hkept] at hlexes hclosed
  have hmark : isMark a = true := by rcases ha with rfl | rfl | rfl | rfl <;> rfl
  have hmark' : isMark b = true := by rcases hb with rfl | ⟨-, rfl | rfl⟩ <;> rfl
  have hadjoins := adjoins_of_idle hspells hclosed hlexes hidle hmark hmark'
  rcases hb with rfl | ⟨rfl, hb⟩
  · have hends := hadjoins.ends_of_comma
    rcases ha with rfl | rfl | rfl | rfl <;> simp [Token.Ends, Token.Closes] at hends
  · exact hadjoins.starts_of_colon.not_closes (closes_mark hb)

end Decorated

/-- **Nothing but trailing commas.** If a text is read without its comments and trailing commas, then no
element is missing in it, and if it has no comments, it is what is read with commas before brackets that
close something. -/
theorem addsCommas_of_parse_plain {text : List Char} {v : Value} (h : parse (plain text) = .ok v) :
    ¬ HasEmptyElement (pieces text) ∧
      ((∀ p ∈ pieces text, p.isComment = false) → AddsCommas (plain text) text) := by
  refine ⟨not_hasEmptyElement h, fun hcomment => ?_⟩
  obtain ⟨toks, hlexes, hspells⟩ := exists_tokens_kept h
  have hadds : AddsCommas (spelled [] (kept text)) ((pieces text).flatMap Piece.text) := by
    rw [← List.reverse_reverse (kept text), ← List.reverse_reverse (pieces text)]
    refine (restores_kept text).addsCommas (fun p hp => hcomment p (List.mem_reverse.mp hp)) ?_
    rintro c before ⟨after, hafter⟩ hc hends
    have hkept : kept text = before.reverse ++ .code c :: after.reverse := by
      rw [← List.reverse_reverse (kept text), ← hafter]
      simp
    have hclosed := closedButLast_kept text
    rw [hkept] at hclosed hlexes
    exact closesNonEmpty_of_spells hspells hclosed hlexes hc hends
  rwa [text_pieces, ← render_eq_spelled (by simp), ← plain_eq_render] at hadds

/-- Settings with a trailing comma in each list and object that is not empty. -/
def nestedTrailing : List Char :=
  "\x7b\"a\": [1, \x7b\"b\": 2 ,\u00a0\x7d, ], \"c,]\": [],\n\x7d".toList

/-- Settings in which a key has no value, with a comma behind it. -/
def missingValue : List Char := "\x7b\"a\": [\x7b\"b\": ,\x7d]\x7d".toList

/-- Nested trailing commas are the only difference to what is read, and a key without a value is not
read. -/
theorem addsCommas_of_parse_plain_nestedTrailing :
    parse (plain nestedTrailing) = .ok (.object
        [("a", .array [.int 1, .object [("b", .int 2)]]), ("c,]", .array [])]) ∧
      AddsCommas (plain nestedTrailing) nestedTrailing ∧ ∀ v, parse (plain missingValue) ≠ .ok v := by
  have hread : parse (plain nestedTrailing) = .ok (.object
      [("a", .array [.int 1, .object [("b", .int 2)]]), ("c,]", .array [])]) := rfl
  refine ⟨hread, (addsCommas_of_parse_plain hread).2 (by decide), fun v hv => ?_⟩
  exact (addsCommas_of_parse_plain hv).1 ⟨':', [.code ' '], by decide, by decide, by decide⟩

end GroovyWorkspace.Json
