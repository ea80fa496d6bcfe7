import GroovyWorkspace.Proofs.Json.Neighbour
import GroovyWorkspace.Proofs.Json.Written

/-!
# Decorated JSON

A decorated text has white space and comments between its tokens and may have a comma behind the last
element of a list or an object. Taking the decoration off gives a text with the same tokens
(`lexes_plain`), so that it is read as the same value.
-/

namespace GroovyWorkspace.Json

/-! ## Decoration -/

/-- White space and comments. -/
inductive Gap : List Char → Prop
  | nil : Gap []
  | space {c : Char} {rest : List Char} (hc : isSpace c = true) (h : Gap rest) : Gap (c :: rest)
  | line {body rest : List Char} (hbody : '\n' ∉ body) (h : Gap rest) :
    Gap ('/' :: '/' :: (body ++ '\n' :: rest))
  | block {body rest : List Char} (hbody : ¬ ['*', '/'] <:+: body) (h : Gap rest) :
    Gap ('/' :: '*' :: (body ++ '*' :: '/' :: rest))

/-- White space and comments at the end of a text, where a line comment may be left open. -/
inductive LastGap : List Char → Prop
  | closed {gap : List Char} (h : Gap gap) : LastGap gap
  | line {gap body : List Char} (h : Gap gap) (hbody : '\n' ∉ body) :
    LastGap (gap ++ '/' :: '/' :: body)

/-- A text of tokens with decoration, behind the token `prev` if there is one. A comma may be added
before a closing bracket, unless the bracket closes an empty list or object. -/
inductive Decorates : Option Token → List Token → List Char → Prop
  | done {prev : Option Token} {gap : List Char} (h : LastGap gap) : Decorates prev [] gap
  | token {prev : Option Token} {tok : Token} {ts : List Token} {gap rest : List Char} (hg : Gap gap)
    (h : Decorates (some tok) ts rest) : Decorates prev (tok :: ts) (gap ++ (tok.text ++ rest))
  | comma {prev tok : Token} {ts : List Token} {gap gap' rest : List Char} (hprev : ¬ prev.Opens)
    (htok : tok.Closes) (hg : Gap gap) (hg' : Gap gap') (h : Decorates (some tok) ts rest) :
    Decorates (some prev) (tok :: ts) (gap ++ ',' :: (gap' ++ (tok.text ++ rest)))

/-- A decorated text of the tokens of `plain`. -/
def IsDecorationOf (text plain : List Char) : Prop :=
  ∃ toks, Lexes plain toks ∧ Decorates none toks text

/-! ## Neighbouring tokens -/

/-- What a valid text allows behind a token: two words never meet, and no comma stands before a closing
bracket. -/
def Follows (a b : Token) : Prop := ¬ (a.IsBare ∧ b.IsBare) ∧ ¬ (a = .mark ',' ∧ b.Closes)

/-- Tokens that follow each other, do not start with a closing bracket and do not end in a comma. -/
structure Smooth (toks : List Token) : Prop where
  chain : toks.IsChain Follows
  head : ∀ tok ∈ toks.head?, ¬ tok.Closes
  last : ∀ tok ∈ toks.getLast?, tok ≠ .mark ','

theorem Adjoins.follows {a b : Token} (h : Adjoins a b) : Follows a b := by
  cases h with
  | opened ha _ => rcases ha with rfl | rfl <;> simp [Follows, Token.IsBare]
  | ended ha hb =>
    constructor
    · rintro ⟨-, hbare⟩
      rcases hb with rfl | rfl | rfl | rfl <;> exact hbare
    · rintro ⟨rfl, -⟩
      simp [Token.Ends, Token.Closes] at ha
  | parted ha hb =>
    refine ⟨?_, fun h => hb.not_closes h.2⟩
    rintro ⟨hbare, -⟩
    rcases ha with rfl | rfl <;> exact hbare

theorem Spells.smooth {depth : Nat} {v : Value} {toks : List Token} (h : Spells depth v toks) :
    toks ≠ [] ∧ Smooth toks := by
  have hcomposed := h.composed
  refine ⟨hcomposed.ne_nil, hcomposed.chain.imp fun _ _ => Adjoins.follows,
    fun tok htok => (hcomposed.head tok htok).not_closes, ?_⟩
  rintro tok htok rfl
  simpa [Token.Ends, Token.Closes] using hcomposed.last _ htok

/-! ## What is written of a decorated text -/

open Decorated

theorem Gap.written {gap : List Char} (h : Gap gap) :
    ∃ blanks, (∀ c ∈ blanks, isSpace c = true) ∧
      ∀ out rest, written .code out (gap ++ rest) = written .code (blanks ++ out) rest := by
  induction h with
  | nil => exact ⟨[], by simp, fun _ _ => rfl⟩
  | @space c gap hc _ ih =>
    obtain ⟨blanks, hblanks, hw⟩ := ih
    refine ⟨blanks ++ [c], ?_, ?_⟩
    · rw [List.forall_mem_append, List.forall_mem_singleton]
      exact ⟨hblanks, hc⟩
    · intro out rest
      have hcode : Decorated.written .code out (c :: (gap ++ rest)) =
          Decorated.written .code (c :: out) (gap ++ rest) := by
        rcases isSpace_iff.mp hc with rfl | rfl | rfl | rfl <;> rfl
      rw [List.cons_append, hcode, hw, List.append_assoc]
      rfl
  | @line body gap hbody _ ih =>
    obtain ⟨blanks, hblanks, hw⟩ := ih
    refine ⟨blanks ++ ['\n'], ?_, ?_⟩
    · rw [List.forall_mem_append, List.forall_mem_singleton]
      exact ⟨hblanks, by decide⟩
    · intro out rest
      have hopen : Decorated.written .code out ('/' :: '/' :: (body ++ '\n' :: gap ++ rest)) =
          Decorated.written .line out (body ++ '\n' :: (gap ++ rest)) := by
        rw [List.append_assoc]
        rfl
      rw [List.cons_append, List.cons_append, hopen, written_line hbody, hw, List.append_assoc]
      rfl
  | @block body gap hbody _ ih =>
    obtain ⟨blanks, hblanks, hw⟩ := ih
    refine ⟨blanks, hblanks, ?_⟩
    intro out rest
    have hopen : Decorated.written .code out ('/' :: '*' :: (body ++ '*' :: '/' :: gap ++ rest)) =
        Decorated.written (.block false) out (body ++ '*' :: '/' :: (gap ++ rest)) := by
      rw [List.append_assoc]
      rfl
    rw [List.cons_append, List.cons_append, hopen, written_block hbody (by simp), hw]

theorem LastGap.written {gap : List Char} (h : LastGap gap) :
    ∃ blanks, (∀ c ∈ blanks, isSpace c = true) ∧ ∀ out, written .code out gap = blanks ++ out := by
  cases h with
  | closed h =>
    obtain ⟨blanks, hblanks, hw⟩ := h.written
    refine ⟨blanks, hblanks, ?_⟩
    intro out
    have hend := hw out []
    rwa [List.append_nil, written_nil] at hend
  | @line gap body h hbody =>
    obtain ⟨blanks, hblanks, hw⟩ := h.written
    refine ⟨blanks, hblanks, ?_⟩
    intro out
    rw [hw]
    exact written_line_end hbody _

theorem Token.Proper.eq_mark {tok : Token} (hp : tok.Proper) {c : Char}
    (h : tok.text.getLast? = some c) (hc : isMark c = true) : tok = .mark c := by
  cases tok with
  | mark d =>
    obtain rfl : d = c := Option.some.inj h
    rfl
  | literal body =>
    obtain rfl : '"' = c := by simpa [Token.text, List.getLast?_cons] using h
    cases hc
  | bare w =>
    have hbare := hp.2 c (List.mem_of_getLast? h)
    rw [not_isBare_of_isMark hc] at hbare
    cases hbare

/-- The last character of a token is the first one when the text is written backwards. -/
theorem Token.Proper.head?_skipSpace {tok : Token} (hp : tok.Proper) (out : List Char) :
    (skipSpace (tok.text.reverse ++ out)).head? = tok.text.getLast? := by
  obtain ⟨front, c, htext⟩ : ∃ front c, tok.text = front ++ [c] :=
    ⟨_, _, (List.dropLast_append_getLast hp.text_ne_nil).symm⟩
  have hlast : tok.text.getLast? = some c := by rw [htext, List.getLast?_concat]
  have hspace : isSpace c = false := by
    rw [Bool.eq_false_iff]
    intro hs
    have hblank := not_isBlank_of_getLast? hp hlast
    rw [isBlank_of_isSpace hs] at hblank
    cases hblank
  rw [hlast, htext, List.reverse_append, List.reverse_singleton, List.singleton_append,
    List.cons_append, skipSpace_cons _ hspace]
  rfl

theorem skipSpace_append {blanks : List Char} (h : ∀ c ∈ blanks, isSpace c = true) (out : List Char) :
    skipSpace (blanks ++ out) = skipSpace out := List.dropWhile_append_of_pos h

theorem lexes_written_step {out blanks text rest : List Char} {tok : Token} {ts : List Token}
    (hblanks : ∀ c ∈ blanks, isSpace c = true) (hp : tok.Proper) (hchain : (tok :: ts).IsChain Follows)
    (hw : written .code out text = written .code (tok.text.reverse ++ (blanks ++ out)) rest)
    (hrest : ∃ s, written .code (tok.text.reverse ++ (blanks ++ out)) rest =
      s.reverse ++ (tok.text.reverse ++ (blanks ++ out)) ∧ Lexes s ts) :
    ∃ s, written .code out text = s.reverse ++ out ∧ Lexes s (tok :: ts) := by
  obtain ⟨s, hs, hlexes⟩ := hrest
  refine ⟨blanks.reverse ++ (tok.text ++ s), by rw [hw, hs]; simp, ?_⟩
  refine .append_spaces (fun c hc => hblanks c (List.mem_reverse.mp hc)) (.token hp ?_ hlexes)
  -- two words never meet, so that a word ends where it ended before
  intro hbare
  refine hlexes.boundary fun next hnext hnextbare => ?_
  exact (List.isChain_cons.mp hchain).1 next hnext |>.1 ⟨hbare, hnextbare⟩

/-- A closing bracket is written behind what is left of `out` without its trailing comma. -/
theorem written_closing {tok : Token} (h : tok.Closes) {out out' : List Char}
    (hdrop : dropComma out = out') (rest : List Char) :
    written .code out (tok.text ++ rest) = written .code (tok.text.reverse ++ out') rest := by
  rw [← hdrop]
  rcases h with rfl | rfl
  · exact written_close (.inr rfl) out rest
  · exact written_close (.inl rfl) out rest

/-- A token that may follow the one before it is written as it is: no comma is dropped before a closing
bracket. -/
theorem written_follows {prev : Option Token} {tok : Token} (hp : tok.Proper)
    (hprev : ∀ p ∈ prev, p.Proper) (hfollows : ∀ p ∈ prev, Follows p tok) {out : List Char}
    (hout : (skipSpace out).head? = prev.bind fun p => p.text.getLast?) (rest : List Char) :
    written .code out (tok.text ++ rest) = written .code (tok.text.reverse ++ out) rest := by
  by_cases hclose : tok.Closes
  · refine written_closing hclose (dropComma_of_ne_comma fun c hc => ?_) rest
    rw [hout] at hc
    obtain ⟨p, rfl, hlast⟩ := Option.bind_eq_some_iff.mp hc
    refine ⟨not_isBlank_of_getLast? (hprev p rfl) hlast, ?_⟩
    rintro rfl
    obtain rfl := (hprev p rfl).eq_mark hlast (by decide)
    exact (hfollows _ rfl).2 ⟨rfl, hclose⟩
  · exact written_token hp ⟨fun heq => hclose (.inr heq), fun heq => hclose (.inl heq)⟩ _ _

theorem follows_of_isChain {prev : Option Token} {tok : Token} {ts : List Token}
    (h : (prev.toList ++ tok :: ts).IsChain Follows) : ∀ p ∈ prev, Follows p tok := by
  rintro p rfl
  exact (List.isChain_cons.mp h).1 tok rfl

/-- What is written of a decorated text has its tokens. The induction is on the decoration; that
`out` ends in the token before, apart from white space, is what decides about commas. -/
theorem Decorates.lexes_written {prev : Option Token} {toks : List Token} {text : List Char}
    (h : Decorates prev toks text) (hproper : ∀ tok ∈ toks, tok.Proper)
    (hprev : ∀ p ∈ prev, p.Proper) (hchain : (prev.toList ++ toks).IsChain Follows) {out : List Char}
    (hout : (skipSpace out).head? = prev.bind fun p => p.text.getLast?) :
    ∃ s, written .code out text = s.reverse ++ out ∧ Lexes s toks := by
  induction h generalizing out with
  | done hgap =>
    obtain ⟨blanks, hblanks, hw⟩ := hgap.written
    refine ⟨blanks.reverse, by rw [hw, List.reverse_reverse], ?_⟩
    rw [← List.append_nil blanks.reverse]
    exact .append_spaces (fun c hc => hblanks c (List.mem_reverse.mp hc)) .nil
  | @token prev tok ts gap rest hg h ih =>
    rw [List.forall_mem_cons] at hproper
    obtain ⟨blanks, hblanks, hw⟩ := hg.written
    have hbehind : (tok :: ts).IsChain Follows := (List.isChain_append.mp hchain).2.1
    have hblank : (skipSpace (blanks ++ out)).head? = prev.bind fun p => p.text.getLast? := by
      rw [skipSpace_append hblanks, hout]
    have hwritten := written_follows hproper.1 hprev (follows_of_isChain hchain) hblank rest
    refine lexes_written_step hblanks hproper.1 hbehind ((hw _ _).trans hwritten) ?_
    exact ih hproper.2 (by simpa using hproper.1) hbehind (hproper.1.head?_skipSpace _)
  | @comma prev tok ts gap gap' rest hopens hclose hg hg' h ih =>
    rw [List.forall_mem_cons] at hproper
    obtain ⟨blanks, hblanks, hw⟩ := hg.written
    obtain ⟨blanks', hblanks', hw'⟩ := hg'.written
    have hbehind : (tok :: ts).IsChain Follows := (List.isChain_append.mp hchain).2.1
    have hdrop : dropComma (blanks' ++ ',' :: (blanks ++ out)) = blanks ++ out := by
      refine dropComma_comma hblanks' fun c hc => ?_
      rw [skipSpace_append hblanks, hout, Option.bind_some] at hc
      have hp := hprev prev rfl
      refine ⟨not_isBlank_of_getLast? hp hc, ?_, ?_, ?_⟩
      · rintro rfl
        exact hopens (.inl (hp.eq_mark hc (by decide)))
      · rintro rfl
        exact hopens (.inr (hp.eq_mark hc (by decide)))
      · rintro rfl
        exact (List.isChain_cons.mp hchain).1 tok rfl |>.2 ⟨hp.eq_mark hc (by decide), hclose⟩
    have hcomma : ∀ tail, written .code (blanks ++ out) (',' :: tail) =
        written .code (',' :: (blanks ++ out)) tail :=
      written_code (by decide) (by decide) (by decide) _
    have hwritten : written .code out (gap ++ ',' :: (gap' ++ (tok.text ++ rest))) =
        written .code (tok.text.reverse ++ (blanks ++ out)) rest := by
      rw [hw, hcomma, hw', written_closing hclose hdrop]
    refine lexes_written_step hblanks hproper.1 hbehind hwritten ?_
    exact ih hproper.2 (by simpa using hproper.1) hbehind (hproper.1.head?_skipSpace _)

theorem lexes_plain {toks : List Token} {text : List Char} (hproper : ∀ tok ∈ toks, tok.Proper)
    (hsmooth : Smooth toks) (h : Decorates none toks text) : Lexes (plain text) toks := by
  have hempty : (skipSpace []).head? = none := rfl
  obtain ⟨s, hs, hlexes⟩ := h.lexes_written hproper (by simp) hsmooth.chain hempty
  rwa [plain_eq, hs, List.append_nil, List.reverse_reverse]

theorem Decorates.cons_space {prev : Option Token} {toks : List Token} {c : Char} {text : List Char}
    (hc : isSpace c = true) (h : Decorates prev toks text) : Decorates prev toks (c :: text) := by
  cases h with
  | done hgap =>
    cases hgap with
    | closed hgap => exact .done (.closed (.space hc hgap))
    | line hgap hbody => exact .done (.line (.space hc hgap) hbody)
  | token hg h => exact .token (.space hc hg) h
  | comma hprev htok hg hg' h => exact .comma hprev htok (.space hc hg) hg' h

theorem Lexes.decorates {cs : List Char} {toks : List Token} (h : Lexes cs toks)
    (prev : Option Token) : Decorates prev toks cs := by
  induction h generalizing prev with
  | nil => exact .done (.closed .nil)
  | space hc _ ih => exact (ih prev).cons_space hc
  | @token tok rest ts _ _ _ ih => exact .token .nil (ih (some tok))

/-- **Decorated JSON is read as the JSON it decorates.** A text that is read as `v` is a decoration of
itself, and each of its decorations is read as `v` once the decoration is taken off. -/
theorem parse_plain_of_isDecorationOf {text : List Char} {v : Value} (h : parse text = .ok v) :
    IsDecorationOf text text ∧
      ∀ decorated, IsDecorationOf decorated text → parse (plain decorated) = .ok v := by
  obtain ⟨toks, hlexes, hspells⟩ := parse_eq_ok_iff.mp h
  refine ⟨⟨toks, hlexes, hlexes.decorates none⟩, ?_⟩
  rintro decorated ⟨toks', hlexes', hdecorates⟩
  obtain rfl := hlexes.unique hlexes'
  rw [parse_eq_ok_iff]
  exact ⟨toks, lexes_plain hlexes.proper hspells.smooth.2 hdecorates, hspells⟩

/-- The tokens of a list in a list that holds a string, `[["a,]"]]`. -/
def nestedTokens : List Token :=
  [.mark '[', .mark '[', .literal ['a', ',', ']'], .mark ']', .mark ']']

def nestedText : List Char := nestedTokens.flatMap Token.text

/-- The text with a comma behind each element, comments that hold quotes, brackets and commas, and a line
comment at the end. -/
def nestedDecorated : List Char :=
  "/*\",]*/[//[\n[\"a,]\"/**/,/*/*/], ]//".toList

theorem nestedDecorated_isDecorationOf : IsDecorationOf nestedDecorated nestedText := by
  refine ⟨nestedTokens, ?_, ?_⟩
  · have hbody : (Token.literal ['a', ',', ']']).Proper :=
      .plain (by decide) (by decide) (.plain (by decide) (by decide)
        (.plain (by decide) (by decide) .nil))
    have hmark : ∀ c, isMark c = true → (Token.mark c).Proper := fun _ h => h
    exact .token (hmark '[' rfl) False.elim (.token (hmark '[' rfl) False.elim (.token hbody False.elim
      (.token (hmark ']' rfl) False.elim (.token (hmark ']' rfl) False.elim .nil))))
  · have hquote := Gap.block (show ¬ ['*', '/'] <:+: ['"', ',', ']'] by decide) .nil
    have hline := Gap.line (show '\n' ∉ ['['] by decide) .nil
    have hempty := Gap.block (show ¬ ['*', '/'] <:+: [] by decide) .nil
    have hslash := Gap.block (show ¬ ['*', '/'] <:+: ['/'] by decide) .nil
    have hspace := Gap.space (show isSpace ' ' = true by decide) .nil
    have hopen : ∀ body, ¬ (Token.literal body).Opens := by simp [Token.Opens]
    have hclose : ¬ (Token.mark ']').Opens := by simp [Token.Opens]
    exact .token hquote (.token hline (.token .nil (.comma (hopen _) (.inl rfl) hempty hslash
      (.comma hclose (.inl rfl) .nil hspace (.done (.line .nil List.not_mem_nil))))))

theorem parse_plain_nestedDecorated :
    parse nestedText = .ok (.array [.array [.string "a,]"]]) ∧
      IsDecorationOf nestedDecorated nestedText ∧
      parse (plain nestedDecorated) = .ok (.array [.array [.string "a,]"]]) :=
  ⟨rfl, nestedDecorated_isDecorationOf,
    (parse_plain_of_isDecorationOf rfl).2 _ nestedDecorated_isDecorationOf⟩

end GroovyWorkspace.Json
