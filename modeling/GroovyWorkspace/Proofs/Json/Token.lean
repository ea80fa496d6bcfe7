import GroovyWorkspace.Json.Reader

/-!
# Tokens of a JSON text

Brackets, colons and commas, string literals, and bare runs of characters, which are words or numerals.
`Lexes` says which tokens a text is made of, with white space between them. A text has at most one list
of tokens (`Lexes.unique`).
-/

namespace GroovyWorkspace.Json

/-- The characters of words and numerals. -/
def isBare (c : Char) : Bool :=
  ('0' ≤ c && c ≤ '9') || ('A' ≤ c && c ≤ 'Z') || ('a' ≤ c && c ≤ 'z') || c = '+' || c = '-' || c = '.'

/-- The characters that are tokens by themselves. -/
def isMark (c : Char) : Bool :=
  c = '[' || c = ']' || c = '{' || c = '}' || c = ':' || c = ','

/-- The characters between the quotes of a string literal: no quote stands there, except behind a
backslash. -/
inductive IsBody : List Char → Prop
  | nil : IsBody []
  | plain {c : Char} {body : List Char} (hquote : c ≠ '"') (hslash : c ≠ '\\') (h : IsBody body) :
    IsBody (c :: body)
  | escaped {c : Char} {body : List Char} (h : IsBody body) : IsBody ('\\' :: c :: body)

inductive Token where
  | mark (c : Char)
  | literal (body : List Char)
  | bare (cs : List Char)
  deriving DecidableEq, Repr

namespace Token

def text : Token → List Char
  | mark c => [c]
  | literal body => '"' :: (body ++ ['"'])
  | bare cs => cs

/-- Whether a token has the form of its kind. -/
def Proper : Token → Prop
  | mark c => isMark c = true
  | literal body => IsBody body
  | bare cs => cs ≠ [] ∧ ∀ c ∈ cs, isBare c = true

/-- Whether a token goes on as long as its characters do. -/
def IsBare : Token → Prop
  | bare _ => True
  | _ => False

end Token

/-- A place where no word or numeral goes on. -/
def Boundary (rest : List Char) : Prop := ∀ c, rest.head? = some c → isBare c = false

/-- A text is made of tokens, with white space before, between and behind them. -/
inductive Lexes : List Char → List Token → Prop
  | nil : Lexes [] []
  | space {c : Char} {rest : List Char} {ts : List Token} (hc : isSpace c = true) (h : Lexes rest ts) :
    Lexes (c :: rest) ts
  | token {tok : Token} {rest : List Char} {ts : List Token} (hp : tok.Proper)
    (hb : tok.IsBare → Boundary rest) (h : Lexes rest ts) : Lexes (tok.text ++ rest) (tok :: ts)

/-! ## Kinds of characters -/

theorem isMark_iff {c : Char} :
    isMark c = true ↔ c = '[' ∨ c = ']' ∨ c = '{' ∨ c = '}' ∨ c = ':' ∨ c = ',' := by
  simp [isMark, or_assoc]

theorem isSpace_iff {c : Char} : isSpace c = true ↔ c = ' ' ∨ c = '\n' ∨ c = '\t' ∨ c = '\r' := by
  simp [isSpace, or_assoc]

theorem not_isBare_of_isMark {c : Char} (h : isMark c = true) : isBare c = false := by
  rcases isMark_iff.mp h with rfl | rfl | rfl | rfl | rfl | rfl <;> decide

theorem not_isBare_of_isSpace {c : Char} (h : isSpace c = true) : isBare c = false := by
  rcases isSpace_iff.mp h with rfl | rfl | rfl | rfl <;> decide

theorem not_isMark_of_isSpace {c : Char} (h : isSpace c = true) : isMark c = false := by
  rcases isSpace_iff.mp h with rfl | rfl | rfl | rfl <;> decide

theorem skipSpace_cons {c : Char} (cs : List Char) (hc : isSpace c = false) :
    skipSpace (c :: cs) = c :: cs := by
  rw [skipSpace, List.dropWhile_cons_of_neg (by rw [hc]; decide)]

/-- Every token starts with a character, by which its kind is told. -/
theorem Token.Proper.exists_head {tok : Token} (h : tok.Proper) :
    ∃ c rest, tok.text = c :: rest ∧ isSpace c = false ∧
      ((isMark c = true ∧ tok = .mark c) ∨ (c = '"' ∧ ∃ body, tok = .literal body) ∨
        (isBare c = true ∧ ∃ cs, tok = .bare cs)) := by
  cases tok with
  | mark c =>
    refine ⟨c, [], rfl, ?_, .inl ⟨h, rfl⟩⟩
    rw [Bool.eq_false_iff]
    intro hs
    rw [Proper, not_isMark_of_isSpace hs] at h
    cases h
  | literal body => exact ⟨'"', _, rfl, by decide, .inr (.inl ⟨rfl, body, rfl⟩)⟩
  | bare cs =>
    obtain ⟨hne, hall⟩ := h
    cases cs with
    | nil => exact absurd rfl hne
    | cons c rest =>
      have hc : isBare c = true := hall c List.mem_cons_self
      refine ⟨c, rest, rfl, ?_, .inr (.inr ⟨hc, _, rfl⟩)⟩
      rw [Bool.eq_false_iff]
      intro hs
      rw [not_isBare_of_isSpace hs] at hc
      cases hc

theorem Token.Proper.text_ne_nil {tok : Token} (h : tok.Proper) : tok.text ≠ [] := by
  obtain ⟨c, rest, htext, -⟩ := h.exists_head
  rw [htext]
  exact List.cons_ne_nil c rest

/-! ## One list of tokens -/

/-- The first quote outside an escape ends a literal. -/
theorem IsBody.append_quote_inj {body other rest rest' : List Char} (h : IsBody body)
    (h' : IsBody other) (heq : body ++ '"' :: rest = other ++ '"' :: rest') :
    body = other ∧ rest = rest' := by
  induction h generalizing other with
  | nil =>
    cases h' with
    | nil => exact ⟨rfl, (List.cons.inj heq).2⟩
    | plain hquote _ _ => exact absurd (List.cons.inj heq).1.symm hquote
    | escaped _ => exact absurd (List.cons.inj heq).1 (by decide)
  | plain hquote hslash _ ih =>
    cases h' with
    | nil => exact absurd (List.cons.inj heq).1 hquote
    | plain _ _ h' =>
      obtain ⟨rfl, htail⟩ := List.cons.inj heq
      obtain ⟨rfl, hrest⟩ := ih h' htail
      exact ⟨rfl, hrest⟩
    | escaped _ => exact absurd (List.cons.inj heq).1 hslash
  | escaped _ ih =>
    cases h' with
    | nil => exact absurd (List.cons.inj heq).1 (by decide)
    | plain _ hslash _ => exact absurd (List.cons.inj heq).1.symm hslash
    | escaped h' =>
      simp only [List.cons_append, List.cons.injEq, true_and] at heq
      obtain ⟨rfl, htail⟩ := heq
      obtain ⟨rfl, hrest⟩ := ih h' htail
      exact ⟨rfl, hrest⟩

/-- A bare run ends where the next character is not bare. -/
theorem append_boundary_inj {cs other rest rest' : List Char} (h : ∀ c ∈ cs, isBare c = true)
    (h' : ∀ c ∈ other, isBare c = true) (hb : Boundary rest) (hb' : Boundary rest')
    (heq : cs ++ rest = other ++ rest') : cs = other ∧ rest = rest' := by
  induction cs generalizing other with
  | nil =>
    cases other with
    | nil => exact ⟨rfl, heq⟩
    | cons d other =>
      have hd : isBare d = false := hb d (by rw [List.nil_append] at heq; rw [heq]; rfl)
      rw [h' d List.mem_cons_self] at hd
      cases hd
  | cons c cs ih =>
    cases other with
    | nil =>
      have hc : isBare c = false := hb' c (by rw [List.nil_append] at heq; rw [← heq]; rfl)
      rw [h c List.mem_cons_self] at hc
      cases hc
    | cons d other =>
      obtain ⟨rfl, htail⟩ := List.cons.inj heq
      obtain ⟨rfl, hrest⟩ := ih (fun x hx => h x (List.mem_cons_of_mem _ hx))
        (fun x hx => h' x (List.mem_cons_of_mem _ hx)) htail
      exact ⟨rfl, hrest⟩

theorem Token.Proper.append_inj {tok other : Token} {rest rest' : List Char} (h : tok.Proper)
    (h' : other.Proper) (hb : tok.IsBare → Boundary rest) (hb' : other.IsBare → Boundary rest')
    (heq : tok.text ++ rest = other.text ++ rest') : tok = other ∧ rest = rest' := by
  obtain ⟨c, cs, hcs, -, hkind⟩ := h.exists_head
  obtain ⟨d, ds, hds, -, hkind'⟩ := h'.exists_head
  have hcd : c = d := by
    rw [hcs, hds] at heq
    exact (List.cons.inj heq).1
  subst hcd
  have hquote : isMark '"' = false ∧ isBare '"' = false := by decide
  -- the first character settles the kind, so that only equal kinds are left
  rcases hkind with ⟨hc, rfl⟩ | ⟨rfl, body, rfl⟩ | ⟨hc, w, rfl⟩ <;>
    rcases hkind' with ⟨hc', rfl⟩ | ⟨hc', body', rfl⟩ | ⟨hc', w', rfl⟩
  case inl.inl => exact ⟨rfl, (List.cons.inj heq).2⟩
  case inr.inl.inr.inl =>
    simp only [text, List.cons_append, List.append_assoc, List.nil_append, List.cons.injEq,
      true_and] at heq
    obtain ⟨rfl, hrest⟩ := IsBody.append_quote_inj h h' heq
    exact ⟨rfl, hrest⟩
  case inr.inr.inr.inr =>
    obtain ⟨rfl, hrest⟩ := append_boundary_inj h.2 h'.2 (hb trivial) (hb' trivial) heq
    exact ⟨rfl, hrest⟩
  all_goals grind [not_isBare_of_isMark]

namespace Lexes

theorem cases_text {cs : List Char} {ts : List Token} (h : Lexes cs ts) :
    (cs = [] ∧ ts = []) ∨ (∃ c rest, cs = c :: rest ∧ isSpace c = true ∧ Lexes rest ts) ∨
      ∃ tok rest more, cs = tok.text ++ rest ∧ ts = tok :: more ∧ tok.Proper ∧
        (tok.IsBare → Boundary rest) ∧ Lexes rest more := by
  cases h with
  | nil => exact .inl ⟨rfl, rfl⟩
  | space hc h => exact .inr (.inl ⟨_, _, rfl, hc, h⟩)
  | token hp hb h => exact .inr (.inr ⟨_, _, _, rfl, rfl, hp, hb, h⟩)

theorem unique {cs : List Char} {ts ts' : List Token} (h : Lexes cs ts) (h' : Lexes cs ts') :
    ts = ts' := by
  induction h generalizing ts' with
  | nil =>
    rcases h'.cases_text with ⟨-, rfl⟩ | ⟨c, rest, heq, -, -⟩ | ⟨tok, rest, more, heq, -, hp, -⟩
    · rfl
    · cases heq
    · obtain ⟨c, cs, hcs, -⟩ := hp.exists_head
      rw [hcs] at heq
      cases heq
  | space hc h ih =>
    rcases h'.cases_text with ⟨heq, -⟩ | ⟨c, rest, heq, -, h'⟩ | ⟨tok, rest, more, heq, -, hp, -⟩
    · cases heq
    · obtain ⟨rfl, rfl⟩ := List.cons.inj heq
      exact ih h'
    · obtain ⟨c, cs, hcs, hspace, -⟩ := hp.exists_head
      rw [hcs] at heq
      rw [(List.cons.inj heq).1, hspace] at hc
      cases hc
  | token hp hb h ih =>
    obtain ⟨c, cs, hcs, hspace, -⟩ := hp.exists_head
    rcases h'.cases_text with ⟨heq, -⟩ | ⟨d, rest, heq, hd, -⟩ |
      ⟨tok, rest, more, heq, rfl, hp', hb', h'⟩
    · rw [hcs] at heq
      cases heq
    · rw [hcs] at heq
      rw [← (List.cons.inj heq).1, hspace] at hd
      cases hd
    · obtain ⟨rfl, rfl⟩ := hp.append_inj hp' hb hb' heq
      rw [ih h']

/-! ## The next token -/

theorem skipSpace_iff {cs : List Char} {ts : List Token} :
    Lexes (skipSpace cs) ts ↔ Lexes cs ts := by
  constructor
  · intro h
    induction cs with
    | nil => exact h
    | cons c rest ih =>
      rw [skipSpace, List.dropWhile_cons] at h
      split at h
      · rename_i hc
        exact space hc (ih h)
      · exact h
  · intro h
    induction h with
    | nil => exact .nil
    | space hc h ih => rwa [skipSpace, List.dropWhile_cons_of_pos hc]
    | token hp hb h ih =>
      obtain ⟨c, cs, hcs, hspace, -⟩ := hp.exists_head
      rw [hcs, List.cons_append, skipSpace_cons _ hspace, ← List.cons_append, ← hcs]
      exact token hp hb h

theorem next {cs : List Char} {tok : Token} {ts : List Token} (h : Lexes cs (tok :: ts)) :
    ∃ rest, skipSpace cs = tok.text ++ rest ∧ tok.Proper ∧ (tok.IsBare → Boundary rest) ∧
      Lexes rest ts := by
  generalize hall : tok :: ts = all at h
  induction h with
  | nil => cases hall
  | space hc h ih =>
    rw [skipSpace, List.dropWhile_cons_of_pos hc]
    exact ih hall
  | token hp hb h ih =>
    obtain ⟨rfl, rfl⟩ := List.cons.inj hall
    refine ⟨_, ?_, hp, hb, h⟩
    obtain ⟨c, cs, hcs, hspace, -⟩ := hp.exists_head
    rw [hcs, List.cons_append, skipSpace_cons _ hspace]

theorem skipSpace_eq_nil {cs : List Char} (h : Lexes cs []) : skipSpace cs = [] := by
  generalize hall : ([] : List Token) = all at h
  induction h with
  | nil => rfl
  | space hc h ih =>
    rw [skipSpace, List.dropWhile_cons_of_pos hc]
    exact ih hall
  | token => cases hall

/-- A word or numeral ends where a token of another kind is next. -/
theorem boundary {cs : List Char} {ts : List Token} (h : Lexes cs ts)
    (hts : ∀ tok ∈ ts.head?, ¬ tok.IsBare) : Boundary cs := by
  cases h with
  | nil =>
    intro d hd
    cases hd
  | space hc _ =>
    intro d hd
    rw [← Option.some.inj hd]
    exact not_isBare_of_isSpace hc
  | token hp _ _ =>
    obtain ⟨c, cs, hcs, -, hkind⟩ := hp.exists_head
    intro d hd
    obtain rfl : c = d := by simpa [hcs] using hd
    rcases hkind with ⟨hc, -⟩ | ⟨rfl, -⟩ | ⟨-, w, rfl⟩
    · exact not_isBare_of_isMark hc
    · decide
    · exact absurd trivial (hts _ rfl)

theorem of_literal {body rest : List Char} {ts : List Token} (hbody : IsBody body) (h : Lexes rest ts) :
    Lexes ('"' :: (body ++ '"' :: rest)) (.literal body :: ts) := by
  have hp : (Token.literal body).Proper := hbody
  have htext : '"' :: (body ++ '"' :: rest) = (Token.literal body).text ++ rest := by
    simp [Token.text]
  rw [htext]
  exact token hp False.elim h

theorem append_spaces {blanks rest : List Char} {ts : List Token}
    (hblanks : ∀ c ∈ blanks, isSpace c = true) (h : Lexes rest ts) : Lexes (blanks ++ rest) ts := by
  induction blanks with
  | nil => exact h
  | cons c blanks ih =>
    rw [List.forall_mem_cons] at hblanks
    exact space hblanks.1 (ih hblanks.2)

theorem proper {cs : List Char} {ts : List Token} (h : Lexes cs ts) : ∀ tok ∈ ts, tok.Proper := by
  induction h with
  | nil => simp
  | space _ _ ih => exact ih
  | token hp _ _ ih =>
    rw [List.forall_mem_cons]
    exact ⟨hp, ih⟩

theorem length_le {cs : List Char} {ts : List Token} (h : Lexes cs ts) : ts.length ≤ cs.length := by
  induction h with
  | nil => exact Nat.le_refl 0
  | space _ _ ih => exact Nat.le_succ_of_le ih
  | token hp _ _ ih =>
    obtain ⟨c, cs, hcs, -⟩ := hp.exists_head
    rw [hcs, List.length_cons, List.cons_append, List.length_cons, List.length_append]
    omega

end Lexes

end GroovyWorkspace.Json
