import GroovyWorkspace.Proofs.Json.Grammar
import Mathlib.Data.List.Chain

/-!
# Tokens next to each other

In the tokens of a value, what may stand next to a token is told by the two tokens alone
(`Spells.composed`): behind the end of a value there is a comma, a colon or a closing bracket, and behind
a comma or a colon there is the start of one. Every closing bracket closes a list or an object that starts
before it (`Spells.matched`).
-/

namespace GroovyWorkspace.Json

namespace Token

def Opens (tok : Token) : Prop := tok = mark '[' ∨ tok = mark '{'

def Closes (tok : Token) : Prop := tok = mark ']' ∨ tok = mark '}'

/-- A token that a value can start with. -/
def Starts : Token → Prop
  | mark c => (mark c).Opens
  | _ => True

/-- A token that a value can end in. -/
def Ends : Token → Prop
  | mark c => (mark c).Closes
  | _ => True

theorem Opens.starts {tok : Token} (h : tok.Opens) : tok.Starts := by
  rcases h with rfl | rfl
  · exact .inl rfl
  · exact .inr rfl

theorem Closes.ends {tok : Token} (h : tok.Closes) : tok.Ends := by
  rcases h with rfl | rfl
  · exact .inl rfl
  · exact .inr rfl

theorem Starts.not_closes {tok : Token} (h : tok.Starts) : ¬ tok.Closes := by
  rintro (rfl | rfl)
  · simp [Starts, Opens] at h
  · simp [Starts, Opens] at h

end Token

/-! ## Neighbours -/

/-- The tokens that may stand next to each other in a value. -/
inductive Adjoins (a b : Token) : Prop
  | opened (ha : a.Opens) (hb : b.Starts ∨ b.Closes)
  | ended (ha : a.Ends) (hb : b = .mark ',' ∨ b = .mark ':' ∨ b.Closes)
  | parted (ha : a = .mark ',' ∨ a = .mark ':') (hb : b.Starts)

theorem Adjoins.ends_of_comma {a : Token} (h : Adjoins a (.mark ',')) : a.Ends := by
  cases h with
  | opened _ hb => simp [Token.Starts, Token.Opens, Token.Closes] at hb
  | ended ha _ => exact ha
  | parted _ hb => simp [Token.Starts, Token.Opens] at hb

theorem Adjoins.starts_of_colon {b : Token} (h : Adjoins (.mark ':') b) : b.Starts := by
  cases h with
  | opened ha _ => simp [Token.Opens] at ha
  | ended ha _ => simp [Token.Ends, Token.Closes] at ha
  | parted _ hb => exact hb

/-- Tokens that may stand next to each other, from the start of a value to the end of one. -/
structure Composed (toks : List Token) : Prop where
  ne_nil : toks ≠ []
  chain : toks.IsChain Adjoins
  head : ∀ tok ∈ toks.head?, tok.Starts
  last : ∀ tok ∈ toks.getLast?, tok.Ends

namespace Composed

theorem singleton {tok : Token} (hstarts : tok.Starts) (hends : tok.Ends) : Composed [tok] :=
  ⟨List.cons_ne_nil _ _, .singleton tok, by simpa using hstarts, by simpa using hends⟩

/-- A value, with others behind it from a comma on. -/
theorem append {ts more : List Token} (h : Composed ts)
    (hmore : more = [] ∨ ∃ next, Composed next ∧ more = .mark ',' :: next) : Composed (ts ++ more) := by
  rcases hmore with rfl | ⟨next, hnext, rfl⟩
  · rwa [List.append_nil]
  · refine ⟨List.append_ne_nil_of_left_ne_nil h.ne_nil _, ?_, ?_, ?_⟩
    · have hbehind : (.mark ',' :: next).IsChain Adjoins :=
        hnext.chain.cons fun y hy => .parted (.inl rfl) (hnext.head y hy)
      refine h.chain.append hbehind fun x hx y hy => .ended (h.last x hx) (.inl ?_)
      simpa using hy.symm
    · rw [List.head?_append_of_ne_nil _ h.ne_nil]
      exact h.head
    · rw [List.getLast?_append, List.getLast?_cons_of_ne_nil hnext.ne_nil,
        List.getLast?_eq_some_getLast hnext.ne_nil, Option.some_or,
        ← List.getLast?_eq_some_getLast hnext.ne_nil]
      exact hnext.last

theorem entry {ts : List Token} (h : Composed ts) (body : List Char) :
    Composed (.literal body :: .mark ':' :: ts) where
  ne_nil := List.cons_ne_nil _ _
  chain := by
    have hvalue : (.mark ':' :: ts).IsChain Adjoins :=
      h.chain.cons fun y hy => .parted (.inr rfl) (h.head y hy)
    refine hvalue.cons fun y hy => .ended trivial (.inr (.inl ?_))
    simpa using hy.symm
  head := by simp [Token.Starts]
  last := by
    rw [List.getLast?_cons_of_ne_nil (List.cons_ne_nil _ _), List.getLast?_cons_of_ne_nil h.ne_nil]
    exact h.last

theorem bracket {a b : Token} {ts : List Token} (ha : a.Opens) (hb : b.Closes)
    (h : ts = [] ∨ Composed ts) : Composed (a :: (ts ++ [b])) where
  ne_nil := List.cons_ne_nil _ _
  chain := by
    rcases h with rfl | h
    · exact List.isChain_pair.mpr (.opened ha (.inr hb))
    · have hinner : (ts ++ [b]).IsChain Adjoins := by
        refine h.chain.append (.singleton b) fun x hx y hy => .ended (h.last x hx) (.inr (.inr ?_))
        obtain rfl : b = y := by simpa using hy
        exact hb
      refine hinner.cons fun x hx => .opened ha (.inl (h.head x ?_))
      rwa [List.head?_append_of_ne_nil _ h.ne_nil] at hx
  head := by simpa using ha.starts
  last := by
    rw [← List.cons_append, List.getLast?_append]
    simpa using hb.ends

end Composed

/-- What holds of one element, and of one with others behind it, holds of the elements between two
brackets, up to the comma before them if there is one. -/
theorem Listed.exists_of {α : Type} {P : α → List Token → Prop} {L : List Token → Prop}
    (hone : ∀ a ts, P a ts → L ts) (hmore : ∀ a ts more, P a ts → L more → L (ts ++ .mark ',' :: more))
    {first : Bool} {as : List α} {toks : List Token} (h : Listed P first as toks) :
    toks = [] ∨ ∃ ts, L ts ∧ toks = bif first then ts else .mark ',' :: ts := by
  have hcons : ∀ {a : α} {ts more : List Token}, P a ts →
      (more = [] ∨ ∃ us, L us ∧ more = .mark ',' :: us) → L (ts ++ more) := by
    rintro a ts more ha (rfl | ⟨us, hus, rfl⟩)
    · rw [List.append_nil]
      exact hone a ts ha
    · exact hmore a ts us ha hus
  induction h with
  | nil => exact .inl rfl
  | first ha _ ih => exact .inr ⟨_, hcons ha ih, rfl⟩
  | next ha _ ih => exact .inr ⟨_, hcons ha ih, rfl⟩

/-- The elements between two brackets, with the comma before them if there is one. -/
theorem Listed.composed {α : Type} {P : α → List Token → Prop} (hP : ∀ a ts, P a ts → Composed ts)
    {first : Bool} {as : List α} {toks : List Token} (h : Listed P first as toks) :
    toks = [] ∨ ∃ ts, Composed ts ∧ toks = bif first then ts else .mark ',' :: ts :=
  h.exists_of hP fun a ts more ha hmore => (hP a ts ha).append (.inr ⟨more, hmore, rfl⟩)

theorem Spells.composed {depth : Nat} {v : Value} {toks : List Token} (h : Spells depth v toks) :
    Composed toks := by
  induction depth generalizing v toks with
  | zero => cases h
  | succ depth ih =>
    have hentry : ∀ m ts, EntrySpells (Spells depth) m ts → Composed ts := by
      rintro _ _ ⟨-, hv⟩
      exact (ih hv).entry _
    cases h with
    | bare _ => exact .singleton trivial trivial
    | string _ => exact .singleton trivial trivial
    | array _ hl =>
      refine .bracket (.inl rfl) (.inl rfl) ?_
      rcases hl.composed fun _ _ => ih with rfl | ⟨ts, hts, rfl⟩
      · exact .inl rfl
      · exact .inr hts
    | object _ hl =>
      refine .bracket (.inr rfl) (.inr rfl) ?_
      rcases hl.composed hentry with rfl | ⟨ts, hts, rfl⟩
      · exact .inl rfl
      · exact .inr hts

/-! ## Closing brackets -/

/-- The tokens between an opening and a closing bracket. -/
inductive Encloses : Char → Char → List Token → Prop
  | array {depth : Nat} {vs : List Value} {ts : List Token} (h : Listed (Spells depth) true vs ts) :
    Encloses '[' ']' ts
  | object {depth : Nat} {ms : List (String × Value)} {ts : List Token}
    (h : Listed (EntrySpells (Spells depth)) true ms ts) : Encloses '{' '}' ts

theorem Encloses.opens {a b : Char} {ts : List Token} (h : Encloses a b ts) : (Token.mark a).Opens := by
  cases h with
  | array _ => exact .inl rfl
  | object _ => exact .inr rfl

/-- Every closing bracket closes a list or an object. -/
def Matched (toks : List Token) : Prop :=
  ∀ ts c us, toks = ts ++ .mark c :: us → (Token.mark c).Closes →
    ∃ before a inner, ts = before ++ .mark a :: inner ∧ Encloses a c inner

namespace Matched

theorem nil : Matched [] := by
  intro ts c us heq
  simp at heq

theorem append {xs ys : List Token} (hxs : Matched xs) (hys : Matched ys) : Matched (xs ++ ys) := by
  intro ts c us heq hc
  rcases List.append_eq_append_iff.mp heq with ⟨front, rfl, hfront⟩ | ⟨cut, rfl, hcut⟩
  · obtain ⟨before, a, inner, rfl, hinner⟩ := hys _ _ _ hfront hc
    exact ⟨xs ++ before, a, inner, (List.append_assoc _ _ _).symm, hinner⟩
  · cases cut with
    | nil =>
      obtain ⟨before, a, inner, hbefore, -⟩ := hys [] c us hcut.symm hc
      simp at hbefore
    | cons tok cut =>
      obtain ⟨rfl, -⟩ := List.cons.inj hcut
      exact hxs _ _ _ rfl hc

theorem cons {tok : Token} {ts : List Token} (htok : ¬ tok.Closes) (h : Matched ts) :
    Matched (tok :: ts) := by
  intro front c us heq hc
  cases front with
  | nil => exact absurd ((List.cons.inj heq).1 ▸ hc) htok
  | cons d front =>
    obtain ⟨rfl, rfl⟩ := List.cons.inj heq
    obtain ⟨before, a, inner, rfl, hinner⟩ := h _ _ _ rfl hc
    exact ⟨tok :: before, a, inner, rfl, hinner⟩

theorem bracket {a b : Char} {inner : List Token} (ha : ¬ (Token.mark a).Closes)
    (h : Encloses a b inner) (hinner : Matched inner) : Matched (.mark a :: (inner ++ [.mark b])) := by
  intro ts c us heq hc
  rcases List.eq_nil_or_concat us with rfl | ⟨more, last, rfl⟩
  · obtain ⟨rfl, hlast⟩ : .mark a :: inner = ts ∧ [Token.mark b] = [.mark c] :=
      List.append_inj' heq rfl
    obtain rfl : b = c := by simpa using hlast
    exact ⟨[], a, inner, rfl, h⟩
  · have hconcat : (.mark a :: inner) ++ [.mark b] = (ts ++ .mark c :: more) ++ [last] := by
      simpa using heq
    exact cons ha hinner _ _ _ (List.append_inj' hconcat rfl).1 hc

end Matched

theorem Listed.matched {α : Type} {P : α → List Token → Prop} (hP : ∀ a ts, P a ts → Matched ts)
    {first : Bool} {as : List α} {toks : List Token} (h : Listed P first as toks) : Matched toks := by
  induction h with
  | nil => exact .nil
  | first ha _ ih => exact (hP _ _ ha).append ih
  | next ha _ ih => exact .cons (by simp [Token.Closes]) ((hP _ _ ha).append ih)

/-- Every closing bracket among the tokens of a value closes a list or an object. -/
theorem Spells.matched {depth : Nat} {v : Value} {toks : List Token} (h : Spells depth v toks) :
    Matched toks := by
  induction depth generalizing v toks with
  | zero => cases h
  | succ depth ih =>
    have hentry : ∀ m ts, EntrySpells (Spells depth) m ts → Matched ts := by
      rintro _ _ ⟨-, hv⟩
      exact .cons (by simp [Token.Closes]) (.cons (by simp [Token.Closes]) (ih hv))
    cases h with
    | bare _ => exact .cons (by simp [Token.Closes]) .nil
    | string _ => exact .cons (by simp [Token.Closes]) .nil
    | array _ hl => exact .bracket (by simp [Token.Closes]) (.array hl) (hl.matched fun _ _ => ih)
    | object _ hl => exact .bracket (by simp [Token.Closes]) (.object hl) (hl.matched hentry)

end GroovyWorkspace.Json
