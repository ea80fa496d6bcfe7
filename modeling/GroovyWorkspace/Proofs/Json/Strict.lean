import GroovyWorkspace.Proofs.Json.Decoration

/-!
# Strict JSON

The grammar of JSON without the limits of a reader: lists and objects are nested to any depth, numerals
have any size, and an escape may name half of a surrogate pair. All that is read is strict JSON
(`isStrict_of_parse`). Strict JSON has no decoration, whatever its strings hold, and nothing is taken off
it (`plain_of_isStrict`).
-/

namespace GroovyWorkspace.Json

/-! ## The grammar -/

def isDigit (c : Char) : Bool := '0' ≤ c && c ≤ '9'

/-- Digits, at least one. -/
def IsDigits (cs : List Char) : Prop := cs ≠ [] ∧ ∀ c ∈ cs, isDigit c = true

/-- The whole part of a numeral: digits, of which zero is the first only if it is the only one. -/
def IsWhole (cs : List Char) : Prop := IsDigits cs ∧ (cs.head? = some '0' → cs = ['0'])

/-- The fraction of a numeral, which may be missing. -/
def IsFraction (cs : List Char) : Prop := cs = [] ∨ ∃ ds, IsDigits ds ∧ cs = '.' :: ds

/-- The exponent of a numeral, which may be missing. -/
def IsExponent (cs : List Char) : Prop :=
  cs = [] ∨ ∃ e sign ds, (e = 'e' ∨ e = 'E') ∧ (sign = [] ∨ sign = ['+'] ∨ sign = ['-']) ∧ IsDigits ds ∧
    cs = e :: (sign ++ ds)

/-- A numeral behind its sign. -/
def IsUnsigned (cs : List Char) : Prop :=
  ∃ whole fraction exponent, IsWhole whole ∧ IsFraction fraction ∧ IsExponent exponent ∧
    cs = whole ++ (fraction ++ exponent)

def IsNumeral (cs : List Char) : Prop := ∃ sign ds, (sign = [] ∨ sign = ['-']) ∧ IsUnsigned ds ∧ cs = sign ++ ds

def IsWord (cs : List Char) : Prop :=
  cs = ['n', 'u', 'l', 'l'] ∨ cs = ['t', 'r', 'u', 'e'] ∨ cs = ['f', 'a', 'l', 's', 'e']

def IsHexWord (cs : List Char) : Prop := cs.length = 4 ∧ ∀ c ∈ cs, (Text.hexDigit? c).isSome = true

/-- The characters between the quotes of a string. -/
inductive IsString : List Char → Prop
  | nil : IsString []
  | plain {c : Char} {body : List Char} (hquote : c ≠ '"') (hslash : c ≠ '\\') (hcontrol : 0x20 ≤ c.toNat)
    (h : IsString body) : IsString (c :: body)
  | letter {c : Char} {body : List Char} (hc : c ∈ ['"', '\\', '/', 'b', 'f', 'n', 'r', 't'])
    (h : IsString body) : IsString ('\\' :: c :: body)
  | code {ds body : List Char} (hds : IsHexWord ds) (h : IsString body) :
    IsString ('\\' :: 'u' :: (ds ++ body))

theorem isBody_of_isHexWord {ds : List Char} (h : IsHexWord ds) : IsBody ds := by
  obtain ⟨-, hds⟩ := h
  induction ds with
  | nil => exact .nil
  | cons c ds ih =>
    rw [List.forall_mem_cons] at hds
    obtain ⟨n, hn⟩ := Option.isSome_iff_exists.mp hds.1
    exact .cons_hexDigit hn (ih hds.2)

theorem IsString.isBody {body : List Char} (h : IsString body) : IsBody body := by
  induction h with
  | nil => exact .nil
  | plain hquote hslash _ _ ih => exact .plain hquote hslash ih
  | letter _ _ ih => exact .escaped ih
  | code hds _ ih => exact .escaped ((isBody_of_isHexWord hds).append ih)

/-- The parts of a text that the grammar derives. -/
inductive Part where
  | value
  | items
  | members

/-- The tokens of a value, of the items of a list, or of the members of an object. -/
inductive Derives : Part → List Token → Prop
  | word {w : List Char} (hw : IsWord w) : Derives .value [.bare w]
  | number {w : List Char} (hw : IsNumeral w) : Derives .value [.bare w]
  | string {body : List Char} (hbody : IsString body) : Derives .value [.literal body]
  | emptyList : Derives .value [.mark '[', .mark ']']
  | list {ts : List Token} (h : Derives .items ts) : Derives .value (.mark '[' :: (ts ++ [.mark ']']))
  | emptyObject : Derives .value [.mark '{', .mark '}']
  | object {ts : List Token} (h : Derives .members ts) : Derives .value (.mark '{' :: (ts ++ [.mark '}']))
  | item {ts : List Token} (h : Derives .value ts) : Derives .items ts
  | items {ts more : List Token} (h : Derives .value ts) (hmore : Derives .items more) :
    Derives .items (ts ++ .mark ',' :: more)
  | member {key : List Char} {ts : List Token} (hkey : IsString key) (h : Derives .value ts) :
    Derives .members (.literal key :: .mark ':' :: ts)
  | members {key : List Char} {ts more : List Token} (hkey : IsString key) (h : Derives .value ts)
    (hmore : Derives .members more) :
    Derives .members (.literal key :: .mark ':' :: (ts ++ .mark ',' :: more))

/-- A text of the tokens of a value. -/
def IsStrict (text : List Char) : Prop := ∃ toks, Lexes text toks ∧ Derives .value toks

/-! ## What is read -/

theorem isDigit_of_digit? {c : Char} {d : Nat} (h : digit? c = some d) : isDigit c = true := by
  unfold digit? at h
  split at h
  · rename_i hc
    simpa [isDigit] using hc
  · cases h

theorem eq_zero_of_digit? {c : Char} (h : digit? c = some 0) : c = '0' := by
  unfold digit? at h
  split at h
  · rename_i hc
    have hle : c.toNat ≤ 48 := Nat.le_of_sub_eq_zero (Option.some.inj h)
    exact Char.le_antisymm hle hc.1
  · cases h

theorem exists_digits_append {cs rest : List Char} {ds : List Nat} (h : digits cs = (ds, rest)) :
    ∃ w, cs = w ++ rest ∧ (∀ c ∈ w, isDigit c = true) ∧ w.length = ds.length := by
  induction cs generalizing ds with
  | nil =>
    cases h
    exact ⟨[], rfl, by simp, rfl⟩
  | cons c cs ih =>
    rw [digits] at h
    split at h
    · rename_i d hd
      cases h
      obtain ⟨w, hw, hdigits, hlength⟩ := ih rfl
      refine ⟨c :: w, by rw [List.cons_append, ← hw], ?_, by rw [List.length_cons, hlength]; rfl⟩
      exact List.forall_mem_cons.mpr ⟨isDigit_of_digit? hd, hdigits⟩
    · cases h
      exact ⟨[], rfl, by simp, rfl⟩

theorem exists_exponentDigits {value : Nat} {cs rest : List Char} {e : Option Nat}
    (h : exponentDigits value cs = (e, rest)) : ∃ w, cs = w ++ rest ∧ ∀ c ∈ w, isDigit c = true := by
  induction cs generalizing value with
  | nil =>
    cases h
    exact ⟨[], rfl, by simp⟩
  | cons c cs ih =>
    rw [exponentDigits] at h
    split at h
    · rename_i d hd
      have hc := isDigit_of_digit? hd
      split at h
      · obtain ⟨w, rfl, hw⟩ := ih h
        exact ⟨c :: w, rfl, List.forall_mem_cons.mpr ⟨hc, hw⟩⟩
      · cases h
        exact ⟨[c], rfl, List.forall_mem_singleton.mpr hc⟩
    · cases h
      exact ⟨[], rfl, by simp⟩

theorem isDigits_of_exponentBody {n : Numeral} {negative : Bool} {cs rest : List Char} {v : Value}
    (h : exponentBody n negative cs = .ok (v, rest)) : ∃ ds, IsDigits ds ∧ cs = ds ++ rest := by
  unfold exponentBody at h
  split at h
  · cases h
  · rename_i c cs
    split at h
    · cases h
    · rename_i d hd
      have hc := isDigit_of_digit? hd
      split at h
      · rename_i e after hafter
        obtain ⟨w, rfl, hw⟩ := exists_exponentDigits hafter
        split at h
        · cases h
          exact ⟨c :: w, ⟨List.cons_ne_nil _ _, List.forall_mem_cons.mpr ⟨hc, hw⟩⟩, rfl⟩
        · cases h
      · rename_i after hafter
        obtain ⟨w, rfl, hw⟩ := exists_exponentDigits hafter
        split at h
        · cases h
        · cases h
          obtain ⟨more, hmore, hdigits, -⟩ := exists_digits_append (Prod.eta (digits after)).symm
          refine ⟨c :: (w ++ more), ⟨List.cons_ne_nil _ _, ?_⟩, ?_⟩
          · rw [List.forall_mem_cons, List.forall_mem_append]
            exact ⟨hc, hw, hdigits⟩
          · rw [List.cons_append, List.append_assoc, ← hmore]

theorem isExponent_of_numeralExponent {n : Numeral} {cs rest : List Char} {v : Value}
    (h : numeralExponent n cs = .ok (v, rest)) : ∃ w, IsExponent w ∧ cs = w ++ rest := by
  unfold numeralExponent at h
  split at h
  · rename_i e cs
    split at h
    · rename_i he
      split at h
      · obtain ⟨ds, hds, rfl⟩ := isDigits_of_exponentBody h
        exact ⟨e :: '+' :: ds, .inr ⟨e, ['+'], ds, he, .inr (.inl rfl), hds, rfl⟩, rfl⟩
      · obtain ⟨ds, hds, rfl⟩ := isDigits_of_exponentBody h
        exact ⟨e :: '-' :: ds, .inr ⟨e, ['-'], ds, he, .inr (.inr rfl), hds, rfl⟩, rfl⟩
      · obtain ⟨ds, hds, rfl⟩ := isDigits_of_exponentBody h
        exact ⟨e :: ds, .inr ⟨e, [], ds, he, .inl rfl, hds, rfl⟩, rfl⟩
    · split at h
      · cases h
        exact ⟨[], .inl rfl, rfl⟩
      · cases h
  · split at h
    · cases h
      exact ⟨[], .inl rfl, rfl⟩
    · cases h

theorem isFraction_of_numeralTail {n : Numeral} {cs rest : List Char} {v : Value}
    (h : numeralTail n cs = .ok (v, rest)) :
    ∃ fraction exponent, IsFraction fraction ∧ IsExponent exponent ∧ cs = fraction ++ (exponent ++ rest) := by
  unfold numeralTail at h
  split at h
  · rename_i cs
    split at h
    · cases h
    · cases h
    · rename_i ds after _ hne hdigits
      obtain ⟨exponent, hexponent, rfl⟩ := isExponent_of_numeralExponent h
      obtain ⟨w, rfl, hw, hlength⟩ := exists_digits_append hdigits
      have hw' : w ≠ [] := by
        rintro rfl
        exact hne (List.eq_nil_of_length_eq_zero hlength.symm)
      exact ⟨'.' :: w, exponent, .inr ⟨w, ⟨hw', hw⟩, rfl⟩, hexponent, rfl⟩
  · obtain ⟨exponent, hexponent, rfl⟩ := isExponent_of_numeralExponent h
    exact ⟨[], exponent, .inl rfl, hexponent, rfl⟩

theorem isUnsigned_of_numeral {negative : Bool} {cs rest : List Char} {v : Value}
    (h : numeral negative cs = .ok (v, rest)) : ∃ w, IsUnsigned w ∧ cs = w ++ rest := by
  unfold numeral at h
  split at h
  · cases h
  · rename_i c cs
    split at h
    · cases h
    · rename_i hd
      split at h
      · rename_i after hdigits
        obtain ⟨w, rfl, -, hlength⟩ := exists_digits_append hdigits
        obtain rfl := List.eq_nil_of_length_eq_zero hlength
        obtain ⟨fraction, exponent, hfraction, hexponent, rfl⟩ := isFraction_of_numeralTail h
        obtain rfl := eq_zero_of_digit? hd
        have hwhole : IsWhole ['0'] := ⟨⟨by decide, List.all_eq_true.mp rfl⟩, fun _ => rfl⟩
        exact ⟨_, ⟨['0'], fraction, exponent, hwhole, hfraction, hexponent, rfl⟩, by simp⟩
      · cases h
    · rename_i d hzero hd
      obtain ⟨w, hw, hdigits, -⟩ := exists_digits_append (Prod.eta (digits cs)).symm
      obtain ⟨fraction, exponent, hfraction, hexponent, hrest⟩ := isFraction_of_numeralTail h
      have hwhole : IsWhole (c :: w) := by
        refine ⟨⟨List.cons_ne_nil _ _, List.forall_mem_cons.mpr ⟨isDigit_of_digit? hd, hdigits⟩⟩, ?_⟩
        intro hhead
        obtain rfl : c = '0' := Option.some.inj hhead
        exact absurd (Option.some.inj hd).symm hzero
      refine ⟨_, ⟨c :: w, fraction, exponent, hwhole, hfraction, hexponent, rfl⟩, ?_⟩
      rw [hw, hrest]
      simp

theorem isHexWord_of_hexWord {cs rest : List Char} {n : Nat} (h : hexWord cs = .ok (n, rest)) :
    ∃ ds, IsHexWord ds ∧ cs = ds ++ rest := by
  unfold hexWord at h
  dsimp only at h
  split at h
  · rename_i w x y z tail
    split at h
    · rename_i hw hx hy hz
      cases h
      exact ⟨[w, x, y, z], ⟨rfl, by simp [hw, hx, hy, hz]⟩, rfl⟩
    · split at h <;> cases h
  · split at h <;> cases h

theorem isHexWord_of_lowSurrogate {high : Nat} {cs rest : List Char} {c : Char}
    (h : lowSurrogate high cs = .ok (c, rest)) :
    ∃ ds, IsHexWord ds ∧ cs = '\\' :: 'u' :: (ds ++ rest) := by
  unfold lowSurrogate at h
  split at h
  · cases h
  · obtain ⟨⟨low, after⟩, hword, hlast⟩ := bind_eq_ok.mp h
    obtain ⟨ds, hds, rfl⟩ := isHexWord_of_hexWord hword
    dsimp only at hlast
    split at hlast
    · simp only [Except.ok.injEq, Prod.mk.injEq] at hlast
      exact ⟨ds, hds, by rw [hlast.2]⟩
    · cases hlast
  · cases h
  · cases h
  · cases h

theorem isString_of_escape {cs rest body : List Char} {c : Char} (h : escape cs = .ok (c, rest))
    (hbody : IsString body) : ∃ w, cs = w ++ rest ∧ IsString ('\\' :: (w ++ body)) := by
  unfold escape at h
  split at h
  · cases h
  · rename_i e tail
    split at h
    case h_9 =>
      obtain ⟨⟨n, after⟩, hword, hlast⟩ := bind_eq_ok.mp h
      obtain ⟨ds, hds, rfl⟩ := isHexWord_of_hexWord hword
      dsimp only at hlast
      split at hlast
      · cases hlast
      split at hlast
      · obtain ⟨ds', hds', rfl⟩ := isHexWord_of_lowSurrogate hlast
        refine ⟨'u' :: (ds ++ '\\' :: 'u' :: ds'), by simp, ?_⟩
        simpa using IsString.code hds (.code hds' hbody)
      · cases hlast
        exact ⟨'u' :: ds, rfl, .code hds hbody⟩
    case h_10 => cases h
    all_goals
      cases h
      exact ⟨[_], rfl, .letter (by simp) hbody⟩

theorem isString_of_literalUpTo {fuel : Nat} {cs ds rest : List Char}
    (h : literalUpTo fuel cs = .ok (ds, rest)) : ∃ body, IsString body ∧ cs = body ++ '"' :: rest := by
  induction fuel generalizing cs ds with
  | zero => cases h
  | succ fuel ih =>
    cases cs with
    | nil => cases h
    | cons c cs =>
      rw [literalUpTo] at h
      by_cases hquote : c = '"'
      · rw [if_pos hquote] at h
        cases h
        exact ⟨[], .nil, by rw [hquote]; rfl⟩
      rw [if_neg hquote] at h
      by_cases hslash : c = '\\'
      · rw [if_pos hslash] at h
        obtain ⟨⟨d, after⟩, hescape, h⟩ := bind_eq_ok.mp h
        obtain ⟨⟨tail, last⟩, htail, h⟩ := bind_eq_ok.mp h
        cases h
        obtain ⟨body, hbody, rfl⟩ := ih htail
        obtain ⟨w, rfl, hw⟩ := isString_of_escape hescape hbody
        exact ⟨'\\' :: (w ++ body), hw, by rw [hslash, List.cons_append, List.append_assoc]⟩
      rw [if_neg hslash] at h
      by_cases hcontrol : c.toNat < 0x20
      · rw [if_pos hcontrol] at h
        cases h
      rw [if_neg hcontrol] at h
      obtain ⟨⟨tail, last⟩, htail, h⟩ := bind_eq_ok.mp h
      cases h
      obtain ⟨body, hbody, rfl⟩ := ih htail
      exact ⟨c :: body, .plain hquote hslash (Nat.le_of_not_lt hcontrol) hbody, rfl⟩

theorem isString_of_literal {body : List Char} {s : String} (h : literal (body ++ ['"']) = .ok (s, [])) :
    IsString body := by
  obtain ⟨⟨ds, after⟩, hds, h⟩ := bind_eq_ok.mp h
  cases h
  obtain ⟨other, hother, heq⟩ := isString_of_literalUpTo hds
  rwa [List.append_cancel_right heq]

theorem isWord_or_isNumeral {w : List Char} {v : Value} (hw : (Token.bare w).Proper)
    (h : value 1 w = .ok (v, [])) : IsWord w ∨ IsNumeral w := by
  obtain ⟨c, cs, htext, hspace, hkind⟩ := hw.exists_head
  obtain rfl : w = c :: cs := htext
  simp only [value, skipSpace_cons _ hspace] at h
  have hword : ∀ {u : Value} {ws : List Char}, word u ws cs = .ok (v, []) → cs = ws := by
    intro u ws hread
    simpa using (word_eq_ok hread).2
  by_cases hn : c = 'n'
  · rw [if_pos hn] at h
    exact .inl (.inl (by rw [hn, hword h]))
  rw [if_neg hn] at h
  by_cases ht : c = 't'
  · rw [if_pos ht] at h
    exact .inl (.inr (.inl (by rw [ht, hword h])))
  rw [if_neg ht] at h
  by_cases hf : c = 'f'
  · rw [if_pos hf] at h
    exact .inl (.inr (.inr (by rw [hf, hword h])))
  rw [if_neg hf] at h
  by_cases hminus : c = '-'
  · rw [if_pos hminus] at h
    obtain ⟨ds, hds, hcs⟩ := isUnsigned_of_numeral h
    exact .inr ⟨['-'], ds, .inr rfl, hds, by rw [hminus, hcs, List.append_nil]; rfl⟩
  rw [if_neg hminus] at h
  by_cases hdigit : (digit? c).isSome = true
  · rw [if_pos hdigit] at h
    obtain ⟨ds, hds, hcs⟩ := isUnsigned_of_numeral h
    exact .inr ⟨[], ds, .inl rfl, hds, by rw [hcs, List.append_nil]; rfl⟩
  · have hbare : isBare c = true := hw.2 c List.mem_cons_self
    rw [if_neg hdigit, if_neg (by rintro rfl; cases hbare), if_neg (by rintro rfl; cases hbare),
      if_neg (by rintro rfl; cases hbare)] at h
    cases h

/-- The elements between two brackets, seen one by one. -/
theorem Listed.imp {α : Type} {P Q : α → List Token → Prop} {first : Bool} {as : List α}
    {toks : List Token} (h : Listed P first as toks) (himp : ∀ a ts, P a ts → ts ⊆ toks → Q a ts) :
    Listed Q first as toks := by
  induction h with
  | nil => exact .nil
  | first ha _ ih =>
    refine .first (himp _ _ ha fun tok htok => by simp [htok]) (ih fun a ts hts hsub => ?_)
    exact himp a ts hts fun tok htok => by simp [hsub htok]
  | next ha _ ih =>
    refine .next (himp _ _ ha fun tok htok => by simp [htok]) (ih fun a ts hts hsub => ?_)
    exact himp a ts hts fun tok htok => by simp [hsub htok]

def DerivesMember (ts : List Token) : Prop :=
  ∃ key us, ts = .literal key :: .mark ':' :: us ∧ IsString key ∧ Derives .value us

theorem DerivesMember.last {ts : List Token} (h : DerivesMember ts) : Derives .members ts := by
  obtain ⟨key, us, rfl, hkey, hus⟩ := h
  exact .member hkey hus

theorem DerivesMember.more {ts more : List Token} (h : DerivesMember ts) (hmore : Derives .members more) :
    Derives .members (ts ++ .mark ',' :: more) := by
  obtain ⟨key, us, rfl, hkey, hus⟩ := h
  exact .members hkey hus hmore

theorem Spells.derives {depth : Nat} {v : Value} {toks : List Token} (h : Spells depth v toks)
    (hproper : ∀ tok ∈ toks, tok.Proper) : Derives .value toks := by
  induction depth generalizing v toks with
  | zero => cases h
  | succ depth ih =>
    cases h with
    | bare h =>
      rcases isWord_or_isNumeral (hproper _ List.mem_cons_self) h with hw | hw
      · exact .word hw
      · exact .number hw
    | string h => exact .string (isString_of_literal h)
    | @array vs ts _ h =>
      have hinner : ∀ tok ∈ ts, tok.Proper := fun tok htok => hproper tok (by simp [htok])
      have hlisted : Listed (fun _ ts => Derives .value ts) true vs ts :=
        h.imp fun u us hu hsub => ih hu fun tok htok => hinner tok (hsub htok)
      rcases hlisted.exists_of (L := Derives .items) (fun _ _ => .item) fun _ _ _ => .items with
        rfl | ⟨us, hus, rfl⟩
      · exact .emptyList
      · exact .list hus
    | @object ms ts _ h =>
      have hinner : ∀ tok ∈ ts, tok.Proper := fun tok htok => hproper tok (by simp [htok])
      have hlisted : Listed (fun _ ts => DerivesMember ts) true ms ts := by
        refine h.imp ?_
        rintro _ _ ⟨hkey, hv⟩ hsub
        exact ⟨_, _, rfl, isString_of_literal hkey, ih hv fun tok htok => hinner tok (hsub (by simp [htok]))⟩
      rcases hlisted.exists_of (fun _ _ h => h.last) fun _ _ _ h hmore => h.more hmore with
        rfl | ⟨us, hus, rfl⟩
      · exact .emptyObject
      · exact .object hus

theorem isStrict_of_parse {text : List Char} {v : Value} (h : parse text = .ok v) : IsStrict text := by
  obtain ⟨toks, hlexes, hspells⟩ := parse_eq_ok_iff.mp h
  exact ⟨toks, hlexes, hspells.derives hlexes.proper⟩

/-! ## What is taken off -/

/-- The tokens that the grammar derives stand next to each other as they may. -/
theorem Derives.composed {part : Part} {toks : List Token} (h : Derives part toks) : Composed toks := by
  induction h with
  | word _ => exact .singleton trivial trivial
  | number _ => exact .singleton trivial trivial
  | string _ => exact .singleton trivial trivial
  | emptyList => exact .bracket (.inl rfl) (.inl rfl) (.inl rfl)
  | list _ ih => exact .bracket (.inl rfl) (.inl rfl) (.inr ih)
  | emptyObject => exact .bracket (.inr rfl) (.inr rfl) (.inl rfl)
  | object _ ih => exact .bracket (.inr rfl) (.inr rfl) (.inr ih)
  | item _ ih => exact ih
  | items _ _ ih ihmore => exact ih.append (.inr ⟨_, ihmore, rfl⟩)
  | member _ _ ih => exact ih.entry _
  | members _ _ _ ih ihmore => exact (ih.append (.inr ⟨_, ihmore, rfl⟩)).entry _

open Decorated

/-- Tokens that follow each other as they may are written as they are, with the white space between them.
That `out` ends in the token before, apart from white space, is what decides about commas. -/
theorem Lexes.written_eq {text : List Char} {toks : List Token} (h : Lexes text toks)
    {prev : Option Token} (hprev : ∀ p ∈ prev, p.Proper) (hchain : (prev.toList ++ toks).IsChain Follows)
    {out : List Char} (hout : (skipSpace out).head? = prev.bind fun p => p.text.getLast?) :
    written .code out text = text.reverse ++ out := by
  induction h generalizing prev out with
  | nil => exact written_nil _ _
  | @space c rest ts hc _ ih =>
    have hspace : written .code out (c :: rest) = written .code (c :: out) rest := by
      rcases isSpace_iff.mp hc with rfl | rfl | rfl | rfl <;> rfl
    have hskip : skipSpace (c :: out) = skipSpace out := List.dropWhile_cons_of_pos hc
    rw [hspace, ih hprev hchain (by rw [hskip, hout]), List.reverse_cons, List.append_assoc]
    rfl
  | @token tok rest ts hp hb _ ih =>
    have hbehind : ((some tok).toList ++ ts).IsChain Follows := (List.isChain_append.mp hchain).2.1
    rw [written_follows hp hprev (follows_of_isChain hchain) hout,
      ih (by simpa using hp) hbehind (hp.head?_skipSpace out), List.reverse_append, List.append_assoc]

/-- **Strict JSON has no decoration.** A text that is strict JSON is left as it is, character for
character, and so is every text that is read, since that is strict JSON. -/
theorem plain_of_isStrict {text : List Char} :
    (IsStrict text → plain text = text) ∧ ∀ v, parse text = .ok v → IsStrict text := by
  refine ⟨?_, fun v => isStrict_of_parse⟩
  rintro ⟨toks, hlexes, hderives⟩
  have hchain : toks.IsChain Follows := hderives.composed.chain.imp fun _ _ => Adjoins.follows
  have hnone : ∀ p ∈ (none : Option Token), p.Proper := by simp
  have hwritten : written .code [] text = text.reverse ++ [] := hlexes.written_eq hnone hchain rfl
  rw [plain_eq, hwritten, List.append_nil, List.reverse_reverse]

/-- Settings that no reader with limits takes: a numeral that is too large and half of a surrogate pair,
beside strings that look like decoration. -/
def overflowing : List Char :=
  "\x7b\"//,]\": [1e999 ,\n\t\"\\ud800\\\"/*\"]\x7d".toList

theorem isStrict_overflowing : IsStrict overflowing := by
  have hkey : IsString ['/', '/', ',', ']'] :=
    .plain (by decide) (by decide) (by decide) (.plain (by decide) (by decide) (by decide)
      (.plain (by decide) (by decide) (by decide) (.plain (by decide) (by decide) (by decide) .nil)))
  have hstring : IsString ['\\', 'u', 'd', '8', '0', '0', '\\', '"', '/', '*'] :=
    .code (show IsHexWord ['d', '8', '0', '0'] from ⟨rfl, List.all_eq_true.mp rfl⟩) (.letter (by decide)
      (.plain (by decide) (by decide) (by decide) (.plain (by decide) (by decide) (by decide) .nil)))
  have hwhole : IsWhole ['1'] := ⟨⟨by decide, List.all_eq_true.mp rfl⟩, by decide⟩
  have hexponent : IsExponent ['e', '9', '9', '9'] :=
    .inr ⟨'e', [], ['9', '9', '9'], .inl rfl, .inl rfl, ⟨by decide, List.all_eq_true.mp rfl⟩, rfl⟩
  have hnumber : IsNumeral ['1', 'e', '9', '9', '9'] :=
    ⟨[], _, .inl rfl, ⟨['1'], [], _, hwhole, .inl rfl, hexponent, rfl⟩, rfl⟩
  refine ⟨_, ?_, .object (.member hkey (.list (.items (.number hnumber) (.item (.string hstring)))))⟩
  have hmark : ∀ c, isMark c = true → (Token.mark c).Proper := fun _ h => h
  have hbare : (Token.bare ['1', 'e', '9', '9', '9']).Proper := ⟨by decide, List.all_eq_true.mp rfl⟩
  have hbehind : ∀ rest, Boundary (' ' :: rest) := by
    intro rest c hc
    obtain rfl : ' ' = c := Option.some.inj hc
    decide
  exact .token (hmark '{' rfl) False.elim (.of_literal hkey.isBody (.token (hmark ':' rfl) False.elim
    (.space rfl (.token (hmark '[' rfl) False.elim (.token hbare (fun _ => hbehind _) (.space rfl
      (.token (hmark ',' rfl) False.elim (.space rfl (.space rfl (.of_literal hstring.isBody
        (.token (hmark ']' rfl) False.elim (.token (hmark '}' rfl) False.elim .nil))))))))))))

/-- The settings are strict JSON and left as they are, although they cannot be read. -/
theorem plain_of_isStrict_overflowing :
    IsStrict overflowing ∧ (∀ v, parse overflowing ≠ .ok v) ∧ plain overflowing = overflowing :=
  ⟨isStrict_overflowing, fun _ h => (by cases h), plain_of_isStrict.1 isStrict_overflowing⟩

end GroovyWorkspace.Json
