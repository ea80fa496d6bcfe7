import GroovyWorkspace.Proofs.Except
import GroovyWorkspace.Proofs.Json.Token

/-!
# Words, numerals and literals

What the readers of scalars take from a text does not depend on what stands behind it: a word or a
numeral is the same in front of every text in which it cannot go on (`ReadsBare`), and a literal ends
at its own quote (`literal_eq_ok`).
-/

namespace GroovyWorkspace.Json

/-- Of `cs` a reader takes the bare characters in front of `rest`, and the same ones in front of every
boundary. -/
def TakesBare {α : Type} (read : Reader α) (cs : List Char) (a : α) (rest : List Char) : Prop :=
  ∃ w, cs = w ++ rest ∧ (∀ c ∈ w, isBare c = true) ∧
    ∀ other, Boundary other → read (w ++ other) = .ok (a, other)

/-- A reader of words or numerals. -/
def ReadsBare {α : Type} (read : Reader α) : Prop :=
  ∀ ⦃cs : List Char⦄ ⦃a : α⦄ ⦃rest : List Char⦄, read cs = .ok (a, rest) → TakesBare read cs a rest

/-- A first character that only selects the reader of the rest. -/
theorem TakesBare.cons {α : Type} {read more : Reader α} {c : Char} {cs rest : List Char} {a : α}
    (hc : isBare c = true) (hread : ∀ tail, read (c :: tail) = more tail)
    (h : TakesBare more cs a rest) : TakesBare read (c :: cs) a rest := by
  obtain ⟨w, rfl, hw, hother⟩ := h
  refine ⟨c :: w, rfl, ?_, ?_⟩
  · rw [List.forall_mem_cons]
    exact ⟨hc, hw⟩
  · intro other hb
    rw [List.cons_append, hread, hother other hb]

/-- No digit stands at the start. -/
def NoDigit (cs : List Char) : Prop := ∀ c, cs.head? = some c → digit? c = none

theorem isBare_of_digit? {c : Char} {d : Nat} (h : digit? c = some d) : isBare c = true := by
  rw [digit?] at h
  split at h
  · rename_i hc
    simp [isBare, hc.1, hc.2]
  · cases h

theorem Boundary.noDigit {cs : List Char} (h : Boundary cs) : NoDigit cs := by
  intro c hc
  rw [Option.eq_none_iff_forall_ne_some]
  intro d hd
  have hbare := h c hc
  rw [isBare_of_digit? hd] at hbare
  cases hbare

/-- Whether a digit follows is settled by the characters taken, or by the boundary behind them. -/
theorem NoDigit.of_append {w rest other : List Char} (h : NoDigit (w ++ rest)) (hb : Boundary other) :
    NoDigit (w ++ other) := by
  cases w with
  | nil => exact hb.noDigit
  | cons c w => exact h

theorem digits_of_noDigit {cs : List Char} (h : NoDigit cs) : digits cs = ([], cs) := by
  cases cs with
  | nil => rfl
  | cons c rest => rw [digits, h c rfl]

/-- The digits at the start of a text end where no digit follows. -/
theorem exists_digits (cs : List Char) :
    ∃ w, cs = w ++ (digits cs).2 ∧ (∀ c ∈ w, isBare c = true) ∧ NoDigit (digits cs).2 ∧
      ∀ other, NoDigit other → digits (w ++ other) = ((digits cs).1, other) := by
  induction cs with
  | nil => exact ⟨[], rfl, by simp, by simp [digits, NoDigit], fun _ => digits_of_noDigit⟩
  | cons c rest ih =>
    cases hd : digit? c with
    | none =>
      have hno : NoDigit (c :: rest) := by
        intro d h
        rwa [← Option.some.inj h]
      rw [digits_of_noDigit hno]
      exact ⟨[], rfl, by simp, hno, fun _ => digits_of_noDigit⟩
    | some d =>
      obtain ⟨w, heq, hw, hno, hother⟩ := ih
      have hstep : ∀ tail, digits (c :: tail) = (d :: (digits tail).1, (digits tail).2) := by
        intro tail
        rw [digits, hd]
      rw [hstep]
      refine ⟨c :: w, by rw [List.cons_append, ← heq], ?_, hno, ?_⟩
      · rw [List.forall_mem_cons]
        exact ⟨isBare_of_digit? hd, hw⟩
      · intro other h
        rw [List.cons_append, hstep, hother other h]

/-! ## Exponents -/

theorem exponentDigits_of_noDigit {value : Nat} {cs : List Char} (h : NoDigit cs) :
    exponentDigits value cs = (some value, cs) := by
  cases cs with
  | nil => rfl
  | cons c rest => rw [exponentDigits, h c rfl]

/-- An exponent that is not too large ends where no digit follows. -/
theorem exponentDigits_eq_some {value e : Nat} {cs rest : List Char}
    (h : exponentDigits value cs = (some e, rest)) :
    ∃ w, cs = w ++ rest ∧ (∀ c ∈ w, isBare c = true) ∧
      ∀ other, NoDigit other → exponentDigits value (w ++ other) = (some e, other) := by
  induction cs generalizing value with
  | nil =>
    simp only [exponentDigits, Prod.mk.injEq, Option.some.injEq] at h
    obtain ⟨rfl, rfl⟩ := h
    exact ⟨[], rfl, by simp, fun _ => exponentDigits_of_noDigit⟩
  | cons c cs ih =>
    rw [exponentDigits] at h
    cases hd : digit? c with
    | none =>
      simp only [hd, Prod.mk.injEq, Option.some.injEq] at h
      obtain ⟨rfl, rfl⟩ := h
      exact ⟨[], rfl, by simp, fun _ => exponentDigits_of_noDigit⟩
    | some d =>
      simp only [hd] at h
      split at h
      · rename_i hle
        obtain ⟨w, rfl, hw, hother⟩ := ih h
        refine ⟨c :: w, rfl, ?_, ?_⟩
        · rw [List.forall_mem_cons]
          exact ⟨isBare_of_digit? hd, hw⟩
        · intro other hno
          simp only [List.cons_append, exponentDigits, hd, if_pos hle, hother other hno]
      · cases h

/-- An exponent that is too large ends at the digit that is too much. -/
theorem exponentDigits_eq_none {value : Nat} {cs rest : List Char}
    (h : exponentDigits value cs = (none, rest)) :
    ∃ w, cs = w ++ rest ∧ (∀ c ∈ w, isBare c = true) ∧
      ∀ other, exponentDigits value (w ++ other) = (none, other) := by
  induction cs generalizing value with
  | nil => cases h
  | cons c cs ih =>
    rw [exponentDigits] at h
    cases hd : digit? c with
    | none => simp [hd] at h
    | some d =>
      simp only [hd] at h
      split at h
      · rename_i hle
        obtain ⟨w, rfl, hw, hother⟩ := ih h
        refine ⟨c :: w, rfl, ?_, ?_⟩
        · rw [List.forall_mem_cons]
          exact ⟨isBare_of_digit? hd, hw⟩
        · intro other
          simp only [List.cons_append, exponentDigits, hd, if_pos hle, hother other]
      · rename_i hlt
        obtain rfl : cs = rest := by simpa using h
        refine ⟨[c], rfl, ?_, ?_⟩
        · rw [List.forall_mem_singleton]
          exact isBare_of_digit? hd
        · intro other
          simp only [List.cons_append, List.nil_append, exponentDigits, hd, if_neg hlt]

theorem exponentBody_eq_ok {n : Numeral} {negative : Bool} {cs rest : List Char} {v : Value}
    (h : exponentBody n negative cs = .ok (v, rest)) :
    ∃ c w, (digit? c).isSome = true ∧ cs = c :: w ++ rest ∧ (∀ x ∈ c :: w, isBare x = true) ∧
      ∀ other, Boundary other → exponentBody n negative (c :: w ++ other) = .ok (v, other) := by
  cases cs with
  | nil => cases h
  | cons c cs =>
    rw [exponentBody] at h
    cases hd : digit? c with
    | none => simp [hd] at h
    | some d =>
      simp only [hd] at h
      split at h
      · rename_i e after he
        obtain ⟨w, rfl, hw, hother⟩ := exponentDigits_eq_some he
        split at h
        · rename_i u hu
          obtain ⟨rfl, rfl⟩ : u = v ∧ after = rest := by simpa using h
          refine ⟨c, w, by rw [hd]; rfl, rfl, ?_, ?_⟩
          · rw [List.forall_mem_cons]
            exact ⟨isBare_of_digit? hd, hw⟩
          · intro other hb
            simp only [List.cons_append, exponentBody, hd, hother other hb.noDigit, hu]
        · cases h
      · rename_i after he
        obtain ⟨w, rfl, hw, hother⟩ := exponentDigits_eq_none he
        split at h
        · cases h
        · rename_i hrange
          obtain ⟨more, hmore, hmorebare, -, hdigits⟩ := exists_digits after
          simp only [Except.ok.injEq, Prod.mk.injEq] at h
          obtain ⟨hv, hrest⟩ := h
          rw [hrest] at hmore
          refine ⟨c, w ++ more, by rw [hd]; rfl, by rw [hmore]; simp, ?_, ?_⟩
          · rw [List.forall_mem_cons, List.forall_mem_append]
            exact ⟨isBare_of_digit? hd, hw, hmorebare⟩
          · intro other hb
            simp only [List.cons_append, List.append_assoc, exponentBody, hd, hother,
              if_neg hrange, hdigits other hb.noDigit, hv]

/-! ## Numerals and words -/

theorem numeralExponent_of_boundary {n : Numeral} {v : Value} {cs : List Char} (h : Boundary cs)
    (hv : n.value? = some v) : numeralExponent n cs = .ok (v, cs) := by
  cases cs with
  | nil => rw [numeralExponent, hv]
  | cons c rest =>
    have hc : ¬ (c = 'e' ∨ c = 'E') := by
      rintro (rfl | rfl)
      all_goals exact absurd (h _ rfl) (by decide)
    unfold numeralExponent
    dsimp only
    rw [if_neg hc, hv]

theorem numeralExponent_digit {n : Numeral} {e c : Char} {cs : List Char} (he : e = 'e' ∨ e = 'E')
    (hc : (digit? c).isSome = true) :
    numeralExponent n (e :: c :: cs) = exponentBody n false (c :: cs) := by
  unfold numeralExponent
  dsimp only
  rw [if_pos he]
  split
  · rename_i heq
    rw [(List.cons.inj heq).1] at hc
    cases hc
  · rename_i heq
    rw [(List.cons.inj heq).1] at hc
    cases hc
  · rfl

theorem readsBare_numeralExponent (n : Numeral) : ReadsBare (numeralExponent n) := by
  intro cs v rest h
  -- without an exponent nothing is taken
  have hnone : n.value? = some v → TakesBare (numeralExponent n) rest v rest := by
    intro hv
    exact ⟨[], rfl, by simp, fun _ hb => numeralExponent_of_boundary hb hv⟩
  cases cs with
  | nil =>
    rw [numeralExponent] at h
    split at h
    · rename_i u hu
      obtain ⟨rfl, rfl⟩ : u = v ∧ [] = rest := by simpa using h
      exact hnone hu
    · cases h
  | cons e cs =>
    unfold numeralExponent at h
    dsimp only at h
    split at h
    · rename_i he
      have hbare : isBare e = true := by rcases he with rfl | rfl <;> decide
      have hsign : ∀ tail, numeralExponent n (e :: '+' :: tail) = exponentBody n false tail ∧
          numeralExponent n (e :: '-' :: tail) = exponentBody n true tail :=
        fun _ => ⟨if_pos he, if_pos he⟩
      have hmore : ∀ tail,
          numeralExponent n (e :: tail) = (fun cs => numeralExponent n (e :: cs)) tail := fun _ => rfl
      split at h
      · refine .cons hbare hmore (.cons (by decide) (fun tail => (hsign tail).1) ?_)
        obtain ⟨c, w, -, hcs, hw, hother⟩ := exponentBody_eq_ok h
        exact ⟨c :: w, hcs, hw, hother⟩
      · refine .cons hbare hmore (.cons (by decide) (fun tail => (hsign tail).2) ?_)
        obtain ⟨c, w, -, hcs, hw, hother⟩ := exponentBody_eq_ok h
        exact ⟨c :: w, hcs, hw, hother⟩
      · refine .cons hbare hmore ?_
        obtain ⟨c, w, hc, hcs, hw, hother⟩ := exponentBody_eq_ok h
        refine ⟨c :: w, hcs, hw, ?_⟩
        intro other hb
        rw [← hother other hb]
        exact numeralExponent_digit he hc
    · split at h
      · rename_i u hu
        obtain ⟨rfl, rfl⟩ : u = v ∧ e :: cs = rest := by simpa using h
        exact hnone hu
      · cases h

theorem numeralTail_of_ne_point {n : Numeral} {cs : List Char} (h : cs.head? ≠ some '.') :
    numeralTail n cs = numeralExponent n cs := by
  rw [numeralTail]
  rintro rest rfl
  exact h rfl

theorem readsBare_numeralTail (n : Numeral) : ReadsBare (numeralTail n) := by
  intro cs v rest h
  by_cases hpoint : cs.head? = some '.'
  · obtain ⟨cs, rfl⟩ : ∃ tail, cs = '.' :: tail := List.head?_eq_some_iff.mp hpoint
    rw [numeralTail] at h
    obtain ⟨w, hcs, hw, hno, hdigits⟩ := exists_digits cs
    split at h
    · cases h
    · cases h
    · rename_i ds after hempty hne heq
      rw [heq] at hcs hno hdigits
      obtain ⟨more, hmore, hmorebare, hother⟩ := readsBare_numeralExponent _ h
      refine ⟨'.' :: (w ++ more), ?_, ?_, ?_⟩
      · rw [hcs, hmore]
        simp
      · rw [List.forall_mem_cons, List.forall_mem_append]
        exact ⟨by decide, hw, hmorebare⟩
      · intro other hb
        have hends : NoDigit (more ++ other) := by
          rw [hmore] at hno
          exact hno.of_append hb
        rw [List.cons_append, List.append_assoc, numeralTail, hdigits _ hends]
        cases ds with
        | nil => exact (hne rfl).elim
        | cons d ds => exact hother other hb
  · rw [numeralTail_of_ne_point hpoint] at h
    obtain ⟨w, rfl, hw, hother⟩ := readsBare_numeralExponent n h
    refine ⟨w, rfl, hw, ?_⟩
    intro other hb
    rw [← hother other hb]
    apply numeralTail_of_ne_point
    cases w with
    | nil =>
      intro hhead
      exact absurd (hb _ hhead) (by decide)
    | cons c w => exact hpoint

theorem readsBare_numeral (negative : Bool) : ReadsBare (numeral negative) := by
  intro cs v rest h
  cases cs with
  | nil => cases h
  | cons c cs =>
    rw [numeral] at h
    obtain ⟨w, hcs, hw, hno, hdigits⟩ := exists_digits cs
    split at h
    · cases h
    · rename_i hd
      split at h
      · rename_i after heq
        rw [heq] at hcs hno hdigits
        obtain ⟨more, hmore, hmorebare, hother⟩ := readsBare_numeralTail _ h
        refine ⟨c :: (w ++ more), ?_, ?_, ?_⟩
        · rw [hcs, hmore]
          simp
        · rw [List.forall_mem_cons, List.forall_mem_append]
          exact ⟨isBare_of_digit? hd, hw, hmorebare⟩
        · intro other hb
          rw [hmore] at hno
          rw [← hother other hb, List.cons_append, List.append_assoc, numeral]
          simp only [hd, hdigits _ (hno.of_append hb)]
      · cases h
    · rename_i d hzero hd
      obtain ⟨more, hmore, hmorebare, hother⟩ := readsBare_numeralTail _ h
      refine ⟨c :: (w ++ more), ?_, ?_, ?_⟩
      · rw [List.cons_append, List.append_assoc, ← hmore, ← hcs]
      · rw [List.forall_mem_cons, List.forall_mem_append]
        exact ⟨isBare_of_digit? hd, hw, hmorebare⟩
      · intro other hb
        rw [hmore] at hno
        rw [← hother other hb, List.cons_append, List.append_assoc, numeral]
        split
        · rename_i hd'
          rw [hd] at hd'
          cases hd'
        · rename_i hd'
          rw [hd] at hd'
          exact absurd (Option.some.inj hd') hzero
        · rename_i d' _ hd'
          obtain rfl : d = d' := Option.some.inj (hd.symm.trans hd')
          simp only [hdigits _ (hno.of_append hb)]

theorem word_eq_ok {u v : Value} {ws cs rest : List Char} (h : word v ws cs = .ok (u, rest)) :
    u = v ∧ cs = ws ++ rest := by
  induction ws generalizing cs with
  | nil =>
    obtain ⟨rfl, rfl⟩ : v = u ∧ cs = rest := by simpa [word] using h
    exact ⟨rfl, rfl⟩
  | cons w ws ih =>
    cases cs with
    | nil => cases h
    | cons c cs =>
      rw [word] at h
      split at h
      · rename_i hc
        obtain ⟨rfl, rfl⟩ := ih h
        exact ⟨rfl, by rw [hc]; rfl⟩
      · cases h

theorem readsBare_word (v : Value) {ws : List Char} (hws : ws.all isBare = true) :
    ReadsBare (word v ws) := by
  intro cs u rest h
  rw [List.all_eq_true] at hws
  have hword : ∀ other, word v ws (ws ++ other) = .ok (v, other) := by
    intro other
    clear h hws
    induction ws with
    | nil => rfl
    | cons w ws ih => rw [List.cons_append, word, if_pos rfl, ih]
  obtain ⟨rfl, rfl⟩ := word_eq_ok h
  exact ⟨ws, rfl, hws, fun other _ => hword other⟩

/-! ## Literals -/

theorem IsBody.append {body other : List Char} (h : IsBody body) (h' : IsBody other) :
    IsBody (body ++ other) := by
  induction h with
  | nil => exact h'
  | plain hquote hslash _ ih => exact plain hquote hslash ih
  | escaped _ ih => exact escaped ih

theorem IsBody.cons_hexDigit {c : Char} {d : Nat} {body : List Char} (hc : Text.hexDigit? c = some d)
    (h : IsBody body) : IsBody (c :: body) := by
  refine plain ?_ ?_ h
  all_goals
    rintro rfl
    cases hc

/-- Four hexadecimal digits are read the same in front of every text. -/
theorem hexWord_eq_ok {cs rest : List Char} {w : Nat} (h : hexWord cs = .ok (w, rest)) :
    ∃ ds, IsBody ds ∧ cs = ds ++ rest ∧ ∀ other, hexWord (ds ++ other) = .ok (w, other) := by
  unfold hexWord at h
  dsimp only at h
  split at h
  · rename_i a b c d tail
    split at h
    · rename_i wa wb wc wd ha hb hc hd
      simp only [Except.ok.injEq, Prod.mk.injEq] at h
      obtain ⟨rfl, rfl⟩ := h
      refine ⟨[a, b, c, d], ?_, rfl, ?_⟩
      · exact .cons_hexDigit ha (.cons_hexDigit hb (.cons_hexDigit hc (.cons_hexDigit hd .nil)))
      · intro other
        simp only [hexWord, List.cons_append, List.nil_append, ha, hb, hc, hd]
    · split at h <;> cases h
  · split at h <;> cases h

theorem lowSurrogate_eq_ok {high : Nat} {cs rest : List Char} {c : Char}
    (h : lowSurrogate high cs = .ok (c, rest)) :
    ∃ ds, IsBody ds ∧ cs = '\\' :: 'u' :: ds ++ rest ∧
      ∀ other, lowSurrogate high ('\\' :: 'u' :: ds ++ other) = .ok (c, other) := by
  unfold lowSurrogate at h
  split at h
  · cases h
  · obtain ⟨⟨low, after⟩, hword, hlast⟩ := bind_eq_ok.mp h
    obtain ⟨ds, hds, rfl, hother⟩ := hexWord_eq_ok hword
    dsimp only at hlast
    split at hlast
    · rename_i hlow
      simp only [Except.ok.injEq, Prod.mk.injEq] at hlast
      obtain ⟨rfl, rfl⟩ := hlast
      refine ⟨ds, hds, rfl, ?_⟩
      intro other
      simp only [List.cons_append, lowSurrogate]
      exact bind_eq_ok.mpr ⟨_, hother other, if_pos hlow⟩
    · cases hlast
  · cases h
  · cases h
  · cases h

/-- An escape is read the same in front of every text, and it ends no literal. -/
theorem escape_eq_ok {cs rest : List Char} {c : Char} (h : escape cs = .ok (c, rest)) :
    ∃ w, IsBody ('\\' :: w) ∧ cs = w ++ rest ∧ ∀ other, escape (w ++ other) = .ok (c, other) := by
  unfold escape at h
  split at h
  · cases h
  · rename_i e tail
    split at h
    case h_9 =>
      obtain ⟨⟨w, after⟩, hword, hlast⟩ := bind_eq_ok.mp h
      obtain ⟨ds, hds, rfl, hother⟩ := hexWord_eq_ok hword
      dsimp only at hlast
      split at hlast
      · cases hlast
      · rename_i hlow
        split at hlast
        · rename_i hhigh
          obtain ⟨more, hmore, rfl, hlater⟩ := lowSurrogate_eq_ok hlast
          refine ⟨'u' :: (ds ++ '\\' :: 'u' :: more), ?_, by simp, ?_⟩
          · exact .escaped (hds.append (.escaped hmore))
          · intro other
            simp only [List.cons_append, List.append_assoc, escape]
            refine bind_eq_ok.mpr ⟨_, hother _, ?_⟩
            dsimp only
            rw [if_neg hlow, if_pos hhigh]
            exact hlater other
        · rename_i hhigh
          simp only [Except.ok.injEq, Prod.mk.injEq] at hlast
          obtain ⟨rfl, rfl⟩ := hlast
          refine ⟨'u' :: ds, .escaped hds, rfl, ?_⟩
          intro other
          simp only [List.cons_append, escape]
          refine bind_eq_ok.mpr ⟨_, hother _, ?_⟩
          dsimp only
          rw [if_neg hlow, if_neg hhigh]
    case h_10 => cases h
    all_goals
      simp only [Except.ok.injEq, Prod.mk.injEq] at h
      obtain ⟨rfl, rfl⟩ := h
      exact ⟨[_], .escaped .nil, rfl, fun _ => rfl⟩

/-- The characters of a literal are those up to its first quote outside an escape, in front of every
text. -/
theorem literalUpTo_eq_ok {fuel : Nat} {cs rest ds : List Char}
    (h : literalUpTo fuel cs = .ok (ds, rest)) :
    ∃ body, IsBody body ∧ cs = body ++ '"' :: rest ∧
      ∀ other more, body.length < more → literalUpTo more (body ++ '"' :: other) = .ok (ds, other) := by
  induction fuel generalizing cs ds with
  | zero => cases h
  | succ fuel ih =>
    cases cs with
    | nil => cases h
    | cons c cs =>
      rw [literalUpTo] at h
      split at h
      · rename_i hc
        simp only [Except.ok.injEq, Prod.mk.injEq] at h
        obtain ⟨rfl, rfl⟩ := h
        refine ⟨[], .nil, by rw [hc]; rfl, ?_⟩
        intro other more hmore
        obtain ⟨more, rfl⟩ := Nat.exists_eq_succ_of_ne_zero (Nat.ne_of_gt hmore)
        rw [List.nil_append, literalUpTo, if_pos rfl]
      · rename_i hquote
        split at h
        · rename_i hslash
          obtain ⟨⟨d, after⟩, hescape, h⟩ := bind_eq_ok.mp h
          obtain ⟨⟨tail, after⟩, htail, h⟩ := bind_eq_ok.mp h
          simp only [Except.ok.injEq, Prod.mk.injEq] at h
          obtain ⟨rfl, rfl⟩ := h
          obtain ⟨w, hw, rfl, hescaped⟩ := escape_eq_ok hescape
          obtain ⟨body, hbody, rfl, hother⟩ := ih htail
          refine ⟨'\\' :: w ++ body, hw.append hbody, by rw [hslash]; simp, ?_⟩
          intro other more hmore
          obtain ⟨more, rfl⟩ := Nat.exists_eq_succ_of_ne_zero (Nat.ne_of_gt (Nat.zero_lt_of_lt hmore))
          rw [List.append_assoc, List.cons_append, literalUpTo, if_neg (by decide), if_pos rfl]
          refine bind_eq_ok.mpr ⟨_, hescaped _, bind_eq_ok.mpr ⟨_, hother other more ?_, rfl⟩⟩
          simp only [List.length_append, List.length_cons] at hmore
          omega
        · rename_i hslash
          split at h
          · cases h
          · rename_i hcontrol
            obtain ⟨⟨tail, after⟩, htail, h⟩ := bind_eq_ok.mp h
            simp only [Except.ok.injEq, Prod.mk.injEq] at h
            obtain ⟨rfl, rfl⟩ := h
            obtain ⟨body, hbody, rfl, hother⟩ := ih htail
            refine ⟨c :: body, .plain hquote hslash hbody, rfl, ?_⟩
            intro other more hmore
            obtain ⟨more, rfl⟩ := Nat.exists_eq_succ_of_ne_zero (Nat.ne_of_gt (Nat.zero_lt_of_lt hmore))
            rw [List.cons_append, literalUpTo, if_neg hquote, if_neg hslash, if_neg hcontrol]
            exact bind_eq_ok.mpr ⟨_, hother other more (Nat.lt_of_succ_lt_succ hmore), rfl⟩

/-- A literal ends at its own quote, whatever stands behind it. -/
theorem literal_eq_ok {cs rest : List Char} {s : String} (h : literal cs = .ok (s, rest)) :
    ∃ body, IsBody body ∧ cs = body ++ '"' :: rest ∧
      ∀ other, literal (body ++ '"' :: other) = .ok (s, other) := by
  obtain ⟨⟨ds, after⟩, hds, h⟩ := bind_eq_ok.mp h
  simp only [Except.ok.injEq, Prod.mk.injEq] at h
  obtain ⟨rfl, rfl⟩ := h
  obtain ⟨body, hbody, rfl, hother⟩ := literalUpTo_eq_ok hds
  refine ⟨body, hbody, rfl, ?_⟩
  intro other
  refine bind_eq_ok.mpr ⟨_, hother other _ ?_, rfl⟩
  rw [List.length_append]
  omega

/-- A literal that is read by itself is read in front of every text. -/
theorem literal_append {body : List Char} {s : String} (hbody : IsBody body)
    (h : literal (body ++ ['"']) = .ok (s, [])) (rest : List Char) :
    literal (body ++ '"' :: rest) = .ok (s, rest) := by
  obtain ⟨other, hother, heq, hread⟩ := literal_eq_ok h
  obtain ⟨rfl, -⟩ := hbody.append_quote_inj hother heq
  exact hread rest

end GroovyWorkspace.Json
