import GroovyWorkspace.Json.Decorated
import GroovyWorkspace.Proofs.Json.Token

/-!
# What is written of a decorated text

The text without decoration is written from left to right and kept backwards. The lemmas say what each
piece of a text adds to what has been written: comments add nothing, tokens add themselves, and a closing
bracket first drops a comma that ends a value.
-/

namespace GroovyWorkspace.Json.Decorated

/-- What is written, backwards, when `text` is read in `mode` and `out` has been written before. -/
def written (mode : Mode) (out text : List Char) : List Char :=
  (taggedFrom mode text).foldl emit out

theorem plain_eq (text : List Char) : plain text = (written .code [] text).reverse := rfl

@[simp] theorem written_nil (mode : Mode) (out : List Char) : written mode out [] = out := by
  cases mode <;> rfl

/-! ## Comments -/

theorem written_line {body : List Char} (h : '\n' ∉ body) (out rest : List Char) :
    written .line out (body ++ '\n' :: rest) = written .code ('\n' :: out) rest := by
  induction body with
  | nil => rfl
  | cons c body ih =>
    rw [List.mem_cons, not_or] at h
    rw [← ih h.2, List.cons_append, written, taggedFrom, if_neg (Ne.symm h.1)]
    rfl

theorem written_line_end {body : List Char} (h : '\n' ∉ body) (out : List Char) :
    written .line out body = out := by
  induction body with
  | nil => rfl
  | cons c body ih =>
    rw [List.mem_cons, not_or] at h
    refine Eq.trans ?_ (ih h.2)
    rw [written, taggedFrom, if_neg (Ne.symm h.1)]
    rfl

/-- A block comment ends at the first asterisk with a slash behind it. The asterisk right before the
body, if there is one, must not be it. -/
theorem written_block {body : List Char} (h : ¬ ['*', '/'] <:+: body) {star : Bool}
    (hstar : star = true → body.head? ≠ some '/') (out rest : List Char) :
    written (.block star) out (body ++ '*' :: '/' :: rest) = written .code out rest := by
  induction body generalizing star with
  | nil => cases star <;> rfl
  | cons c body ih =>
    have hopen : ¬ (star = true ∧ c = '/') := by
      rintro ⟨hs, rfl⟩
      exact hstar hs rfl
    have hnext : decide (c = '*') = true → body.head? ≠ some '/' := by
      intro hc hhead
      obtain ⟨tail, rfl⟩ := List.head?_eq_some_iff.mp hhead
      obtain rfl : c = '*' := of_decide_eq_true hc
      exact h (List.infix_append [] ['*', '/'] tail)
    rw [← ih (fun hi => h (List.infix_cons hi)) hnext, List.cons_append, written, taggedFrom,
      if_neg hopen]
    rfl

/-! ## Tokens -/

/-- Characters that neither quote, nor open a comment, nor close a bracket are written. -/
theorem written_code {c : Char} (hquote : c ≠ '"') (hslash : c ≠ '/') (hclose : ¬ (c = '}' ∨ c = ']'))
    (out rest : List Char) : written .code out (c :: rest) = written .code (c :: out) rest := by
  rw [written, taggedFrom, if_neg hquote, if_neg (fun h => hslash h.1), if_neg (fun h => hslash h.1),
    List.foldl_cons, emit, if_neg hclose]
  rfl

theorem written_close {c : Char} (h : c = '}' ∨ c = ']') (out rest : List Char) :
    written .code out (c :: rest) = written .code (c :: dropComma out) rest := by
  rcases h with rfl | rfl <;> rfl

theorem written_bare {w : List Char} (h : ∀ c ∈ w, isBare c = true) (out rest : List Char) :
    written .code out (w ++ rest) = written .code (w.reverse ++ out) rest := by
  induction w generalizing out with
  | nil => rfl
  | cons c w ih =>
    rw [List.forall_mem_cons] at h
    have hcode : written .code out (c :: (w ++ rest)) = written .code (c :: out) (w ++ rest) := by
      have hc := h.1
      apply written_code
      · rintro rfl; cases hc
      · rintro rfl; cases hc
      · rintro (rfl | rfl) <;> cases hc
    rw [List.cons_append, hcode, ih h.2, List.reverse_cons, List.append_assoc]
    rfl

theorem written_quoted {body : List Char} (h : IsBody body) (out rest : List Char) :
    written .quoted out (body ++ '"' :: rest) = written .code ('"' :: (body.reverse ++ out)) rest := by
  induction h generalizing out with
  | nil => rfl
  | @plain c body hquote hslash h ih =>
    have hstep : written .quoted out (c :: (body ++ '"' :: rest)) =
        written .quoted (c :: out) (body ++ '"' :: rest) := by
      rw [written, taggedFrom, if_neg hslash, if_neg hquote]
      rfl
    rw [List.cons_append, hstep, ih, List.reverse_cons, List.append_assoc]
    rfl
  | @escaped c body h ih =>
    have hstep : written .quoted out ('\\' :: c :: (body ++ '"' :: rest)) =
        written .quoted (c :: '\\' :: out) (body ++ '"' :: rest) := rfl
    rw [List.cons_append, List.cons_append, hstep, ih]
    simp

theorem written_token {tok : Token} (hp : tok.Proper) (h : tok ≠ .mark '}' ∧ tok ≠ .mark ']')
    (out rest : List Char) :
    written .code out (tok.text ++ rest) = written .code (tok.text.reverse ++ out) rest := by
  cases tok with
  | mark c =>
    have hc : isMark c = true := hp
    apply written_code
    · rintro rfl; cases hc
    · rintro rfl; cases hc
    · rintro (rfl | rfl)
      · exact h.1 rfl
      · exact h.2 rfl
  | literal body =>
    have hopen : written .code out ('"' :: (body ++ '"' :: rest)) =
        written .quoted ('"' :: out) (body ++ '"' :: rest) := rfl
    rw [Token.text, List.cons_append, List.append_assoc, List.singleton_append, hopen,
      written_quoted hp]
    simp
  | bare w => exact written_bare hp.2 out rest

/-! ## Commas before a closing bracket -/

theorem isBlank_of_isSpace {c : Char} (h : isSpace c = true) : Text.isBlank c = true := by
  rcases isSpace_iff.mp h with rfl | rfl | rfl | rfl <;> decide

theorem toNat_of_isBare {c : Char} (h : isBare c = true) : 32 < c.toNat ∧ c.toNat < 128 := by
  simp only [isBare, Bool.or_eq_true, Bool.and_eq_true, decide_eq_true_eq, Char.le_def,
    UInt32.le_iff_toNat_le] at h
  rcases h with (((((h | h) | h) | rfl) | rfl) | rfl)
  · change 48 ≤ c.toNat ∧ c.toNat ≤ 57 at h
    omega
  · change 65 ≤ c.toNat ∧ c.toNat ≤ 90 at h
    omega
  · change 97 ≤ c.toNat ∧ c.toNat ≤ 122 at h
    omega
  all_goals decide

theorem not_isBlank_of_isBare {c : Char} (h : isBare c = true) : Text.isBlank c = false := by
  have hc := toNat_of_isBare h
  simp only [Text.isBlank, Text.inRanges, Text.blankRanges, List.any_cons, List.any_nil,
    Bool.or_eq_false_iff, Bool.and_eq_false_iff, decide_eq_false_iff_not, Nat.not_le, and_true]
  omega

theorem not_isBlank_of_getLast? {tok : Token} (hp : tok.Proper) {c : Char}
    (hc : tok.text.getLast? = some c) : Text.isBlank c = false := by
  cases tok with
  | mark d =>
    obtain rfl : d = c := Option.some.inj hc
    rcases isMark_iff.mp hp with rfl | rfl | rfl | rfl | rfl | rfl <;> decide
  | literal body =>
    obtain rfl : '"' = c := by simpa [Token.text, List.getLast?_cons] using hc
    decide
  | bare w => exact not_isBlank_of_isBare (hp.2 c (List.mem_of_getLast? hc))

/-- Blanks in front of a text that ends in a token are the white space that was written behind it. -/
theorem dropWhile_isBlank {out : List Char}
    (h : ∀ c, (skipSpace out).head? = some c → Text.isBlank c = false) :
    out.dropWhile Text.isBlank = skipSpace out := by
  induction out with
  | nil => rfl
  | cons c out ih =>
    rw [skipSpace] at h ⊢
    cases hc : isSpace c with
    | true =>
      rw [List.dropWhile_cons_of_pos hc] at h ⊢
      rw [List.dropWhile_cons_of_pos (isBlank_of_isSpace hc)]
      exact ih h
    | false =>
      have hneg : ¬ isSpace c = true := by rw [hc]; decide
      rw [List.dropWhile_cons_of_neg hneg] at h ⊢
      rw [List.dropWhile_cons_of_neg (by rw [h c rfl]; decide)]

theorem dropComma_of_ne_comma {out : List Char}
    (h : ∀ c, (skipSpace out).head? = some c → Text.isBlank c = false ∧ c ≠ ',') :
    dropComma out = out := by
  rw [dropComma, dropWhile_isBlank fun c hc => (h c hc).1]
  split
  · rename_i hcomma
    exact absurd rfl (h ',' (by rw [hcomma]; rfl)).2
  · rfl

/-- A comma behind a value is dropped, with the white space behind it. -/
theorem dropComma_comma {blanks out : List Char} (hblanks : ∀ c ∈ blanks, isSpace c = true)
    (h : ∀ c, (skipSpace out).head? = some c →
      Text.isBlank c = false ∧ c ≠ '[' ∧ c ≠ '{' ∧ c ≠ ',') :
    dropComma (blanks ++ ',' :: out) = out := by
  have hdrop : (blanks ++ ',' :: out).dropWhile Text.isBlank = ',' :: out :=
    (List.dropWhile_append_of_pos fun c hc => isBlank_of_isSpace (hblanks c hc)).trans rfl
  have hends : endsValue out = true := by
    rw [endsValue, dropWhile_isBlank fun c hc => (h c hc).1]
    split
    · rename_i c rest hout
      obtain ⟨-, hlist, hobject, hcomma⟩ := h c (by rw [hout]; rfl)
      simp [hlist, hobject, hcomma]
    · rfl
  rw [dropComma, hdrop]
  exact if_pos hends

end GroovyWorkspace.Json.Decorated
