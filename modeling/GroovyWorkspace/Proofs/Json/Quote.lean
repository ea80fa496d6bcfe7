import GroovyWorkspace.Json.Printer
import GroovyWorkspace.Proofs.Json.Decoration

/-!
# Quoted text

A character is written so that a literal reads it back, whatever it is: as itself, with a backslash in
front, or by its number. So a quoted text is one literal with that text (`literal_quoted`), and what
looks like a comment or a comma at the end inside of it is left alone (`parse_plain_compact`).
-/

namespace GroovyWorkspace.Json

open Decorated

/-! ## One character -/

theorem hexDigit?_lowerHexDigit : ∀ n < 16, Text.hexDigit? (lowerHexDigit n) = some n := by
  decide

/-- The escape of a control character by its number names that character. -/
theorem escape_control {c : Char} (hc : c.toNat < 0x20) (rest : List Char) :
    escape ('u' :: '0' :: '0' :: lowerHexDigit (c.toNat / 16) :: lowerHexDigit (c.toNat % 16) :: rest) =
      .ok (c, rest) := by
  have hword : hexWord ('0' :: '0' :: lowerHexDigit (c.toNat / 16) :: lowerHexDigit (c.toNat % 16) ::
      rest) = .ok (c.toNat, rest) := by
    have hhigh := hexDigit?_lowerHexDigit (c.toNat / 16) (by omega)
    have hlow := hexDigit?_lowerHexDigit (c.toNat % 16) (by omega)
    have hzero : Text.hexDigit? '0' = some 0 := by decide
    simp only [hexWord, hhigh, hlow, hzero]
    rw [show ((0 * 16 + 0) * 16 + c.toNat / 16) * 16 + c.toNat % 16 = c.toNat by omega]
  have hnotLow : ¬ isLowSurrogate c.toNat = true := by
    simp only [isLowSurrogate, Bool.and_eq_true, decide_eq_true_eq]
    omega
  have hnotHigh : ¬ isHighSurrogate c.toNat = true := by
    simp only [isHighSurrogate, Bool.and_eq_true, decide_eq_true_eq]
    omega
  refine bind_eq_ok.mpr ⟨_, hword, ?_⟩
  dsimp only
  rw [if_neg hnotLow, if_neg hnotHigh, Char.ofNat_toNat]

/-- A text is an escape that names a character. -/
def Names (text : List Char) (c : Char) : Prop :=
  ∃ w, text = '\\' :: w ∧ IsBody text ∧ ∀ rest, escape (w ++ rest) = .ok (c, rest)

theorem names_letter {c e : Char} (h : ∀ rest, escape (e :: rest) = .ok (c, rest)) :
    Names ['\\', e] c :=
  ⟨[e], rfl, .escaped .nil, h⟩

theorem names_control {c : Char} (hc : c.toNat < 0x20) :
    Names ['\\', 'u', '0', '0', lowerHexDigit (c.toNat / 16), lowerHexDigit (c.toNat % 16)] c := by
  have hhigh := hexDigit?_lowerHexDigit (c.toNat / 16) (by omega)
  have hlow := hexDigit?_lowerHexDigit (c.toNat % 16) (by omega)
  have hzero : Text.hexDigit? '0' = some 0 := by decide
  refine ⟨_, rfl, .escaped ?_, escape_control hc⟩
  exact .cons_hexDigit hzero (.cons_hexDigit hzero (.cons_hexDigit hhigh (.cons_hexDigit hlow .nil)))

/-- A character stands in a literal as itself, or as an escape that names it. -/
theorem escaped_cases (c : Char) :
    escaped c = [c] ∧ c ≠ '"' ∧ c ≠ '\\' ∧ ¬ c.toNat < 0x20 ∨ Names (escaped c) c := by
  unfold escaped
  by_cases hquote : c = '"'
  · subst hquote
    exact .inr (names_letter fun _ => rfl)
  by_cases hslash : c = '\\'
  · subst hslash
    exact .inr (names_letter fun _ => rfl)
  rw [if_neg hquote, if_neg hslash]
  -- five control characters have letters
  iterate 5
    split
    · rename_i hc
      subst hc
      exact .inr (names_letter fun _ => rfl)
  split
  · rename_i hcontrol
    exact .inr (names_control hcontrol)
  · rename_i hcontrol
    exact .inl ⟨rfl, hquote, hslash, hcontrol⟩

theorem isBody_escaped (c : Char) : IsBody (escaped c) := by
  rcases escaped_cases c with ⟨heq, hquote, hslash, -⟩ | ⟨w, -, hbody, -⟩
  · rw [heq]
    exact .plain hquote hslash .nil
  · exact hbody

theorem literalUpTo_escaped {fuel : Nat} {c : Char} {cs rest more : List Char}
    (h : literalUpTo fuel more = .ok (cs, rest)) :
    literalUpTo (fuel + 1) (escaped c ++ more) = .ok (c :: cs, rest) := by
  rcases escaped_cases c with ⟨heq, hquote, hslash, hcontrol⟩ | ⟨w, heq, -, hescape⟩
  · rw [heq, List.singleton_append, literalUpTo, if_neg hquote, if_neg hslash, if_neg hcontrol]
    exact bind_eq_ok.mpr ⟨_, h, rfl⟩
  · rw [heq, List.cons_append, literalUpTo, if_neg (by decide), if_pos rfl]
    exact bind_eq_ok.mpr ⟨_, hescape more, bind_eq_ok.mpr ⟨_, h, rfl⟩⟩

/-! ## A whole text -/

/-- What stands between the quotes of a quoted text. -/
def bodyOf (s : String) : List Char := s.toList.flatMap escaped

theorem quote_eq (s : String) : quote s = '"' :: (bodyOf s ++ ['"']) := rfl

theorem isBody_bodyOf (s : String) : IsBody (bodyOf s) := by
  unfold bodyOf
  induction s.toList with
  | nil => exact .nil
  | cons c cs ih =>
    rw [List.flatMap_cons]
    exact (isBody_escaped c).append ih

theorem literalUpTo_flatMap (cs rest : List Char) {fuel : Nat} (hfuel : cs.length < fuel) :
    literalUpTo fuel (cs.flatMap escaped ++ '"' :: rest) = .ok (cs, rest) := by
  induction cs generalizing fuel with
  | nil =>
    obtain ⟨fuel, rfl⟩ := Nat.exists_eq_succ_of_ne_zero (Nat.ne_of_gt hfuel)
    rw [List.flatMap_nil, List.nil_append, literalUpTo, if_pos rfl]
  | cons c cs ih =>
    obtain ⟨fuel, rfl⟩ := Nat.exists_eq_succ_of_ne_zero (Nat.ne_of_gt (Nat.zero_lt_of_lt hfuel))
    rw [List.flatMap_cons, List.append_assoc]
    exact literalUpTo_escaped (ih (Nat.lt_of_succ_lt_succ hfuel))

theorem length_le_flatMap_escaped (cs : List Char) : cs.length ≤ (cs.flatMap escaped).length := by
  induction cs with
  | nil => exact Nat.le_refl _
  | cons c cs ih =>
    have hone : 0 < (escaped c).length := by
      rcases escaped_cases c with ⟨heq, -⟩ | ⟨w, heq, -⟩ <;> simp [heq]
    rw [List.flatMap_cons, List.length_append, List.length_cons]
    omega

theorem literal_quoted (s : String) : literal (bodyOf s ++ ['"']) = .ok (s, []) := by
  have hlength := length_le_flatMap_escaped s.toList
  have hread : literalUpTo ((bodyOf s ++ ['"']).length + 1) (bodyOf s ++ ['"']) = .ok (s.toList, []) := by
    refine literalUpTo_flatMap s.toList [] ?_
    rw [List.length_append, bodyOf]
    omega
  refine bind_eq_ok.mpr ⟨_, hread, ?_⟩
  dsimp only
  rw [String.ofList_toList]

/-! ## A record of one text -/

def recordTokens (key s : String) : List Token :=
  [.mark '{', .literal (bodyOf key), .mark ':', .literal (bodyOf s), .mark '}']

theorem lexes_compact (key s : String) :
    Lexes (compact (.record [(key, .text s)])) (recordTokens key s) := by
  have hmark : ∀ {c : Char} {rest : List Char} {ts : List Token}, isMark c = true → Lexes rest ts →
      Lexes (c :: rest) (.mark c :: ts) := by
    intro c rest ts hc h
    have hp : (Token.mark c).Proper := hc
    exact .token hp False.elim h
  have hend : Lexes ['}'] [.mark '}'] := hmark (by decide) .nil
  have hvalue := hend.of_literal (isBody_bodyOf s)
  have hkey := (hmark (c := ':') (by decide) hvalue).of_literal (isBody_bodyOf key)
  have hall := hmark (c := '{') (by decide) hkey
  simpa [compact, compactFields, quote_eq, recordTokens] using hall

theorem spells_record (key s : String) :
    Spells depthLimit (.object [(key, .string s)]) (recordTokens key s) := by
  have hvalue : Spells 127 (.string s) [.literal (bodyOf s)] := LevelSpells.string (literal_quoted s)
  exact LevelSpells.object (by decide) (.first (.mk (literal_quoted key) hvalue) .nil)

/-- A text that is written as JSON is read back as it is, also where it looks like a comment or like a
comma before a bracket. -/
theorem parse_plain_compact (key s : String) :
    parse (plain (compact (.record [(key, .text s)]))) = .ok (.object [(key, .string s)]) := by
  have hlexes := lexes_compact key s
  have hspells := spells_record key s
  rw [parse_eq_ok_iff]
  exact ⟨_, lexes_plain hlexes.proper hspells.smooth.2 (hlexes.decorates none), hspells⟩

end GroovyWorkspace.Json
