import GroovyWorkspace.Proofs.Settings.Lookup

/-!
# Inserting under a flat key

A lookup reads an object only under the first segments of the key's cuts (`lookup_congr`). Such a segment is
the key as a whole or stands in front of one of its dots (`IsCut.first`). So a value under a flat key is seen
by the lookup of that key and of the keys that go on behind it with a dot, whatever else the document has
(`get?_insert_frame`).
-/

namespace GroovyWorkspace

/-- The first segment of a cut is the only one and the key itself, or a dot of the key follows it. -/
theorem IsCut.first {key s : String} {rest : List String} (h : IsCut key (s :: rest)) :
    (s = key ∧ rest = []) ∨ ∃ behind, key = s ++ "." ++ behind := by
  obtain ⟨-, hjoin⟩ := h
  cases rest with
  | nil => exact .inl ⟨by simpa using hjoin, rfl⟩
  | cons t ts => exact .inr ⟨".".intercalate (t :: ts), by rw [← hjoin, String.intercalate_cons_cons]⟩

theorem ne_append_dot (key behind : String) : key ≠ key ++ "." ++ behind := by
  intro h
  have hlength := congrArg String.length h
  rw [String.length_append, String.length_append, show ".".length = 1 from rfl] at hlength
  omega

namespace Entries

variable {entries others : Entries}

theorem get?_insert (entries : Entries) (key : String) (v : Value) (t : String) :
    (insert key v entries).get? t = if t = key then some v else entries.get? t := by
  induction entries with
  | nil => exact get?_cons key v [] t
  | cons e rest ih =>
    obtain ⟨k, w⟩ := e
    rw [insert]
    by_cases hk : k = key
    · subst hk
      rw [if_pos rfl, get?_cons, get?_cons]
      by_cases ht : t = k
      · rw [if_pos ht, if_pos ht]
      · rw [if_neg ht, if_neg ht, if_neg ht]
    · rw [if_neg hk]
      by_cases hlt : key < k
      · rw [if_pos hlt, get?_cons]
      · rw [if_neg hlt, get?_cons, get?_cons, ih]
        by_cases ht : t = k
        · rw [if_pos ht, if_pos ht, if_neg (ht ▸ hk)]
        · rw [if_neg ht, if_neg ht]

def without (entries : Entries) (key : String) : Entries := entries.filter fun e => e.1 ≠ key

theorem get?_without (entries : Entries) (key t : String) :
    (entries.without key).get? t = if t = key then none else entries.get? t := by
  induction entries with
  | nil => by_cases ht : t = key <;> simp [without, get?, ht]
  | cons e rest ih =>
    obtain ⟨k, w⟩ := e
    by_cases hk : k = key
    · have hdrop : without ((k, w) :: rest) key = without rest key := by simp [without, hk]
      rw [hdrop, ih, get?_cons, hk]
      by_cases ht : t = key
      · rw [if_pos ht, if_pos ht]
      · rw [if_neg ht, if_neg ht, if_neg ht]
    · have hkeep : without ((k, w) :: rest) key = (k, w) :: without rest key := by simp [without, hk]
      rw [hkeep, get?_cons, ih, get?_cons]
      by_cases ht : t = k
      · rw [if_pos ht, if_pos ht, if_neg (ht ▸ hk)]
      · rw [if_neg ht, if_neg ht]

/-- Where segments lead depends on the value under the first one. -/
theorem reach?_congr {s : String} (h : entries.get? s = others.get? s) (rest : List String) :
    entries.reach? (s :: rest) = others.reach? (s :: rest) := by
  cases rest with
  | nil => rw [reach?, reach?, h]
  | cons t ts => rw [reach?_cons (List.cons_ne_nil t ts), reach?_cons (List.cons_ne_nil t ts), h]

/-- Objects in which the cuts of a key lead to the same values give the key the same value. -/
theorem lookup_congr {key : String}
    (h : ∀ s rest, IsCut key (s :: rest) → entries.reach? (s :: rest) = others.reach? (s :: rest)) :
    entries.lookup key = others.lookup key := by
  unfold lookup
  rw [lookupFrom_eq_findSome?, lookupFrom_eq_findSome?, ← List.head?_filterMap, ← List.head?_filterMap]
  refine congrArg List.head? (List.filterMap_congr fun segments hsegments => ?_)
  have hcut := mem_cutsFrom_iff_isCut.mp hsegments
  cases segments with
  | nil => exact absurd rfl hcut.1
  | cons s rest => exact h s rest hcut

/-- A null under the key itself hides nothing: the lookup goes on to the sections. -/
theorem lookup_insert_null (entries : Entries) (key : String) :
    (insert key .null entries).lookup key = (entries.without key).lookup key := by
  refine lookup_congr fun s rest hcut => ?_
  rcases hcut.first with ⟨rfl, rfl⟩ | ⟨behind, hkey⟩
  · rw [reach?, reach?, get?_insert, get?_without, if_pos rfl, if_pos rfl]
    rfl
  · have hne : s ≠ key := fun heq => ne_append_dot s behind (heq.trans hkey)
    exact reach?_congr (by rw [get?_insert, get?_without, if_neg hne, if_neg hne]) rest

/-- A key that is not the inserted one and does not go on behind it has no cut that starts with it. -/
theorem lookup_insert_of_ne (entries : Entries) {key q : String} (v : Value) (hne : q ≠ key)
    (hbehind : ∀ behind, q ≠ key ++ "." ++ behind) :
    (insert key v entries).lookup q = entries.lookup q := by
  refine lookup_congr fun s rest hcut => ?_
  have hs : s ≠ key := by
    rintro rfl
    rcases hcut.first with ⟨heq, -⟩ | ⟨behind, heq⟩
    · exact hne heq.symm
    · exact hbehind behind heq
  exact reach?_congr (by rw [get?_insert, if_neg hs]) rest

end Entries

namespace Settings

/-- The document without a flat key. Its sections stay as they are. -/
def without (s : Settings) (key : String) : Settings := ⟨s.entries.without key⟩

/-- **What inserting changes.** A value that is not null is found under its key. With a null the key has the
value that it has where it is missing as a flat key, so that a section can still provide one. All other keys
keep their values, except those that go on behind the key with a dot. -/
theorem get?_insert_frame (s : Settings) (key : String) (v : Value) :
    (v ≠ .null → (s.insert key v).get? key = some v) ∧
      (v = .null → (s.insert key v).get? key = (s.without key).get? key) ∧
      ∀ q, q ≠ key → (∀ behind, q ≠ key ++ "." ++ behind) → (s.insert key v).get? q = s.get? q := by
  refine ⟨fun hv => ?_, ?_, fun q => Entries.lookup_insert_of_ne s.entries v⟩
  · have hflat : (Entries.insert key v s.entries).reach? [key] = some v := by
      rw [Entries.reach?, Entries.get?_insert, if_pos rfl]
      cases v with
      | null => exact absurd rfl hv
      | _ => rfl
    exact Entries.lookup_of_flat hflat
  · rintro rfl
    exact Entries.lookup_insert_null s.entries key

/-- A section with two keys, one of them also flat. -/
def flatAndNested : Settings :=
  ⟨[("a", .object [("b", .int 1), ("bc", .int 2)]), ("a.b", .string "flat")]⟩

/-- Behind a null the section provides the value. The key `a.bc` starts with `a.b` but not at a dot. -/
theorem get?_insert_frame_flatAndNested :
    flatAndNested.get? "a.b" = some (.string "flat") ∧
      (flatAndNested.insert "a.b" (.bool true)).get? "a.b" = some (.bool true) ∧
      (flatAndNested.insert "a.b" .null).get? "a.b" = some (.int 1) ∧
      (∀ behind, "a.bc" ≠ "a.b" ++ "." ++ behind) ∧
      (flatAndNested.insert "a.b" .null).get? "a.bc" = some (.int 2) := by
  obtain ⟨-, hnull, hframe⟩ := get?_insert_frame flatAndNested "a.b" .null
  have hbehind : ∀ behind, "a.bc" ≠ "a.b" ++ "." ++ behind := by
    intro behind h
    have hchars := congrArg String.toList h
    simp at hchars
  exact ⟨rfl, (get?_insert_frame flatAndNested "a.b" (.bool true)).1 nofun, (hnull rfl).trans rfl, hbehind,
    (hframe "a.bc" (by decide) hbehind).trans rfl⟩

end Settings
end GroovyWorkspace
