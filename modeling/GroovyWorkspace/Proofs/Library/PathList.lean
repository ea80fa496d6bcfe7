import GroovyWorkspace.Library.Classpath

/-!
# Path lists

A path list is cut at its colons into the paths that it has been made of, each with its exact spelling
(`splitOn_joinBytes`). Joining a classpath fails exactly if an entry has a colon in it. The entry that is
blamed is looked for anew, with every entry tried by itself, and still it is the first one at which joining
can fail (`joined_eq_error_iff`).
-/

namespace GroovyWorkspace.Classpath

/-! ## Joining paths -/

theorem isDivided_iff {p : Path} : isDivided p = true ↔ colon ∈ p.bytes := List.contains_iff_mem

theorem joinBytes_eq_intercalate (ps : List Path) :
    joinBytes ps = [colon].intercalate (ps.map Path.bytes) := by
  induction ps with
  | nil => rfl
  | cons p rest ih =>
    cases rest with
    | nil => exact List.intercalate_singleton.symm
    | cons q rest =>
      rw [List.map_cons, List.map_cons, List.intercalate_cons_cons, ← List.map_cons, ← ih,
        List.append_assoc]
      rfl

theorem splitOn_joinBytes {ps : List Path} (hps : ∀ p ∈ ps, colon ∉ p.bytes) (hne : ps ≠ []) :
    ((joinBytes ps).splitOn colon).map Path.mk = ps := by
  have hbytes : ∀ bytes ∈ ps.map Path.bytes, colon ∉ bytes := by
    intro bytes hmem
    obtain ⟨p, hp, rfl⟩ := List.mem_map.mp hmem
    exact hps p hp
  have hspelling : Path.mk ∘ Path.bytes = id := rfl
  rw [joinBytes_eq_intercalate, List.splitOn_intercalate colon hbytes (by simpa using hne), List.map_map,
    hspelling, List.map_id]

theorem join?_eq_none_iff {ps : List Path} : join? ps = none ↔ ∃ p ∈ ps, colon ∈ p.bytes := by
  simp [join?, isDivided_iff]

theorem join?_eq_some_iff {ps : List Path} {list : Path} :
    join? ps = some list ↔ (∀ p ∈ ps, colon ∉ p.bytes) ∧ list = ⟨joinBytes ps⟩ := by
  simp [join?, isDivided_iff, eq_comm (a := list)]

/-- Of paths that are tried one by one, the first that has a colon in it fails first. -/
theorem find?_isNone_join?_eq_some_iff {ps : List Path} {p : Path} :
    (ps.find? fun q => (join? [q]).isNone) = some p ↔
      colon ∈ p.bytes ∧ ∃ front back, ps = front ++ p :: back ∧ ∀ q ∈ front, colon ∉ q.bytes := by
  have halone : ∀ q, (join? [q]).isNone = isDivided q := by
    intro q
    rw [Bool.eq_iff_iff, Option.isNone_iff_eq_none, join?_eq_none_iff, isDivided_iff]
    simp
  simp only [halone, List.find?_eq_some_iff_append, isDivided_iff, Bool.not_eq_true', ← Bool.not_eq_true]

/-! ## Joining a classpath -/

theorem joined_eq_ok_iff {c : Classpath} {list : Path} :
    c.joined = .ok list ↔ (∀ p ∈ c.entries, colon ∉ p.bytes) ∧ list = ⟨joinBytes c.entries⟩ := by
  rw [← join?_eq_some_iff, joined]
  cases join? c.entries with
  | none => exact ⟨nofun, nofun⟩
  | some other => rw [Except.ok.injEq, Option.some.injEq]

theorem join?_eq_none_of_joined {c : Classpath} {fault : ClasspathError} (h : c.joined = .error fault) :
    join? c.entries = none := by
  cases hjoin : join? c.entries with
  | none => rfl
  | some list =>
    rw [joined, hjoin] at h
    cases h

theorem joined_eq_error_iff {c : Classpath} {fault : ClasspathError} :
    c.joined = .error fault ↔
      ∃ front entry back, c.entries = front ++ entry :: back ∧ (∀ p ∈ front, colon ∉ p.bytes) ∧
        colon ∈ entry.bytes ∧ fault = .invalidEntry entry := by
  constructor
  · intro h
    have hnone : join? c.entries = none := join?_eq_none_of_joined h
    obtain ⟨q, hq, hcolon⟩ := join?_eq_none_iff.mp hnone
    -- one entry fails by itself, so the search ends at an entry and not with nothing
    have hsome : (c.entries.find? fun p => (join? [p]).isNone).isSome = true := by
      rw [List.find?_isSome]
      exact ⟨q, hq, by rw [join?_eq_none_iff.mpr ⟨q, List.mem_singleton_self q, hcolon⟩]; rfl⟩
    obtain ⟨entry, hfind⟩ := Option.isSome_iff_exists.mp hsome
    obtain ⟨hentry, front, back, hsplit, hfront⟩ := find?_isNone_join?_eq_some_iff.mp hfind
    rw [joined, hnone] at h
    dsimp only at h
    rw [hfind] at h
    exact ⟨front, entry, back, hsplit, hfront, hentry, (Except.error.inj h).symm⟩
  · rintro ⟨front, entry, back, hsplit, hfront, hentry, rfl⟩
    have hmem : entry ∈ c.entries := by rw [hsplit]; exact List.mem_append_right _ List.mem_cons_self
    have hfind := find?_isNone_join?_eq_some_iff.mpr ⟨hentry, front, back, hsplit, hfront⟩
    rw [joined, join?_eq_none_iff.mpr ⟨entry, hmem, hentry⟩]
    dsimp only
    rw [hfind]
    rfl

/-- **A path list is cut back into its classpath.** A classpath is joined if and only if no entry has a
colon in it. If it has entries, cutting the list at every colon gives them back in order and in their exact
spelling, so another classpath with entries and the same list is the same classpath. If joining fails, the
entry that is named is the first that has a colon in it. -/
theorem joined_splits_back (c : Classpath) :
    ((∃ list, c.joined = .ok list) ↔ ∀ p ∈ c.entries, colon ∉ p.bytes) ∧
      (∀ list, c.joined = .ok list → c.entries ≠ [] →
        (list.bytes.splitOn colon).map Path.mk = c.entries ∧
          ∀ d : Classpath, d.joined = .ok list → d.entries ≠ [] → d = c) ∧
      ∀ fault, c.joined = .error fault →
        ∃ front entry back, c.entries = front ++ entry :: back ∧ (∀ p ∈ front, colon ∉ p.bytes) ∧
          colon ∈ entry.bytes ∧ fault = .invalidEntry entry := by
  have hsplit : ∀ (d : Classpath) (list : Path), d.joined = .ok list → d.entries ≠ [] →
      (list.bytes.splitOn colon).map Path.mk = d.entries := by
    intro d list hd hne
    obtain ⟨hclean, rfl⟩ := joined_eq_ok_iff.mp hd
    exact splitOn_joinBytes hclean hne
  refine ⟨?_, fun list hc hne => ⟨hsplit c list hc hne, fun d hd hne' => ?_⟩,
    fun fault h => joined_eq_error_iff.mp h⟩
  · constructor
    · rintro ⟨list, h⟩
      exact (joined_eq_ok_iff.mp h).1
    · exact fun hclean => ⟨_, joined_eq_ok_iff.mpr ⟨hclean, rfl⟩⟩
  · rw [Classpath.mk.injEq, ← hsplit c list hc hne, hsplit d list hd hne']

/-- A classpath with an entry that is empty and one that begins like another. -/
def oddEntries : Classpath := .ofList [.ofString "", .ofString "a.jar", .ofString "a"]

/-- A classpath with two entries that have colons in them. -/
def dividedEntries : Classpath := .ofList [.ofString "a.jar", .ofString "b:c.jar", .ofString ":"]

theorem joined_splits_back_oddEntries :
    oddEntries.joined = .ok (.ofString ":a.jar:a") ∧
      ((Path.ofString ":a.jar:a").bytes.splitOn colon).map Path.mk = oddEntries.entries ∧
      dividedEntries.joined = .error (.invalidEntry (.ofString "b:c.jar")) ∧
      ∃ front entry back, dividedEntries.entries = front ++ entry :: back ∧
        (∀ p ∈ front, colon ∉ p.bytes) ∧ colon ∈ entry.bytes ∧
        ClasspathError.invalidEntry (.ofString "b:c.jar") = .invalidEntry entry := by
  have hodd : oddEntries.joined = .ok (.ofString ":a.jar:a") := rfl
  have hdivided : dividedEntries.joined = .error (.invalidEntry (.ofString "b:c.jar")) := rfl
  obtain ⟨-, hsplits, -⟩ := joined_splits_back oddEntries
  obtain ⟨-, -, hfails⟩ := joined_splits_back dividedEntries
  exact ⟨hodd, (hsplits _ hodd (by decide)).1, hdivided, hfails _ hdivided⟩

end GroovyWorkspace.Classpath
