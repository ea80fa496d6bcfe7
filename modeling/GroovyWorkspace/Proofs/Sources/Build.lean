import GroovyWorkspace.Proofs.Path.Map
import GroovyWorkspace.Sources.Factory

/-!
# What a build puts at a path

`sourceAt` says which source a root, the open buffers and the files on disk make at one path. A first
build puts exactly these sources into the unit, and a later build does so at the paths that have
changed and leaves all others as they were (`source?_of_create`).
-/

namespace GroovyWorkspace

/-! ## Paths in other spellings -/

namespace Buffers

theorem isChanged_congr {p q : Path} (h : p.same q = true) (b : Buffers) :
    b.isChanged p = b.isChanged q :=
  PathMap.contains_congr h _

theorem isOpen_congr {p q : Path} (h : p.same q = true) (b : Buffers) : b.isOpen p = b.isOpen q :=
  PathMap.contains_congr h _

theorem text?_of_stored? {b : Buffers} (hb : b.texts.Distinct) {p : Path} {e : Path × String}
    (he : b.texts.stored? p = some e) : b.text? e.1 = some e.2 := by
  have hself : b.texts.stored? e.1 = some e :=
    hb.stored?_eq_some_iff.mpr ⟨PathMap.mem_of_stored? he, Path.same_self e.1⟩
  rw [text?, PathMap.get?_eq_stored?, hself]
  rfl

theorem any_changedPaths (b : Buffers) (p : Path) : b.changedPaths.any p.same = b.isChanged p :=
  PathMap.any_keys _ _

end Buffers

/-- A fold over sorted keys meets the key of a path at most once. -/
theorem PathMap.Sorted.findSome?_keys {α β : Type} {m : PathMap α} (hm : m.Sorted) (p : Path)
    (f : Path → Option β) :
    (m.keys.reverse.findSome? fun q => if p.same q then f q else none) =
      (m.stored? p).bind fun e => f e.1 := by
  obtain ⟨l⟩ := m
  show ((l.map Prod.fst).reverse.findSome? fun q => if p.same q then f q else none) =
    (l.find? fun e => p.same e.1).bind fun e => f e.1
  replace hm : l.Pairwise fun a b => a.1.compare b.1 = .lt := hm
  induction l with
  | nil => rfl
  | cons e rest ih =>
    obtain ⟨he, hrest⟩ := List.pairwise_cons.mp hm
    rw [List.map_cons, List.reverse_cons, List.findSome?_append, ih hrest, List.find?_cons]
    cases hp : p.same e.1 with
    | true =>
      have hnone : (rest.find? fun d => p.same d.1) = none := by
        rw [List.find?_eq_none]
        intro d hd
        rw [Path.same_congr hp, Path.not_same_of_lt (he d hd)]
        exact Bool.false_ne_true
      simp [hnone, hp]
    | false => simp [hp]

namespace CompilationUnit

/-! ## Adding and removing -/

theorem source?_add (u : CompilationUnit) (s : Source) (p : Path) :
    (u.add s).source? p = if p.same s.path then some s else u.source? p :=
  PathMap.get?_insert _ _ _ _

theorem removeAll_fst (u : CompilationUnit) (ps : List Path) :
    (u.removeAll ps).1 = ps.foldl remove u := by
  unfold removeAll
  generalize 0 = n
  induction ps generalizing u n with
  | nil => rfl
  | cons q rest ih =>
    rw [List.foldl_cons, List.foldl_cons]
    exact ih _ _

theorem entries_removeAll (u : CompilationUnit) (ps : List Path) :
    (u.removeAll ps).1.table.entries = u.table.entries.filter fun e => !ps.any e.1.same := by
  rw [removeAll_fst]
  induction ps generalizing u with
  | nil => exact (List.filter_eq_self.mpr fun _ _ => rfl).symm
  | cons p rest ih =>
    rw [List.foldl_cons, ih, remove, PathMap.erase, List.filter_filter]
    refine List.filter_congr fun e _ => ?_
    rw [List.any_cons, Path.same_comm e.1 p]
    cases p.same e.1 <;> simp

theorem stored?_removeAll (u : CompilationUnit) (ps : List Path) (p : Path) :
    (u.removeAll ps).1.table.stored? p = if ps.any p.same then none else u.table.stored? p := by
  -- an entry at `p` is removed exactly if `p` is among the paths
  have hentry : ∀ e : Path × Source, ((!ps.any e.1.same) = true ∧ p.same e.1 = true) ↔
      ((!ps.any p.same) = true ∧ p.same e.1 = true) :=
    fun e => and_congr_left fun hpe => by rw [funext (Path.same_congr hpe)]
  rw [PathMap.stored?, PathMap.stored?, entries_removeAll, List.find?_filter]
  simp only [hentry]
  cases ps.any p.same <;> simp

theorem source?_removeAll (u : CompilationUnit) (ps : List Path) (p : Path) :
    (u.removeAll ps).1.source? p = if ps.any p.same then none else u.source? p := by
  rw [source?, source?, PathMap.get?_eq_stored?, PathMap.get?_eq_stored?, stored?_removeAll]
  cases ps.any p.same <;> rfl

/-- Sources added one after the other: the last one at a path is the one that stays. -/
theorem source?_foldl_add {f : Path → Option Source} (hf : ∀ q s, f q = some s → s.path = q)
    (qs : List Path) (u : CompilationUnit) (p : Path) :
    (qs.foldl (fun u q => (f q).elim u u.add) u).source? p =
      (qs.reverse.findSome? fun q => if p.same q then f q else none).or (u.source? p) := by
  induction qs generalizing u with
  | nil => rfl
  | cons q rest ih =>
    rw [List.foldl_cons, ih, List.reverse_cons, List.findSome?_append, Option.or_assoc]
    congr 1
    cases hq : f q with
    | none => simp [hq]
    | some s =>
      have hs : s.path = q := hf q s hq
      cases hp : p.same q <;> simp [source?_add, hs, hp, hq]

/-! ## The source that a loop adds -/

/-- The source that a fold over files adds at a path. -/
def fileSource (wanted : Path → Bool) (b : Buffers) (q : Path) : Option Source :=
  if ¬ b.isOpen q ∧ wanted q then some ⟨q, .disk⟩ else none

/-- The source that a fold over buffers adds at a path. -/
def bufferSource (wanted : Path → Bool) (b : Buffers) (q : Path) : Option Source :=
  if wanted q then (b.text? q).map fun text => ⟨q, .buffer text⟩ else none

theorem addFiles_eq (wanted : Path → Bool) (b : Buffers) (files : List Path) (u : CompilationUnit) :
    u.addFiles wanted b files = files.foldl (fun u q => (fileSource wanted b q).elim u u.add) u := by
  unfold addFiles fileSource
  congr 1
  funext u q
  split <;> rfl

theorem addBuffers_eq (wanted : Path → Bool) (b : Buffers) (u : CompilationUnit) :
    u.addBuffers wanted b =
      b.openPaths.foldl (fun u q => (bufferSource wanted b q).elim u u.add) u := by
  unfold addBuffers addBuffer bufferSource
  congr 1
  funext u q
  cases wanted q <;> cases b.text? q <;> rfl

theorem path_of_fileSource {wanted : Path → Bool} {b : Buffers} (q : Path) (s : Source)
    (h : fileSource wanted b q = some s) : s.path = q := by
  unfold fileSource at h
  split at h
  · cases h; rfl
  · cases h

theorem path_of_bufferSource {wanted : Path → Bool} {b : Buffers} (q : Path) (s : Source)
    (h : bufferSource wanted b q = some s) : s.path = q := by
  unfold bufferSource at h
  split at h
  · obtain ⟨text, -, rfl⟩ := Option.map_eq_some_iff.mp h
    rfl
  · cases h

/-! ## The source at a path -/

/-- The file that a walk from the root has found at a path. -/
def fileAt (fs : FileSystem) (root : Option Path) (p : Path) : Option Path :=
  (root.elim [] (filesOf fs)).reverse.find? p.same

/-- The source that belongs at a path: the buffer if one is open there and lies below the root, and
otherwise the file on disk. Without a root every buffer counts, and no file. -/
def sourceAt (fs : FileSystem) (root : Option Path) (buffers : Buffers) (p : Path) :
    Option Source :=
  match buffers.texts.stored? p with
  | some (q, text) => if root.all fun r => isBelow r q then some ⟨q, .buffer text⟩ else none
  | none => (fileAt fs root p).map fun q => ⟨q, .disk⟩

theorem sourceAt_congr {fs gs : FileSystem} {root : Option Path} {b c : Buffers}
    {p : Path} (hentry : b.texts.stored? p = c.texts.stored? p)
    (hfile : fileAt fs root p = fileAt gs root p) : sourceAt fs root b p = sourceAt gs root c p := by
  unfold sourceAt
  rw [hentry, hfile]

/-- A test that does not depend on the spelling of a path. -/
def IgnoresSpelling (wanted : Path → Bool) : Prop :=
  ∀ p q, p.same q = true → wanted p = wanted q

theorem source?_addFiles {wanted : Path → Bool} (hw : IgnoresSpelling wanted) (b : Buffers)
    (files : List Path) (u : CompilationUnit) (p : Path) :
    (u.addFiles wanted b files).source? p =
      if ¬ b.isOpen p ∧ wanted p then
        ((files.reverse.find? p.same).map fun q => ⟨q, .disk⟩).or (u.source? p)
      else u.source? p := by
  rw [addFiles_eq, source?_foldl_add path_of_fileSource]
  by_cases hp : ¬ b.isOpen p ∧ wanted p
  · rw [if_pos hp, List.find?_eq_findSome?_guard, List.map_findSome?]
    congr 2
    funext q
    by_cases hq : p.same q = true
    · rw [Buffers.isOpen_congr hq, hw p q hq] at hp
      simp [Option.guard, fileSource, hq, hp]
    · simp [Option.guard, hq]
  · rw [if_neg hp]
    have hnone : (files.reverse.findSome? fun q => if p.same q then fileSource wanted b q else none) =
        none := by
      rw [List.findSome?_eq_none_iff]
      intro q _
      by_cases hq : p.same q = true
      · rw [Buffers.isOpen_congr hq, hw p q hq] at hp
        rw [if_pos hq, fileSource, if_neg hp]
      · rw [if_neg hq]
    rw [hnone, Option.none_or]

theorem source?_addBuffers {b : Buffers} (hb : b.texts.Sorted) (wanted : Path → Bool)
    (u : CompilationUnit) (p : Path) :
    (u.addBuffers wanted b).source? p =
      ((b.texts.stored? p).bind fun e =>
        if wanted e.1 then some ⟨e.1, .buffer e.2⟩ else none).or (u.source? p) := by
  rw [addBuffers_eq, source?_foldl_add path_of_bufferSource, Buffers.openPaths, hb.findSome?_keys]
  congr 1
  cases he : b.texts.stored? p with
  | none => rfl
  | some e =>
    rw [Option.bind_some, Option.bind_some, bufferSource, Buffers.text?_of_stored? hb.distinct he]
    rfl

/-- The sources that are wanted are put where they belong, and all else stays. -/
theorem source?_addSources {b : Buffers} (hb : b.texts.Sorted) {wanted : Path → Bool}
    (hw : IgnoresSpelling wanted) (fs : FileSystem) (root : Option Path) (u : CompilationUnit)
    (p : Path) :
    (u.addSources fs wanted b root).source? p =
      if wanted p then (sourceAt fs root b p).or (u.source? p) else u.source? p := by
  cases root with
  | none =>
    rw [addSources, source?_addBuffers hb, sourceAt]
    cases he : b.texts.stored? p with
    | none => simp [fileAt]
    | some e =>
      rw [hw p e.1 (PathMap.same_of_stored? he)]
      cases hwe : wanted e.1 <;> simp [hwe]
  | some root =>
    rw [addSources, source?_addBuffers hb, source?_addFiles hw, sourceAt]
    cases he : b.texts.stored? p with
    | none =>
      have hopen : b.isOpen p = false := by
        rw [Buffers.isOpen, PathMap.contains_eq_isSome_stored?, he]; rfl
      cases wanted p <;> simp [hopen, fileAt]
    | some e =>
      have hopen : b.isOpen p = true := by
        rw [Buffers.isOpen, PathMap.contains_eq_isSome_stored?, he]; rfl
      rw [hw p e.1 (PathMap.same_of_stored? he)]
      cases hwe : wanted e.1 <;> cases hr : isBelow root e.1 <;> simp [hopen, hr, hwe]

/-! ## Order in the table -/

theorem sorted_foldl {f : CompilationUnit → Path → CompilationUnit}
    (hf : ∀ u q, u.table.Sorted → (f u q).table.Sorted) (qs : List Path) {u : CompilationUnit}
    (hu : u.table.Sorted) : (qs.foldl f u).table.Sorted := by
  induction qs generalizing u with
  | nil => exact hu
  | cons q rest ih => exact ih (hf u q hu)

theorem sorted_removeAll {u : CompilationUnit} (hu : u.table.Sorted) (ps : List Path) :
    (u.removeAll ps).1.table.Sorted := by
  rw [PathMap.Sorted, entries_removeAll]
  exact List.Pairwise.filter _ hu

theorem sorted_addBuffers {u : CompilationUnit} (hu : u.table.Sorted) (wanted : Path → Bool)
    (b : Buffers) : (u.addBuffers wanted b).table.Sorted := by
  refine sorted_foldl (fun v q hv => ?_) _ hu
  unfold addBuffer
  split
  · split
    · exact hv.insert _ _
    · exact hv
  · exact hv

theorem sorted_addFiles {u : CompilationUnit} (hu : u.table.Sorted) (wanted : Path → Bool)
    (b : Buffers) (files : List Path) : (u.addFiles wanted b files).table.Sorted := by
  refine sorted_foldl (fun v q hv => ?_) _ hu
  split
  · exact hv.insert _ _
  · exact hv

theorem sorted_addSources {u : CompilationUnit} (hu : u.table.Sorted) (fs : FileSystem)
    (wanted : Path → Bool) (b : Buffers) (root : Option Path) :
    (u.addSources fs wanted b root).table.Sorted := by
  cases root with
  | none => exact sorted_addBuffers hu _ b
  | some root => exact sorted_addBuffers (sorted_addFiles hu _ _ _) _ b

theorem mem_sources_iff {u : CompilationUnit} (hu : u.table.Sorted) {s : Source} :
    s ∈ u.sources ↔ ∃ p, u.source? p = some s :=
  hu.mem_values_iff

/-- Units with the same source at every path list the same sources. -/
theorem sources_eq {u v : CompilationUnit} (hu : u.table.Sorted) (hv : v.table.Sorted)
    (h : ∀ p, u.source? p = v.source? p) : u.sources = v.sources :=
  hu.values_eq hv h

end CompilationUnit

namespace UnitFactory

open CompilationUnit

theorem invalidate_of_none {f : UnitFactory} (hf : f.cached = none) : f.invalidate = f := by
  rw [invalidate, ← hf]

theorem build_of_cached {f : UnitFactory} {u : CompilationUnit} (hu : f.cached = some u)
    (fs : FileSystem) (root : Option Path) (b : Buffers) :
    f.build fs root b =
      f.keep ((u.removeAll b.changedPaths).1.addSources fs b.isChanged b root) := by
  rw [build, hu]
  rfl

theorem build_of_ofLibrary {f : UnitFactory} {fs : FileSystem} {config : CompilerConfig}
    (hf : f.cached = none) (hconfig : CompilerConfig.ofLibrary fs f.library = .ok config)
    (root : Option Path) (b : Buffers) :
    f.build fs root b =
      f.keep (({ config } : CompilationUnit).addSources fs (fun _ => true) b root) := by
  unfold build
  dsimp only
  rw [invalidate_of_none hf, hf, hconfig]

/-- Where there is none, the build fails. The factory had no unit that could be taken out. -/
theorem build_of_error {f : UnitFactory} {fs : FileSystem} {e : ClasspathError} (hf : f.cached = none)
    (herror : CompilerConfig.ofLibrary fs f.library = .error e) (root : Option Path) (b : Buffers) :
    f.build fs root b = (f, .error e) := by
  unfold build
  dsimp only
  rw [invalidate_of_none hf, hf, herror]

theorem create_eq_ok_iff {fs : FileSystem} {f g : UnitFactory} {root : Option Path} {b : Buffers}
    {v : CompilationUnit} : f.create fs root b = .ok (v, g) ↔ f.build fs root b = (g, .ok v) := by
  rw [create]
  constructor
  · intro h
    split at h <;> cases h
    assumption
  · intro h
    rw [h]

/-- A successful build, with or without a unit to start from. -/
theorem create_cases {fs : FileSystem} {f g : UnitFactory} {root : Option Path} {b : Buffers}
    {v : CompilationUnit} (h : f.create fs root b = .ok (v, g)) :
    g = { f with cached := some v } ∧
      ((∃ u, f.cached = some u ∧
          v = (u.removeAll b.changedPaths).1.addSources fs b.isChanged b root) ∨
        (f.cached = none ∧ ∃ config, CompilerConfig.ofLibrary fs f.library = .ok config ∧
          v = ({ config } : CompilationUnit).addSources fs (fun _ => true) b root)) := by
  rw [create_eq_ok_iff] at h
  cases hc : f.cached with
  | some u =>
    rw [build_of_cached hc] at h
    cases h
    exact ⟨rfl, .inl ⟨u, rfl, rfl⟩⟩
  | none =>
    cases hl : CompilerConfig.ofLibrary fs f.library with
    | error e =>
      rw [build_of_error hc hl] at h
      cases h
    | ok config =>
      rw [build_of_ofLibrary hc hl] at h
      cases h
      exact ⟨rfl, .inr ⟨rfl, config, rfl, rfl⟩⟩

/-- Without a library folder a first build cannot fail. -/
theorem create_empty (fs : FileSystem) (root : Option Path) (b : Buffers) :
    ∃ v g, empty.create fs root b = .ok (v, g) :=
  ⟨_, _, rfl⟩

/-- After a build the source that belongs at a path is there if the path has changed or there was no
unit; otherwise the unit has what it had. -/
theorem source?_of_create {fs : FileSystem} {f g : UnitFactory} {root : Option Path} {b : Buffers}
    {v : CompilationUnit} (hb : b.texts.Sorted) (h : f.create fs root b = .ok (v, g)) (p : Path) :
    v.source? p =
      if f.cached.isNone ∨ b.isChanged p then sourceAt fs root b p
      else f.cached.bind fun u => u.source? p := by
  obtain ⟨-, ⟨u, hu, rfl⟩ | ⟨hu, config, -, rfl⟩⟩ := create_cases h
  · rw [source?_addSources hb fun _ _ hpq => Buffers.isChanged_congr hpq b, source?_removeAll,
      Buffers.any_changedPaths, hu]
    cases b.isChanged p <;> simp
  · rw [source?_addSources hb fun _ _ _ => rfl, hu]
    have hnew : ({ config } : CompilationUnit).source? p = none := rfl
    simp [hnew]

theorem sorted_of_create {fs : FileSystem} {f g : UnitFactory} {root : Option Path} {b : Buffers}
    {v : CompilationUnit} (hf : ∀ u, f.cached = some u → u.table.Sorted)
    (h : f.create fs root b = .ok (v, g)) : v.table.Sorted := by
  obtain ⟨-, ⟨u, hu, rfl⟩ | ⟨-, config, -, rfl⟩⟩ := create_cases h
  · exact sorted_addSources (sorted_removeAll (hf u hu) _) _ _ _ _
  · exact sorted_addSources PathMap.sorted_empty _ _ _ _

end UnitFactory
end GroovyWorkspace
