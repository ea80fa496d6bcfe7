import GroovyWorkspace.Proofs.Sources.Buffers
import GroovyWorkspace.Proofs.Sources.Configuration
import GroovyWorkspace.Proofs.Sources.Incremental

/-!
# What a later build does

A build that starts from a unit takes out the sources at the changed paths and puts in those that belong
there. Removing, adding files and adding buffers are three loops, and together they exchange the sources
at the changed paths and touch nothing else, whatever the unit has been made by (`create_patches`). The
argument follows the entries of the unit's table, keys included, so that units come out equal and not only
alike.
-/

namespace GroovyWorkspace

namespace Buffers

/-! ## Buffers in any order -/

/-- The same buffers and changes, listed in another order. -/
structure Reorders (c b : Buffers) : Prop where
  texts : c.texts.entries.Perm b.texts.entries
  changed : c.changed.entries.Perm b.changed.entries

theorem Reorders.isOpen_eq {c b : Buffers} (h : c.Reorders b) : c.isOpen = b.isOpen :=
  funext fun p => PathMap.contains_eq_of_perm h.texts p

theorem Reorders.isChanged_eq {c b : Buffers} (h : c.Reorders b) : c.isChanged = b.isChanged :=
  funext fun p => PathMap.contains_eq_of_perm h.changed p

end Buffers

namespace CompilationUnit

/-! ## Entries of the table -/

theorem ext_stored {u v : CompilationUnit} (hu : u.table.Sorted) (hv : v.table.Sorted)
    (hconfig : u.config = v.config) (h : ∀ p, u.table.stored? p = v.table.stored? p) : u = v := by
  obtain ⟨config, table⟩ := u
  obtain ⟨config', table'⟩ := v
  obtain rfl : config = config' := hconfig
  obtain rfl : table = table' := hu.ext hv h
  rfl

/-- The entry at a path once a source has been added there, if any: a key that was there stays. -/
def overlay (old : Option (Path × Source)) : Option Source → Option (Path × Source)
  | some s => some ((old.map Prod.fst).getD s.path, s)
  | none => old

theorem stored?_add {u : CompilationUnit} (hu : u.table.Sorted) (s : Source) (p : Path) :
    (u.add s).table.stored? p =
      overlay (u.table.stored? p) (if p.same s.path then some s else none) := by
  rw [add, PathMap.stored?_insert hu]
  cases hp : p.same s.path with
  | true => rw [PathMap.stored?_congr hp]; rfl
  | false => rfl

theorem stored?_foldl_add_of_forall {f : Path → Option Source} (hf : ∀ q s, f q = some s → s.path = q)
    {qs : List Path} {p : Path} (hqs : ∀ q ∈ qs, p.same q = true → f q = none) {u : CompilationUnit}
    (hu : u.table.Sorted) :
    (qs.foldl (fun u q => (f q).elim u u.add) u).table.stored? p = u.table.stored? p := by
  induction qs generalizing u with
  | nil => rfl
  | cons q rest ih =>
    rw [List.forall_mem_cons] at hqs
    rw [List.foldl_cons]
    cases hq : f q with
    | none => exact ih hqs.2 hu
    | some s =>
      have hpq : p.same s.path = false := by
        rw [hf q s hq, Bool.eq_false_iff]
        intro hsame
        rw [hqs.1 hsame] at hq
        cases hq
      refine (ih hqs.2 (hu.insert s.path s)).trans ?_
      rw [Option.elim_some, stored?_add hu, hpq]
      rfl

theorem stored?_foldl_add {f : Path → Option Source} (hf : ∀ q s, f q = some s → s.path = q)
    {qs : List Path} (hqs : qs.Pairwise fun a b => a.same b = false) {u : CompilationUnit}
    (hu : u.table.Sorted) (p : Path) :
    (qs.foldl (fun u q => (f q).elim u u.add) u).table.stored? p =
      overlay (u.table.stored? p) ((qs.find? p.same).bind f) := by
  induction qs generalizing u with
  | nil => rfl
  | cons q rest ih =>
    obtain ⟨hq, hrest⟩ := List.pairwise_cons.mp hqs
    rw [List.foldl_cons, List.find?_cons]
    have hadded : ((f q).elim u u.add).table.Sorted := by
      cases f q with
      | none => exact hu
      | some s => exact hu.insert s.path s
    cases hp : p.same q with
    | false =>
      rw [ih hrest hadded]
      cases hs : f q with
      | none => rfl
      | some s =>
        rw [Option.elim_some, stored?_add hu, hf q s hs, hp]
        rfl
    | true =>
      -- the paths behind differ from this one, and so from `p`
      have hbehind : ∀ r ∈ rest, p.same r = true → f r = none := by
        intro r hr hsame
        rw [Path.same_congr hp, hq r hr] at hsame
        cases hsame
      rw [stored?_foldl_add_of_forall hf hbehind hadded, Option.bind_some]
      cases hs : f q with
      | none => rfl
      | some s => rw [Option.elim_some, stored?_add hu, hf q s hs, hp, if_pos rfl]

/-! ## Adding sources -/

theorem stored?_addSources_of_not_wanted {wanted : Path → Bool} (hw : IgnoresSpelling wanted) {p : Path}
    (hp : wanted p = false) (fs : FileSystem) (b : Buffers) (root : Option Path) {u : CompilationUnit}
    (hu : u.table.Sorted) : (u.addSources fs wanted b root).table.stored? p = u.table.stored? p := by
  have hunwanted : ∀ q, p.same q = true → wanted q = false := fun q hq => by rw [← hw p q hq, hp]
  have hbuffers : ∀ (also : Path → Bool) (v : CompilationUnit), v.table.Sorted →
      (∀ q, p.same q = true → also q = false) →
        (v.addBuffers also b).table.stored? p = v.table.stored? p := by
    intro also v hv halso
    rw [addBuffers_eq]
    refine stored?_foldl_add_of_forall path_of_bufferSource (fun q _ hq => ?_) hv
    rw [bufferSource, halso q hq]
    rfl
  cases root with
  | none => exact hbuffers wanted u hu hunwanted
  | some root =>
    rw [addSources, hbuffers _ _ (sorted_addFiles hu _ _ _) fun q hq => by rw [hunwanted q hq, Bool.and_false],
      addFiles_eq]
    refine stored?_foldl_add_of_forall path_of_fileSource (fun q _ hq => ?_) hu
    simp [fileSource, hunwanted q hq]

/-- What is at a path after buffers have been added depends on the buffer there only. -/
theorem stored?_addBuffers {b : Buffers} (hb : b.texts.Distinct) (wanted : Path → Bool)
    {u : CompilationUnit} (hu : u.table.Sorted) (p : Path) :
    (u.addBuffers wanted b).table.stored? p =
      overlay (u.table.stored? p) ((b.texts.stored? p).bind fun e =>
        if wanted e.1 then some ⟨e.1, .buffer e.2⟩ else none) := by
  have hkeys : b.openPaths.Pairwise fun a b => a.same b = false := List.pairwise_map.mpr hb
  have hfind : b.openPaths.find? p.same = (b.texts.stored? p).map Prod.fst := List.find?_map
  rw [addBuffers_eq, stored?_foldl_add path_of_bufferSource hkeys hu, hfind]
  congr 1
  cases he : b.texts.stored? p with
  | none => rfl
  | some e =>
    rw [Option.map_some, Option.bind_some, Option.bind_some, bufferSource, Buffers.text?_of_stored? hb he]
    rfl

theorem addSources_of_reorders {c b : Buffers} (h : c.Reorders b) (hb : b.texts.Distinct)
    (fs : FileSystem) (wanted : Path → Bool) (root : Option Path) {u : CompilationUnit}
    (hu : u.table.Sorted) : u.addSources fs wanted c root = u.addSources fs wanted b root := by
  have hbuffers : ∀ (also : Path → Bool) (v : CompilationUnit), v.table.Sorted →
      v.addBuffers also c = v.addBuffers also b := by
    intro also v hv
    refine ext_stored (sorted_addBuffers hv also c) (sorted_addBuffers hv also b) ?_ fun p => ?_
    · rw [config_addBuffers, config_addBuffers]
    · rw [stored?_addBuffers (hb.perm h.texts) also hv, stored?_addBuffers hb also hv,
        hb.stored?_eq_of_perm h.texts]
  cases root with
  | none => exact hbuffers wanted u hu
  | some root =>
    have hfiles : u.addFiles wanted c (filesOf fs root) = u.addFiles wanted b (filesOf fs root) := by
      unfold addFiles
      rw [h.isOpen_eq]
    rw [addSources, addSources, hfiles]
    exact hbuffers _ _ (sorted_addFiles hu _ _ _)

/-! ## Patching a unit -/

/-- The unit brought up to date. -/
def patched (fs : FileSystem) (root : Option Path) (b : Buffers) (u : CompilationUnit) :
    CompilationUnit :=
  (u.removeAll b.changedPaths).1.addSources fs b.isChanged b root

/-- Outside of the changed paths a patch keeps the entries, so that both units leave the same once the
changed paths are taken out. -/
theorem removeAll_patched {u : CompilationUnit} (hu : u.table.Sorted) (fs : FileSystem)
    (root : Option Path) (b : Buffers) :
    ((u.patched fs root b).removeAll b.changedPaths).1 = (u.removeAll b.changedPaths).1 := by
  have hremoved := sorted_removeAll hu b.changedPaths
  refine ext_stored (sorted_removeAll (sorted_addSources hremoved _ _ _ _) _) hremoved ?_ fun p => ?_
  · rw [config_removeAll, patched, config_addSources]
  · rw [stored?_removeAll, stored?_removeAll, Buffers.any_changedPaths]
    cases hp : b.isChanged p with
    | true => rfl
    | false =>
      rw [if_neg Bool.false_ne_true, patched,
        stored?_addSources_of_not_wanted (fun _ _ hpq => Buffers.isChanged_congr hpq b) hp fs b root
          hremoved, stored?_removeAll, Buffers.any_changedPaths, hp]

theorem patched_patched {u : CompilationUnit} (hu : u.table.Sorted) (fs : FileSystem)
    (root : Option Path) (b : Buffers) :
    (u.patched fs root b).patched fs root b = u.patched fs root b := by
  rw [patched, removeAll_patched hu]
  rfl

theorem patched_of_reorders {c b : Buffers} (h : c.Reorders b) (hb : b.texts.Distinct)
    (fs : FileSystem) (root : Option Path) {u : CompilationUnit} (hu : u.table.Sorted) :
    u.patched fs root c = u.patched fs root b := by
  have hremoved : (u.removeAll c.changedPaths).1 = (u.removeAll b.changedPaths).1 := by
    refine ext_stored (sorted_removeAll hu _) (sorted_removeAll hu _) ?_ fun p => ?_
    · rw [config_removeAll, config_removeAll]
    · rw [stored?_removeAll, stored?_removeAll, Buffers.any_changedPaths, Buffers.any_changedPaths,
        h.isChanged_eq]
  rw [patched, patched, hremoved, h.isChanged_eq, addSources_of_reorders h hb _ _ _ (sorted_removeAll hu _)]

end CompilationUnit

namespace UnitFactory

open CompilationUnit

theorem create_eq_patched {f : UnitFactory} {u : CompilationUnit} (hu : f.cached = some u)
    (fs : FileSystem) (root : Option Path) (b : Buffers) :
    f.create fs root b = .ok (u.patched fs root b, { f with cached := some (u.patched fs root b) }) :=
  create_eq_ok_iff.mpr (build_of_cached hu fs root b)

/-- **What a later build does.** A build that starts from a unit, whatever it has been made by, succeeds
and keeps the configuration. At the paths without change the unit keeps its sources, and at the changed
ones it has what a build from scratch has there. The order in which changes and buffers are listed does
not matter, and the same build once more changes nothing. -/
theorem create_patches {f : UnitFactory} {u : CompilationUnit} (hu : f.cached = some u)
    (htable : u.table.Sorted) (fs : FileSystem) (root : Option Path) (edits : List Buffers.Edit) :
    ∃ v, f.create fs root (.after edits) = .ok (v, { f with cached := some v }) ∧
      v.config = u.config ∧
      (∀ p, (Buffers.after edits).isChanged p = false → v.source? p = u.source? p) ∧
      (∃ w g, empty.create fs root (.after edits) = .ok (w, g)) ∧
      (∀ (scratch : UnitFactory) w g, scratch.cached = none →
        scratch.create fs root (.after edits) = .ok (w, g) →
          ∀ p, (Buffers.after edits).isChanged p = true → v.source? p = w.source? p) ∧
      (∀ c : Buffers, c.Reorders (.after edits) →
        f.create fs root c = f.create fs root (.after edits)) ∧
      create fs { f with cached := some v } root (.after edits) = f.create fs root (.after edits) := by
  have hb : (Buffers.after edits).texts.Sorted := Buffers.sorted_texts_after edits
  have hcreate := create_eq_patched hu fs root (.after edits)
  have hsource := source?_of_create hb hcreate
  rw [hu] at hsource
  refine ⟨_, hcreate, ?_, fun p hp => ?_, create_empty fs root _, fun scratch w g hnone hw p hp => ?_,
    fun c hc => ?_, ?_⟩
  · rw [patched, config_addSources, config_removeAll]
  · rw [hsource p, hp]
    rfl
  · rw [hsource p, source?_of_create hb hw p, hp, hnone]
    rfl
  · rw [create_eq_patched hu, hcreate, patched_of_reorders hc hb.distinct fs root htable]
  · rw [create_eq_patched rfl, hcreate, patched_patched htable]

/-- The buffer `/ws//a.groovy` is opened and `/ws/c.groovy` is marked. -/
def openedAndMarked : List Buffers.Edit :=
  [.put (Path.ofString "/ws//a.groovy") "x", .mark (Path.ofString "/ws/c.groovy")]

/-- The same buffer and changes, with the changes listed from the last to the first. -/
def reversedChanges : Buffers :=
  { Buffers.after openedAndMarked with changed := ⟨(Buffers.after openedAndMarked).changed.entries.reverse⟩ }

/-- The file `b.groovy` is gone but not marked, so that the unit keeps it. -/
theorem create_patches_openedAndMarked :
    ∃ v, Session.fileReplaced.factory.create Session.fileReplaced.fs Session.workspaceRoot
        (.after openedAndMarked) = .ok (v, { Session.fileReplaced.factory with cached := some v }) ∧
      v.sources = [⟨Path.ofString "/ws//a.groovy", .buffer "x"⟩, ⟨Path.ofString "/ws/b.groovy", .disk⟩,
        ⟨Path.ofString "/ws/c.groovy", .disk⟩] ∧
      reversedChanges.Reorders (.after openedAndMarked) ∧
      Session.fileReplaced.factory.create Session.fileReplaced.fs Session.workspaceRoot reversedChanges =
        .ok (v, { Session.fileReplaced.factory with cached := some v }) := by
  have hu : Session.fileReplaced.factory.cached = some _ := rfl
  have htable := Session.fileReplaced_reaches.faithful.table _ hu
  have horder : reversedChanges.Reorders (.after openedAndMarked) := ⟨.refl _, List.reverse_perm _⟩
  obtain ⟨v, hv, -, -, -, -, hany, -⟩ :=
    create_patches hu htable Session.fileReplaced.fs Session.workspaceRoot openedAndMarked
  obtain rfl := congrArg Prod.fst (Except.ok.inj hv)
  exact ⟨_, hv, by cbv, horder, (hany _ horder).trans hv⟩

end UnitFactory
end GroovyWorkspace
