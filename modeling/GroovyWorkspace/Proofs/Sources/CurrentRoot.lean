import GroovyWorkspace.Proofs.FileSystem.Names
import GroovyWorkspace.Proofs.Sources.Session
import Mathlib

/-!
# Builds for changing roots

The factory does not remember for which root it has built its unit. A build for another root therefore
keeps the sources at all paths without change, wanted or not: at such a path the unit has the source
that the root of the last rebuild asks for (`source?_of_fixedDisk`). All sources are ones that the
current root asks for exactly if those that have been kept are (`sources_honour_root_iff`).
-/

namespace GroovyWorkspace

open CompilationUnit

namespace CompilationUnit

/-- A source that is an open buffer with its current text. -/
def IsOpenBuffer (buffers : Buffers) (s : Source) : Prop :=
  ∃ text, buffers.text? s.path = some text ∧ s.origin = .buffer text

/-- What a root asks for: the files found below it and the open buffers below it, or all open buffers
if there is no root. -/
def Honours (fs : FileSystem) (root : Option Path) (buffers : Buffers) (s : Source) : Prop :=
  match root with
  | none => IsOpenBuffer buffers s
  | some r =>
    (filesOf fs r).any s.path.same = true ∨ IsOpenBuffer buffers s ∧ isBelow r s.path = true

theorem honours_sourceAt {fs : FileSystem} {root : Option Path} {b : Buffers} {p : Path} {s : Source}
    (hb : b.texts.Sorted) (h : sourceAt fs root b p = some s) : Honours fs root b s := by
  unfold sourceAt at h
  cases he : b.texts.stored? p with
  | some e =>
    rw [he] at h
    replace h : (if root.all fun r => isBelow r e.1 then _ else _) = _ := h
    split at h
    · rename_i hbelow
      cases h
      have hopen : IsOpenBuffer b ⟨e.1, .buffer e.2⟩ := ⟨e.2, Buffers.text?_of_stored? hb.distinct he, rfl⟩
      cases root with
      | none => exact hopen
      | some r => exact .inr ⟨hopen, hbelow⟩
    · cases h
  | none =>
    rw [he] at h
    obtain ⟨q, hq, rfl⟩ := Option.map_eq_some_iff.mp h
    cases root with
    | none => cases hq
    | some r =>
      have hmem : q ∈ filesOf fs r := List.mem_reverse.mp (List.mem_of_find?_eq_some hq)
      exact .inl (List.any_eq_true.mpr ⟨q, hmem, Path.same_self q⟩)

end CompilationUnit

namespace Session

/-- The rule of a session on a disk that stays as it is: changes are forgotten only right after a
build, which may be for any root. -/
def FixedDisk (s : Session) : Event → Prop
  | .reset => s.justBuilt = true
  | .files _ => False
  | _ => True

theorem Reaches.builds_fs {s : Session} (h : s.Reaches FixedDisk) : ∀ b ∈ s.builds, b.fs = s.fs := by
  induction h with
  | start fs library => exact nofun
  | @step s e _ he ih =>
    cases e with
    | files fs => exact he.elim
    | build root =>
      cases hc : s.factory.create s.fs root s.buffers with
      | error e =>
        rw [step_build_error hc]
        exact ih
      | ok result =>
        rw [step_build_ok hc, toSite_built hc]
        intro b hb
        rcases List.mem_cons.mp hb with rfl | hb
        · rfl
        · exact ih b hb
    | _ => exact ih

/-- What a build on a fixed disk leaves at a path: the source that the root asks for if the path is
rebuilt, and otherwise the one that the root of the last rebuild asks for. -/
theorem source?_of_fixedDisk {s : Session} (hs : s.Reaches FixedDisk) {root : Option Path}
    {u : CompilationUnit} {f : UnitFactory}
    (hc : s.factory.create s.fs root s.buffers = .ok (u, f)) (p : Path) :
    u.source? p =
      if s.factory.cached.isNone ∨ s.buffers.isChanged p then sourceAt s.fs root s.buffers p
      else (s.rebuilt? p).bind fun b => sourceAt s.fs b.root s.buffers p := by
  rw [UnitFactory.source?_of_create hs.faithful.texts hc]
  split
  · rfl
  · rename_i hp
    obtain ⟨hcached, hchanged⟩ := not_or.mp hp
    cases hw : s.factory.cached with
    | none => rw [hw] at hcached; exact absurd rfl hcached
    | some w =>
      obtain ⟨b, hb, hsource⟩ := hs.faithful.source w hw p
      have hfs : b.fs = s.fs := hs.builds_fs b (List.mem_of_find?_eq_some hb)
      have hentry : b.buffers.texts.stored? p = s.buffers.texts.stored? p :=
        hs.settled (fun _ h => h) p b hb (.inl (Bool.eq_false_iff.mpr hchanged))
      rw [hb, Option.bind_some, Option.bind_some, hsource, Build.sourceAt, hfs]
      exact sourceAt_congr hentry rfl

/-- **Sources of another root.** After a build on a fixed disk all sources are ones that its root asks
for if and only if this holds of the sources kept from earlier builds: those which the root of the last
rebuild asks for at a path without change. -/
theorem sources_honour_root_iff {s : Session} (hs : s.Reaches FixedDisk) {root : Option Path}
    {u : CompilationUnit} {f : UnitFactory}
    (hc : s.factory.create s.fs root s.buffers = .ok (u, f)) :
    (∀ src ∈ u.sources, Honours s.fs root s.buffers src) ↔
      (s.factory.cached.isSome = true → ∀ p b, s.buffers.isChanged p = false →
        s.rebuilt? p = some b → ∀ src, sourceAt s.fs b.root s.buffers p = some src →
          Honours s.fs root s.buffers src) := by
  have hsorted : u.table.Sorted := UnitFactory.sorted_of_create hs.faithful.table hc
  constructor
  · intro h hcached p b hchanged hb src hsrc
    refine h src ((mem_sources_iff hsorted).mpr ⟨p, ?_⟩)
    have hkept : ¬ (s.factory.cached.isNone = true ∨ s.buffers.isChanged p = true) := by
      simp [hchanged, Option.isSome_iff_ne_none.mp hcached]
    rw [source?_of_fixedDisk hs hc, if_neg hkept, hb, Option.bind_some, hsrc]
  · intro h src hsrc
    obtain ⟨p, hp⟩ := (mem_sources_iff hsorted).mp hsrc
    rw [source?_of_fixedDisk hs hc] at hp
    split at hp
    · exact honours_sourceAt hs.faithful.texts hp
    · rename_i hkept
      obtain ⟨hcached, hchanged⟩ := not_or.mp hkept
      obtain ⟨b, hb, hsource⟩ := Option.bind_eq_some_iff.mp hp
      refine h ?_ p b (Bool.eq_false_iff.mpr hchanged) hb src hsource
      simpa [Option.isSome_iff_ne_none] using hcached

/-- A session that has built the root `/ws` with the file `a.groovy` in it. -/
def rootBuilt : Session := step { fs := .oneFolder "ws" ["a.groovy"] } (.build workspaceRoot)

/-- A build without a root keeps the file of the root before, though no buffer is open. -/
theorem sources_honour_root_iff_rootBuilt :
    ∃ u f, rootBuilt.factory.create rootBuilt.fs none rootBuilt.buffers = .ok (u, f) ∧
      u.sources = [⟨Path.ofString "/ws/a.groovy", .disk⟩] ∧ rootBuilt.buffers.openPaths = [] ∧
      ¬ (∀ p b, rootBuilt.buffers.isChanged p = false → rootBuilt.rebuilt? p = some b →
        ∀ src, sourceAt rootBuilt.fs b.root rootBuilt.buffers p = some src →
          Honours rootBuilt.fs none rootBuilt.buffers src) := by
  have hreach : rootBuilt.Reaches FixedDisk := (Reaches.start _ none).step trivial
  obtain ⟨u, f, hcreate, hsources⟩ :
      ∃ u f, rootBuilt.factory.create rootBuilt.fs none rootBuilt.buffers = .ok (u, f) ∧
        u.sources = [⟨Path.ofString "/ws/a.groovy", .disk⟩] := ⟨_, _, rfl, by cbv⟩
  refine ⟨u, f, hcreate, hsources, rfl, fun h => ?_⟩
  have hall := (sources_honour_root_iff hreach hcreate).mpr fun _ => h
  rw [hsources, List.forall_mem_singleton] at hall
  obtain ⟨text, htext, -⟩ := hall
  cases htext

end Session
end GroovyWorkspace
