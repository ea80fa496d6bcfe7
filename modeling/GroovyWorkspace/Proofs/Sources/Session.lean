import GroovyWorkspace.Proofs.Sources.Buffers
import GroovyWorkspace.Proofs.Sources.Site

/-!
# Sessions

A session is a run of editor events, changes on disk, changes of the library folder and builds, in any
order. It remembers the builds that have succeeded, and so can say which of them last put a source at a
path. The main result is that the unit kept by the factory is a patchwork of these builds: at every
path it has the source that belonged there in the build that last rebuilt the path (`Faithful`). If
changes are forgotten only right after a build, the buffer there is still the one of that build
(`Settled`).
-/

namespace GroovyWorkspace

open CompilationUnit

/-- A build that has succeeded: what it was made from, and whether it started without a unit. -/
structure Build where
  fs : FileSystem
  root : Option Path
  buffers : Buffers
  fresh : Bool

/-- Whether a build has looked at a path anew. -/
def Build.rebuilds (b : Build) (p : Path) : Bool := b.fresh || b.buffers.isChanged p

def Build.sourceAt (b : Build) (p : Path) : Option Source :=
  CompilationUnit.sourceAt b.fs b.root b.buffers p

/-- The state of a session: the disk, the editor, the factory, the successful builds with the newest
first, and whether a successful build is the last thing that has happened. -/
structure Session extends UnitFactory.Site where
  buffers : Buffers := {}
  builds : List Build := []
  justBuilt : Bool := false

/-- What can happen in a session. Opening a buffer and changing its text are one event. -/
inductive Event where
  | put (p : Path) (text : String)
  | close (p : Path)
  | mark (p : Path)
  | reset
  | files (fs : FileSystem)
  | setLibrary (path : Option String)
  | applySettings (store : Store)
  | invalidate
  | build (root : Option Path)

namespace Session

def use (s : Session) (use : UnitFactory.Use) : Session :=
  { s with toSite := s.toSite.step use, justBuilt := false }

/-- A session in which a build has succeeded. -/
def built (s : Session) (root : Option Path) : Session :=
  { s.use (.create root s.buffers) with
    builds := ⟨s.fs, root, s.buffers, s.factory.cached.isNone⟩ :: s.builds
    justBuilt := true }

def step (s : Session) : Event → Session
  | .put p text => { s with buffers := s.buffers.put p text, justBuilt := false }
  | .close p => { s with buffers := s.buffers.close p, justBuilt := false }
  | .mark p => { s with buffers := s.buffers.mark p, justBuilt := false }
  | .reset => { s with buffers := s.buffers.reset, justBuilt := false }
  | .files fs => s.use (.files fs)
  | .setLibrary path => s.use (.setLibrary path)
  | .applySettings store => s.use (.applySettings store)
  | .invalidate => s.use .invalidate
  | .build root =>
    if (s.factory.create s.fs root s.buffers).isOk then s.built root
    else s.use (.create root s.buffers)

/-- The sessions that events obeying a rule lead to, from a factory without unit and an editor without
buffers. -/
inductive Reaches (rule : Session → Event → Prop) : Session → Prop
  | start (fs : FileSystem) (library : Option LibraryFolder) :
    Reaches rule { fs, factory := { library } }
  | step {s : Session} {e : Event} (h : Reaches rule s) (he : rule s e) : Reaches rule (s.step e)

def Obeys (rule : Session → Event → Prop) : Session → List Event → Prop
  | _, [] => True
  | s, e :: es => rule s e ∧ Obeys rule (s.step e) es

theorem Reaches.run {rule : Session → Event → Prop} {s : Session} (h : s.Reaches rule)
    {es : List Event} (hes : Obeys rule s es) : (es.foldl Session.step s).Reaches rule := by
  induction es generalizing s with
  | nil => exact h
  | cons e rest ih => exact ih (h.step hes.1) hes.2

/-- The last build that has looked at a path anew. -/
def rebuilt? (s : Session) (p : Path) : Option Build := s.builds.find? fun b => b.rebuilds p

theorem step_build_ok {s : Session} {root : Option Path} {u : CompilationUnit} {f : UnitFactory}
    (h : s.factory.create s.fs root s.buffers = .ok (u, f)) : s.step (.build root) = s.built root := by
  rw [step, h]
  rfl

theorem step_build_error {s : Session} {root : Option Path} {e : ClasspathError}
    (h : s.factory.create s.fs root s.buffers = .error e) :
    s.step (.build root) = { s with justBuilt := false } := by
  rw [step, use, UnitFactory.Site.step, h]
  rfl

theorem toSite_built {s : Session} {root : Option Path} {u : CompilationUnit} {f : UnitFactory}
    (h : s.factory.create s.fs root s.buffers = .ok (u, f)) :
    (s.built root).toSite = { s.toSite with factory := f } := by
  rw [built, use, UnitFactory.Site.step, h]

/-- A build that succeeds rebuilds what has changed, or everything if there was no unit. -/
theorem rebuilt?_built (s : Session) (root : Option Path) (p : Path) :
    (s.built root).rebuilt? p =
      if s.factory.cached.isNone ∨ s.buffers.isChanged p then
        some ⟨s.fs, root, s.buffers, s.factory.cached.isNone⟩
      else s.rebuilt? p := by
  unfold rebuilt? built
  rw [List.find?_cons]
  simp only [Build.rebuilds]
  cases s.factory.cached.isNone <;> cases s.buffers.isChanged p <;> rfl

/-! ## The unit is a patchwork of builds -/

/-- Tables are in order, and a unit that is kept has at every path the source of the build that last
rebuilt it. -/
structure Faithful (s : Session) : Prop where
  texts : s.buffers.texts.Sorted
  table : ∀ u, s.factory.cached = some u → u.table.Sorted
  source : ∀ u, s.factory.cached = some u → ∀ p, ∃ b, s.rebuilt? p = some b ∧ u.source? p = b.sourceAt p

/-- Events that touch neither builds nor unit. -/
theorem Faithful.of_cached {s t : Session} (h : s.Faithful) (htexts : t.buffers.texts.Sorted)
    (hbuilds : t.builds = s.builds)
    (hcached : ∀ u, t.factory.cached = some u → s.factory.cached = some u) : t.Faithful where
  texts := htexts
  table u hu := h.table u (hcached u hu)
  source u hu p := by
    unfold rebuilt?
    rw [hbuilds]
    exact h.source u (hcached u hu) p

theorem Faithful.use {s : Session} (h : s.Faithful) {use : UnitFactory.Use}
    (huse : ∀ root buffers, use ≠ .create root buffers) : (s.use use).Faithful :=
  h.of_cached h.texts rfl fun _ hu => UnitFactory.Site.cached_of_step huse hu

theorem Faithful.built {s : Session} (h : s.Faithful) {root : Option Path} {u : CompilationUnit}
    {f : UnitFactory} (hc : s.factory.create s.fs root s.buffers = .ok (u, f)) :
    (s.built root).Faithful := by
  have hf : (s.built root).factory.cached = some u := by
    rw [toSite_built hc, (UnitFactory.create_cases hc).1]
  refine ⟨h.texts, ?_, ?_⟩
  · intro v hv
    obtain rfl : u = v := Option.some.inj (hf.symm.trans hv)
    exact UnitFactory.sorted_of_create h.table hc
  · intro v hv p
    obtain rfl : u = v := Option.some.inj (hf.symm.trans hv)
    rw [rebuilt?_built, UnitFactory.source?_of_create h.texts hc]
    by_cases hp : s.factory.cached.isNone ∨ s.buffers.isChanged p
    · rw [if_pos hp, if_pos hp]
      exact ⟨_, rfl, rfl⟩
    · rw [if_neg hp, if_neg hp]
      cases hw : s.factory.cached with
      | none => exact absurd (.inl (by rw [hw]; rfl)) hp
      | some w => exact h.source w hw p

theorem Faithful.step {s : Session} (h : s.Faithful) (e : Event) : (s.step e).Faithful := by
  cases e with
  | put p text => exact h.of_cached (h.texts.insert p text) rfl fun _ hu => hu
  | close p => exact h.of_cached (h.texts.erase p) rfl fun _ hu => hu
  | mark p => exact h.of_cached h.texts rfl fun _ hu => hu
  | reset => exact h.of_cached h.texts rfl fun _ hu => hu
  | files fs => exact h.use nofun
  | setLibrary path => exact h.use nofun
  | applySettings store => exact h.use nofun
  | invalidate => exact h.use nofun
  | build root =>
    cases hc : s.factory.create s.fs root s.buffers with
    | error e =>
      rw [step_build_error hc]
      exact h.of_cached h.texts rfl fun _ hu => hu
    | ok r =>
      rw [step_build_ok hc]
      exact h.built hc

theorem Reaches.faithful {rule : Session → Event → Prop} {s : Session} (h : s.Reaches rule) :
    s.Faithful := by
  induction h with
  | start fs library => exact ⟨PathMap.sorted_empty, nofun, nofun⟩
  | step _ _ ih => exact ih.step _

/-! ## Buffers since the last rebuild -/

/-- At a path without pending change the buffer is the one of the build that last rebuilt the path. Right
after a build this holds at every path. -/
def Settled (s : Session) : Prop :=
  ∀ p b, s.rebuilt? p = some b → s.buffers.isChanged p = false ∨ s.justBuilt = true →
    b.buffers.texts.stored? p = s.buffers.texts.stored? p

/-- Events after which only the changed paths may have another buffer. -/
theorem Settled.of_unchanged {s t : Session} (h : s.Settled) (hbuilds : t.builds = s.builds)
    (hjust : t.justBuilt = false)
    (hkeep : ∀ p, t.buffers.isChanged p = false → s.buffers.isChanged p = false ∧
      t.buffers.texts.stored? p = s.buffers.texts.stored? p) : t.Settled := by
  intro p b hb hp
  unfold rebuilt? at hb
  rw [hbuilds] at hb
  rw [hjust] at hp
  obtain ⟨hchanged, hentry⟩ := hkeep p (by simpa using hp)
  rw [hentry]
  exact h p b hb (.inl hchanged)

theorem Settled.built {s : Session} (h : s.Settled) (root : Option Path) : (s.built root).Settled := by
  intro p b hb _
  rw [rebuilt?_built] at hb
  split at hb
  · cases hb; rfl
  · rename_i hp
    exact h p b hb (.inl (by simpa using fun hc => hp (.inr hc)))

theorem Settled.step {s : Session} (h : s.Settled) (hs : s.Faithful) {e : Event}
    (he : e = .reset → s.justBuilt = true) : (s.step e).Settled := by
  cases e with
  | put q text =>
    refine h.of_unchanged rfl rfl fun p hp => ?_
    replace hp : (s.buffers.put q text).isChanged p = false := hp
    rw [Buffers.isChanged_put, Bool.or_eq_false_iff] at hp
    refine ⟨hp.2, ?_⟩
    exact (PathMap.stored?_insert hs.texts q p text).trans (by rw [hp.1]; rfl)
  | close q =>
    refine h.of_unchanged rfl rfl fun p hp => ?_
    replace hp : (s.buffers.close q).isChanged p = false := hp
    rw [Buffers.isChanged_close, Bool.or_eq_false_iff] at hp
    refine ⟨hp.2, ?_⟩
    exact (PathMap.stored?_erase s.buffers.texts q p).trans (by rw [hp.1]; rfl)
  | mark q =>
    refine h.of_unchanged rfl rfl fun p hp => ?_
    replace hp : (s.buffers.mark q).isChanged p = false := hp
    rw [Buffers.isChanged_mark, Bool.or_eq_false_iff] at hp
    exact ⟨hp.2, rfl⟩
  | reset =>
    intro p b hb _
    exact h p b hb (.inr (he rfl))
  | files fs => exact h.of_unchanged rfl rfl fun _ hp => ⟨hp, rfl⟩
  | setLibrary path => exact h.of_unchanged rfl rfl fun _ hp => ⟨hp, rfl⟩
  | applySettings store => exact h.of_unchanged rfl rfl fun _ hp => ⟨hp, rfl⟩
  | invalidate => exact h.of_unchanged rfl rfl fun _ hp => ⟨hp, rfl⟩
  | build root =>
    cases hc : s.factory.create s.fs root s.buffers with
    | error e =>
      rw [step_build_error hc]
      exact h.of_unchanged rfl rfl fun _ hp => ⟨hp, rfl⟩
    | ok r =>
      rw [step_build_ok hc]
      exact h.built root

theorem Reaches.settled {rule : Session → Event → Prop}
    (hrule : ∀ s, rule s .reset → s.justBuilt = true) {s : Session} (h : s.Reaches rule) :
    s.Settled := by
  induction h with
  | start fs library => exact nofun
  | @step s e hs he ih =>
    refine ih.step hs.faithful ?_
    rintro rfl
    exact hrule s he

def workspaceRoot : Option Path := some (Path.ofString "/ws")

end Session
end GroovyWorkspace
