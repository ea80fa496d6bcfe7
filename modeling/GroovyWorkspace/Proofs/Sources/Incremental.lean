import GroovyWorkspace.Proofs.Sources.Discovery
import GroovyWorkspace.Proofs.Sources.Session
import Mathlib

/-!
# Incremental builds

In a session that keeps to one root, forgets changes only right after a build and marks every file that
appears or disappears, a build that starts from the last unit gives the same sources as a build from
scratch (`incremental_eq_full`): the buffer and the file at a path without mark are still those of the
build that last rebuilt the path.
-/

namespace GroovyWorkspace

open CompilationUnit

namespace Session

/-- Before the next build, all paths are marked that have come into or gone out of the listing of the
root since the last one. -/
def MarksListing (root : Option Path) (s : Session) : Prop :=
  ∀ b, s.builds.head? = some b →
    ∀ p, isListed b.fs root p ≠ isListed s.fs root p → s.buffers.isChanged p = true

/-- The rule of a session that keeps track of its changes. -/
def Tracked (root : Option Path) (s : Session) : Event → Prop
  | .reset => s.justBuilt = true
  | .build r => r = root ∧ s.fs.WellNamed ∧ s.MarksListing root
  | _ => True

/-- All builds are for one root, and none since the last rebuild of a path has seen it come or go. -/
structure Tracks (root : Option Path) (s : Session) : Prop where
  roots : ∀ b ∈ s.builds, b.root = root
  named : ∀ b ∈ s.builds, b.fs.WellNamed
  listed : ∀ p b last, s.rebuilt? p = some b → s.builds.head? = some last →
    isListed b.fs root p = isListed last.fs root p

theorem Tracks.of_builds {root : Option Path} {s t : Session} (h : s.Tracks root)
    (hbuilds : t.builds = s.builds) : t.Tracks root where
  roots b hb := h.roots b (hbuilds ▸ hb)
  named b hb := h.named b (hbuilds ▸ hb)
  listed p b last hb hlast := by
    unfold rebuilt? at hb
    rw [hbuilds] at hb hlast
    exact h.listed p b last hb hlast

theorem Tracks.built {root : Option Path} {s : Session} (h : s.Tracks root)
    (hfs : s.fs.WellNamed) (hmarks : s.MarksListing root) : (s.built root).Tracks root where
  roots b hb := by
    rcases List.mem_cons.mp hb with rfl | hb
    · rfl
    · exact h.roots b hb
  named b hb := by
    rcases List.mem_cons.mp hb with rfl | hb
    · exact hfs
    · exact h.named b hb
  listed p b last hb hlast := by
    obtain rfl := Option.some.inj hlast
    rw [rebuilt?_built] at hb
    split at hb
    · cases hb; rfl
    · rename_i hp
      -- the path is not marked, so the listing has not changed since the build before
      cases hbuilds : s.builds with
      | nil => rw [rebuilt?, hbuilds] at hb; cases hb
      | cons before rest =>
        have hbefore : s.builds.head? = some before := by rw [hbuilds]; rfl
        rw [h.listed p b before hb hbefore]
        refine Decidable.byContradiction fun hne => ?_
        exact hp (.inr (hmarks before hbefore p hne))

theorem Tracks.step {root : Option Path} {s : Session} (h : s.Tracks root) {e : Event}
    (he : Tracked root s e) : (s.step e).Tracks root := by
  cases e with
  | build r =>
    obtain ⟨rfl, hfs, hmarks⟩ := he
    cases hc : s.factory.create s.fs r s.buffers with
    | error e =>
      rw [step_build_error hc]
      exact h.of_builds rfl
    | ok result =>
      rw [step_build_ok hc]
      exact h.built hfs hmarks
  | _ => exact h.of_builds rfl

theorem Reaches.tracks {root : Option Path} {s : Session} (h : s.Reaches (Tracked root)) :
    s.Tracks root := by
  induction h with
  | start fs library => exact ⟨nofun, nofun, nofun⟩
  | step _ he ih => exact ih.step he

/-- In a session that keeps track of its changes the unit has at every path the source that belongs
there now. -/
theorem source?_of_tracked {root : Option Path} {s : Session} (hs : s.Reaches (Tracked root))
    (hr : Tracked root s (.build root)) {u : CompilationUnit} {f : UnitFactory}
    (hc : s.factory.create s.fs root s.buffers = .ok (u, f)) (p : Path) :
    u.source? p = sourceAt s.fs root s.buffers p := by
  have hnext : (s.built root).Reaches (Tracked root) := by
    rw [← step_build_ok hc]
    exact hs.step hr
  have hf : (s.built root).factory.cached = some u := by
    rw [toSite_built hc, (UnitFactory.create_cases hc).1]
  obtain ⟨b, hb, hsource⟩ := hnext.faithful.source u hf p
  have hmem : b ∈ (s.built root).builds := List.mem_of_find?_eq_some hb
  have hentry : b.buffers.texts.stored? p = s.buffers.texts.stored? p :=
    hnext.settled (fun _ h => h) p b hb (.inr rfl)
  have hlisted : isListed b.fs root p = isListed s.fs root p :=
    hnext.tracks.listed p b ⟨s.fs, root, s.buffers, s.factory.cached.isNone⟩ hb rfl
  rw [hsource, Build.sourceAt, hnext.tracks.roots b hmem]
  exact sourceAt_congr hentry (fileAt_eq (hnext.tracks.named b hmem) hr.2.1 hlisted)

/-- **Incremental builds are full builds.** Whatever has happened in a session that keeps track of its
changes, a build that succeeds gives the sources that a factory without unit gives. -/
theorem incremental_eq_full {root : Option Path} {s : Session} (hs : s.Reaches (Tracked root))
    (hr : Tracked root s (.build root)) {u : CompilationUnit} {f : UnitFactory}
    (hc : s.factory.create s.fs root s.buffers = .ok (u, f)) :
    (∃ v g, UnitFactory.empty.create s.fs root s.buffers = .ok (v, g) ∧ u.sources = v.sources) ∧
      ∀ (scratch : UnitFactory) v g, scratch.cached = none →
        scratch.create s.fs root s.buffers = .ok (v, g) → u.sources = v.sources := by
  have hfull : ∀ (scratch : UnitFactory) v g, scratch.cached = none →
      scratch.create s.fs root s.buffers = .ok (v, g) → u.sources = v.sources := by
    intro scratch v g hnone hv
    refine sources_eq (UnitFactory.sorted_of_create hs.faithful.table hc)
      (UnitFactory.sorted_of_create (by simp [hnone]) hv) fun p => ?_
    rw [source?_of_tracked hs hr hc, UnitFactory.source?_of_create hs.faithful.texts hv, hnone]
    rfl
  obtain ⟨v, g, hv⟩ := UnitFactory.create_empty s.fs root s.buffers
  exact ⟨⟨v, g, hv, hfull _ v g rfl hv⟩, hfull⟩

/-- After a first build `a.groovy` is opened in another spelling, `b.groovy` goes and `c.groovy`
comes. -/
def fileReplaced : Session :=
  [.build workspaceRoot, .reset, .put (Path.ofString "/ws//a.groovy") "x",
    .files (.oneFolder "ws" ["a.groovy", "c.groovy"]), .mark (Path.ofString "/ws/b.groovy"),
    .mark (Path.ofString "/ws/c.groovy")].foldl step { fs := .oneFolder "ws" ["a.groovy", "b.groovy"] }

theorem fileReplaced_reaches : fileReplaced.Reaches (Tracked workspaceRoot) := by
  refine (Reaches.start _ none).run ⟨⟨rfl, ?_, nofun⟩, rfl, trivial, trivial, trivial, trivial, trivial⟩
  exact (FileSystem.wellFormed_oneFolder (by decide) (by decide) (by decide)).named

theorem fileReplaced_tracked : Tracked workspaceRoot fileReplaced (.build workspaceRoot) := by
  have hnamed : (FileSystem.oneFolder "ws" ["a.groovy", "c.groovy"]).WellNamed :=
    (FileSystem.wellFormed_oneFolder (by decide) (by decide) (by decide)).named
  refine ⟨rfl, hnamed, ?_⟩
  intro b hb p hne
  obtain rfl := Option.some.inj hb
  have hbefore : workspaceRoot.elim [] (filesOf (.oneFolder "ws" ["a.groovy", "b.groovy"])) =
      [Path.ofString "/ws/a.groovy", Path.ofString "/ws/b.groovy"] := by cbv
  have hafter : workspaceRoot.elim [] (filesOf (.oneFolder "ws" ["a.groovy", "c.groovy"])) =
      [Path.ofString "/ws/a.groovy", Path.ofString "/ws/c.groovy"] := by cbv
  replace hne : isListed (.oneFolder "ws" ["a.groovy", "b.groovy"]) workspaceRoot p ≠
    isListed (.oneFolder "ws" ["a.groovy", "c.groovy"]) workspaceRoot p := hne
  rw [isListed, isListed, hbefore, hafter] at hne
  show (((_ : Buffers).mark (Path.ofString "/ws/b.groovy")).mark
    (Path.ofString "/ws/c.groovy")).isChanged p = true
  rw [Buffers.isChanged_mark, Buffers.isChanged_mark]
  cases hb : p.same (Path.ofString "/ws/b.groovy") <;>
    cases hc : p.same (Path.ofString "/ws/c.groovy") <;> simp_all

theorem incremental_eq_full_fileReplaced :
    ∃ u f, fileReplaced.factory.create fileReplaced.fs workspaceRoot fileReplaced.buffers =
        .ok (u, f) ∧
      u.sources = [⟨Path.ofString "/ws//a.groovy", .buffer "x"⟩, ⟨Path.ofString "/ws/c.groovy", .disk⟩] ∧
      ∃ v g, UnitFactory.empty.create fileReplaced.fs workspaceRoot fileReplaced.buffers =
        .ok (v, g) ∧ u.sources = v.sources := by
  refine ⟨_, _, rfl, by cbv, ?_⟩
  exact (incremental_eq_full fileReplaced_reaches fileReplaced_tracked rfl).1

end Session
end GroovyWorkspace
