import GroovyWorkspace.Proofs.Library.Jars
import GroovyWorkspace.Proofs.Sources.Site
import Mathlib.Data.List.Induction

/-!
# The configuration of a kept unit

The configuration of a unit is fixed by the build that starts without one; later builds only exchange
sources. Another library folder drops the unit, so that a unit which is kept has the configuration for
the current library folder, as the disk was at the build it has come from (`config_of_cached`).
-/

namespace GroovyWorkspace

namespace CompilationUnit

/-! ## Builds keep the configuration -/

theorem config_foldl {f : CompilationUnit → Path → CompilationUnit}
    (hf : ∀ u p, (f u p).config = u.config) (ps : List Path) (u : CompilationUnit) :
    (ps.foldl f u).config = u.config := by
  induction ps generalizing u with
  | nil => rfl
  | cons p rest ih => rw [List.foldl_cons, ih, hf]

theorem config_removeAll (u : CompilationUnit) (ps : List Path) :
    (u.removeAll ps).1.config = u.config := by
  rw [removeAll_fst]
  exact config_foldl (f := remove) (fun _ _ => rfl) ps u

theorem config_addBuffers (u : CompilationUnit) (wanted : Path → Bool) (b : Buffers) :
    (u.addBuffers wanted b).config = u.config := by
  refine config_foldl (fun v p => ?_) _ u
  unfold addBuffer
  split
  · split <;> rfl
  · rfl

theorem config_addSources (u : CompilationUnit) (fs : FileSystem) (wanted : Path → Bool) (b : Buffers)
    (root : Option Path) : (u.addSources fs wanted b root).config = u.config := by
  cases root with
  | none => exact config_addBuffers u wanted b
  | some root =>
    rw [addSources, config_addBuffers]
    refine config_foldl (fun v p => ?_) _ u
    split <;> rfl

end CompilationUnit

theorem CompilerConfig.classpath_of_ofLibrary {fs : FileSystem} {library : Option LibraryFolder}
    {config : CompilerConfig} (h : ofLibrary fs library = .ok config) :
    Classpath.ofFolder fs library = .ok config.classpath := by
  unfold ofLibrary at h
  cases hfolder : Classpath.ofFolder fs library with
  | error e => rw [hfolder] at h; cases h
  | ok classpath => rw [hfolder] at h; cases h; rfl

namespace UnitFactory

open CompilationUnit

/-- A build that starts from a unit succeeds and keeps the configuration and the library folder. -/
theorem create_of_cached {f : UnitFactory} {u : CompilationUnit} (hu : f.cached = some u)
    (fs : FileSystem) (root : Option Path) (b : Buffers) :
    ∃ v, f.create fs root b = .ok (v, { f with cached := some v }) ∧ v.config = u.config := by
  refine ⟨(u.removeAll b.changedPaths).1.addSources fs b.isChanged b root, ?_, ?_⟩
  · exact create_eq_ok_iff.mpr (build_of_cached hu fs root b)
  · rw [config_addSources, config_removeAll]

/-- A build that starts without a unit takes the configuration for the library folder. -/
theorem config_of_create {f g : UnitFactory} {fs : FileSystem} {root : Option Path} {b : Buffers}
    {v : CompilationUnit} (hf : f.cached = none) (h : f.create fs root b = .ok (v, g)) :
    CompilerConfig.ofLibrary fs f.library = .ok v.config := by
  obtain ⟨-, ⟨u, hu, -⟩ | ⟨-, config, hconfig, rfl⟩⟩ := create_cases h
  · rw [hf] at hu
    cases hu
  · rw [hconfig, config_addSources]

namespace Site

/-- A unit with the given configuration is kept, and the library folder is the given one. -/
structure Holds (config : CompilerConfig) (library : Option LibraryFolder) (s : Site) : Prop where
  unit : ∃ u, s.factory.cached = some u ∧ u.config = config
  folder : s.factory.library = library

/-- Before, between and behind some uses a unit with the given configuration is kept and the library
folder is the given one, and no use sets it. -/
def Keeps (config : CompilerConfig) (library : Option LibraryFolder) : Site → List Use → Prop
  | s, [] => s.Holds config library
  | s, use :: more =>
    s.Holds config library ∧ s.replaces use = false ∧ Keeps config library (s.step use) more

/-! ## One use -/

variable {config : CompilerConfig} {library : Option LibraryFolder}

/-- After a use the unit is gone, or it has the configuration it had and the library folder has not
been set. -/
theorem Holds.step {s : Site} (h : s.Holds config library) (use : Use) :
    (s.step use).factory.cached = none ∨
      s.replaces use = false ∧ (s.step use).Holds config library := by
  rcases s.step_cases use with ⟨hsame, hreplaces⟩ | hdrop | ⟨root, buffers, v, rfl, hv, hstep⟩
  · refine .inr ⟨hreplaces, ?_, ?_⟩
    · rw [hsame]
      exact h.unit
    · rw [hsame, h.folder]
  · exact .inl hdrop
  · obtain ⟨u, hu, hconfig⟩ := h.unit
    obtain ⟨w, hw, hsame⟩ := create_of_cached hu s.fs root buffers
    cases hv.symm.trans hw
    refine .inr ⟨rfl, ?_⟩
    rw [hstep]
    exact ⟨⟨v, rfl, hsame.trans hconfig⟩, h.folder⟩

/-- A unit that was not there has been built for the library folder. -/
theorem holds_of_step {s : Site} (hs : s.factory.cached = none) {use : Use} {u : CompilationUnit}
    (hu : (s.step use).factory.cached = some u) :
    ∃ root buffers, use = .create root buffers ∧
      CompilerConfig.ofLibrary s.fs s.factory.library = .ok u.config ∧
      (s.step use).Holds u.config s.factory.library := by
  rcases s.step_cases use with ⟨hsame, -⟩ | hdrop | ⟨root, buffers, v, rfl, hv, hstep⟩
  · rw [hsame, hs] at hu
    cases hu
  · rw [hdrop] at hu
    cases hu
  · rw [hstep] at hu ⊢
    obtain rfl : v = u := Option.some.inj hu
    exact ⟨root, buffers, rfl, config_of_create hs hv, ⟨v, rfl, rfl⟩, rfl⟩

/-! ## Runs -/

theorem Keeps.concat {s : Site} {uses : List Use} (h : Keeps config library s uses) {use : Use}
    (hreplaces : (s.run uses).replaces use = false)
    (hholds : ((s.run uses).step use).Holds config library) :
    Keeps config library s (uses ++ [use]) := by
  induction uses generalizing s with
  | nil => exact ⟨h, hreplaces, hholds⟩
  | cons first more ih => exact ⟨h.1, h.2.1, ih h.2.2 hreplaces hholds⟩

theorem Keeps.last {s : Site} {uses : List Use} (h : Keeps config library s uses) :
    (s.run uses).Holds config library := by
  induction uses generalizing s with
  | nil => exact h
  | cons first more ih => exact ih h.2.2

/-- The build that the unit kept after some uses has come from: it started without a unit, and since then
a unit with its configuration has been kept and the library folder has not been set. -/
structure ComesFrom (start : Site) (uses : List Use) (config : CompilerConfig) (before : List Use)
    (root : Option Path) (buffers : Buffers) (since : List Use) : Prop where
  split : uses = before ++ .create root buffers :: since
  fresh : (start.run before).factory.cached = none
  built : CompilerConfig.ofLibrary (start.run before).fs (start.run uses).factory.library = .ok config
  kept : Keeps config (start.run uses).factory.library
    ((start.run before).step (.create root buffers)) since

theorem exists_comesFrom {start : Site} (hstart : start.factory.cached = none) {uses : List Use}
    {u : CompilationUnit} (hu : (start.run uses).factory.cached = some u) :
    ∃ before root buffers since, ComesFrom start uses u.config before root buffers since := by
  induction uses using List.reverseRecOn generalizing u with
  | nil =>
    rw [run, List.foldl_nil, hstart] at hu
    cases hu
  | append_singleton uses use ih =>
    rw [run_concat] at hu
    cases hw : (start.run uses).factory.cached with
    | none =>
      obtain ⟨root, buffers, rfl, hconfig, hholds⟩ := holds_of_step hw hu
      have hfolder := hholds.folder
      rw [← run_concat] at hfolder
      refine ⟨uses, root, buffers, [], rfl, hw, ?_, ?_⟩
      · rw [hfolder, hconfig]
      · rw [hfolder]
        exact hholds
    | some w =>
      obtain ⟨before, root, buffers, since, h⟩ := ih hw
      have hrun : ((start.run before).step (.create root buffers)).run since = start.run uses := by
        rw [h.split, run, run, run, List.foldl_append, List.foldl_cons]
      have hlast := h.kept.last
      rw [hrun] at hlast
      rcases hlast.step use with hgone | ⟨hreplaces, hholds⟩
      · rw [hgone] at hu
        cases hu
      · obtain ⟨v, hv, hconfig⟩ := hholds.unit
        obtain rfl : v = u := Option.some.inj (hv.symm.trans hu)
        have hfolder := hholds.folder
        rw [← run_concat] at hfolder
        refine ⟨before, root, buffers, since ++ [use], ?_, h.fresh, ?_, ?_⟩
        · rw [h.split, List.append_assoc, List.cons_append]
        · rw [hfolder, hconfig, h.built]
        · rw [hfolder, hconfig]
          exact h.kept.concat (by rw [hrun]; exact hreplaces) (by rw [hrun]; exact hholds)

/-- **A kept unit fits the library folder.** In every state that uses of a factory lead to, the unit that
is kept has the configuration which the current library folder had at the build that last started without
a unit, and the folder has not been set since. The next build cannot change it. On a disk that stays as
it is the classpath of the unit is the list of the folder's jars. -/
theorem config_of_cached {start : Site} (hstart : start.factory.cached = none) {uses : List Use}
    {u : CompilationUnit} (hu : (start.run uses).factory.cached = some u) :
    (∃ before root buffers since, ComesFrom start uses u.config before root buffers since) ∧
      (∀ root buffers, ∃ v f,
        (start.run uses).factory.create (start.run uses).fs root buffers = .ok (v, f) ∧
          v.config = u.config ∧ f.library = (start.run uses).factory.library) ∧
      ((∀ fs, .files fs ∉ uses) →
        CompilerConfig.ofLibrary start.fs (start.run uses).factory.library = .ok u.config ∧
          ((start.run uses).factory.library = none → u.config.classpath.entries = []) ∧
          (start.fs.WellFormed → ∀ folder, (start.run uses).factory.library = some folder →
            folder.jars start.fs = .ok u.config.classpath.entries)) := by
  obtain ⟨before, root, buffers, since, h⟩ := exists_comesFrom hstart hu
  refine ⟨⟨before, root, buffers, since, h⟩, fun root buffers => ?_, fun hfixed => ?_⟩
  · obtain ⟨v, hv, hconfig⟩ := create_of_cached hu (start.run uses).fs root buffers
    exact ⟨v, _, hv, hconfig, rfl⟩
  · have hbefore : ∀ fs, .files fs ∉ before := by
      intro fs hfs
      refine hfixed fs ?_
      rw [h.split]
      exact List.mem_append_left _ hfs
    have hbuilt := h.built
    rw [run_fs hbefore] at hbuilt
    have hclasspath := CompilerConfig.classpath_of_ofLibrary hbuilt
    refine ⟨hbuilt, fun hnone => ?_, fun hfs folder hfolder => ?_⟩
    · rw [hnone] at hclasspath
      rw [← Except.ok.inj hclasspath]
      rfl
    · rw [hfolder] at hclasspath
      exact (Classpath.ofFolder_eq_ok_iff hfs).mp hclasspath

/-- A factory on a disk with two jars and a text in the folder `/libs`. -/
def librarySite : Site := ⟨.oneFolder "libs" ["b.jar", "a.txt", "A.JAR"], {}⟩

/-- The folder is set, a unit is built, a folder that is not there is refused, and the unit is built
again with a buffer. -/
def refusedFolder : List Use :=
  [.setLibrary (some "/libs"), .create none {}, .setLibrary (some "/missing"),
    .create none ((Buffers.empty).put (Path.ofString "/x.groovy") "x")]

theorem config_of_cached_refusedFolder :
    ∃ u, (librarySite.run refusedFolder).factory.cached = some u ∧
      u.sources = [⟨Path.ofString "/x.groovy", .buffer "x"⟩] ∧
      (∃ before root buffers since,
        ComesFrom librarySite refusedFolder u.config before root buffers since) ∧
      (⟨Path.ofString "/libs"⟩ : LibraryFolder).jars librarySite.fs =
        .ok u.config.classpath.entries ∧
      u.config.classpath.entries = [Path.ofString "/libs/A.JAR", Path.ofString "/libs/b.jar"] := by
  have hfs : librarySite.fs.WellFormed :=
    FileSystem.wellFormed_oneFolder (by decide) (by decide) (by decide)
  have hkept : (librarySite.run refusedFolder).factory.cached = some _ := rfl
  obtain ⟨hfrom, -, hfixed⟩ := config_of_cached rfl hkept
  have hjars := (hfixed (by simp [refusedFolder])).2.2 hfs ⟨Path.ofString "/libs"⟩ rfl
  have hsorted : (⟨Path.ofString "/libs"⟩ : LibraryFolder).jars librarySite.fs =
      .ok [Path.ofString "/libs/A.JAR", Path.ofString "/libs/b.jar"] :=
    LibraryFolder.jars_of_perm rfl (by decide) (by decide)
  exact ⟨_, rfl, by decide, hfrom, hjars, Except.ok.inj (hjars.symm.trans hsorted)⟩

end Site
end UnitFactory
end GroovyWorkspace
