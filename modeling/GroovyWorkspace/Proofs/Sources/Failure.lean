import GroovyWorkspace.Proofs.FileSystem.Walk
import GroovyWorkspace.Proofs.Sources.Buffers
import GroovyWorkspace.Proofs.Sources.Configuration

/-!
# Operations that fail

Setting the library folder is refused exactly if there is no path that can be opened, whether the path is
given or looked up in settings (`applySettings_eq_setLibrary`). A build takes the unit out of the factory
before it can fail. It can fail only if there was none (`build_eq_error_iff`), so that a failure of any kind
leaves the factory as it was, and the next build that succeeds starts without a unit
(`failures_keep_factory`).
-/

namespace GroovyWorkspace

/-! ## Setting the library folder -/

theorem LibraryFolder.open?_of_openFolder {fs : FileSystem} {path : Path} {l : Listing}
    (h : fs.openFolder path = .ok l) : open? fs path = some ⟨path⟩ :=
  open?_eq_some_iff.mpr ⟨rfl, FileSystem.isFolder_of_openFolder h, l, h⟩

namespace UnitFactory

open CompilationUnit

/-- **Two ways to set the library folder.** Applying the settings of a store does the same as setting the
folder to what the store has as a string. If that is a path of a folder which can be opened, it becomes the
library folder and the unit is dropped. In all other cases nothing changes. -/
theorem applySettings_eq_setLibrary (fs : FileSystem) (f : UnitFactory) (store : Store) :
    f.applySettings fs store = f.setLibrary fs (store.getString? librariesKey) ∧
      (∀ text l, store.get? librariesKey = some (.string text) →
        fs.openFolder (.ofString text) = .ok l →
          f.applySettings fs store = ({ library := some ⟨.ofString text⟩ }, true)) ∧
      ((∀ text l, store.get? librariesKey = some (.string text) →
        fs.openFolder (.ofString text) ≠ .ok l) → f.applySettings fs store = (f, false)) := by
  have hroutes : f.applySettings fs store = f.setLibrary fs (store.getString? librariesKey) := by
    rw [applySettings, setLibrary, LibraryFolder.ofStore?_eq_bind]
  refine ⟨hroutes, fun text l hvalue hopen => ?_, fun hno => ?_⟩
  · rw [hroutes, setLibrary, Store.getString?_eq_some_iff.mpr hvalue, Option.bind_some,
      LibraryFolder.open?_of_openFolder hopen]
    rfl
  · have hnone : LibraryFolder.ofStore? fs store = none := by
      rw [LibraryFolder.ofStore?_eq_bind, Option.bind_eq_none_iff]
      intro text htext
      rw [Option.eq_none_iff_forall_ne_some]
      intro folder hfolder
      obtain ⟨-, -, l, hopen⟩ := LibraryFolder.open?_eq_some_iff.mp hfolder
      exact hno text l (Store.getString?_eq_some_iff.mp htext) hopen
    rw [applySettings, hnone]
    rfl

/-- A disk with a folder that can be opened and one that cannot. -/
def lockedDisk : FileSystem where
  root := [(Text.encode "libs", .folder []), (Text.encode "locked", .folder [] .locked)]

/-- A document that names the one folder in nested sections. -/
def nestedLibs : Settings :=
  ⟨[("groovy", .object [("additional", .object [("libraries", .string "/libs/")])])]⟩

/-- A flat table that names the other folder. -/
def flatLocked : Entries := [(librariesKey, .string "/locked")]

theorem applySettings_eq_setLibrary_lockedDisk :
    empty.applySettings lockedDisk nestedLibs.toStore = empty.setLibrary lockedDisk (some "/libs/") ∧
      empty.applySettings lockedDisk nestedLibs.toStore =
        ({ library := some ⟨.ofString "/libs/"⟩ }, true) ∧
      empty.applySettings lockedDisk (.ofEntries flatLocked) = (empty, false) ∧
      empty.setLibrary lockedDisk (some "/locked") = (empty, false) := by
  have hnested : nestedLibs.toStore.get? librariesKey = some (.string "/libs/") := rfl
  have hflat : (Store.ofEntries flatLocked).get? librariesKey = some (.string "/locked") := rfl
  obtain ⟨hroutes, haccepted, -⟩ := applySettings_eq_setLibrary lockedDisk empty nestedLibs.toStore
  obtain ⟨hroutes', -, hrefused⟩ := applySettings_eq_setLibrary lockedDisk empty (.ofEntries flatLocked)
  have hkept : empty.applySettings lockedDisk (.ofEntries flatLocked) = (empty, false) := by
    refine hrefused fun text l htext hopen => ?_
    rw [hflat] at htext
    cases htext
    cases hopen
  rw [Store.getString?_eq_some_iff.mpr hnested] at hroutes
  rw [Store.getString?_eq_some_iff.mpr hflat] at hroutes'
  exact ⟨hroutes, haccepted _ _ hnested rfl, hkept, hroutes'.symm.trans hkept⟩

theorem useLibrary_of_refused {f : UnitFactory} {folder : Option LibraryFolder}
    (h : (f.useLibrary folder).2 = false) : (f.useLibrary folder).1 = f := by
  cases folder with
  | none => rfl
  | some folder => cases h

end UnitFactory

/-! ## Builds that fail -/

theorem LibraryFolder.jars_eq_error_iff {fs : FileSystem} {folder : LibraryFolder} {err : ClasspathError} :
    folder.jars fs = .error err ↔ ∃ e, fs.list folder.path = .error e ∧ err = .io folder.path e := by
  rw [jars]
  cases fs.list folder.path with
  | error e =>
    constructor
    · intro h
      exact ⟨e, rfl, (Except.error.inj h).symm⟩
    · rintro ⟨_, he, rfl⟩
      cases he
      rfl
  | ok entries =>
    constructor
    · intro h
      cases h
    · rintro ⟨_, he, -⟩
      cases he

theorem CompilerConfig.ofLibrary_some_eq_error_iff {fs : FileSystem} {folder : LibraryFolder}
    {err : ClasspathError} : ofLibrary fs (some folder) = .error err ↔ folder.jars fs = .error err := by
  rw [ofLibrary, Classpath.ofFolder]
  cases folder.jars fs with
  | error fault => simp [Except.map]
  | ok jars => simp [Except.map]

/-- A configuration is missing exactly if the library folder cannot be listed. -/
theorem CompilerConfig.ofLibrary_eq_error_iff {fs : FileSystem} {library : Option LibraryFolder}
    {err : ClasspathError} :
    ofLibrary fs library = .error err ↔
      ∃ folder e, library = some folder ∧ fs.list folder.path = .error e ∧ err = .io folder.path e := by
  cases library with
  | none => simp [ofLibrary, Classpath.ofFolder, Except.map]
  | some folder =>
    rw [ofLibrary_some_eq_error_iff, LibraryFolder.jars_eq_error_iff]
    constructor
    · rintro ⟨e, hlist, herr⟩
      exact ⟨folder, e, rfl, hlist, herr⟩
    · rintro ⟨_, e, hsome, hlist, herr⟩
      cases hsome
      exact ⟨e, hlist, herr⟩

namespace UnitFactory

open CompilationUnit

variable {fs : FileSystem} {f : UnitFactory} {root : Option Path} {b : Buffers}

/-- A build fails exactly if there is no unit to start from and the library folder cannot be listed. -/
theorem build_eq_error_iff {err : ClasspathError} :
    (f.build fs root b).2 = .error err ↔
      f.cached = none ∧
        ∃ folder e, f.library = some folder ∧ fs.list folder.path = .error e ∧ err = .io folder.path e := by
  rw [← CompilerConfig.ofLibrary_eq_error_iff]
  cases hc : f.cached with
  | some u =>
    rw [build_of_cached hc]
    exact ⟨nofun, nofun⟩
  | none =>
    cases hl : CompilerConfig.ofLibrary fs f.library with
    | error e =>
      rw [build_of_error hc hl]
      simp
    | ok config =>
      rw [build_of_ofLibrary hc hl]
      exact ⟨nofun, nofun⟩

theorem build_of_failed {err : ClasspathError} (h : (f.build fs root b).2 = .error err) :
    f.build fs root b = (f, .error err) := by
  obtain ⟨hnone, hfolder⟩ := build_eq_error_iff.mp h
  exact build_of_error hnone (CompilerConfig.ofLibrary_eq_error_iff.mpr hfolder) root b

/-- Without a unit the changes do not matter. -/
theorem build_changed (hf : f.cached = none) (changed : PathMap Unit) :
    (f.build fs root { b with changed }).2 = (f.build fs root b).2 := by
  cases hl : CompilerConfig.ofLibrary fs f.library with
  | error e => rw [build_of_error hf hl, build_of_error hf hl]
  | ok config =>
    rw [build_of_ofLibrary hf hl, build_of_ofLibrary hf hl]
    cases root <;> rfl

namespace Site

/-! ## After a failure -/

/-- None of some uses is a build that succeeds. -/
def Unbuilt : Site → List Use → Prop
  | _, [] => True
  | s, use :: more =>
    (∀ root buffers u, use = .create root buffers → (s.factory.build s.fs root buffers).2 ≠ .ok u) ∧
      Unbuilt (s.step use) more

theorem cached_step {s : Site} (hs : s.factory.cached = none) {use : Use}
    (huse : ∀ root buffers u, use = .create root buffers →
      (s.factory.build s.fs root buffers).2 ≠ .ok u) : (s.step use).factory.cached = none := by
  rcases s.step_cases use with ⟨hsame, -⟩ | hdrop | ⟨root, buffers, u, rfl, hu, -⟩
  · rw [hsame, hs]
  · exact hdrop
  · exact absurd (congrArg Prod.snd (create_eq_ok_iff.mp hu)) (huse root buffers u rfl)

theorem Unbuilt.cached_run {s : Site} {uses : List Use} (h : s.Unbuilt uses)
    (hs : s.factory.cached = none) : (s.run uses).factory.cached = none := by
  induction uses generalizing s with
  | nil => exact hs
  | cons use more ih => exact ih h.2 (cached_step hs h.1)

/-- The next build that succeeds is one from scratch, whatever happens before it: a factory without a unit
builds the same whichever paths have changed, and each path has the source that belongs there. -/
def BuildsAfresh (s : Site) : Prop :=
  ∀ uses, s.Unbuilt uses → ∀ root edits u,
    ((s.run uses).factory.build (s.run uses).fs root (.after edits)).2 = .ok u →
      (∀ changed, (build (s.run uses).fs { library := (s.run uses).factory.library } root
        { Buffers.after edits with changed }).2 = .ok u) ∧
      ∀ p, u.source? p = sourceAt (s.run uses).fs root (.after edits) p

theorem buildsAfresh {s : Site} (hs : s.factory.cached = none) : s.BuildsAfresh := by
  intro uses huses root edits u hu
  have hnone : (s.run uses).factory.cached = none := huses.cached_run hs
  generalize s.run uses = t at hnone hu ⊢
  obtain ⟨fs, cached, library⟩ := t
  obtain rfl : cached = none := hnone
  refine ⟨fun changed => (build_changed rfl changed).trans hu, fun p => ?_⟩
  have hcreate := create_eq_ok_iff.mpr (Prod.ext rfl hu)
  rw [source?_of_create (Buffers.sorted_texts_after edits) hcreate]
  rfl

end Site

/-- **Failures leave the factory as it was.** A build fails if and only if no unit is kept and there is a
library folder that cannot be listed. Then the factory is the same as before, and the next build that
succeeds is one from scratch. A library folder that is refused, be it given or looked up in settings, changes
nothing either. -/
theorem failures_keep_factory (fs : FileSystem) (f : UnitFactory) (root : Option Path) (b : Buffers) :
    ((∃ err, (f.build fs root b).2 = .error err) ↔
        f.cached = none ∧ ∃ folder e, f.library = some folder ∧ fs.list folder.path = .error e) ∧
      (∀ err, (f.build fs root b).2 = .error err →
        (f.build fs root b).1 = f ∧ Site.BuildsAfresh ⟨fs, (f.build fs root b).1⟩) ∧
      (∀ path, (f.setLibrary fs path).2 = false → (f.setLibrary fs path).1 = f) ∧
      ∀ store, (f.applySettings fs store).2 = false → (f.applySettings fs store).1 = f := by
  refine ⟨?_, fun err h => ?_, fun path h => useLibrary_of_refused h, fun store h => useLibrary_of_refused h⟩
  · constructor
    · rintro ⟨err, h⟩
      obtain ⟨hnone, folder, e, hfolder, hlist, -⟩ := build_eq_error_iff.mp h
      exact ⟨hnone, folder, e, hfolder, hlist⟩
    · rintro ⟨hnone, folder, e, hfolder, hlist⟩
      exact ⟨_, build_eq_error_iff.mpr ⟨hnone, folder, e, hfolder, hlist, rfl⟩⟩
  · rw [build_of_failed h]
    exact ⟨rfl, Site.buildsAfresh (build_eq_error_iff.mp h).1⟩

/-- A factory whose library folder is missing at first. -/
def missingLibs : UnitFactory := { library := some ⟨.ofString "/libs"⟩ }

/-- The build is tried again, and then the folder is there. -/
def libsAppear : List Use := [.create none {}, .files (.oneFolder "libs" ["a.jar"])]

/-- A buffer is opened, and its change is forgotten before there is a unit. -/
def openedAndReset : List Buffers.Edit := [.put (.ofString "/x.groovy") "x", .reset]

theorem failures_keep_factory_missingLibs :
    (missingLibs.build {} none {}).2 = .error (.io (.ofString "/libs") .notFound) ∧
      (missingLibs.build {} none {}).1 = missingLibs ∧ Site.Unbuilt ⟨{}, missingLibs⟩ libsAppear ∧
      ∃ u, (missingLibs.build (.oneFolder "libs" ["a.jar"]) none (.after openedAndReset)).2 = .ok u ∧
        u.sources = [⟨.ofString "/x.groovy", .buffer "x"⟩] ∧
        u.config.classpath.entries = [.ofString "/libs/a.jar"] ∧
        ∀ p, u.source? p = sourceAt (.oneFolder "libs" ["a.jar"]) none (.after openedAndReset) p := by
  have hfails : (missingLibs.build {} none {}).2 = .error (.io (.ofString "/libs") .notFound) := rfl
  have hunbuilt : Site.Unbuilt ⟨{}, missingLibs⟩ libsAppear := by
    refine ⟨?_, nofun, trivial⟩
    intro root buffers u huse hbuild
    cases huse
    cases hfails.symm.trans hbuild
  obtain ⟨hkept, hafresh⟩ := (failures_keep_factory {} missingLibs none {}).2.1 _ hfails
  have hjars : (⟨.ofString "/libs"⟩ : LibraryFolder).jars (.oneFolder "libs" ["a.jar"]) =
      .ok [.ofString "/libs/a.jar"] := LibraryFolder.jars_of_perm rfl (by decide) (by decide)
  have hfs : (FileSystem.oneFolder "libs" ["a.jar"]).WellFormed :=
    FileSystem.wellFormed_oneFolder (by decide) (by decide) (by decide)
  have hcreate : missingLibs.create (.oneFolder "libs" ["a.jar"]) none (.after openedAndReset) =
      .ok (_, _) := rfl
  have hclasspath := CompilerConfig.classpath_of_ofLibrary (config_of_create rfl hcreate)
  refine ⟨hfails, hkept, hunbuilt, _, rfl, by decide, ?_, ?_⟩
  · exact Except.ok.inj (((Classpath.ofFolder_eq_ok_iff hfs).mp hclasspath).symm.trans hjars)
  · exact (hafresh libsAppear hunbuilt none openedAndReset _ rfl).2

end UnitFactory
end GroovyWorkspace
