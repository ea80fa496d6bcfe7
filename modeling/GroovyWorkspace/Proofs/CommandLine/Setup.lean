import GroovyWorkspace.CommandLine.Setup
import GroovyWorkspace.Proofs.Settings.Loading

/-!
# Precedence in a setup

The options of a command say which folder it works on and which settings files it reads, and where they
do not, its surroundings do (`WorksOn`, `UserFile`). A setup fails exactly where there is no such folder or
one of the two files is refused, and then with the fault of the first of them. Otherwise the library folder
given for the command stands above what the workspace's file says, which stands above what the user's file
says; it hides no key but its own (`ofOptions_precedence`).
-/

namespace GroovyWorkspace.CommandLine

open LayeredSettings

/-- The folder that a command works on: the one given, or else the current one. -/
inductive WorksOn (fs : FileSystem) (o : Options) : Path → Prop
  | given {root : Path} (h : o.workspace = some root) : WorksOn fs o root
  | current {root : Path} (h : o.workspace = none) (hcurrent : fs.currentFolder = .ok root) :
    WorksOn fs o root

/-- The user's settings file for a command: the one given, or else that of the editor. There is none
where the system knows no folder for the user's configuration. -/
inductive UserFile (e : Environment) (o : Options) : Option Path → Prop
  | given {p : Path} (h : o.userSettings = some p) : UserFile e o (some p)
  | editor {config : Path} (h : o.userSettings = none) (hconfig : e.configFolder = some config) :
    UserFile e o (some (((config.join (.ofString "Code")).join (.ofString "User")).join
      (.ofString "settings.json")))
  | unknown (h : o.userSettings = none) (hconfig : e.configFolder = none) : UserFile e o none

/-- A library folder is given for a command: as an option, or in the environment where no option gives
one. -/
def GivesFolder (e : Environment) (o : Options) (folder : String) : Prop :=
  o.additionalLibraries = some folder ∨
    o.additionalLibraries = none ∧ e.get? "GROOVY_ADDITIONAL_LIBRARIES" = some folder

theorem override?_eq_some_iff {e : Environment} {o : Options} {folder : String} :
    e.override? o = some folder ↔ GivesFolder e o folder ∧ folder ≠ "" := by
  rw [Environment.override?, Option.filter_eq_some_iff, decide_eq_true_eq, GivesFolder]
  cases o.additionalLibraries with
  | none => simp
  | some other => simp

namespace Setup

/-- The document that holds a given library folder and nothing else. -/
def ofGiven (folder : String) : Settings := ⟨[(librariesKey, .string folder)]⟩

/-- What the settings files give for a key: the value in the workspace's, or else in the user's. -/
def fromFiles (u w : Option Settings) (key : String) : Option (Scope × Value) :=
  (w.bind (offer .workspace · key)).or (u.bind (offer .user · key))

theorem yields_files (u w : Option Settings) (key : String) :
    Yields ⟨layerOf .user u ++ layerOf .workspace w⟩ key (fromFiles u w key) := by
  have huser := yields_append_layerOf (yields_nil key) .user u
  rw [List.nil_append, Option.or_none] at huser
  exact yields_append_layerOf huser .workspace w

theorem layers_withOverride (u w : Option Settings) (given : Option String) :
    withOverride ⟨layerOf .user u ++ layerOf .workspace w⟩ given =
      ⟨layerOf .user u ++ layerOf .workspace w ++ layerOf .override (given.map ofGiven)⟩ := by
  cases given with
  | none =>
    show LayeredSettings.mk _ = _
    rw [Option.map_none, layerOf, layerOf, layerOf, Option.map_none, Option.toList_none, List.append_nil]
  | some folder =>
    have hbelow : ∀ layer ∈ layerOf .user u ++ layerOf .workspace w,
        layer.1.rank ≤ Scope.override.rank := by
      intro layer _
      cases layer.1 <;> decide
    have hpush := layers_push (List.append_nil _).symm hbelow (by simp) (ofGiven folder)
    rw [Option.map_some, layerOf, layerOf, layerOf, Option.map_some, Option.toList_some]
    exact congrArg LayeredSettings.mk hpush

/-- Above the settings files, a given folder counts for its own key only. -/
theorem yields_withOverride (u w : Option Settings) (given : Option String) (key : String) :
    (withOverride ⟨layerOf .user u ++ layerOf .workspace w⟩ given).Yields key
      ((given.bind fun folder => if key = librariesKey then some (.override, .string folder) else none).or
        (fromFiles u w key)) := by
  rw [layers_withOverride]
  have hyields := yields_append_layerOf (yields_files u w key) .override (given.map ofGiven)
  have hoffer : ∀ folder, offer .override (ofGiven folder) key =
      if key = librariesKey then some (.override, .string folder) else none := by
    intro folder
    rw [offer, ofGiven, Settings.get?_single]
    split <;> rfl
  cases given with
  | none => exact hyields
  | some folder =>
    rw [Option.map_some, Option.bind_some, hoffer] at hyields
    exact hyields

/-! ## Where the settings come from -/

variable {fs : FileSystem} {e : Environment} {o : Options} {root : Path} {user : Option Path}

theorem workspaceOf_of_worksOn (h : WorksOn fs o root) : workspaceOf fs o = .ok root := by
  cases h with
  | given h => rw [workspaceOf, h]
  | current h hcurrent => rw [workspaceOf, h, hcurrent]

theorem exists_userFile (e : Environment) (o : Options) : ∃ user, UserFile e o user := by
  cases hgiven : o.userSettings with
  | some p => exact ⟨_, .given hgiven⟩
  | none =>
    cases hconfig : e.configFolder with
    | some config => exact ⟨_, .editor hgiven hconfig⟩
    | none => exact ⟨_, .unknown hgiven hconfig⟩

theorem userFileOf_of_userFile (h : UserFile e o user) : userFileOf e o = user := by
  cases h with
  | given h => rw [userFileOf, h]; rfl
  | editor h hconfig => rw [userFileOf, h, hconfig]; rfl
  | unknown h hconfig => rw [userFileOf, h, hconfig]; rfl

theorem ofOptions_of_worksOn (hroot : WorksOn fs o root) (huser : UserFile e o user) :
    ofOptions fs e o =
      (LayeredSettings.discover fs user (some root)).mapError .settings >>= fun l =>
        .ok ⟨root, withOverride l (e.override? o)⟩ := by
  rw [ofOptions, workspaceOf_of_worksOn hroot, userFileOf_of_userFile huser]
  rfl

theorem ofOptions_of_error {err : OsError} (h : o.workspace = none)
    (hcurrent : fs.currentFolder = .error err) : ofOptions fs e o = .error (.io err) := by
  rw [ofOptions, workspaceOf, h, hcurrent]
  rfl

/-- With a folder to work on a setup fails exactly where its files do. -/
theorem ofOptions_eq_error_iff (hroot : WorksOn fs o root) (huser : UserFile e o user)
    {err : CommandError} :
    ofOptions fs e o = .error err ↔
      ∃ fault, err = .settings fault ∧ discover fs user (some root) = .error fault := by
  rw [ofOptions_of_worksOn hroot huser]
  cases discover fs user (some root) with
  | error fault =>
    constructor
    · intro h
      cases h
      exact ⟨fault, rfl, rfl⟩
    · rintro ⟨_, rfl, h⟩
      cases h
      rfl
  | ok l =>
    constructor
    · nofun
    · rintro ⟨_, -, h⟩
      cases h

theorem ofOptions_eq_io_iff {err : OsError} :
    ofOptions fs e o = .error (.io err) ↔ o.workspace = none ∧ fs.currentFolder = .error err := by
  refine ⟨fun h => ?_, fun ⟨hnone, hcurrent⟩ => ofOptions_of_error hnone hcurrent⟩
  have hno : ∀ root, ¬ WorksOn fs o root := by
    intro root hroot
    obtain ⟨user, huser⟩ := exists_userFile e o
    obtain ⟨fault, hfault, -⟩ := (ofOptions_eq_error_iff hroot huser).mp h
    cases hfault
  cases hgiven : o.workspace with
  | some root => exact absurd (.given hgiven) (hno root)
  | none =>
    cases hcurrent : fs.currentFolder with
    | ok root => exact absurd (.current hgiven hcurrent) (hno root)
    | error cause =>
      rw [ofOptions_of_error hgiven hcurrent] at h
      cases h
      exact ⟨rfl, rfl⟩

theorem ofOptions_of_reads (hroot : WorksOn fs o root) (huser : UserFile e o user)
    {u w : Option Settings} (hu : Settings.ReadsAt fs user u)
    (hw : Settings.Reads fs (root.join Settings.workspaceFile) w) :
    ofOptions fs e o =
      .ok ⟨root, withOverride ⟨layerOf .user u ++ layerOf .workspace w⟩ (e.override? o)⟩ := by
  rw [ofOptions_of_worksOn hroot huser, discover_of_reads hu hw]
  rfl

theorem reads_of_ofOptions (hroot : WorksOn fs o root) (huser : UserFile e o user) {s : Setup}
    (h : ofOptions fs e o = .ok s) :
    ∃ u w, Settings.ReadsAt fs user u ∧ Settings.Reads fs (root.join Settings.workspaceFile) w ∧
      s = ⟨root, withOverride ⟨layerOf .user u ++ layerOf .workspace w⟩ (e.override? o)⟩ := by
  have hno : ∀ err, discover fs user (some root) ≠ .error err := by
    intro err herr
    rw [(ofOptions_eq_error_iff hroot huser).mpr ⟨err, rfl, herr⟩] at h
    cases h
  rcases Settings.refused_or_readsAt fs user with ⟨err, herr⟩ | ⟨u, hu⟩
  · exact absurd (discover_eq_error_iff.mpr (.inl herr)) (hno err)
  rcases Settings.refused_or_reads fs (root.join Settings.workspaceFile) with ⟨err, herr⟩ | ⟨w, hw⟩
  · exact absurd (discover_eq_error_iff.mpr (.inr ⟨hu.not_refused, herr⟩)) (hno err)
  · rw [ofOptions_of_reads hroot huser hu hw] at h
    exact ⟨u, w, hu, hw, (Except.ok.inj h).symm⟩

/-- **Precedence and failure of a setup.** The setup fails for want of a folder to work on exactly if none
is given and there is no current one. With a folder it fails exactly if the user's file or that of the
workspace is refused, with the fault of the user's file if both are. Otherwise the key of the library
folder has the given folder unless that is empty, and else the value in the workspace's file, and else
the value in the user's; its scope says where the value comes from. For every other key, whatever it
begins with, the given folder makes no difference. -/
theorem ofOptions_precedence (fs : FileSystem) (e : Environment) (o : Options) :
    (∀ p, (∀ err, Settings.loadOptional fs p = .error err ↔ Settings.Refused fs p err) ∧
        ∀ d, Settings.loadOptional fs p = .ok d ↔ Settings.Reads fs p d) ∧
      (∀ err, ofOptions fs e o = .error (.io err) ↔
        o.workspace = none ∧ fs.currentFolder = .error err) ∧
      ∀ root user, WorksOn fs o root → UserFile e o user →
        (∀ err, ofOptions fs e o = .error err ↔ ∃ fault, err = .settings fault ∧
          ((∃ p ∈ user, Settings.Refused fs p fault) ∨
            (∀ other, ¬ ∃ p ∈ user, Settings.Refused fs p other) ∧
              Settings.Refused fs (root.join (.ofString ".vscode/settings.json")) fault)) ∧
        ∀ s, ofOptions fs e o = .ok s →
          ∃ u w, Settings.ReadsAt fs user u ∧
            Settings.Reads fs (root.join (.ofString ".vscode/settings.json")) w ∧
            s.workspace = root ∧
            (∀ folder, GivesFolder e o folder → folder ≠ "" →
              s.settings.Yields librariesKey (some (.override, .string folder))) ∧
            ((∀ folder, GivesFolder e o folder → folder = "") →
              s.settings.Yields librariesKey (fromFiles u w librariesKey)) ∧
            ∀ key, key ≠ librariesKey → s.settings.Yields key (fromFiles u w key) := by
  refine ⟨fun p => ⟨fun err => Settings.loadOptional_eq_error_iff, fun d => Settings.loadOptional_eq_ok_iff⟩,
    fun err => ofOptions_eq_io_iff, fun root user hroot huser => ⟨fun err => ?_, fun s hs => ?_⟩⟩
  · simp only [ofOptions_eq_error_iff hroot huser, discover_eq_error_iff]
    rfl
  · obtain ⟨u, w, hu, hw, rfl⟩ := reads_of_ofOptions hroot huser hs
    have hyields := yields_withOverride u w (e.override? o)
    refine ⟨u, w, hu, hw, rfl, fun folder hgiven hne => ?_, fun hempty => ?_, fun key hkey => ?_⟩
    · have hsome : e.override? o = some folder := override?_eq_some_iff.mpr ⟨hgiven, hne⟩
      simpa only [hsome, Option.bind_some, if_true, Option.some_or] using hyields librariesKey
    · have hnone : e.override? o = none := by
        rw [Option.eq_none_iff_forall_ne_some]
        intro folder hfolder
        obtain ⟨hgiven, hne⟩ := override?_eq_some_iff.mp hfolder
        exact hne (hempty folder hgiven)
      simpa only [hnone, Option.bind_none, Option.none_or] using hyields librariesKey
    · simpa only [if_neg hkey, Option.bind_fun_none, Option.none_or] using hyields key

/-- A disk where the editor's file names a library folder in sections, and the workspace's file has a null
for it. -/
def nullInWorkspace : FileSystem where
  root := [
    (Text.encode "cfg", .folder [(Text.encode "Code", .folder [(Text.encode "User", .folder
      [(Text.encode "settings.json",
        .file "\x7b\"groovy\": \x7b\"additional\": \x7b\"libraries\": \"/u\"\x7d\x7d\x7d".toUTF8)])])]),
    (Text.encode "ws", .folder [(Text.encode ".vscode", .folder
      [(Text.encode "settings.json", .file "\x7b\"groovy.additional.libraries\": null\x7d".toUTF8)])])]

/-- Options that name a workspace and an empty library folder. -/
def emptyFolder : Options where
  workspace := some (.ofString "/ws")
  additionalLibraries := some ""

theorem ofOptions_precedence_nullInWorkspace :
    ∃ s, ofOptions nullInWorkspace { configFolder := some (.ofString "/cfg") } emptyFolder = .ok s ∧
      s.workspace = .ofString "/ws" ∧
      s.settings.Yields librariesKey (some (.user, .string "/u")) := by
  have hjson : ∀ p : Path, Settings.extensionOf p = "json" →
      Format.ofExtension? (Settings.extensionOf p) = some .json := by
    intro p hp
    rw [hp]
    rfl
  have hroot : WorksOn nullInWorkspace emptyFolder (.ofString "/ws") := .given rfl
  have huser : UserFile { configFolder := some (.ofString "/cfg") } emptyFolder _ := .editor rfl rfl
  have hu : Settings.Reads nullInWorkspace (Settings.userFile (.ofString "/cfg"))
      (some ⟨[("groovy", .object [("additional", .object [("libraries", .string "/u")])])]⟩) :=
    .object rfl rfl (hjson _ rfl) rfl
  have hw : Settings.Reads nullInWorkspace ((Path.ofString "/ws").join Settings.workspaceFile)
      (some ⟨[("groovy.additional.libraries", .null)]⟩) :=
    .object rfl rfl (hjson _ rfl) rfl
  have hs := ofOptions_of_reads hroot huser (.file hu) hw
  obtain ⟨u, w, hu', hw', hworkspace, -, hfiles, -⟩ :=
    ((ofOptions_precedence nullInWorkspace _ emptyFolder).2.2 _ _ hroot huser).2 _ hs
  cases hu' with
  | file hu' =>
    obtain rfl := hu'.unique hu
    obtain rfl := hw'.unique hw
    refine ⟨_, hs, hworkspace, hfiles ?_⟩
    rintro folder (h | ⟨h, -⟩)
    · cases h
      rfl
    · cases h

end Setup
end GroovyWorkspace.CommandLine
