import GroovyWorkspace.Fixture
import GroovyWorkspace.Proofs.FileSystem.Edit
import GroovyWorkspace.Proofs.Json.Quote
import GroovyWorkspace.Proofs.Library.Jars
import GroovyWorkspace.Proofs.Settings.Loading

/-!
# The library folder through a settings file

The settings file of a scratch workspace names a library folder in a quoted text. What is written is
read back from the same path, and the quoted text is read back as it is, so the folder comes out
character for character, whatever stands in its path (`writeSettings_roundTrip`).
-/

namespace GroovyWorkspace

/-! ## Text in paths -/

theorem Text.decode?_eq_some_iff {bytes : List UInt8} {s : String} :
    Text.decode? bytes = some s ↔ bytes = Text.encode s := by
  constructor
  · intro h
    unfold decode? String.fromUTF8? at h
    split at h
    · cases h
      rfl
    · cases h
  · rintro rfl
    exact dif_pos s.isValidUTF8

namespace Path

theorem eq_ofString_of_text? {p : Path} {s : String} (h : p.text? = some s) : p = ofString s :=
  congrArg Path.mk (Text.decode?_eq_some_iff.mp h)

theorem display_ofString (s : String) : (ofString s).display = s := by
  have hdecode : Text.decode? (Text.encode s) = some s := Text.decode?_eq_some_iff.mpr rfl
  rw [display, ofString, Text.decodeLossy, hdecode]

end Path

namespace Fixture

/-! ## Where the settings file is -/

/-- The name of the folder that the settings file of a workspace is in. -/
def settingsFolder : Name := Text.encode ".vscode"

def settingsName : Name := Text.encode "settings.json"

theorem isUsable_settingsFolder : FileSystem.IsUsable settingsFolder :=
  ⟨by decide, by decide, by decide⟩

theorem isUsable_settingsName : FileSystem.IsUsable settingsName :=
  ⟨by decide, by decide, by decide⟩

theorem join_workspaceFile (root : Path) :
    root.join Settings.workspaceFile = (root.child settingsFolder).child settingsName := by
  have hfile : Settings.workspaceFile.bytes = settingsFolder ++ slash :: settingsName := by decide
  have hrelative : Settings.workspaceFile.isAbsolute = false := by decide
  have hbytes := Path.bytes_child_child root isUsable_settingsFolder.name isUsable_settingsName.name
  rw [Path.bytes_child root isUsable_settingsFolder.name] at hbytes
  rw [Path.join, hrelative, if_neg Bool.false_ne_true, hfile]
  split
  · rename_i hends
    rw [if_pos hends, List.append_assoc] at hbytes
    exact congrArg Path.mk hbytes.symm
  · rename_i hends
    rw [if_neg hends, List.append_assoc] at hbytes
    exact congrArg Path.mk hbytes.symm

theorem ofExtension?_workspaceFile (root : Path) :
    Format.ofExtension? (Settings.extensionOf (root.join Settings.workspaceFile)) = some .json := by
  have hname : (root.join Settings.workspaceFile).fileName? = some settingsName := by
    rw [join_workspaceFile, Path.fileName?, Path.components_child _ isUsable_settingsName.name,
      List.getLast?_concat]
  have hextension : (root.join Settings.workspaceFile).extension? = some (Text.encode "json") := by
    rw [Path.extension?, hname]
    decide
  rw [Settings.extensionOf, hextension]
  decide

theorem path_workspaceFile (f : Fixture) :
    f.path Settings.workspaceFile.display = f.root.join Settings.workspaceFile := by
  rw [path, Settings.workspaceFile, Path.display_ofString]

/-- Settings are written in two steps: the folder for them is made, and then the file. -/
theorem writeSettings_eq (f : Fixture) (fs : FileSystem) (folder : Path) :
    f.writeSettings fs folder =
      match fs.ensureFolders (f.root.child settingsFolder) with
      | (made, none) => writeAt made (f.root.join Settings.workspaceFile) (settingsText folder)
      | (made, some e) => (made, .error e) := by
  have hparent : (f.root.join Settings.workspaceFile).parent? = some (f.root.child settingsFolder) := by
    rw [join_workspaceFile,
      Path.parent?_child_child _ isUsable_settingsFolder.name isUsable_settingsName.name]
  rw [writeSettings, writeFile, path_workspaceFile]
  generalize (f.root.join Settings.workspaceFile).parent? = parent at hparent
  subst hparent
  rfl

theorem writeAt_eq_ok_iff {fs gs : FileSystem} {p q : Path} {text : String} :
    writeAt fs p text = (gs, .ok q) ↔ fs.write p text.toUTF8 = .ok gs ∧ q = p := by
  unfold writeAt
  cases fs.write p text.toUTF8 with
  | error e => simp
  | ok written => simp [eq_comm]

/-! ## What is in it -/

theorem not_isAllBlank_settingsText (folder : Path) :
    Text.isAllBlank (settingsText folder) = false := by
  rw [Text.isAllBlank, settingsText, String.toList_ofList]
  exact Bool.and_eq_false_imp.mpr fun h => absurd h (by decide)

theorem read_settingsText {folder : Path} {s : String} (h : folder.text? = some s) :
    Format.json.read (settingsText folder) = .ok (.object [(librariesKey, .string s)]) := by
  have hdisplay : folder.display = s := by rw [Path.eq_ofString_of_text? h, Path.display_ofString]
  rw [settingsText, hdisplay, Format.read, String.toList_ofList, Json.parse_plain_compact]

theorem reads_of_writeSettings {f : Fixture} {fs fs' : FileSystem} {folder p : Path} {s : String}
    (hs : folder.text? = some s) (h : f.writeSettings fs folder = (fs', .ok p)) :
    Settings.Reads fs' (f.root.join Settings.workspaceFile)
      (some ⟨[(librariesKey, .string s)]⟩) := by
  rw [writeSettings_eq] at h
  split at h
  · obtain ⟨hwrite, -⟩ := writeAt_eq_ok_iff.mp h
    exact .object (FileSystem.readText_of_write hwrite) (not_isAllBlank_settingsText folder)
      (ofExtension?_workspaceFile f.root) (read_settingsText hs)
  · cases h

/-! ## Workspaces that can be written to -/

/-- Settings can be written in a workspace: its path leads to a folder that may be entered, and in it the
folder for the settings is missing, or may be entered and has no settings file or one that is not
locked. -/
structure IsWritable (f : Fixture) (fs : FileSystem) : Prop where
  short : (f.root.join Settings.workspaceFile).bytes.length ≤ maxPath
  free : ∃ place entries access, fs.find f.root = .ok (place, .folder entries access) ∧
    access.passable = true ∧
    (Node.named? entries settingsFolder = none ∨
      ∃ inner below, Node.named? entries settingsFolder = some (.folder inner below) ∧
        below.passable = true ∧
        (Node.named? inner settingsName = none ∨
          ∃ contents, Node.named? inner settingsName = some (.file contents false)))

theorem writeSettings_of_find {f : Fixture} {fs made : FileSystem} {place : Place}
    {inner : List (Name × Node)} {access : Access}
    (hshort : (f.root.join Settings.workspaceFile).bytes.length ≤ maxPath)
    (hensure : fs.ensureFolders (f.root.child settingsFolder) = (made, none))
    (hfind : made.find (f.root.child settingsFolder) = .ok (place, .folder inner access))
    (hpass : access.passable = true)
    (hinner : Node.named? inner settingsName = none ∨
      ∃ contents, Node.named? inner settingsName = some (.file contents false)) (folder : Path) :
    ∃ fs', f.writeSettings fs folder = (fs', .ok (f.root.join Settings.workspaceFile)) := by
  have hlocate : ∃ t, made.locate (f.root.join Settings.workspaceFile) true = .ok t ∧ t.IsWritable := by
    rw [join_workspaceFile] at hshort ⊢
    rcases hinner with hnone | ⟨contents, hsome⟩
    · exact ⟨_, FileSystem.locate_child_of_none hfind hpass isUsable_settingsName hshort hnone true, rfl⟩
    · exact ⟨_, FileSystem.locate_child_of_some hfind hpass isUsable_settingsName hshort hsome nofun
        true, contents, rfl⟩
  obtain ⟨t, ht, hwritable⟩ := hlocate
  refine ⟨made.alter t.place fun _ => some (.file (settingsText folder).toUTF8), ?_⟩
  rw [writeSettings_eq, hensure]
  exact writeAt_eq_ok_iff.mpr ⟨FileSystem.write_eq_ok_iff.mpr ⟨t, ht, hwritable, rfl⟩, rfl⟩

theorem IsWritable.exists_writeSettings {f : Fixture} {fs : FileSystem} (h : f.IsWritable fs)
    (folder : Path) :
    ∃ fs', f.writeSettings fs folder = (fs', .ok (f.root.join Settings.workspaceFile)) := by
  obtain ⟨place, entries, access, hfind, hpass, hfree⟩ := h.free
  have hshort : (f.root.child settingsFolder).bytes.length ≤ maxPath := by
    have hlong := h.short
    rw [join_workspaceFile, Path.bytes_child_child _ isUsable_settingsFolder.name
      isUsable_settingsName.name, List.length_append] at hlong
    omega
  rcases hfree with hnone | ⟨inner, below, hsome, hbelow, hinner⟩
  · -- the folder is made, and the path that led to nothing now leads to it
    have habsent := FileSystem.locate_child_of_none hfind hpass isUsable_settingsFolder hshort hnone
    have hparent : fs.node? place = some (.folder entries access) := FileSystem.node?_of_find hfind
    have hnew : ∀ old, Node.named? entries settingsFolder = some old → old.ExtendedBy (.folder []) := by
      simp [hnone]
    obtain ⟨hextended, hnode⟩ := FileSystem.extendedBy_alter hparent hnew
    have hmade := hextended.locate (t := .absent place settingsFolder false) hnode ⟨rfl, nofun⟩
      (habsent true)
    exact writeSettings_of_find h.short (FileSystem.ensureFolders_of_absent (habsent false))
      (FileSystem.find_eq_ok_iff.mpr hmade) rfl (.inl rfl) folder
  · have hfound := FileSystem.locate_child_of_some hfind hpass isUsable_settingsFolder hshort hsome nofun
    have hthere : fs.find (f.root.child settingsFolder) =
        .ok (place ++ [settingsFolder], .folder inner below) :=
      FileSystem.find_eq_ok_iff.mpr (hfound true)
    have hfolder : fs.isFolder (f.root.child settingsFolder) = true := by
      rw [FileSystem.isFolder, FileSystem.kind, hthere]
      rfl
    exact writeSettings_of_find h.short (FileSystem.ensureFolders_of_found (hfound false) hfolder)
      hthere hbelow hinner folder

/-! ## The folder comes out again -/

/-- **The settings file gives the folder back.** Where settings can be written, they are written. Once
they are, the settings of the workspace are one layer with the text of the folder, character for
character, and they resolve to the folder, as it was given, if it is one. -/
theorem writeSettings_roundTrip {folder : Path} {s : String} (hs : folder.text? = some s) (f : Fixture)
    (fs : FileSystem) :
    (f.IsWritable fs →
        ∃ fs', f.writeSettings fs folder = (fs', .ok (f.root.join Settings.workspaceFile))) ∧
      ∀ fs' p, f.writeSettings fs folder = (fs', .ok p) →
        ∃ l, LayeredSettings.discover fs' none (some f.root) = .ok l ∧
          l.layers = [(.workspace, ⟨[(librariesKey, .string s)]⟩)] ∧
          l.toStore.getString? librariesKey = some s ∧
          (fs'.isFolder folder = true → resolveFolder? fs' l.toStore = some folder) := by
  refine ⟨fun h => h.exists_writeSettings folder, fun fs' p hwrite => ?_⟩
  have hdiscover := LayeredSettings.discover_of_reads .nowhere (reads_of_writeSettings hs hwrite)
  have hget : LayeredSettings.get? ⟨[(.workspace, ⟨[(librariesKey, .string s)]⟩)]⟩ librariesKey =
      some (.string s) := by
    have hyields := LayeredSettings.yields_concat (LayeredSettings.yields_nil librariesKey) .workspace
      ⟨[(librariesKey, .string s)]⟩
    rw [LayeredSettings.offer, Settings.get?_single, if_pos rfl] at hyields
    exact hyields.1
  refine ⟨_, hdiscover, rfl, ?_, fun hfolder => ?_⟩
  · exact congrArg (Option.bind · Value.asString?) hget
  · obtain rfl := Path.eq_ofString_of_text? hs
    exact resolveFolder?_eq_some_iff.mpr ⟨s, hget, ne_empty_of_isFolder hfolder, rfl, hfolder⟩

/-- A workspace beside a folder whose path has the marks of both kinds of comments, a comma before a
bracket, a quote, a backslash, two control characters and a letter outside ASCII in it. -/
def oddFolder : FileSystem where
  root := [
    (Text.encode "ws", .folder []),
    (Text.encode "*,]", .folder [(Text.encode "\"\\\n\x01ü*", .folder [])])]

def oddText : String := "/*,]//\"\\\n\x01ü*/"

theorem isWritable_oddFolder : (⟨Path.ofString "/ws"⟩ : Fixture).IsWritable oddFolder where
  short := by decide
  free := ⟨[Text.encode "ws"], [], {}, rfl, rfl, .inl rfl⟩

theorem writeSettings_roundTrip_oddFolder :
    (Path.ofString oddText).text? = some oddText ∧
      ∃ fs' l, (⟨Path.ofString "/ws"⟩ : Fixture).writeSettings oddFolder (Path.ofString oddText) =
          (fs', .ok (Path.ofString "/ws/.vscode/settings.json")) ∧
        LayeredSettings.discover fs' none (some (Path.ofString "/ws")) = .ok l ∧
        l.layers = [(.workspace, ⟨[(librariesKey, .string oddText)]⟩)] ∧
        l.toStore.getString? librariesKey = some oddText ∧
        resolveFolder? fs' l.toStore = some (Path.ofString oddText) := by
  have htext : (Path.ofString oddText).text? = some oddText := Text.decode?_eq_some_iff.mpr rfl
  have hround := writeSettings_roundTrip htext ⟨Path.ofString "/ws"⟩ oddFolder
  obtain ⟨fs', hwrite⟩ := hround.1 isWritable_oddFolder
  obtain ⟨l, hdiscover, hlayers, hget, hresolve⟩ := hround.2 fs' _ hwrite
  have hfolder : fs'.isFolder (Path.ofString oddText) = true := by
    have hfs' : fs' = ((⟨Path.ofString "/ws"⟩ : Fixture).writeSettings oddFolder
      (Path.ofString oddText)).1 := by rw [hwrite]
    rw [hfs']
    rfl
  exact ⟨htext, fs', l, hwrite, hdiscover, hlayers, hget, hresolve hfolder⟩

end Fixture
end GroovyWorkspace
