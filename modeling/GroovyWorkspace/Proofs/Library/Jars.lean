import GroovyWorkspace.Library.FolderCheck
import GroovyWorkspace.Proofs.FileSystem.Names
import GroovyWorkspace.Proofs.Library.Classpath

/-!
# The jars of a folder

The jars of a folder are paths of entries with different names. So no two of them are spellings of one
path, and putting them into a classpath, which keeps no path twice, loses none (`ofFolder_eq_ok_iff`). The
folder that the setting names is taken exactly if it can be opened (`ofStore?_eq_some_iff`), so that its
jars are missing only if reading it breaks off (`jars_of_fault`).
-/

namespace GroovyWorkspace

/-- Different names in one folder make different paths. -/
theorem Path.not_same_child (p : Path) {m n : Name} (hm : IsName m) (hn : IsName n) (h : m ≠ n) :
    (p.child m).same (p.child n) = false := by
  rw [← Bool.not_eq_true, same_iff, components_child p hm, components_child p hn]
  simpa using h

/-! ## The configured folder -/

theorem Store.getString?_eq_some_iff {store : Store} {key text : String} :
    store.getString? key = some text ↔ store.get? key = some (.string text) := by
  rw [getString?, Option.bind_eq_some_iff]
  constructor
  · rintro ⟨value, hvalue, htext⟩
    cases value <;> cases htext
    exact hvalue
  · exact fun h => ⟨_, h, rfl⟩

theorem FolderCheck.resolved?_ofPath (fs : FileSystem) (p : Path) :
    (ofPath fs p).resolved? = if fs.isFolder p then some p else none := by
  unfold ofPath FileSystem.isFolder
  cases fs.kind p with
  | error e => rfl
  | ok kind => cases kind <;> rfl

theorem ne_empty_of_isFolder {fs : FileSystem} {s : String} (h : fs.isFolder (Path.ofString s) = true) :
    s ≠ "" := by
  rintro rfl
  cases h

theorem resolveFolder?_eq_some_iff {fs : FileSystem} {store : Store} {p : Path} :
    resolveFolder? fs store = some p ↔
      ∃ text, store.get? librariesKey = some (.string text) ∧ text ≠ "" ∧ p = Path.ofString text ∧
        fs.isFolder p = true := by
  rw [resolveFolder?, FolderCheck.ofStore]
  constructor
  · intro h
    unfold FolderCheck.ofValue at h
    split at h
    · cases h
    · cases h
    · rename_i text hvalue
      split at h
      · cases h
      · rename_i hne
        rw [FolderCheck.resolved?_ofPath] at h
        split at h
        · rename_i hfolder
          cases h
          exact ⟨text, hvalue, hne, rfl, hfolder⟩
        · cases h
    · cases h
  · rintro ⟨text, hvalue, hne, rfl, hfolder⟩
    rw [hvalue]
    show (if text = "" then _ else FolderCheck.ofPath fs _ : FolderCheck).resolved? = _
    rw [if_neg hne, FolderCheck.resolved?_ofPath, if_pos hfolder]

/-! ## Opening a folder -/

namespace LibraryFolder

theorem open?_eq_some_iff {fs : FileSystem} {path : Path} {folder : LibraryFolder} :
    open? fs path = some folder ↔
      folder = ⟨path⟩ ∧ fs.isFolder path = true ∧ ∃ l, fs.openFolder path = .ok l := by
  have hopen : (fs.openFolder path).isOk = true ↔ ∃ l, fs.openFolder path = .ok l := by
    cases fs.openFolder path with
    | ok l => exact ⟨fun _ => ⟨l, rfl⟩, fun _ => rfl⟩
    | error e => exact ⟨nofun, nofun⟩
  rw [open?, ← hopen]
  by_cases h : fs.isFolder path = true ∧ (fs.openFolder path).isOk = true
  · rw [if_pos h]
    exact ⟨fun heq => ⟨(Option.some.inj heq).symm, h⟩, fun heq => by rw [heq.1]⟩
  · rw [if_neg h]
    exact ⟨nofun, fun heq => absurd heq.2 h⟩

theorem ofStore?_eq_some_iff {fs : FileSystem} {store : Store} {folder : LibraryFolder} :
    ofStore? fs store = some folder ↔
      resolveFolder? fs store = some folder.path ∧ ∃ l, fs.openFolder folder.path = .ok l := by
  rw [ofStore?, Option.bind_eq_some_iff]
  constructor
  · rintro ⟨path, hpath, hopen⟩
    obtain ⟨rfl, -, hl⟩ := open?_eq_some_iff.mp hopen
    exact ⟨hpath, hl⟩
  · rintro ⟨hpath, hl⟩
    obtain ⟨-, -, -, -, hfolder⟩ := resolveFolder?_eq_some_iff.mp hpath
    exact ⟨folder.path, hpath, open?_eq_some_iff.mpr ⟨rfl, hfolder, hl⟩⟩

/-- The folder that the setting names is the one at the path that the store has as a string. Nothing is
lost by looking whether it is a folder before it is opened, and the empty text cannot be opened. -/
theorem ofStore?_eq_bind (fs : FileSystem) (store : Store) :
    ofStore? fs store =
      (store.getString? librariesKey).bind fun text => open? fs (Path.ofString text) := by
  apply Option.ext
  intro folder
  rw [ofStore?_eq_some_iff, resolveFolder?_eq_some_iff, Option.bind_eq_some_iff]
  constructor
  · rintro ⟨⟨text, hvalue, -, hpath, hfolder⟩, hlist⟩
    rw [hpath] at hfolder hlist
    have hopen : open? fs (Path.ofString text) = some folder :=
      open?_eq_some_iff.mpr ⟨by rw [← hpath], hfolder, hlist⟩
    exact ⟨text, Store.getString?_eq_some_iff.mpr hvalue, hopen⟩
  · rintro ⟨text, htext, hopen⟩
    obtain ⟨rfl, hfolder, hlist⟩ := open?_eq_some_iff.mp hopen
    exact ⟨⟨text, Store.getString?_eq_some_iff.mp htext, ne_empty_of_isFolder hfolder, rfl, hfolder⟩, hlist⟩

def jarNames (fs : FileSystem) (path : Path) (entries : List (Name × Node)) : List Name :=
  (entries.map Prod.fst).filter fun n => isJarName n && fs.isFile (path.child n)

theorem jarPaths_eq_map (fs : FileSystem) (path : Path) (entries : List (Name × Node)) :
    jarPaths fs path entries = (jarNames fs path entries).map path.child := by
  unfold jarPaths jarNames
  rw [List.filter_map, List.map_map, ← List.filterMap_eq_map, List.filterMap_filter]
  simp only [Function.comp_apply, Bool.and_eq_true]

theorem jars_eq_ok_iff {fs : FileSystem} {folder : LibraryFolder} {jars : List Path} :
    folder.jars fs = .ok jars ↔
      ∃ entries, fs.list folder.path = .ok entries ∧ jars = Path.sort (jarPaths fs folder.path entries) := by
  unfold LibraryFolder.jars
  cases fs.list folder.path with
  | error e => exact ⟨nofun, nofun⟩
  | ok entries =>
    constructor
    · intro h
      exact ⟨entries, rfl, (Except.ok.inj h).symm⟩
    · rintro ⟨_, h, rfl⟩
      cases h
      rfl

theorem jars_of_perm {fs : FileSystem} {folder : LibraryFolder} {entries : List (Name × Node)}
    {jars : List Path} (hlist : fs.list folder.path = .ok entries)
    (hperm : (jarPaths fs folder.path entries).Perm jars)
    (hup : jars.Pairwise fun p q => p.compare q = .lt) : folder.jars fs = .ok jars :=
  jars_eq_ok_iff.mpr ⟨entries, hlist, (Path.sort_eq_of_perm hperm hup).symm⟩

theorem pairwise_jarPaths (fs : FileSystem) (path : Path) {entries : List (Name × Node)}
    (hnames : ∀ e ∈ entries, IsName e.1) (hdistinct : (entries.map Prod.fst).Nodup) :
    (jarPaths fs path entries).Pairwise fun p q => p.same q = false := by
  have hname : ∀ n ∈ jarNames fs path entries, IsName n := by
    intro n hn
    obtain ⟨e, he, rfl⟩ := List.mem_map.mp (List.mem_filter.mp hn).1
    exact hnames e he
  rw [jarPaths_eq_map, List.pairwise_map]
  refine List.Pairwise.imp_of_mem (fun {m n} hm hn hne => ?_) (hdistinct.filter _)
  exact Path.not_same_child path (hname m hm) (hname n hn) hne

theorem pairwise_jars {fs : FileSystem} (hfs : fs.WellFormed) {folder : LibraryFolder}
    {jars : List Path} (h : folder.jars fs = .ok jars) :
    jars.Pairwise fun p q => p.same q = false := by
  obtain ⟨entries, hlist, rfl⟩ := jars_eq_ok_iff.mp h
  have hpaths : (jarPaths fs folder.path entries).Pairwise fun p q => p.same q = false :=
    pairwise_jarPaths fs folder.path (hfs.named.list hlist).isName (hfs.nodup hlist)
  exact (Path.sort_perm _).symm.pairwise hpaths fun hpq => by rw [Path.same_comm, hpq]

end LibraryFolder

/-! ## The classpath of a folder -/

namespace Classpath

/-- The classpath of a folder is the list of its jars: none is dropped as a duplicate. -/
theorem ofFolder_eq_ok_iff {fs : FileSystem} (hfs : fs.WellFormed) {folder : LibraryFolder}
    {c : Classpath} : ofFolder fs (some folder) = .ok c ↔ folder.jars fs = .ok c.entries := by
  rw [ofFolder]
  cases hjars : folder.jars fs with
  | error e => exact ⟨nofun, nofun⟩
  | ok jars =>
    have hentries : (ofList jars).entries = jars := by
      rw [entries_ofList, Path.firsts_eq_self (LibraryFolder.pairwise_jars hfs hjars)]
    constructor
    · intro h
      cases h
      rw [hentries]
    · intro h
      cases h
      exact congrArg Except.ok (by rw [Classpath.mk.injEq]; exact hentries)

end Classpath
end GroovyWorkspace
