import GroovyWorkspace.Proofs.FileSystem.Reorder
import GroovyWorkspace.Proofs.Library.Jars
import Mathlib.Data.List.Perm.Basic

/-!
# The jars of a folder and its listing

Paths in one folder are in the order of the bytes of their names, however the folder is spelled
(`compare_child`). So sorting the jars of a folder sorts their names, in whatever order the disk lists them.
An entry is a jar by its name and by what it is (`IsJarOf`). But what it is gets asked of its path, and that
cannot be followed if the folder is not passable or the path too long. The classpath of a folder misses
such jars (`ofFolder_exact`).
-/

namespace GroovyWorkspace

namespace Path

theorem compareComponents_append (cs ds es : List Component) :
    compareComponents (cs ++ ds) (cs ++ es) = compareComponents ds es := by
  induction cs with
  | nil => rfl
  | cons c rest ih =>
    have hself : c.compare c = .eq := Std.ReflCmp.compare_self
    rw [List.cons_append, List.cons_append, compareComponents, hself]
    exact ih

theorem length_le_child (p : Path) {n : Name} (hn : IsName n) :
    p.bytes.length + n.length ≤ (p.child n).bytes.length := by
  rw [bytes_child p hn]
  split
  · exact Nat.le_of_eq List.length_append.symm
  · rw [List.length_append, List.length_cons]
    omega

theorem compare_child (p : Path) {m n : Name} (hm : IsName m) (hn : IsName n) :
    (p.child m).compare (p.child n) = compareBytes m n := by
  rw [compare, components_child p hm, components_child p hn, compareComponents_append,
    compareComponents, Component.compare]
  cases compareBytes m n <;> rfl

/-- Paths in one folder go up exactly if their names do. -/
theorem pairwise_child_iff (p : Path) {ns : List Name} (hnames : ∀ n ∈ ns, IsName n) :
    ((ns.map p.child).Pairwise fun q r => q.compare r = .lt) ↔ ns.Pairwise (· < ·) := by
  rw [List.pairwise_map]
  refine List.Pairwise.iff_of_mem fun {m n} hm hn => ?_
  rw [compare_child p (hnames m hm) (hnames n hn), compareBytes_eq_lt_iff]

/-- Sorting paths in one folder puts their names into another order. -/
theorem exists_sort_child (p : Path) (ns : List Name) :
    ∃ sorted : List Name, sort (ns.map p.child) = sorted.map p.child ∧ sorted.Perm ns :=
  (congrFun₂ (List.eq_map_comp_perm p.child) _ ns).mpr (sort_perm (ns.map p.child))

end Path

namespace FileSystem

variable {fs : FileSystem} {p : Path} {place : Place} {node : Node} {entries : List (Name × Node)}
  {access : Access} {n : Name}

/-- The path of an entry that is no link can be followed exactly if the folder is passable and the path is not
too long. -/
theorem exists_kind_child_iff (h : fs.find p = .ok (place, .folder entries access))
    (hentries : FitsFolder entries) (hn : (n, node) ∈ entries) (hlink : node.kind ≠ .link) :
    (∃ k, fs.kind (p.child n) = .ok k) ↔
      access.passable = true ∧ (p.child n).bytes.length ≤ maxPath := by
  constructor
  · rintro ⟨k, hkind⟩
    obtain ⟨found, hfound, -⟩ := kind_eq_ok_iff.mp hkind
    exact ⟨passable_of_find h (hentries.usable _ hn).name hfound, short_of_find hfound⟩
  · rintro ⟨hpass, hshort⟩
    exact ⟨_, kind_of_find (find_child h hpass hentries hn hlink hshort)⟩

/-- A path that can be followed leads to the entry itself, if that is no link. -/
theorem kind_child_eq (h : fs.find p = .ok (place, .folder entries access)) (hentries : FitsFolder entries)
    (hn : (n, node) ∈ entries) (hlink : node.kind ≠ .link) {k : Kind} (hk : fs.kind (p.child n) = .ok k) :
    node.kind = k := by
  obtain ⟨hpass, hshort⟩ := (exists_kind_child_iff h hentries hn hlink).mp ⟨k, hk⟩
  rw [kind_of_find (find_child h hpass hentries hn hlink hshort)] at hk
  exact Except.ok.inj hk

/-- The path of an entry leads to a file exactly if the entry counts as one and its path can be followed. -/
theorem kind_child_eq_file_iff (h : fs.find p = .ok (place, .folder entries access))
    (hentries : FitsFolder entries) (hn : (n, node) ∈ entries) :
    fs.kind (p.child n) = .ok .file ↔
      fs.IsFileAt (p.child n) node ∧ ∃ k, fs.kind (p.child n) = .ok k := by
  constructor
  · intro hfile
    refine ⟨?_, _, hfile⟩
    by_cases hlink : node.kind = .link
    · exact .inr ⟨hlink, hfile⟩
    · exact .inl (kind_child_eq h hentries hn hlink hfile)
  · rintro ⟨hnode | ⟨-, hfile⟩, k, hk⟩
    · have hlink : node.kind ≠ .link := by rw [hnode]; nofun
      rw [hk, ← kind_child_eq h hentries hn hlink hk, hnode]
    · exact hfile

end FileSystem

namespace LibraryFolder

variable {fs gs : FileSystem} {folder : LibraryFolder} {entries : List (Name × Node)}

/-- What a jar of the folder at a path is: an entry whose name, in lower case, ends in `.jar`, and which is a
file or a link that leads to one. -/
structure IsJarOf (fs : FileSystem) (path : Path) (entries : List (Name × Node)) (n : Name) (node : Node) :
    Prop where
  listed : (n, node) ∈ entries
  ending : ".jar".toList <:+ (Text.lowercase (Text.decodeLossy n)).toList
  file : fs.IsFileAt (path.child n) node

/-- The jars that are found are those whose paths can be followed. -/
theorem mem_jarNames_iff {path : Path} {place : Place} {access : Access} {n : Name}
    (hfind : fs.find path = .ok (place, .folder entries access)) (hentries : FitsFolder entries) :
    n ∈ jarNames fs path entries ↔
      (∃ node, IsJarOf fs path entries n node) ∧ ∃ k, fs.kind (path.child n) = .ok k := by
  rw [jarNames, List.mem_filter, Bool.and_eq_true, FileSystem.isFile_iff, isJarName,
    List.isSuffixOf_iff_suffix]
  constructor
  · rintro ⟨hname, hending, hkind⟩
    obtain ⟨⟨n, node⟩, hlisted, rfl⟩ := List.mem_map.mp hname
    obtain ⟨hfile, hseen⟩ := (FileSystem.kind_child_eq_file_iff hfind hentries hlisted).mp hkind
    exact ⟨⟨node, hlisted, hending, hfile⟩, hseen⟩
  · rintro ⟨⟨node, hlisted, hending, hfile⟩, hseen⟩
    refine ⟨List.mem_map.mpr ⟨_, hlisted, rfl⟩, hending, ?_⟩
    exact (FileSystem.kind_child_eq_file_iff hfind hentries hlisted).mpr ⟨hfile, hseen⟩

/-- The path of a jar cannot be followed exactly if it is a file in a folder that is not passable, or one whose
path is too long. -/
theorem IsJarOf.not_seen_iff {path : Path} {place : Place} {access : Access} {n : Name} {node : Node}
    (h : IsJarOf fs path entries n node) (hfind : fs.find path = .ok (place, .folder entries access))
    (hentries : FitsFolder entries) :
    (¬ ∃ k, fs.kind (path.child n) = .ok k) ↔
      node.kind = .file ∧ (access.passable = false ∨ maxPath < (path.child n).bytes.length) := by
  rcases h.file with hfile | ⟨hlink, hkind⟩
  · have hnolink : node.kind ≠ .link := by rw [hfile]; nofun
    rw [FileSystem.exists_kind_child_iff hfind hentries h.listed hnolink, Classical.not_and_iff_not_or_not,
      Bool.not_eq_true, Nat.not_le]
    exact (and_iff_right hfile).symm
  · refine iff_of_false (fun hno => hno ⟨_, hkind⟩) fun hfile => ?_
    cases hlink.symm.trans hfile.1

theorem exists_jars_eq (hlist : fs.list folder.path = .ok entries) :
    ∃ names : List Name, folder.jars fs = .ok (names.map folder.path.child) ∧
      names.Perm (jarNames fs folder.path entries) := by
  obtain ⟨names, hsort, hperm⟩ := Path.exists_sort_child folder.path (jarNames fs folder.path entries)
  refine ⟨names, jars_eq_ok_iff.mpr ⟨entries, hlist, ?_⟩, hperm⟩
  rw [jarPaths_eq_map, hsort]

theorem pairwise_lt_jars (hfs : fs.WellFormed) {jars : List Path} (h : folder.jars fs = .ok jars) :
    jars.Pairwise fun p q => p.compare q = .lt := by
  obtain ⟨entries, hlist, rfl⟩ := jars_eq_ok_iff.mp h
  exact Path.pairwise_lt_sort
    (pairwise_jarPaths fs folder.path (hfs.named.list hlist).isName (hfs.nodup hlist))

theorem jars_of_reorders (h : fs.Reorders gs) (hfs : fs.WellFormed) (folder : LibraryFolder) :
    folder.jars gs = folder.jars fs := by
  have halike := h.list folder.path
  generalize hf : fs.list folder.path = listing at halike
  generalize hg : gs.list folder.path = other at halike
  cases halike with
  | error e => rw [jars, jars, hf, hg]
  | @ok entries others hnames =>
    have hperm : (jarPaths fs folder.path entries).Perm (jarPaths gs folder.path others) := by
      have hfile : gs.isFile = fs.isFile := funext fun p => (h.isFile_eq p).symm
      rw [jarPaths_eq_map, jarPaths_eq_map, jarNames, jarNames, hfile]
      exact (hnames.filter _).map _
    have hdistinct := pairwise_jarPaths fs folder.path (hfs.named.list hf).isName (hfs.nodup hf)
    rw [jars_eq_ok_iff.mpr ⟨entries, hf, rfl⟩]
    exact jars_of_perm hg (hperm.symm.trans (Path.sort_perm _).symm) (Path.pairwise_lt_sort hdistinct)

end LibraryFolder

namespace Classpath

open LibraryFolder

/-- **What the classpath of a folder has.** A folder that can be listed, in whatever spelling, gives a
classpath: its path with the name of each jar behind it whose path can be followed. What is missed are the
jars that are files themselves, if the folder is not passable or their paths are too long. No jar is dropped
as a duplicate. The paths go strictly up, as the names do in the order of their bytes. The order in which the
disk lists entries does not matter. -/
theorem ofFolder_exact {fs : FileSystem} (hfs : fs.Storable) {folder : LibraryFolder}
    {entries : List (Name × Node)} (hlist : fs.list folder.path = .ok entries) :
    ∃ (place : Place) (access : Access) (names : List Name),
      fs.find folder.path = .ok (place, .folder entries access) ∧
        ofFolder fs (some folder) = .ok ⟨names.map folder.path.child⟩ ∧
        folder.jars fs = .ok (names.map folder.path.child) ∧
        (∀ n, n ∈ names ↔ (∃ node, IsJarOf fs folder.path entries n node) ∧
          ∃ k, fs.kind (folder.path.child n) = .ok k) ∧
        (∀ n node, IsJarOf fs folder.path entries n node →
          (n ∉ names ↔ node.kind = .file ∧
            (access.passable = false ∨ maxPath < (folder.path.child n).bytes.length))) ∧
        names.Pairwise (· < ·) ∧
        ((names.map folder.path.child).Pairwise fun p q => p.compare q = .lt) ∧
        ∀ gs, fs.Reorders gs → ofFolder gs (some folder) = ofFolder fs (some folder) := by
  obtain ⟨place, access, hfind, -⟩ :=
    FileSystem.openFolder_eq_ok_iff.mp (FileSystem.list_eq_ok_iff.mp hlist)
  have hentries : FitsFolder entries := (hfs.node? (FileSystem.node?_of_find hfind)).fitsFolder
  have hwell : fs.WellFormed := hfs.wellFormed
  obtain ⟨names, hjars, hperm⟩ := exists_jars_eq hlist
  have hjar : ∀ n, n ∈ names ↔ (∃ node, IsJarOf fs folder.path entries n node) ∧
      ∃ k, fs.kind (folder.path.child n) = .ok k := by
    intro n
    rw [hperm.mem_iff, mem_jarNames_iff hfind hentries]
  have hnames : ∀ n ∈ names, IsName n := by
    intro n hn
    obtain ⟨⟨node, h⟩, -⟩ := (hjar n).mp hn
    exact (hentries.usable _ h.listed).name
  have hlt := pairwise_lt_jars hwell hjars
  refine ⟨place, access, names, hfind, (ofFolder_eq_ok_iff hwell).mpr hjars, hjars, hjar, ?_, ?_, hlt, ?_⟩
  · intro n node h
    rw [hjar, ← h.not_seen_iff hfind hentries, and_iff_right ⟨node, h⟩]
  · exact (Path.pairwise_child_iff folder.path hnames).mp hlt
  · intro gs h
    rw [ofFolder, ofFolder, jars_of_reorders h hwell]

/-- A disk with two jars and a link to one of them. A folder and a link to nothing are named like jars, and
there is a jar in a folder that is not passable. -/
def jarDisk : FileSystem where
  root :=
    [(Text.encode "b.jar", .file .empty),
      (Text.encode "c.Jar", .link (.ofString "b.jar")),
      (Text.encode "d.jar", .folder []),
      (Text.encode "e.jar", .link (.ofString "missing")),
      (Text.encode "A.JAR", .file .empty true),
      (Text.encode "b.txt", .file .empty),
      (Text.encode "libs", .folder [(Text.encode "a.jar", .file .empty)] { passable := false })]

theorem storable_jarDisk : jarDisk.Storable := by
  have hfile : ∀ locked, (Node.file .empty locked).Storable := Node.everywhere_file .empty
  have hlink : ∀ target, (Node.link target).Storable := Node.everywhere_link
  refine Node.everywhere_folder (by decide) ?_
  simp only [jarDisk, List.forall_mem_cons, List.not_mem_nil, false_implies, implies_true, and_true]
  refine ⟨hfile _, hlink _, Node.everywhere_folder (by decide) nofun, hlink _, hfile _, hfile _, ?_⟩
  exact Node.everywhere_folder (by decide) (List.forall_mem_singleton.mpr (hfile _))

/-- The root, spelled with as many slashes as a path can have. -/
def slashes : Path := ⟨List.replicate maxPath slash⟩

theorem length_slashes : slashes.bytes.length = maxPath := List.length_replicate

theorem parts_replicate_slash (n : Nat) :
    Path.parts (List.replicate n slash) = List.replicate (n + 1) [] := by
  induction n with
  | zero => rfl
  | succ n ih => rw [List.replicate_succ, Path.parts, if_pos rfl, ih, ← List.replicate_succ]

theorem find_slashes (fs : FileSystem) : fs.find slashes = .ok ([], .folder fs.root) := by
  have hsteps : slashes.steps = [.folder] := by
    have hlast : slashes.bytes.getLast? = some slash := by
      rw [slashes, List.getLast?_replicate, if_neg (by decide)]
    rw [Path.steps, if_pos hlast, slashes, parts_replicate_slash, List.filterMap_replicate_of_none rfl]
    rfl
  have hclean : 0 ∉ slashes.bytes := fun h => absurd (List.eq_of_mem_replicate h) (by decide)
  have hnonempty : slashes.bytes ≠ [] := List.length_pos_iff.mp (by rw [length_slashes]; decide)
  have hstart : fs.startOf slashes = [] := rfl
  rw [FileSystem.find_eq_ok_iff, FileSystem.locate_eq_ok_iff, hsteps, hstart]
  exact ⟨⟨hclean, hnonempty, Nat.le_of_eq length_slashes⟩, .folder rfl (.stop rfl)⟩

/-- The jar `a.jar` is missed in its folder, which can be listed. So is `b.jar` in the root, if that is spelled
with slashes that leave no room for the name. -/
theorem ofFolder_exact_jarDisk :
    jarDisk.Reorders ⟨jarDisk.root.reverse, []⟩ ∧
      ofFolder ⟨jarDisk.root.reverse, []⟩ (some ⟨.ofString "/./"⟩) =
        .ok ⟨[.ofString "/./A.JAR", .ofString "/./b.jar", .ofString "/./c.Jar"]⟩ ∧
      (∃ names : List Name,
        IsJarOf jarDisk (.ofString "/libs") [(Text.encode "a.jar", .file .empty)] (Text.encode "a.jar")
          (.file .empty) ∧
        ofFolder jarDisk (some ⟨.ofString "/libs"⟩) = .ok ⟨names.map (Path.ofString "/libs").child⟩ ∧
        Text.encode "a.jar" ∉ names) ∧
      ∃ names : List Name, IsJarOf jarDisk slashes jarDisk.root (Text.encode "b.jar") (.file .empty) ∧
        ofFolder jarDisk (some ⟨slashes⟩) = .ok ⟨names.map slashes.child⟩ ∧ Text.encode "b.jar" ∉ names := by
  have hreorders : jarDisk.Reorders ⟨jarDisk.root.reverse, []⟩ :=
    FileSystem.reorders_of_perm (by decide) (List.reverse_perm _).symm []
  refine ⟨hreorders, ?_, ?_, ?_⟩
  · have hlist : jarDisk.list (LibraryFolder.mk (.ofString "/./")).path = .ok jarDisk.root := rfl
    obtain ⟨-, -, -, -, -, -, -, -, -, -, horder⟩ := ofFolder_exact storable_jarDisk hlist
    rw [horder _ hreorders, ofFolder_eq_ok_iff storable_jarDisk.wellFormed]
    exact jars_of_perm hlist (by decide) (by decide)
  · have hlist : jarDisk.list (LibraryFolder.mk (.ofString "/libs")).path =
        .ok [(Text.encode "a.jar", .file .empty)] := rfl
    have hjar : IsJarOf jarDisk (.ofString "/libs") [(Text.encode "a.jar", .file .empty)]
        (Text.encode "a.jar") (.file .empty) := ⟨List.mem_cons_self, by decide, .inl rfl⟩
    obtain ⟨place, access, names, hfind, hnames, -, -, hmissed, -⟩ := ofFolder_exact storable_jarDisk hlist
    cases hfind
    exact ⟨names, hjar, hnames, (hmissed _ _ hjar).mpr ⟨rfl, .inl rfl⟩⟩
  · have hlist : jarDisk.list (LibraryFolder.mk slashes).path = .ok jarDisk.root :=
      FileSystem.list_eq_ok_iff.mpr (FileSystem.openFolder_of_readable (find_slashes jarDisk) rfl)
    have hjar : IsJarOf jarDisk slashes jarDisk.root (Text.encode "b.jar") (.file .empty) :=
      ⟨List.mem_cons_self, by decide, .inl rfl⟩
    obtain ⟨place, access, names, -, hnames, -, -, hmissed, -⟩ := ofFolder_exact storable_jarDisk hlist
    have hroom := Path.length_le_child slashes (show IsName (Text.encode "b.jar") by decide)
    have hpositive : 0 < (Text.encode "b.jar").length := by decide
    have hlong : maxPath < (slashes.child (Text.encode "b.jar")).bytes.length := by
      rw [length_slashes] at hroom
      omega
    exact ⟨names, hjar, hnames, (hmissed _ _ hjar).mpr ⟨rfl, .inr hlong⟩⟩

end Classpath
end GroovyWorkspace
