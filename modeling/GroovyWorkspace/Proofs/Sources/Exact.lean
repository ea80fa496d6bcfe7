import GroovyWorkspace.Proofs.FileSystem.Reorder
import GroovyWorkspace.Sources.Discovery
import Mathlib

/-!
# Finding sources is exact

The Groovy files below a root are found, each once and in the order of the paths, unless the root cannot be
seen or is a folder that cannot be opened (`groovyFiles_exact`). What is one is said by the names that lead
to it from the root (`HasSource`), so nothing depends on how the walk is made or on the order in which a
disk lists its folders.
-/

namespace GroovyWorkspace.FileSystem

variable {fs gs : FileSystem} {root p : Path} {place : Place} {node : Node}

/-- Names lead from the root to a Groovy file: all folders on the way can be opened and are no links, the
text of the path ends in `.groovy`, and a file stands there or a link that leads to one. -/
def HasSource (fs : FileSystem) (root : Path) (ns : List Name) : Prop :=
  ∃ place top found, fs.find root = .ok (place, top) ∧ fs.Meets root top ns found ∧
    ".groovy".toList <:+ (root.under ns).display.toList ∧ fs.IsFileAt (root.under ns) found

theorem isSource_iff : fs.isSource ⟨p, node.kind⟩ = true ↔
    ".groovy".toList <:+ p.display.toList ∧ fs.IsFileAt p node := by
  rw [isSource, Path.isGroovy]
  simp [isFile_iff, IsFileAt]

theorem isSource_start (h : fs.find root = .ok (place, node)) {kind : Kind}
    (hkind : kind = node.kind ∨ kind = .link) :
    fs.isSource ⟨root, kind⟩ = fs.isSource ⟨root, node.kind⟩ := by
  rcases hkind with rfl | rfl
  · rfl
  · rw [isSource, isSource, isFile, kind_of_find h]
    cases node <;> simp [Node.kind]

theorem groovyFiles_of_find (h : fs.find root = .ok (place, node)) (hopen : node.IsOpen) :
    fs.groovyFiles root = .ok (Path.sort (((node.visits root true).filter fs.isSource).map Visit.path)) := by
  obtain ⟨kind, hkind, hwalk⟩ := walk_of_find h hopen
  have hvisits : node.visits root true = ⟨root, node.kind⟩ :: (node.visits root true).tail := by
    cases node <;> rfl
  rw [groovyFiles, hwalk, hvisits]
  show Except.ok (Path.sort ((List.filter _ (_ :: _)).map Visit.path)) = _
  rw [List.filter_cons, List.filter_cons, isSource_start h hkind]
  split <;> rfl

/-- There are no files to be found exactly where the walk cannot start. -/
theorem groovyFiles_eq_error_iff :
    (∃ e, fs.groovyFiles root = .error e) ↔
      (∃ e, fs.kind root = .error e) ∨ (fs.isFolder root = true ∧ ∃ e, fs.openFolder root = .error e) := by
  cases hfind : fs.find root with
  | error e =>
    obtain ⟨e', hwalk⟩ := walk_of_error hfind
    exact iff_of_true ⟨e', by rw [groovyFiles, hwalk]; rfl⟩ (.inl ⟨e, kind_of_error hfind⟩)
  | ok found =>
    obtain ⟨place, node⟩ := found
    rw [kind_of_find hfind, isFolder_iff, kind_of_find hfind, openFolder_of_find hfind]
    by_cases hopen : node.IsOpen
    · rw [groovyFiles_of_find hfind hopen]
      refine iff_of_false nofun ?_
      rintro (⟨e, h⟩ | ⟨hfolder, e, h⟩)
      · cases h
      · cases node with
        | file contents locked => cases hfolder
        | link target => cases hfolder
        | folder entries access =>
          rw [Node.listing_of_isOpen hopen] at h
          cases h
    · refine iff_of_true ⟨.denied, by rw [groovyFiles, walk_of_unreadable hfind hopen]; rfl⟩ (.inr ?_)
      cases node with
      | file contents locked => exact absurd trivial hopen
      | link target => exact absurd trivial hopen
      | folder entries access => exact ⟨rfl, .denied, Node.listing_of_not_isOpen hopen⟩

/-- Names lead from the root to all sources that a walk meets, and the walk meets all of them. -/
theorem mem_met_sources_iff (hfs : fs.Storable) (hfind : fs.find root = .ok (place, node)) :
    p ∈ ((node.visits root true).filter fs.isSource).map Visit.path ↔
      ∃ ns, fs.HasSource root ns ∧ p = root.under ns := by
  rw [List.mem_map]
  constructor
  · rintro ⟨v, hv, rfl⟩
    obtain ⟨hmet, hsource⟩ := List.mem_filter.mp hv
    obtain ⟨ns, found, hpasses, rfl⟩ := Node.mem_visits_iff.mp hmet
    have hmeets : fs.Meets root node ns found := (meets_iff_passes hfs hfind).mpr hpasses
    obtain ⟨hsuffix, hkind⟩ := isSource_iff.mp hsource
    exact ⟨ns, ⟨place, node, found, hfind, hmeets, hsuffix, hkind⟩, rfl⟩
  · rintro ⟨ns, ⟨place', top, found, htop, hmeets, hsource⟩, rfl⟩
    rw [hfind] at htop
    cases htop
    have hpasses : Node.Passes root true node ns found := (meets_iff_passes hfs hfind).mp hmeets
    refine ⟨⟨root.under ns, found.kind⟩, List.mem_filter.mpr ⟨hpasses.mem_visits, ?_⟩, rfl⟩
    exact isSource_iff.mpr hsource

/-- The files that are found go strictly up, and names lead to them from the root. -/
theorem groovyFiles_eq_ok (hfs : fs.Storable) {files : List Path} (h : fs.groovyFiles root = .ok files) :
    files.Pairwise (fun p q => p.compare q = .lt) ∧
      ∀ p, p ∈ files ↔ ∃ ns, fs.HasSource root ns ∧ p = root.under ns := by
  obtain ⟨visits, hwalk, -⟩ := bind_eq_ok.mp h
  obtain ⟨place, node, hfind, hopen⟩ := exists_find_of_walk hwalk
  rw [groovyFiles_of_find hfind hopen] at h
  cases h
  constructor
  · have hvisits : (node.visits root true).Pairwise fun v w => v.path.same w.path = false :=
      Node.pairwise_visits (hfs.node? (node?_of_find hfind))
    apply Path.pairwise_lt_sort
    exact List.pairwise_map.mpr (hvisits.filter _)
  · intro p
    rw [Path.mem_sort, mem_met_sources_iff hfs hfind]

/-! ## Other orders -/

theorem Reorders.hasSource (h : fs.Reorders gs) (hfs : fs.Storable) {ns : List Name}
    (hsource : fs.HasSource root ns) : gs.HasSource root ns := by
  obtain ⟨place, top, found, hfind, hmeets, hsuffix, hfile⟩ := hsource
  obtain ⟨other, hother⟩ := h.exists_find hfind
  have hnode : fs.node? place = some top := node?_of_find hfind
  have hnode' : gs.node? place = some other := node?_of_find hother
  have hpasses : Node.Passes root true top ns found := (meets_iff_passes hfs hfind).mp hmeets
  obtain ⟨found', hpasses', hreorders⟩ := h.passes hfs hnode hnode' hpasses
  have hmeets' : gs.Meets root other ns found' := (meets_iff_passes (h.storable hfs) hother).mpr hpasses'
  rw [IsFileAt, hreorders.kind_eq, h.kind_eq] at hfile
  exact ⟨place, other, found', hother, hmeets', hsuffix, hfile⟩

theorem Reorders.groovyFiles_eq (h : fs.Reorders gs) (hfs : fs.Storable) (root : Path) :
    gs.groovyFiles root = fs.groovyFiles root := by
  have halike : Alike (fun _ _ => True) (fs.groovyFiles root) (gs.groovyFiles root) :=
    (h.walk root).bind fun _ _ _ => .ok trivial
  generalize hf : fs.groovyFiles root = found at halike ⊢
  generalize hg : gs.groovyFiles root = others at halike ⊢
  cases halike with
  | error e => rfl
  | @ok files others _ =>
    obtain ⟨hfiles, hmem⟩ := groovyFiles_eq_ok hfs hf
    obtain ⟨hothers, hmem'⟩ := groovyFiles_eq_ok (h.storable hfs) hg
    refine congrArg Except.ok (Path.eq_of_pairwise_lt hothers hfiles fun p => ?_)
    rw [hmem, hmem']
    constructor
    · rintro ⟨ns, hsource, hp⟩
      exact ⟨ns, h.symm.hasSource (h.storable hfs) hsource, hp⟩
    · rintro ⟨ns, hsource, hp⟩
      exact ⟨ns, h.hasSource hfs hsource, hp⟩

/-- **Finding sources is exact.** It fails exactly if the root cannot be seen or is a folder that cannot be
opened. Otherwise the files go strictly up and are those that names lead to from the root. The order in
which folders list their entries does not matter. -/
theorem groovyFiles_exact (hfs : fs.Storable) (root : Path) :
    ((∃ e, fs.groovyFiles root = .error e) ↔
      (∃ e, fs.kind root = .error e) ∨ (fs.isFolder root = true ∧ ∃ e, fs.openFolder root = .error e)) ∧
    (∀ files, fs.groovyFiles root = .ok files →
      files.Pairwise (fun p q => p.compare q = .lt) ∧
        ∀ p, p ∈ files ↔ ∃ ns, fs.HasSource root ns ∧ p = root.under ns) ∧
    ∀ gs, fs.Reorders gs → gs.groovyFiles root = fs.groovyFiles root :=
  ⟨groovyFiles_eq_error_iff, fun _ h => groovyFiles_eq_ok hfs h, fun _ h => h.groovyFiles_eq hfs root⟩

/-- A disk with files, a folder whose name ends like theirs, a link to a file, one to that folder and one to
itself, a folder that is locked, and one that can be opened but not passed. -/
def tangled : FileSystem where
  root :=
    [(Text.encode "b.groovy", .file .empty),
      (Text.encode "a.groovy", .folder
        [(Text.encode "c.groovy", .file .empty true), (Text.encode ".groovy", .file .empty)]),
      (Text.encode "file.groovy", .link (.ofString "a.groovy/c.groovy")),
      (Text.encode "folder", .link (.ofString "/a.groovy")),
      (Text.encode "loop.groovy", .link (.ofString "loop.groovy")),
      (Text.encode "locked", .folder [(Text.encode "d.groovy", .file .empty)] .locked),
      (Text.encode "shown", .folder
        [(Text.encode "e.groovy", .file .empty), (Text.encode "f.groovy", .link (.ofString "/b.groovy"))]
        { passable := false })]

theorem storable_tangled : tangled.Storable := by
  have hfile : ∀ locked, (Node.file .empty locked).Storable := Node.everywhere_file .empty
  have hlink : ∀ target, (Node.link target).Storable := Node.everywhere_link
  refine Node.everywhere_folder (by decide) ?_
  simp only [tangled, List.forall_mem_cons, List.not_mem_nil, false_implies, implies_true, and_true]
  refine ⟨hfile _, ?_, hlink _, hlink _, hlink _, ?_, ?_⟩
  all_goals
    refine Node.everywhere_folder (by decide) ?_
    simp only [List.forall_mem_cons, List.not_mem_nil, false_implies, implies_true, and_true]
  · exact ⟨hfile _, hfile _⟩
  · exact hfile _
  · exact ⟨hfile _, hlink _⟩

/-- From the root of the disk, listed backwards, four files and the link to one are found. Nothing is
found through a link or in the folder that is locked, and from that folder finding fails. In the folder
that cannot be passed the file is found, but not the link, which leads nowhere from there. -/
theorem groovyFiles_exact_tangled :
    tangled.Storable ∧ tangled.Reorders ⟨tangled.root.reverse, []⟩ ∧
      groovyFiles ⟨tangled.root.reverse, []⟩ (Path.ofString "/") =
        .ok [Path.ofString "/a.groovy/.groovy", Path.ofString "/a.groovy/c.groovy",
          Path.ofString "/b.groovy", Path.ofString "/file.groovy", Path.ofString "/shown/e.groovy"] ∧
      (∃ ns, tangled.HasSource (Path.ofString "/") ns ∧
        Path.ofString "/file.groovy" = (Path.ofString "/").under ns) ∧
      ∃ e, tangled.groovyFiles (Path.ofString "/locked/") = .error e := by
  have hnames : (tangled.root.map Prod.fst).Nodup := by decide
  have hreorders : tangled.Reorders ⟨tangled.root.reverse, []⟩ :=
    reorders_of_perm hnames (List.reverse_perm _).symm []
  have hfound : tangled.groovyFiles (Path.ofString "/") =
      .ok [Path.ofString "/a.groovy/.groovy", Path.ofString "/a.groovy/c.groovy",
        Path.ofString "/b.groovy", Path.ofString "/file.groovy", Path.ofString "/shown/e.groovy"] := by cbv
  obtain ⟨-, hexact, horder⟩ := groovyFiles_exact storable_tangled (Path.ofString "/")
  obtain ⟨hfails, -, -⟩ := groovyFiles_exact storable_tangled (Path.ofString "/locked/")
  refine ⟨storable_tangled, hreorders, (horder _ hreorders).trans hfound, ?_, ?_⟩
  · exact ((hexact _ hfound).2 _).mp (by decide)
  · exact hfails.mpr (.inr ⟨by decide, .denied, rfl⟩)

end GroovyWorkspace.FileSystem
