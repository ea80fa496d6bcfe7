import GroovyWorkspace.FileSystem.Walk
import GroovyWorkspace.Proofs.FileSystem.Names
import GroovyWorkspace.Proofs.Path.Order

/-!
# What a walk meets

A walk meets exactly what names lead to along folders that it goes into (`mem_visits_iff`), and on a disk
no path twice (`pairwise_visits`). A folder that is met can be opened at its path exactly if the walk goes
into it (`meets_iff_passes`): the tree and the paths below the start agree there.
-/

namespace GroovyWorkspace

/-- Entries that a folder of a disk can have: their names differ, and each can be looked up. -/
structure FitsFolder (entries : List (Name × Node)) : Prop where
  distinct : (entries.map Prod.fst).Nodup
  usable : ∀ e ∈ entries, FileSystem.IsUsable e.1

instance : DecidablePred FitsFolder := fun entries =>
  decidable_of_iff ((entries.map Prod.fst).Nodup ∧ ∀ e ∈ entries, FileSystem.IsUsable e.1)
    ⟨fun h => ⟨h.1, h.2⟩, fun h => ⟨h.distinct, h.usable⟩⟩

namespace Node

/-- Every folder at or below a node is one that a disk can have. -/
def Storable (node : Node) : Prop := node.Everywhere FitsFolder

variable {path : Path} {reached : Bool} {node : Node} {entries : List (Name × Node)} {access : Access}

theorem Storable.fitsFolder (h : (folder entries access).Storable) : FitsFolder entries :=
  h [] entries access rfl

theorem Storable.entry (h : (folder entries access).Storable) {n : Name} (hn : (n, node) ∈ entries) :
    node.Storable := by
  have hnamed : (folder entries access).descend [n] = some node :=
    (descend_singleton entries access n).trans (named?_of_mem h.fitsFolder.distinct hn)
  exact Everywhere.descend h hnamed

/-- Induction over a tree: what holds of a folder if it holds of its entries holds of every node. -/
@[elab_as_elim]
theorem byEntries {motive : Node → Prop} (file : ∀ contents locked, motive (.file contents locked))
    (link : ∀ target, motive (.link target))
    (folder : ∀ entries access, (∀ e ∈ entries, motive e.2) → motive (.folder entries access)) :
    ∀ node, motive node
  | .file contents locked => file contents locked
  | .link target => link target
  | .folder entries access => folder entries access fun e _ => byEntries file link folder e.2
  termination_by node => sizeOf node
  decreasing_by
    obtain ⟨n, node⟩ := e
    have hlt := List.sizeOf_lt_of_mem ‹(n, node) ∈ entries›
    simp only [Prod.mk.sizeOf_spec] at hlt
    simp only [Node.folder.sizeOf_spec]
    omega

theorem Storable.wellNamed {node : Node} (h : node.Storable) : node.WellNamed := by
  induction node using byEntries with
  | file contents locked => trivial
  | link target => trivial
  | folder entries access ih =>
    have hentries : ∀ e ∈ entries, IsName e.1 ∧ e.2.WellNamed := by
      intro e he
      exact ⟨(h.fitsFolder.usable e he).name, ih e he (h.entry he)⟩
    exact EntriesWellNamed.of_forall hentries

/-- Whether a walk can start from a node: a folder must be readable. -/
def IsOpen : Node → Prop
  | .folder _ access => access.readable = true
  | _ => True

theorem listing_of_isOpen (h : (folder entries access).IsOpen) :
    (folder entries access).listing = .ok ⟨entries, access.fault⟩ := if_pos h

theorem listing_of_not_isOpen (h : ¬ (folder entries access).IsOpen) :
    (folder entries access).listing = .error .denied := if_neg h

/-! ## The visits of a node -/

/-- Names lead from a node at `path` to one below it, along folders that a walk goes into: they are readable,
their paths are not too long, and the folders above them are passable. -/
inductive Passes : Path → Bool → Node → List Name → Node → Prop
  | here {path : Path} {reached : Bool} {node : Node} : Passes path reached node [] node
  | into {path : Path} {entries : List (Name × Node)} {access : Access} {n : Name} {child : Node}
    {ns : List Name} {found : Node} (hread : access.readable = true)
    (hshort : path.bytes.length ≤ maxPath) (hn : (n, child) ∈ entries)
    (h : Passes (path.child n) access.passable child ns found) :
    Passes path true (.folder entries access) (n :: ns) found

/-- What the names in every folder have, if it is passed on to the folders below, the names on the way
have. -/
theorem Passes.forall_name {P : Name → Prop} {Q : Node → Prop}
    (hentry : ∀ {entries access n child}, Q (.folder entries access) → (n, child) ∈ entries → P n ∧ Q child)
    {ns : List Name} {found : Node} (h : Passes path reached node ns found) (hnode : Q node) :
    ∀ n ∈ ns, P n := by
  induction h with
  | here => exact nofun
  | into _ _ hn _ ih =>
    obtain ⟨hname, hchild⟩ := hentry hnode hn
    exact List.forall_mem_cons.mpr ⟨hname, ih hchild⟩

theorem Passes.isUsable {ns : List Name} {found : Node} (h : Passes path reached node ns found)
    (hnode : node.Storable) : ∀ n ∈ ns, FileSystem.IsUsable n :=
  h.forall_name (fun hfolder hn => ⟨hfolder.fitsFolder.usable _ hn, hfolder.entry hn⟩) hnode

theorem Passes.isName {ns : List Name} {found : Node} (h : Passes path reached node ns found)
    (hnode : node.WellNamed) : ∀ n ∈ ns, IsName n := by
  refine h.forall_name (fun hfolder hn => ?_) hnode
  rw [WellNamed] at hfolder
  exact hfolder.of_mem hn

theorem mem_entryVisits {v : Visit} :
    v ∈ entryVisits path reached entries ↔
      ∃ n node, (n, node) ∈ entries ∧ v ∈ node.visits (path.child n) reached := by
  induction entries with
  | nil => simp [entryVisits]
  | cons e rest ih =>
    obtain ⟨m, other⟩ := e
    rw [entryVisits, List.mem_append, ih]
    constructor
    · rintro (h | ⟨n, node, hn, h⟩)
      · exact ⟨m, other, List.mem_cons_self, h⟩
      · exact ⟨n, node, List.mem_cons_of_mem _ hn, h⟩
    · rintro ⟨n, node, hn, h⟩
      rcases List.mem_cons.mp hn with heq | hn
      · cases heq
        exact .inl h
      · exact .inr ⟨n, node, hn, h⟩

theorem Passes.mem_visits {ns : List Name} {found : Node} (h : Passes path reached node ns found) :
    ⟨path.under ns, found.kind⟩ ∈ node.visits path reached := by
  induction h with
  | @here path reached node => cases node <;> simp [visits, kind, Path.under]
  | @into path entries access n child ns found hread hshort hn _ ih =>
    rw [visits, if_pos ⟨rfl, hread, hshort⟩]
    exact List.mem_cons_of_mem _ (mem_entryVisits.mpr ⟨n, child, hn, ih⟩)

theorem exists_passes {v : Visit} (hv : v ∈ node.visits path reached) :
    ∃ ns found, Passes path reached node ns found ∧ v = ⟨path.under ns, found.kind⟩ := by
  induction node using byEntries generalizing path reached with
  | file contents locked =>
    rw [visits, List.mem_singleton] at hv
    exact ⟨[], _, .here, hv⟩
  | link target =>
    rw [visits, List.mem_singleton] at hv
    exact ⟨[], _, .here, hv⟩
  | folder entries access ih =>
    rw [visits, List.mem_cons] at hv
    rcases hv with hv | hv
    · exact ⟨[], _, .here, hv⟩
    · split at hv
      · rename_i hopen
        obtain ⟨hreached, hread, hshort⟩ := hopen
        obtain rfl : reached = true := hreached
        obtain ⟨n, child, hn, hv⟩ := mem_entryVisits.mp hv
        obtain ⟨ns, found, hpasses, rfl⟩ := ih (n, child) hn hv
        exact ⟨n :: ns, found, .into hread hshort hn hpasses, rfl⟩
      · cases hv

/-- **A walk meets exactly what names lead to along folders that it goes into.** -/
theorem mem_visits_iff {v : Visit} :
    v ∈ node.visits path reached ↔
      ∃ ns found, Passes path reached node ns found ∧ v = ⟨path.under ns, found.kind⟩ := by
  constructor
  · exact exists_passes
  · rintro ⟨ns, found, hpasses, rfl⟩
    exact hpasses.mem_visits

/-! ## No path is met twice -/

theorem not_same_under {ns ms : List Name} (hns : ∀ n ∈ ns, FileSystem.IsUsable n)
    (hms : ∀ n ∈ ms, FileSystem.IsUsable n) (h : ns ≠ ms) :
    (path.under ns).same (path.under ms) = false := by
  rw [← Bool.not_eq_true, Path.same_iff]
  exact fun hsame => h
    (Path.names_eq_of_under (fun n hn => (hns n hn).name) (fun n hn => (hms n hn).name) hsame)

theorem exists_under (hnode : node.Storable) {n : Name} (hn : FileSystem.IsUsable n) {v : Visit}
    (hv : v ∈ node.visits (path.child n) reached) :
    ∃ ns, (∀ m ∈ n :: ns, FileSystem.IsUsable m) ∧ v.path = path.under (n :: ns) := by
  obtain ⟨ns, found, hpasses, rfl⟩ := mem_visits_iff.mp hv
  exact ⟨ns, List.forall_mem_cons.mpr ⟨hn, hpasses.isUsable hnode⟩, rfl⟩

theorem pairwise_entryVisits (hentries : FitsFolder entries) (hbelow : ∀ e ∈ entries, e.2.Storable)
    (h : ∀ e ∈ entries,
      (e.2.visits (path.child e.1) reached).Pairwise fun v w => v.path.same w.path = false) :
    (entryVisits path reached entries).Pairwise fun v w => v.path.same w.path = false := by
  induction entries with
  | nil => exact .nil
  | cons e rest ih =>
    obtain ⟨n, node⟩ := e
    obtain ⟨hdistinct, husable⟩ := hentries
    rw [List.map_cons, List.nodup_cons] at hdistinct
    rw [List.forall_mem_cons] at husable hbelow h
    rw [entryVisits]
    refine List.pairwise_append.mpr ⟨h.1, ih ⟨hdistinct.2, husable.2⟩ hbelow.2 h.2, ?_⟩
    -- the paths of different entries part at the names of these
    intro v hv w hw
    obtain ⟨m, other, hm, hw⟩ := mem_entryVisits.mp hw
    obtain ⟨ns, hns, hvpath⟩ := exists_under hbelow.1 husable.1 hv
    obtain ⟨ms, hms, hwpath⟩ := exists_under (hbelow.2 _ hm) (husable.2 _ hm) hw
    rw [hvpath, hwpath]
    apply not_same_under hns hms
    intro heq
    have hname : n = m := (List.cons.inj heq).1
    exact hdistinct.1 (List.mem_map.mpr ⟨_, hm, hname.symm⟩)

/-- **No path is met twice, in whatever spelling.** -/
theorem pairwise_visits (hnode : node.Storable) :
    (node.visits path reached).Pairwise fun v w => v.path.same w.path = false := by
  induction node using byEntries generalizing path reached with
  | file contents locked => exact List.pairwise_singleton _ _
  | link target => exact List.pairwise_singleton _ _
  | folder entries access ih =>
    rw [visits]
    split
    · refine List.pairwise_cons.mpr ⟨fun v hv => ?_, ?_⟩
      · obtain ⟨n, child, hn, hv⟩ := mem_entryVisits.mp hv
        obtain ⟨ns, hns, hpath⟩ := exists_under (hnode.entry hn) (hnode.fitsFolder.usable _ hn) hv
        show (path.under []).same v.path = false
        rw [hpath]
        exact not_same_under nofun hns (List.cons_ne_nil n ns).symm
      · apply pairwise_entryVisits hnode.fitsFolder
        · exact fun e he => hnode.entry he
        · exact fun e he => ih e he (hnode.entry he)
    · exact List.pairwise_singleton _ _

end Node

namespace FileSystem

/-- The trees that a disk can hold, with names that can be looked up. -/
def Storable (fs : FileSystem) : Prop := (Node.folder fs.root).Storable

variable {fs : FileSystem} {p root : Path} {place : Place} {node : Node} {entries : List (Name × Node)}
  {access : Access}

theorem Storable.wellFormed (h : fs.Storable) : fs.WellFormed where
  named := Node.Storable.wellNamed h
  distinct := fun place entries access hd => (h place entries access hd).distinct

theorem Storable.node? (h : fs.Storable) (hnode : fs.node? place = some node) : node.Storable :=
  Node.Everywhere.descend h hnode

theorem kind_of_find (h : fs.find p = .ok (place, node)) : fs.kind p = .ok node.kind := by
  rw [kind, h]
  rfl

theorem kind_eq_ok_iff {k : Kind} :
    fs.kind p = .ok k ↔ ∃ found, fs.find p = .ok found ∧ found.2.kind = k := by
  rw [kind, bind_eq_ok]
  simp

theorem kind_of_error {e : OsError} (h : fs.find p = .error e) : fs.kind p = .error e := by
  rw [kind, h]
  rfl

theorem isFile_iff : fs.isFile p = true ↔ fs.kind p = .ok .file := by
  unfold isFile
  split <;> simp_all

theorem isFolder_iff : fs.isFolder p = true ↔ fs.kind p = .ok .folder := by
  unfold isFolder
  split <;> simp_all

/-- What is met at a path counts as a file: it is one itself, or a link that leads to one. -/
def IsFileAt (fs : FileSystem) (p : Path) (node : Node) : Prop :=
  node.kind = .file ∨ node.kind = .link ∧ fs.kind p = .ok .file

theorem openFolder_of_readable (h : fs.find p = .ok (place, .folder entries access))
    (hread : access.readable = true) : fs.openFolder p = .ok ⟨entries, access.fault⟩ := by
  rw [openFolder_of_find h, Node.listing_of_isOpen hread]

theorem isFolder_of_openFolder {l : Listing} (h : fs.openFolder p = .ok l) : fs.isFolder p = true := by
  obtain ⟨place, access, hfind, -⟩ := openFolder_eq_ok_iff.mp h
  exact isFolder_iff.mpr (kind_of_find hfind)

theorem short_of_find (h : fs.find p = .ok (place, node)) : p.bytes.length ≤ maxPath :=
  (locate_eq_ok_iff.mp (find_eq_ok_iff.mp h)).1.short

/-! ## Folders that can be opened -/

/-- Names lead from a node at `path` to one below it, along folders, no links, that can be opened. -/
inductive Meets (fs : FileSystem) : Path → Node → List Name → Node → Prop
  | here {path : Path} {node : Node} : Meets fs path node [] node
  | into {path : Path} {inner : List (Name × Node)} {access : Access} {l : Listing} {n : Name} {child : Node}
    {ns : List Name} {found : Node} (hopen : fs.openFolder path = .ok l) (hn : (n, child) ∈ l.entries)
    (h : Meets fs (path.child n) child ns found) :
    Meets fs path (.folder inner access) (n :: ns) found

theorem find_child (hfind : fs.find p = .ok (place, .folder entries access))
    (hpass : access.passable = true) (hentries : FitsFolder entries) {n : Name} (hn : (n, node) ∈ entries)
    (hlink : node.kind ≠ .link) (hshort : (p.child n).bytes.length ≤ maxPath) :
    fs.find (p.child n) = .ok (place ++ [n], node) := by
  have hnamed : Node.named? entries n = some node := Node.named?_of_mem hentries.distinct hn
  rw [find_eq_ok_iff]
  refine locate_child_of_some hfind hpass (hentries.usable _ hn) hshort hnamed ?_ true
  rintro target rfl
  exact hlink rfl

/-- **Below a path that leads to a node, the folders that a walk goes into are those that can be
opened.** -/
theorem meets_iff_passes (hfs : fs.Storable) (hfind : fs.find p = .ok (place, node)) {ns : List Name}
    {found : Node} : fs.Meets p node ns found ↔ Node.Passes p true node ns found := by
  induction ns generalizing p place node with
  | nil =>
    constructor
    · intro h; cases h; exact .here
    · intro h; cases h; exact .here
  | cons n ns ih =>
    have hnode : node.Storable := hfs.node? (node?_of_find hfind)
    constructor
    · intro h
      cases h with
      | @into _ inner access l _ child _ _ hopen hn h =>
        obtain ⟨place', access', hfolder, hread, -⟩ := openFolder_eq_ok_iff.mp hopen
        cases hfind.symm.trans hfolder
        refine .into hread (short_of_find hfind) hn ?_
        cases h with
        | here => exact .here
        | into hbelow hm h =>
          -- what is opened below is the folder that was met, not what its path leads to by chance
          obtain ⟨place', access', hchild, -⟩ := openFolder_eq_ok_iff.mp hbelow
          have hpass := passable_of_find hfind (hnode.fitsFolder.usable _ hn).name hchild
          rw [hpass]
          have hinner := find_child hfind hpass hnode.fitsFolder hn nofun (short_of_find hchild)
          exact (ih hinner).mp (.into hbelow hm h)
    · intro h
      cases h with
      | into hread hshort hn h =>
        refine .into (openFolder_of_readable hfind hread) hn ?_
        generalize hpass : Access.passable _ = reached at h
        cases h with
        | here => exact .here
        | into hread' hshort' hm h =>
          have hchild := find_child hfind hpass hnode.fitsFolder hn nofun hshort'
          exact (ih hchild).mpr (.into hread' hshort' hm h)

/-! ## Links at the end of a path -/

theorem Leads.of_final {links : Nat} {start : Place} {steps : List Step}
    (h : Leads fs true links start steps (.found place node)) :
    ∃ final, Leads fs false links start steps (.found final.1 final.2) ∧
      (final = (place, node) ∨ ∃ target, final.2 = .link target) := by
  generalize htarget : Target.found place node = target at h
  induction h with
  | stop hnode =>
    cases htarget
    exact ⟨(place, node), .stop hnode, .inl rfl⟩
  | folder hnode _ ih =>
    obtain ⟨final, hleads, hfinal⟩ := ih htarget
    exact ⟨final, .folder hnode hleads, hfinal⟩
  | here henter _ ih =>
    obtain ⟨final, hleads, hfinal⟩ := ih htarget
    exact ⟨final, .here henter hleads, hfinal⟩
  | up henter _ ih =>
    obtain ⟨final, hleads, hfinal⟩ := ih htarget
    exact ⟨final, .up henter hleads, hfinal⟩
  | absent _ _ _ => cases htarget
  | absentFolder _ _ _ => cases htarget
  | link _ _ _ hlast => cases hlast
  | @follow links start entries n target rest t henter hshort hsome _ hempty _ ih =>
    by_cases hrest : rest = []
    · subst hrest
      exact ⟨(start ++ [n], .link target), .link henter hshort hsome rfl, .inr ⟨target, rfl⟩⟩
    · obtain ⟨final, hleads, hfinal⟩ := ih htarget
      exact ⟨final, .follow henter hshort hsome (fun h => hrest h.1) hempty hleads, hfinal⟩
  | name henter hshort hsome hlink _ ih =>
    obtain ⟨final, hleads, hfinal⟩ := ih htarget
    exact ⟨final, .name henter hshort hsome hlink hleads, hfinal⟩

/-- A path that leads somewhere ends there, or at a link. -/
theorem exists_find_final (h : fs.find p = .ok (place, node)) :
    ∃ final, fs.find p false = .ok final ∧ (final = (place, node) ∨ ∃ target, final.2 = .link target) := by
  obtain ⟨hadmits, hleads⟩ := locate_eq_ok_iff.mp (find_eq_ok_iff.mp h)
  obtain ⟨final, hfinal, hcases⟩ := hleads.of_final
  exact ⟨final, find_eq_ok_iff.mpr (locate_eq_ok_iff.mpr ⟨hadmits, hfinal⟩), hcases⟩

/-! ## Where a walk starts -/

theorem walk_of_error {e : OsError} (h : fs.find root = .error e) : ∃ e', fs.walk root = .error e' := by
  cases hfinal : fs.find root false with
  | error e' => exact ⟨e', by rw [walk, hfinal]; rfl⟩
  | ok final => exact ⟨e, by rw [walk, hfinal, h]; rfl⟩

/-- A walk goes on from what its start leads to. A start that is a link is met as that. -/
theorem walk_eq (h : fs.find root = .ok (place, node)) :
    ∃ kind, (kind = node.kind ∨ kind = .link) ∧ fs.walk root = node.visitsFrom root kind := by
  obtain ⟨final, hfinal, hcases⟩ := exists_find_final h
  refine ⟨final.2.kind, ?_, ?_⟩
  · rcases hcases with rfl | ⟨target, htarget⟩
    · exact .inl rfl
    · rw [htarget]
      exact .inr rfl
  · rw [walk, hfinal, h]
    rfl

theorem walk_of_unreadable (h : fs.find root = .ok (place, node)) (hopen : ¬ node.IsOpen) :
    fs.walk root = .error .denied := by
  obtain ⟨kind, -, hwalk⟩ := walk_eq h
  cases node with
  | file contents locked => exact absurd trivial hopen
  | link target => exact absurd trivial hopen
  | folder entries access =>
    rw [hwalk, Node.visitsFrom, Node.listing_of_not_isOpen hopen]
    rfl

/-- **A walk from what is found meets what there is at and below it.** -/
theorem walk_of_find (h : fs.find root = .ok (place, node)) (hopen : node.IsOpen) :
    ∃ kind, (kind = node.kind ∨ kind = .link) ∧
      fs.walk root = .ok (⟨root, kind⟩ :: (node.visits root true).tail) := by
  obtain ⟨kind, hkind, hwalk⟩ := walk_eq h
  refine ⟨kind, hkind, ?_⟩
  rw [hwalk]
  cases node with
  | file contents locked => rfl
  | link target => rfl
  | folder entries access =>
    rw [Node.visitsFrom, Node.listing_of_isOpen hopen, Node.visits, if_pos ⟨rfl, hopen, short_of_find h⟩]
    rfl

theorem exists_find_of_walk {vs : List Visit} (h : fs.walk root = .ok vs) :
    ∃ place node, fs.find root = .ok (place, node) ∧ node.IsOpen := by
  cases hfind : fs.find root with
  | error e =>
    obtain ⟨e', herror⟩ := walk_of_error hfind
    rw [herror] at h
    cases h
  | ok found =>
    refine ⟨found.1, found.2, rfl, Classical.byContradiction fun hopen => ?_⟩
    rw [walk_of_unreadable hfind hopen] at h
    cases h

theorem WellNamed.walk_under (h : fs.WellNamed) {vs : List Visit} (hw : fs.walk root = .ok vs) {v : Visit}
    (hv : v ∈ vs) : ∃ ns, (∀ n ∈ ns, IsName n) ∧ v.path = root.under ns := by
  obtain ⟨place, node, hfind, hopen⟩ := exists_find_of_walk hw
  obtain ⟨kind, -, hwalk⟩ := walk_of_find hfind hopen
  rw [hwalk] at hw
  cases hw
  rcases List.mem_cons.mp hv with rfl | hv
  · exact ⟨[], nofun, rfl⟩
  · obtain ⟨ns, found, hpasses, rfl⟩ := Node.mem_visits_iff.mp (List.mem_of_mem_tail hv)
    exact ⟨ns, hpasses.isName (h.node? (node?_of_find hfind)), rfl⟩

end FileSystem
end GroovyWorkspace
