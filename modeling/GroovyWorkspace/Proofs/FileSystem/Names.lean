import GroovyWorkspace.Proofs.FileSystem.Place
import GroovyWorkspace.Proofs.Path.Child

/-!
# Names in a file system

In a file system every entry has a name: bytes without a slash that are neither empty nor one of the
steps `.` and `..` (`WellNamed`). On a disk no two entries of a folder have the same name (`WellFormed`).
-/

namespace GroovyWorkspace

namespace Node

mutual

def WellNamed : Node → Prop
  | .file .. => True
  | .link _ => True
  | .folder entries _ => EntriesWellNamed entries

def EntriesWellNamed : List (Name × Node) → Prop
  | [] => True
  | (name, node) :: rest => IsName name ∧ WellNamed node ∧ EntriesWellNamed rest

end

theorem mem_of_named? {entries : List (Name × Node)} {name : Name} {node : Node}
    (h : named? entries name = some node) : (name, node) ∈ entries := by
  obtain ⟨front, back, rfl, -⟩ := List.lookup_eq_some_iff.mp h
  exact List.mem_append_right _ List.mem_cons_self

theorem EntriesWellNamed.of_mem {entries : List (Name × Node)} (h : EntriesWellNamed entries)
    {name : Name} {node : Node} (hn : (name, node) ∈ entries) : IsName name ∧ node.WellNamed := by
  induction entries with
  | nil => cases hn
  | cons e rest ih =>
    obtain ⟨n, other⟩ := e
    rw [EntriesWellNamed] at h
    rcases List.mem_cons.mp hn with heq | hn
    · cases heq
      exact ⟨h.1, h.2.1⟩
    · exact ih h.2.2 hn

theorem EntriesWellNamed.of_forall {entries : List (Name × Node)}
    (h : ∀ e ∈ entries, IsName e.1 ∧ e.2.WellNamed) : EntriesWellNamed entries := by
  induction entries with
  | nil => trivial
  | cons e rest ih =>
    rw [List.forall_mem_cons] at h
    exact ⟨h.1.1, h.1.2, ih h.2⟩

theorem EntriesWellNamed.isName {entries : List (Name × Node)} (h : EntriesWellNamed entries) :
    ∀ e ∈ entries, IsName e.1 :=
  fun _ he => (h.of_mem he).1

theorem WellNamed.descend {place : Place} {node found : Node} (h : node.WellNamed)
    (hd : node.descend place = some found) : found.WellNamed := by
  induction place generalizing node with
  | nil =>
    rw [Node.descend] at hd
    cases hd; exact h
  | cons name rest ih =>
    cases node with
    | file contents locked => cases hd
    | link target => cases hd
    | folder entries access =>
      rw [Node.descend] at hd
      rw [WellNamed] at h
      cases hn : Node.named? entries name with
      | none => rw [hn] at hd; cases hd
      | some node =>
        rw [hn] at hd
        exact ih (h.of_mem (mem_of_named? hn)).2 hd

end Node

namespace FileSystem

def WellNamed (fs : FileSystem) : Prop := Node.EntriesWellNamed fs.root

theorem WellNamed.node? {fs : FileSystem} (h : fs.WellNamed) {place : Place} {node : Node}
    (hn : fs.node? place = some node) : node.WellNamed := by
  have hroot : (Node.folder fs.root).WellNamed := by rw [Node.WellNamed]; exact h
  exact hroot.descend hn

theorem WellNamed.list {fs : FileSystem} (h : fs.WellNamed) {p : Path}
    {entries : List (Name × Node)} (hl : fs.list p = .ok entries) :
    Node.EntriesWellNamed entries := by
  obtain ⟨place, access, hnode⟩ := node?_of_list hl
  have hnamed := h.node? hnode
  rwa [Node.WellNamed] at hnamed

end FileSystem

/-! ## Different names -/

namespace Node

theorem named?_of_mem {entries : List (Name × Node)} (hnames : (entries.map Prod.fst).Nodup)
    {name : Name} {node : Node} (h : (name, node) ∈ entries) : named? entries name = some node := by
  unfold named?
  induction entries with
  | nil => cases h
  | cons e rest ih =>
    obtain ⟨n, other⟩ := e
    rw [List.map_cons, List.nodup_cons] at hnames
    rcases List.mem_cons.mp h with heq | hrest
    · cases heq
      exact List.lookup_cons_self
    · have hne : name ≠ n := by
        rintro rfl
        exact hnames.1 (List.mem_map.mpr ⟨_, hrest, rfl⟩)
      rw [List.lookup_cons, beq_false_of_ne hne]
      exact ih hnames.2 hrest

/-- What is said of the entries of every folder at or below a node. -/
def Everywhere (P : List (Name × Node) → Prop) (node : Node) : Prop :=
  ∀ place entries access, node.descend place = some (.folder entries access) → P entries

section Everywhere

variable {P : List (Name × Node) → Prop}

theorem everywhere_file (contents : ByteArray) (locked : Bool) : (file contents locked).Everywhere P := by
  intro place entries access h
  cases place <;> cases h

theorem everywhere_link (target : Path) : (link target).Everywhere P := by
  intro place entries access h
  cases place <;> cases h

theorem everywhere_folder {entries : List (Name × Node)} {access : Access} (hentries : P entries)
    (h : ∀ e ∈ entries, e.2.Everywhere P) : (folder entries access).Everywhere P := by
  intro place inner access' hd
  cases place with
  | nil =>
    cases hd
    exact hentries
  | cons name rest =>
    rw [descend] at hd
    cases hn : Node.named? entries name with
    | none => rw [hn] at hd; cases hd
    | some node =>
      rw [hn] at hd
      exact h (name, node) (mem_of_named? hn) rest inner access' hd

theorem Everywhere.descend {node found : Node} {place : Place} (h : node.Everywhere P)
    (hd : node.descend place = some found) : found.Everywhere P := by
  intro below entries access hbelow
  refine h (place ++ below) entries access ?_
  rw [descend_append, hd]
  exact hbelow

end Everywhere

/-- No folder at or below a node has two entries of one name. -/
def DistinctNames (node : Node) : Prop := node.Everywhere fun entries => (entries.map Prod.fst).Nodup

end Node

namespace FileSystem

/-- The trees that a disk can hold: every entry has a name, which no other entry of its folder has. -/
structure WellFormed (fs : FileSystem) : Prop where
  named : fs.WellNamed
  distinct : (Node.folder fs.root).DistinctNames

theorem WellFormed.nodup {fs : FileSystem} (h : fs.WellFormed) {p : Path}
    {entries : List (Name × Node)} (hl : fs.list p = .ok entries) : (entries.map Prod.fst).Nodup := by
  obtain ⟨place, access, hnode⟩ := node?_of_list hl
  exact h.distinct place entries access hnode

/-- A disk with empty files in one folder. -/
def oneFolder (folder : String) (names : List String) (access : Access := {}) : FileSystem where
  root := [(Text.encode folder, .folder (names.map fun n => (Text.encode n, .file .empty)) access)]

theorem wellFormed_oneFolder {folder : String} {names : List String} {access : Access}
    (hfolder : IsName (Text.encode folder)) (hnames : ∀ n ∈ names, IsName (Text.encode n))
    (hdistinct : (names.map Text.encode).Nodup) : (oneFolder folder names access).WellFormed where
  named := by
    refine ⟨hfolder, ?_, trivial⟩
    rw [Node.WellNamed]
    clear hdistinct
    induction names with
    | nil => trivial
    | cons n rest ih =>
      rw [List.forall_mem_cons] at hnames
      exact ⟨hnames.1, trivial, ih hnames.2⟩
  distinct := by
    have hfiles : ∀ e ∈ names.map fun n => (Text.encode n, Node.file .empty), e.2.DistinctNames := by
      intro e he
      obtain ⟨n, -, rfl⟩ := List.mem_map.mp he
      exact Node.everywhere_file _ _
    refine Node.everywhere_folder (List.pairwise_singleton _ _) (List.forall_mem_singleton.mpr ?_)
    exact Node.everywhere_folder (by rwa [List.map_map]) hfiles

end FileSystem
end GroovyWorkspace
