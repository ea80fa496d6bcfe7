import GroovyWorkspace.FileSystem.Edit
import GroovyWorkspace.Proofs.FileSystem.Place

/-!
# Additions to a file system

Writing a file and making a folder take nothing away: whatever had a place keeps it, with the same kind,
lock and target (`ExtendedBy`). So a path leads where it led before, and if it led to a name that was
missing it now leads to what has been put there (`ExtendedBy.locate`). In particular a file that is
written is read back from the same path (`read_of_write`).
-/

namespace GroovyWorkspace

namespace Node

/-- Two nodes that a walk cannot tell apart, but for what is below them. -/
def SameShape : Node → Node → Prop
  | file .., file .. => True
  | folder _ access, folder _ access' => access = access'
  | link target, link target' => target = target'
  | _, _ => False

theorem SameShape.refl (node : Node) : node.SameShape node := by
  cases node with
  | file contents locked => trivial
  | folder entries access => exact Eq.refl access
  | link target => exact Eq.refl target

theorem SameShape.exists_folder {entries : List (Name × Node)} {access : Access} {node : Node}
    (h : (folder entries access).SameShape node) : ∃ others, node = folder others access := by
  cases node with
  | file contents locked => cases h
  | folder others access' =>
    cases h
    exact ⟨others, rfl⟩
  | link target => cases h

theorem SameShape.eq_link {target : Path} {node : Node} (h : (link target).SameShape node) :
    node = link target := by
  cases node with
  | file contents locked => cases h
  | folder entries access => cases h
  | link target' =>
    cases h
    rfl

theorem SameShape.ne_link {a b : Node} (h : a.SameShape b) (ha : ∀ target, a ≠ link target)
    (target : Path) : b ≠ link target := by
  rintro rfl
  cases a with
  | file contents locked => cases h
  | folder entries access => cases h
  | link target' => exact ha target' rfl

/-- Whatever is at or below a node has its place in the other one too. -/
def ExtendedBy (a b : Node) : Prop :=
  ∀ place node, a.descend place = some node →
    ∃ other, b.descend place = some other ∧ node.SameShape other

theorem extendedBy_file (old new : ByteArray) (locked locked' : Bool) :
    (file old locked).ExtendedBy (file new locked') := by
  intro place node h
  cases place with
  | nil =>
    cases h
    exact ⟨_, rfl, trivial⟩
  | cons name rest => cases h

theorem named?_setEntry (name other : Name) (new : Node) (entries : List (Name × Node)) :
    named? (setEntry name (some new) entries) other =
      if other = name then some new else named? entries other := by
  unfold named?
  induction entries with
  | nil =>
    rw [setEntry]
    show List.lookup other [(name, new)] = _
    rw [List.lookup_cons, List.lookup_nil]
    by_cases h : other = name
    · rw [beq_iff_eq.mpr h, if_pos h]
    · rw [beq_eq_false_iff_ne.mpr h, if_neg h]
  | cons e rest ih =>
    obtain ⟨n, node⟩ := e
    rw [setEntry]
    by_cases hn : n = name
    · subst hn
      rw [if_pos rfl]
      show List.lookup other ((n, new) :: rest) = _
      rw [List.lookup_cons, List.lookup_cons]
      by_cases h : other = n
      · rw [beq_iff_eq.mpr h, if_pos h]
      · rw [beq_eq_false_iff_ne.mpr h, if_neg h]
    · rw [if_neg hn, List.lookup_cons, ih, List.lookup_cons]
      by_cases h : other = n
      · subst h
        simp only [beq_self_eq_true, if_neg hn]
      · rw [beq_eq_false_iff_ne.mpr h]

/-- A folder is extended by setting an entry, if what the entry was before is. -/
theorem extendedBy_setEntry {entries : List (Name × Node)} {access : Access} {name : Name} {new : Node}
    (h : ∀ old, named? entries name = some old → old.ExtendedBy new) :
    (folder entries access).ExtendedBy (folder (setEntry name (some new) entries) access) := by
  intro place node hnode
  cases place with
  | nil =>
    cases hnode
    exact ⟨_, rfl, rfl⟩
  | cons n rest =>
    rw [descend] at hnode ⊢
    rw [named?_setEntry]
    cases hn : named? entries n with
    | none => rw [hn] at hnode; cases hnode
    | some old =>
      rw [hn] at hnode
      by_cases heq : n = name
      · rw [if_pos heq]
        exact h old (heq ▸ hn) rest node hnode
      · rw [if_neg heq]
        exact ⟨node, hnode, .refl node⟩

/-- Putting a node into a folder below extends the whole tree, and the node is then at its place. -/
theorem extendedBy_alterEntries {new : Node} {name : Name} {parent : Place}
    {entries inner : List (Name × Node)} {access access' : Access}
    (hparent : (folder entries access).descend parent = some (folder inner access'))
    (h : ∀ old, named? inner name = some old → old.ExtendedBy new) :
    (folder entries access).ExtendedBy
        (folder (alterEntries (fun _ => some new) (parent ++ [name]) entries) access) ∧
      (folder (alterEntries (fun _ => some new) (parent ++ [name]) entries) access).descend
        (parent ++ [name]) = some new := by
  induction parent generalizing entries access with
  | nil =>
    cases hparent
    refine ⟨extendedBy_setEntry h, ?_⟩
    rw [List.nil_append, descend_singleton]
    exact (named?_setEntry name name new inner).trans (if_pos rfl)
  | cons n rest ih =>
    rw [descend] at hparent
    cases hn : named? entries n with
    | none => rw [hn] at hparent; cases hparent
    | some node =>
      rw [hn] at hparent
      cases node with
      | file contents locked => cases rest <;> cases hparent
      | link target => cases rest <;> cases hparent
      | folder below inside =>
        obtain ⟨hextended, hplace⟩ := ih hparent
        have halter : alterEntries (fun _ => some new) (n :: rest ++ [name]) entries =
            setEntry n (some (folder (alterEntries (fun _ => some new) (rest ++ [name]) below) inside))
              entries := by
          rw [List.cons_append, alterEntries, hn]
          exact List.append_ne_nil_of_right_ne_nil rest (List.cons_ne_nil _ _)
        rw [halter]
        constructor
        · refine extendedBy_setEntry fun old hold => ?_
          rw [hn] at hold
          cases hold
          exact hextended
        · rw [List.cons_append, descend, named?_setEntry, if_pos rfl]
          exact hplace

end Node

namespace FileSystem

/-- Whatever has a place in a file system has it in the other one too. -/
structure ExtendedBy (fs gs : FileSystem) : Prop where
  tree : (Node.folder fs.root).ExtendedBy (.folder gs.root)
  current : gs.current = fs.current

theorem extendedBy_alter {fs : FileSystem} {parent : Place} {name : Name} {new : Node}
    {entries : List (Name × Node)} {access : Access}
    (hparent : fs.node? parent = some (.folder entries access))
    (h : ∀ old, Node.named? entries name = some old → old.ExtendedBy new) :
    fs.ExtendedBy (fs.alter (parent ++ [name]) fun _ => some new) ∧
      (fs.alter (parent ++ [name]) fun _ => some new).node? (parent ++ [name]) = some new := by
  obtain ⟨hextended, hplace⟩ := Node.extendedBy_alterEntries hparent h
  exact ⟨⟨hextended, rfl⟩, hplace⟩

/-! ## Walks in a larger tree -/

theorem ExtendedBy.enter {fs gs : FileSystem} (h : fs.ExtendedBy gs) {place : Place}
    {entries : List (Name × Node)} (henter : fs.enter place = .ok entries) :
    ∃ others, gs.enter place = .ok others ∧
      (∀ name node, Node.named? entries name = some node →
        ∃ other, Node.named? others name = some other ∧ node.SameShape other) ∧
      ∀ name, gs.node? (place ++ [name]) = Node.named? others name := by
  obtain ⟨access, hplace, hpass⟩ := enter_eq_ok_iff.mp henter
  obtain ⟨other, hother, hshape⟩ := h.tree place _ hplace
  obtain ⟨others, rfl⟩ := hshape.exists_folder
  refine ⟨others, enter_eq_ok_iff.mpr ⟨access, hother, hpass⟩, fun name node hnode => ?_, node?_concat hother⟩
  obtain ⟨below, hbelow, hsame⟩ := h.tree (place ++ [name]) node ((node?_concat hplace name).trans hnode)
  exact ⟨below, (node?_concat hother name).symm.trans hbelow, hsame⟩

end FileSystem

def Target.place : Target → Place
  | .found place _ => place
  | .absent parent name _ => parent ++ [name]

/-- Whether a node can be put where a target is missing, so that the path then leads to it: no folder is
asked for, and the node is no link. -/
def Target.Takes : Target → Node → Prop
  | .found .., _ => True
  | .absent _ _ slash, node => slash = false ∧ ∀ target, node ≠ .link target

/-- A target that a file can be written to: a file that is not locked, or a name that is missing. -/
def Target.IsWritable : Target → Prop
  | .found _ node => ∃ contents, node = .file contents false
  | .absent _ _ slash => slash = false

theorem Target.IsWritable.takes {t : Target} (h : t.IsWritable) (contents : ByteArray) :
    t.Takes (.file contents) := by
  cases t with
  | found place node => trivial
  | absent parent name slash => exact ⟨h, nofun⟩

namespace FileSystem

theorem ExtendedBy.leads {fs gs : FileSystem} (h : fs.ExtendedBy gs) {last : Bool} {links : Nat}
    {place : Place} {steps : List Step} {t : Target} {node : Node}
    (hnode : gs.node? t.place = some node) (htakes : t.Takes node)
    (hleads : Leads fs last links place steps t) :
    Leads gs last links place steps (.found t.place node) := by
  induction hleads with
  | stop _ => exact .stop hnode
  | folder hfolder _ ih =>
    obtain ⟨other, hother, hshape⟩ := h.tree _ _ hfolder
    obtain ⟨others, rfl⟩ := hshape.exists_folder
    exact .folder hother (ih hnode htakes)
  | here henter _ ih =>
    obtain ⟨others, hothers, -⟩ := h.enter henter
    exact .here hothers (ih hnode htakes)
  | up henter _ ih =>
    obtain ⟨others, hothers, -⟩ := h.enter henter
    exact .up hothers (ih hnode htakes)
  | absent henter hshort _ =>
    -- the name that was missing is there now
    obtain ⟨others, hothers, -, hbelow⟩ := h.enter henter
    exact .name hothers hshort ((hbelow _).symm.trans hnode) htakes.2 (.stop hnode)
  | absentFolder _ _ _ => exact absurd htakes.1 (by decide)
  | link henter hshort hsome hlast =>
    obtain ⟨others, hothers, hnamed, hbelow⟩ := h.enter henter
    obtain ⟨other, hother, hshape⟩ := hnamed _ _ hsome
    obtain rfl := hshape.eq_link
    obtain rfl : _ = node := Option.some.inj (hother.symm.trans ((hbelow _).symm.trans hnode))
    exact .link hothers hshort hother hlast
  | follow henter hshort hsome hlast hempty _ ih =>
    obtain ⟨others, hothers, hnamed, -⟩ := h.enter henter
    obtain ⟨other, hother, hshape⟩ := hnamed _ _ hsome
    obtain rfl := hshape.eq_link
    exact .follow hothers hshort hother hlast hempty (ih hnode htakes)
  | name henter hshort hsome hlink _ ih =>
    obtain ⟨others, hothers, hnamed, -⟩ := h.enter henter
    obtain ⟨other, hother, hshape⟩ := hnamed _ _ hsome
    exact .name hothers hshort hother (hshape.ne_link hlink) (ih hnode htakes)

/-- In a larger tree a path leads where it led before. If it led to a missing name, it leads to what is
there now. -/
theorem ExtendedBy.locate {fs gs : FileSystem} (h : fs.ExtendedBy gs) {p : Path} {last : Bool}
    {t : Target} {node : Node} (hnode : gs.node? t.place = some node) (htakes : t.Takes node)
    (hlocate : fs.locate p last = .ok t) : gs.locate p last = .ok (.found t.place node) := by
  rw [locate_eq_ok_iff] at hlocate ⊢
  have hstart : gs.startOf p = fs.startOf p := by rw [startOf, startOf, h.current]
  rw [hstart]
  exact ⟨hlocate.1, h.leads hnode htakes hlocate.2⟩

/-! ## Writing and reading back -/

theorem exists_parent {fs : FileSystem} {place : Place} {contents : ByteArray} {locked : Bool}
    (h : fs.node? place = some (.file contents locked)) :
    ∃ parent name entries access, place = parent ++ [name] ∧
      fs.node? parent = some (.folder entries access) ∧
      Node.named? entries name = some (.file contents locked) := by
  rcases List.eq_nil_or_concat place with rfl | ⟨parent, name, rfl⟩
  · cases h
  · rw [List.concat_eq_append] at h ⊢
    rw [node?_append, Option.bind_eq_some_iff] at h
    obtain ⟨folder, hfolder, hname⟩ := h
    cases folder with
    | file contents locked => cases hname
    | link target => cases hname
    | folder entries access =>
      rw [Node.descend_singleton] at hname
      exact ⟨parent, name, entries, access, rfl, hfolder, hname⟩

theorem write_eq_ok_iff {fs gs : FileSystem} {p : Path} {contents : ByteArray} :
    fs.write p contents = .ok gs ↔
      ∃ t, fs.locate p true = .ok t ∧ t.IsWritable ∧
        gs = fs.alter t.place fun _ => some (.file contents) := by
  unfold write
  rw [bind_eq_ok]
  constructor
  · rintro ⟨t, ht, h⟩
    refine ⟨t, ht, ?_⟩
    cases t with
    | found place node =>
      cases node with
      | file old locked =>
        cases locked with
        | true => cases h
        | false => cases h; exact ⟨⟨old, rfl⟩, rfl⟩
      | folder entries access => cases h
      | link target => cases h
    | absent parent name slash =>
      cases slash with
      | true => cases h
      | false => cases h; exact ⟨rfl, rfl⟩
  · rintro ⟨t, ht, hwritable, rfl⟩
    refine ⟨t, ht, ?_⟩
    cases t with
    | found place node =>
      obtain ⟨old, rfl⟩ := hwritable
      rfl
    | absent parent name slash =>
      cases hwritable
      rfl

theorem extendedBy_write {fs : FileSystem} {t : Target} (hholds : fs.HoldsAt t) (h : t.IsWritable)
    (contents : ByteArray) :
    fs.ExtendedBy (fs.alter t.place fun _ => some (.file contents)) ∧
      (fs.alter t.place fun _ => some (.file contents)).node? t.place = some (.file contents) := by
  cases t with
  | found place node =>
    obtain ⟨old, rfl⟩ := h
    obtain ⟨parent, name, entries, access, rfl, hparent, hname⟩ := exists_parent hholds
    refine extendedBy_alter hparent fun other hother => ?_
    rw [hname] at hother
    cases hother
    exact Node.extendedBy_file _ _ _ _
  | absent parent name slash =>
    obtain ⟨entries, henter, hnone⟩ := hholds
    obtain ⟨access, hparent, -⟩ := enter_eq_ok_iff.mp henter
    refine extendedBy_alter hparent fun other hother => ?_
    rw [hnone] at hother
    cases hother

/-- **A file that is written is read back from the same path.** -/
theorem read_of_write {fs gs : FileSystem} {p : Path} {contents : ByteArray}
    (h : fs.write p contents = .ok gs) : gs.read p = .ok contents := by
  obtain ⟨t, ht, hwritable, rfl⟩ := write_eq_ok_iff.mp h
  obtain ⟨hextended, hnode⟩ := extendedBy_write (holdsAt_of_locate ht) hwritable contents
  have hfind : (fs.alter t.place fun _ => some (.file contents)).find p =
      .ok (t.place, .file contents) :=
    find_eq_ok_iff.mpr (hextended.locate hnode (hwritable.takes contents) ht)
  rw [read, hfind]
  rfl

theorem readText_of_write {fs gs : FileSystem} {p : Path} {text : String}
    (h : fs.write p text.toUTF8 = .ok gs) : gs.readText p = .ok text := by
  have hdecode : String.fromUTF8? text.toUTF8 = some text := dif_pos text.isValidUTF8
  refine bind_eq_ok.mpr ⟨_, read_of_write h, ?_⟩
  rw [hdecode]

/-! ## Folders -/

theorem makeFolder_of_absent {fs : FileSystem} {p : Path} {parent : Place} {name : Name} {slash : Bool}
    (h : fs.locate p false = .ok (.absent parent name slash)) :
    fs.makeFolder p = .ok (fs.alter (parent ++ [name]) fun _ => some (.folder [])) := by
  rw [makeFolder, create, h]
  rfl

theorem makeFolder_of_found {fs : FileSystem} {p : Path} {place : Place} {node : Node}
    (h : fs.locate p false = .ok (.found place node)) : fs.makeFolder p = .error .alreadyThere := by
  rw [makeFolder, create, h]
  rfl

theorem ensureFolders_of_absent {fs : FileSystem} {p : Path} {parent : Place} {name : Name} {slash : Bool}
    (h : fs.locate p false = .ok (.absent parent name slash)) :
    fs.ensureFolders p = (fs.alter (parent ++ [name]) fun _ => some (.folder []), none) := by
  have hne : p.bytes ≠ [] := (locate_eq_ok_iff.mp h).1.nonempty
  rw [ensureFolders, ensureFoldersUpTo, if_neg hne, makeFolder_of_absent h]

theorem ensureFolders_of_found {fs : FileSystem} {p : Path} {place : Place} {node : Node}
    (h : fs.locate p false = .ok (.found place node)) (hfolder : fs.isFolder p = true) :
    fs.ensureFolders p = (fs, none) := by
  have hne : p.bytes ≠ [] := (locate_eq_ok_iff.mp h).1.nonempty
  rw [ensureFolders, ensureFoldersUpTo, if_neg hne, makeFolder_of_found h]
  exact if_pos hfolder

end FileSystem
end GroovyWorkspace
