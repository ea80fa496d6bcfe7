import GroovyWorkspace.Proofs.FileSystem.Walk

/-!
# The order of the entries

A disk lists the entries of a folder in whatever order it likes. Two file systems that differ in these
orders alone have the same nodes at the same places (`Reorders`). So every path leads to the same place in
both, or fails in the same way (`Reorders.locate`), and the same names lead to what a walk meets
(`Reorders.passes`).
-/

namespace GroovyWorkspace

/-- Two nodes that differ at most in the order of their entries and in what lies below these. -/
inductive Node.Reorders : Node → Node → Prop
  | file (contents : ByteArray) (locked : Bool) : Reorders (.file contents locked) (.file contents locked)
  | link (target : Path) : Reorders (.link target) (.link target)
  | folder {entries others : List (Name × Node)} (access : Access)
    (hnames : (entries.map Prod.fst).Perm (others.map Prod.fst)) :
    Reorders (.folder entries access) (.folder others access)

theorem Node.Reorders.refl (node : Node) : node.Reorders node := by
  cases node with
  | file contents locked => exact .file contents locked
  | link target => exact .link target
  | folder entries access => exact .folder access (.refl _)

theorem Node.Reorders.symm {node other : Node} (h : node.Reorders other) : other.Reorders node := by
  cases h with
  | file contents locked => exact .file contents locked
  | link target => exact .link target
  | folder access hnames => exact .folder access hnames.symm

theorem Node.Reorders.kind_eq {node other : Node} (h : node.Reorders other) : node.kind = other.kind := by
  cases h <;> rfl

theorem Node.Reorders.listing {node other : Node} (h : node.Reorders other) :
    Alike (fun l m => (l.entries.map Prod.fst).Perm (m.entries.map Prod.fst) ∧ l.fault = m.fault)
      node.listing other.listing := by
  cases h with
  | file contents locked => exact .error _
  | link target => exact .error _
  | folder access hnames =>
    rw [Node.listing, Node.listing]
    by_cases hread : access.readable = true
    · rw [if_pos hread, if_pos hread]
      exact .ok ⟨hnames, rfl⟩
    · rw [if_neg hread, if_neg hread]
      exact .error _

inductive Target.Reorders : Target → Target → Prop
  | found (place : Place) {node other : Node} (h : node.Reorders other) :
    Reorders (.found place node) (.found place other)
  | absent (parent : Place) (name : Name) (slash : Bool) :
    Reorders (.absent parent name slash) (.absent parent name slash)

namespace FileSystem

/-- Two file systems that differ at most in the order in which their folders list the entries. -/
structure Reorders (fs gs : FileSystem) : Prop where
  current : gs.current = fs.current
  nodes : ∀ place, Option.Rel Node.Reorders (fs.node? place) (gs.node? place)

variable {fs gs : FileSystem}

theorem Reorders.symm (h : fs.Reorders gs) : gs.Reorders fs where
  current := h.current.symm
  nodes place := by
    have hrel := h.nodes place
    generalize fs.node? place = node at hrel ⊢
    generalize gs.node? place = other at hrel ⊢
    cases hrel with
    | some hreorders => exact .some hreorders.symm
    | none => exact .none

theorem Reorders.exists_node (h : fs.Reorders gs) {place : Place} {node : Node}
    (hnode : fs.node? place = some node) : ∃ other, gs.node? place = some other ∧ node.Reorders other := by
  have hrel := h.nodes place
  rw [hnode] at hrel
  generalize gs.node? place = found at hrel
  cases hrel with
  | some hother => exact ⟨_, rfl, hother⟩

theorem reorders_of_perm {entries others : List (Name × Node)} (hnames : (entries.map Prod.fst).Nodup)
    (h : entries.Perm others) (current : Place) : Reorders ⟨entries, current⟩ ⟨others, current⟩ where
  current := rfl
  nodes place := by
    cases place with
    | nil => exact .some (.folder {} (h.map Prod.fst))
    | cons n rest =>
      have hnamed : Node.named? others n = Node.named? entries n := by
        apply Option.ext
        intro node
        constructor
        · exact fun hn => Node.named?_of_mem hnames (h.mem_iff.mpr (Node.mem_of_named? hn))
        · intro hn
          have hothers : (others.map Prod.fst).Nodup := (h.map Prod.fst).nodup hnames
          exact Node.named?_of_mem hothers (h.mem_iff.mp (Node.mem_of_named? hn))
      have hsame : Node.descend (.folder others) (n :: rest) = Node.descend (.folder entries) (n :: rest) := by
        rw [Node.descend, Node.descend, hnamed]
      unfold FileSystem.node?
      rw [hsame]
      cases Node.descend (.folder entries) (n :: rest) with
      | none => exact .none
      | some node => exact .some (.refl node)

/-- Which disks there can be does not depend on the order. -/
theorem Reorders.storable (h : fs.Reorders gs) (hfs : fs.Storable) : gs.Storable := by
  intro place others access hplace
  obtain ⟨node, hnode, hreorders⟩ := h.symm.exists_node hplace
  cases hreorders with
  | @folder _ entries _ hnames =>
    have hentries : FitsFolder entries := hfs place entries access hnode
    refine ⟨hnames.symm.nodup hentries.distinct, fun e he => ?_⟩
    have hmem : e.1 ∈ entries.map Prod.fst := hnames.mem_iff.mp (List.mem_map_of_mem he)
    obtain ⟨other, hother, hname⟩ := List.mem_map.mp hmem
    exact hname ▸ hentries.usable other hother

/-! ## Where paths lead -/

theorem Reorders.enter (h : fs.Reorders gs) (place : Place) :
    Alike (fun entries others => ∀ n, Option.Rel Node.Reorders (Node.named? entries n) (Node.named? others n))
      (fs.enter place) (gs.enter place) := by
  have hrel := h.nodes place
  unfold FileSystem.enter
  generalize hf : fs.node? place = node at hrel
  generalize hg : gs.node? place = other at hrel
  cases hrel with
  | none => exact .error _
  | some hreorders =>
    cases hreorders with
    | file contents locked => exact .error _
    | link target => exact .error _
    | folder access hnames =>
      dsimp only
      by_cases hpass : access.passable = true
      · rw [if_pos hpass, if_pos hpass]
        refine .ok fun n => ?_
        rw [← node?_concat hf, ← node?_concat hg]
        exact h.nodes (place ++ [n])
      · rw [if_neg hpass, if_neg hpass]
        exact .error _

theorem Reorders.stepsFrom (h : fs.Reorders gs) {follow follow' : Place → List Step → Except OsError Target}
    (hfollow : ∀ place steps, Alike Target.Reorders (follow place steps) (follow' place steps))
    (last : Bool) (place : Place) (steps : List Step) :
    Alike Target.Reorders (fs.stepsFrom follow last place steps) (gs.stepsFrom follow' last place steps) := by
  induction steps generalizing place with
  | nil =>
    have hrel := h.nodes place
    rw [FileSystem.stepsFrom, FileSystem.stepsFrom]
    generalize fs.node? place = node at hrel
    generalize gs.node? place = other at hrel
    cases hrel with
    | none => exact .error _
    | some hreorders => exact .ok (.found place hreorders)
  | cons step rest ih =>
    cases step with
    | folder =>
      have hrel := h.nodes place
      rw [FileSystem.stepsFrom, FileSystem.stepsFrom]
      generalize fs.node? place = node at hrel
      generalize gs.node? place = other at hrel
      cases hrel with
      | none => exact .error _
      | some hreorders =>
        cases hreorders with
        | file contents locked => exact .error _
        | link target => exact .error _
        | folder access hnames => exact ih place
    | here =>
      rw [FileSystem.stepsFrom, FileSystem.stepsFrom]
      exact (h.enter place).bind fun _ _ _ => ih place
    | up =>
      rw [FileSystem.stepsFrom, FileSystem.stepsFrom]
      exact (h.enter place).bind fun _ _ _ => ih place.dropLast
    | name n =>
      rw [FileSystem.stepsFrom, FileSystem.stepsFrom]
      refine (h.enter place).bind fun entries others hnamed => ?_
      have hrel := hnamed n
      by_cases hlong : maxName < n.length
      · rw [if_pos hlong, if_pos hlong]
        exact .error _
      · rw [if_neg hlong, if_neg hlong]
        generalize Node.named? entries n = node at hrel
        generalize Node.named? others n = other at hrel
        cases hrel with
        | none =>
          dsimp only
          split
          · exact .ok (.absent place n false)
          · split
            · exact .ok (.absent place n true)
            · exact .error _
        | some hreorders =>
          cases hreorders with
          | file contents locked => exact ih (place ++ [n])
          | folder access hnames => exact ih (place ++ [n])
          | link target =>
            dsimp only
            split
            · exact .ok (.found _ (.link target))
            · split
              · exact .error _
              · exact hfollow _ _

theorem Reorders.walkFrom (h : fs.Reorders gs) (last : Bool) (links : Nat) (place : Place)
    (steps : List Step) :
    Alike Target.Reorders (fs.walkFrom last links place steps) (gs.walkFrom last links place steps) := by
  induction links generalizing place steps with
  | zero => exact h.stepsFrom (fun _ _ => .error _) last place steps
  | succ links ih => exact h.stepsFrom ih last place steps

theorem Reorders.locate (h : fs.Reorders gs) (p : Path) (last : Bool) :
    Alike Target.Reorders (fs.locate p last) (gs.locate p last) := by
  unfold FileSystem.locate
  rw [h.current]
  split
  · exact .error _
  · split
    · exact .error _
    · split
      · exact .error _
      · exact h.walkFrom last maxLinks _ p.steps

theorem Reorders.find (h : fs.Reorders gs) (p : Path) (last : Bool) :
    Alike (fun found other => found.1 = other.1 ∧ found.2.Reorders other.2) (fs.find p last)
      (gs.find p last) := by
  refine (h.locate p last).bind fun t u htarget => ?_
  cases htarget with
  | found place hreorders => exact .ok ⟨rfl, hreorders⟩
  | absent parent name slash => exact .error _

theorem Reorders.exists_find (h : fs.Reorders gs) {p : Path} {place : Place} {node : Node}
    (hfind : fs.find p = .ok (place, node)) : ∃ other, gs.find p = .ok (place, other) := by
  have halike := h.find p true
  rw [hfind] at halike
  generalize gs.find p = found at halike
  cases halike with
  | @ok _ found hsame =>
    obtain ⟨place', other⟩ := found
    obtain rfl : place = place' := hsame.1
    exact ⟨other, rfl⟩

theorem Reorders.kind_eq (h : fs.Reorders gs) (p : Path) : fs.kind p = gs.kind p := by
  apply Alike.eq
  refine (h.find p true).bind fun found other hfound => ?_
  exact .ok hfound.2.kind_eq

theorem Reorders.isFile_eq (h : fs.Reorders gs) (p : Path) : fs.isFile p = gs.isFile p := by
  rw [Bool.eq_iff_iff, isFile_iff, isFile_iff, h.kind_eq]

/-- A folder that can be opened has the same names in both orders. -/
theorem Reorders.openFolder (h : fs.Reorders gs) (p : Path) :
    Alike (fun l m => (l.entries.map Prod.fst).Perm (m.entries.map Prod.fst) ∧ l.fault = m.fault)
      (fs.openFolder p) (gs.openFolder p) :=
  (h.find p true).bind fun _ _ hfound => hfound.2.listing

theorem Reorders.list (h : fs.Reorders gs) (p : Path) :
    Alike (fun entries others => (entries.map Prod.fst).Perm (others.map Prod.fst)) (fs.list p)
      (gs.list p) := by
  refine (h.openFolder p).bind fun l m hsame => ?_
  rw [Listing.all, Listing.all, hsame.2]
  split
  · exact .error _
  · exact .ok hsame.1

/-! ## Walks -/

theorem Reorders.walk (h : fs.Reorders gs) (root : Path) :
    Alike (fun _ _ => True) (fs.walk root) (gs.walk root) := by
  refine (h.find root false).bind fun start start' hstart => ?_
  refine (h.find root true).bind fun found other hfound => ?_
  obtain ⟨place, node⟩ := found
  obtain ⟨place', other⟩ := other
  have hlisting := hfound.2.listing
  cases hfound.2 with
  | file contents locked => exact .ok trivial
  | link target => exact .ok trivial
  | folder access hnames => exact hlisting.bind fun _ _ _ => .ok trivial

/-- The names that lead to what a walk meets are the same. -/
theorem Reorders.passes (h : fs.Reorders gs) (hfs : fs.Storable) {place : Place} {path : Path}
    {node other found : Node} {ns : List Name} (hnode : fs.node? place = some node)
    {reached : Bool} (hother : gs.node? place = some other)
    (hpasses : Node.Passes path reached node ns found) :
    ∃ found', Node.Passes path reached other ns found' ∧ found.Reorders found' := by
  induction hpasses generalizing place other with
  | here =>
    obtain ⟨other', hother', hreorders⟩ := h.exists_node hnode
    rw [hother] at hother'
    cases hother'
    exact ⟨other, .here, hreorders⟩
  | @into path entries access n child ns found hread hshort hn _ ih =>
    obtain ⟨other', hother', hreorders⟩ := h.exists_node hnode
    rw [hother] at hother'
    cases hother'
    cases hreorders with
    | @folder _ others _ hnames =>
      -- the child has its place in both trees, and so its name among the other entries
      have hchild : fs.node? (place ++ [n]) = some child := by
        rw [node?_concat hnode]
        exact Node.named?_of_mem (hfs.node? hnode).fitsFolder.distinct hn
      obtain ⟨child', hchild', -⟩ := h.exists_node hchild
      obtain ⟨found', hpasses, hfound⟩ := ih hchild hchild'
      have hmem : (n, child') ∈ others := Node.mem_of_named? ((node?_concat hother n).symm.trans hchild')
      exact ⟨found', .into hread hshort hmem hpasses, hfound⟩

end FileSystem
end GroovyWorkspace
