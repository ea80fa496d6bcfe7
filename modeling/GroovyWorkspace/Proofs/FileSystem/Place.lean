import GroovyWorkspace.FileSystem.Lookup
import GroovyWorkspace.Proofs.Except
import GroovyWorkspace.Proofs.Path.Child

/-!
# Where paths lead

`Leads` says what a walk does step by step, and a walk has an answer exactly if it leads to one
(`walkFrom_eq_ok_iff`). What is found is the node of the tree at its place, and a name that is missing is
missing in the folder that was to have it (`holdsAt_of_locate`). A path to a folder can be prolonged by
steps that meet no link: they start from the folder (`Leads.append`, `locate_child`).
-/

namespace GroovyWorkspace

namespace Node

theorem descend_append (node : Node) (a b : Place) :
    node.descend (a ++ b) = (node.descend a).bind fun inner => inner.descend b := by
  induction a generalizing node with
  | nil => rw [List.nil_append, descend, Option.bind_some]
  | cons name rest ih =>
    cases node with
    | file contents locked => rfl
    | link target => rfl
    | folder entries access =>
      rw [List.cons_append, descend, descend]
      cases named? entries name with
      | none => rfl
      | some inner => exact ih inner

theorem descend_singleton (entries : List (Name × Node)) (access : Access) (name : Name) :
    (folder entries access).descend [name] = named? entries name := by
  rw [descend]
  cases named? entries name with
  | none => rfl
  | some node => cases node <;> rfl

end Node

namespace FileSystem

theorem node?_append (fs : FileSystem) (a b : Place) :
    fs.node? (a ++ b) = (fs.node? a).bind fun inner => inner.descend b :=
  Node.descend_append _ a b

theorem node?_concat {fs : FileSystem} {place : Place} {entries : List (Name × Node)} {access : Access}
    (h : fs.node? place = some (.folder entries access)) (name : Name) :
    fs.node? (place ++ [name]) = Node.named? entries name := by
  rw [node?_append, h, Option.bind_some, Node.descend_singleton]

theorem enter_eq_ok_iff {fs : FileSystem} {place : Place} {entries : List (Name × Node)} :
    fs.enter place = .ok entries ↔
      ∃ access, fs.node? place = some (.folder entries access) ∧ access.passable = true := by
  unfold enter
  constructor
  · intro h
    split at h
    · rename_i access hnode
      split at h
      · rename_i hpass
        cases h
        exact ⟨access, hnode, hpass⟩
      · cases h
    · cases h
    · cases h
  · rintro ⟨access, hnode, hpass⟩
    rw [hnode]
    exact if_pos hpass

theorem node?_of_enter {fs : FileSystem} {place : Place} {entries : List (Name × Node)}
    (h : fs.enter place = .ok entries) (name : Name) :
    fs.node? (place ++ [name]) = Node.named? entries name := by
  obtain ⟨access, hnode, -⟩ := enter_eq_ok_iff.mp h
  exact node?_concat hnode name

/-! ## Walks -/

/-- Steps lead from a place to a target, over at most `links` links. -/
inductive Leads (fs : FileSystem) (last : Bool) : Nat → Place → List Step → Target → Prop
  | stop {links : Nat} {place : Place} {node : Node} (hnode : fs.node? place = some node) :
    Leads fs last links place [] (.found place node)
  | folder {links : Nat} {place : Place} {entries : List (Name × Node)} {access : Access}
    {rest : List Step} {t : Target} (hnode : fs.node? place = some (.folder entries access))
    (h : Leads fs last links place rest t) : Leads fs last links place (.folder :: rest) t
  | here {links : Nat} {place : Place} {entries : List (Name × Node)} {rest : List Step} {t : Target}
    (henter : fs.enter place = .ok entries) (h : Leads fs last links place rest t) :
    Leads fs last links place (.here :: rest) t
  | up {links : Nat} {place : Place} {entries : List (Name × Node)} {rest : List Step} {t : Target}
    (henter : fs.enter place = .ok entries) (h : Leads fs last links place.dropLast rest t) :
    Leads fs last links place (.up :: rest) t
  | absent {links : Nat} {place : Place} {entries : List (Name × Node)} {n : Name}
    (henter : fs.enter place = .ok entries) (hshort : n.length ≤ maxName)
    (hnone : Node.named? entries n = none) :
    Leads fs last links place [.name n] (.absent place n false)
  | absentFolder {links : Nat} {place : Place} {entries : List (Name × Node)} {n : Name}
    (henter : fs.enter place = .ok entries) (hshort : n.length ≤ maxName)
    (hnone : Node.named? entries n = none) :
    Leads fs last links place [.name n, .folder] (.absent place n true)
  | link {links : Nat} {place : Place} {entries : List (Name × Node)} {n : Name} {target : Path}
    (henter : fs.enter place = .ok entries) (hshort : n.length ≤ maxName)
    (hsome : Node.named? entries n = some (.link target)) (hlast : last = false) :
    Leads fs last links place [.name n] (.found (place ++ [n]) (.link target))
  | follow {links : Nat} {place : Place} {entries : List (Name × Node)} {n : Name} {target : Path}
    {rest : List Step} {t : Target} (henter : fs.enter place = .ok entries) (hshort : n.length ≤ maxName)
    (hsome : Node.named? entries n = some (.link target)) (hlast : ¬ (rest = [] ∧ last = false))
    (hempty : target.bytes ≠ [])
    (h : Leads fs last links (if target.isAbsolute then [] else place) (target.steps ++ rest) t) :
    Leads fs last (links + 1) place (.name n :: rest) t
  | name {links : Nat} {place : Place} {entries : List (Name × Node)} {n : Name} {node : Node}
    {rest : List Step} {t : Target} (henter : fs.enter place = .ok entries) (hshort : n.length ≤ maxName)
    (hsome : Node.named? entries n = some node) (hlink : ∀ target, node ≠ .link target)
    (h : Leads fs last links (place ++ [n]) rest t) : Leads fs last links place (.name n :: rest) t

/-- What goes on behind a link, if that many links may be followed. -/
def follower (fs : FileSystem) (last : Bool) : Nat → Place → List Step → Except OsError Target
  | 0 => fun _ _ => .error .tooManyLinks
  | links + 1 => fs.walkFrom last links

theorem walkFrom_eq_stepsFrom (fs : FileSystem) (last : Bool) (links : Nat) :
    fs.walkFrom last links = fs.stepsFrom (fs.follower last links) last := by
  cases links <;> rfl

theorem stepsFrom_name {fs : FileSystem} {follow : Place → List Step → Except OsError Target}
    {last : Bool} {place : Place} {entries : List (Name × Node)} (henter : fs.enter place = .ok entries)
    {n : Name} (hshort : n.length ≤ maxName) (rest : List Step) :
    fs.stepsFrom follow last place (.name n :: rest) =
      match Node.named? entries n with
      | none =>
        if rest = [] then .ok (.absent place n false)
        else if rest = [.folder] then .ok (.absent place n true)
        else .error .notFound
      | some (.link target) =>
        if rest = [] ∧ ¬ last then .ok (.found (place ++ [n]) (.link target))
        else if target.bytes = [] then .error .notFound
        else follow (if target.isAbsolute then [] else place) (target.steps ++ rest)
      | some _ => fs.stepsFrom follow last (place ++ [n]) rest := by
  rw [stepsFrom.eq_def]
  dsimp only
  rw [henter]
  show (if maxName < n.length then _ else _) = _
  exact if_neg (Nat.not_lt.mpr hshort)

theorem leads_of_stepsFrom {fs : FileSystem} {last : Bool} {links : Nat}
    (hfollow : ∀ place steps t, fs.follower last links place steps = .ok t →
      ∃ fewer, links = fewer + 1 ∧ Leads fs last fewer place steps t)
    {steps : List Step} {place : Place} {t : Target}
    (h : fs.stepsFrom (fs.follower last links) last place steps = .ok t) :
    Leads fs last links place steps t := by
  induction steps generalizing place with
  | nil =>
    rw [stepsFrom] at h
    split at h
    · rename_i hnode
      cases h
      exact .stop hnode
    · cases h
  | cons step rest ih =>
    cases step with
    | folder =>
      rw [stepsFrom] at h
      split at h
      · rename_i hnode
        exact .folder hnode (ih h)
      · cases h
      · cases h
    | here =>
      rw [stepsFrom] at h
      obtain ⟨entries, henter, h⟩ := bind_eq_ok.mp h
      exact .here henter (ih h)
    | up =>
      rw [stepsFrom] at h
      obtain ⟨entries, henter, h⟩ := bind_eq_ok.mp h
      exact .up henter (ih h)
    | name n =>
      rw [stepsFrom] at h
      obtain ⟨entries, henter, h⟩ := bind_eq_ok.mp h
      split at h
      · cases h
      rename_i hlong
      have hshort := Nat.not_lt.mp hlong
      split at h
      · rename_i hnone
        split at h
        · rename_i hrest
          cases h
          exact hrest ▸ .absent henter hshort hnone
        · split at h
          · rename_i hrest
            cases h
            exact hrest ▸ .absentFolder henter hshort hnone
          · cases h
      · rename_i target hsome
        split at h
        · rename_i hlast
          cases h
          exact hlast.1 ▸ .link henter hshort hsome (Bool.eq_false_iff.mpr hlast.2)
        · rename_i hlast
          split at h
          · cases h
          · rename_i hempty
            obtain ⟨fewer, rfl, hleads⟩ := hfollow _ _ _ h
            exact .follow henter hshort hsome (by simpa using hlast) hempty hleads
      · rename_i node hlink hsome
        exact .name henter hshort hsome (fun target heq => hlink target heq) (ih h)

theorem walkFrom_eq_ok_iff {fs : FileSystem} {last : Bool} {links : Nat} {place : Place}
    {steps : List Step} {t : Target} :
    fs.walkFrom last links place steps = .ok t ↔ Leads fs last links place steps t := by
  constructor
  · intro h
    induction links generalizing place steps t with
    | zero => exact leads_of_stepsFrom (fun _ _ _ hfollow => by cases hfollow) h
    | succ links ih => exact leads_of_stepsFrom (fun _ _ _ hfollow => ⟨links, rfl, ih hfollow⟩) h
  · intro h
    rw [walkFrom_eq_stepsFrom]
    induction h with
    | stop hnode => rw [stepsFrom, hnode]
    | folder hnode _ ih => rw [stepsFrom, hnode]; exact ih
    | here henter _ ih => rw [stepsFrom, henter]; exact ih
    | up henter _ ih => rw [stepsFrom, henter]; exact ih
    | absent henter hshort hnone => rw [stepsFrom_name henter hshort, hnone]; rfl
    | absentFolder henter hshort hnone => rw [stepsFrom_name henter hshort, hnone]; rfl
    | link henter hshort hsome hlast =>
      rw [stepsFrom_name henter hshort, hsome]
      exact if_pos ⟨rfl, Bool.eq_false_iff.mp hlast⟩
    | follow henter hshort hsome hlast hempty _ ih =>
      rw [stepsFrom_name henter hshort, hsome]
      dsimp only
      rw [if_neg (by simpa using hlast), if_neg hempty, ← ih, ← walkFrom_eq_stepsFrom]
      rfl
    | @name links place entries n node rest t henter hshort hsome hlink _ ih =>
      rw [stepsFrom_name henter hshort, hsome]
      cases node with
      | link target => exact absurd rfl (hlink target)
      | file contents locked => exact ih
      | folder inner access => exact ih

/-! ## What is found -/

/-- A target says what the tree has: the node at its place, or a passable folder without the name. -/
def HoldsAt (fs : FileSystem) : Target → Prop
  | .found place node => fs.node? place = some node
  | .absent parent name _ =>
    ∃ entries, fs.enter parent = .ok entries ∧ Node.named? entries name = none

theorem Leads.holdsAt {fs : FileSystem} {last : Bool} {links : Nat} {place : Place} {steps : List Step}
    {t : Target} (h : Leads fs last links place steps t) : fs.HoldsAt t := by
  induction h with
  | stop hnode => exact hnode
  | folder _ _ ih => exact ih
  | here _ _ ih => exact ih
  | up _ _ ih => exact ih
  | absent henter _ hnone => exact ⟨_, henter, hnone⟩
  | absentFolder henter _ hnone => exact ⟨_, henter, hnone⟩
  | link henter _ hsome _ => exact (node?_of_enter henter _).trans hsome
  | follow _ _ _ _ _ _ ih => exact ih
  | name _ _ _ _ _ ih => exact ih

def startOf (fs : FileSystem) (p : Path) : Place := if p.isAbsolute then [] else fs.current

/-- A path that may be followed: it is not empty, not too long, and has no zero byte. -/
structure Admits (p : Path) : Prop where
  clean : 0 ∉ p.bytes
  nonempty : p.bytes ≠ []
  short : p.bytes.length ≤ maxPath

theorem locate_eq_ok_iff {fs : FileSystem} {p : Path} {last : Bool} {t : Target} :
    fs.locate p last = .ok t ↔
      Admits p ∧ Leads fs last maxLinks (fs.startOf p) p.steps t := by
  rw [← walkFrom_eq_ok_iff]
  unfold locate startOf
  constructor
  · intro h
    split at h
    · cases h
    · rename_i hclean
      split at h
      · cases h
      · rename_i hnonempty
        split at h
        · cases h
        · rename_i hshort
          exact ⟨⟨by simpa using hclean, hnonempty, Nat.not_lt.mp hshort⟩, h⟩
  · rintro ⟨⟨hclean, hnonempty, hshort⟩, h⟩
    rw [if_neg (by simpa using hclean), if_neg hnonempty, if_neg (Nat.not_lt.mpr hshort), h]

theorem holdsAt_of_locate {fs : FileSystem} {p : Path} {last : Bool} {t : Target}
    (h : fs.locate p last = .ok t) : fs.HoldsAt t :=
  (locate_eq_ok_iff.mp h).2.holdsAt

theorem find_eq_ok_iff {fs : FileSystem} {p : Path} {last : Bool} {found : Place × Node} :
    fs.find p last = .ok found ↔ fs.locate p last = .ok (.found found.1 found.2) := by
  unfold find
  rw [bind_eq_ok]
  constructor
  · rintro ⟨t, ht, h⟩
    cases t with
    | found place node => cases h; exact ht
    | absent parent name slash => cases h
  · intro h
    exact ⟨_, h, rfl⟩

theorem node?_of_find {fs : FileSystem} {p : Path} {last : Bool} {found : Place × Node}
    (h : fs.find p last = .ok found) : fs.node? found.1 = some found.2 :=
  holdsAt_of_locate (find_eq_ok_iff.mp h)

/-! ## Opening folders -/

theorem openFolder_of_find {fs : FileSystem} {p : Path} {place : Place} {node : Node}
    (h : fs.find p = .ok (place, node)) : fs.openFolder p = node.listing := by
  rw [openFolder, h]
  rfl

theorem openFolder_eq_ok_iff {fs : FileSystem} {p : Path} {l : Listing} :
    fs.openFolder p = .ok l ↔
      ∃ place access, fs.find p = .ok (place, .folder l.entries access) ∧ access.readable = true ∧
        l.fault = access.fault := by
  obtain ⟨entries, fault⟩ := l
  constructor
  · intro h
    obtain ⟨⟨place, node⟩, hfind, h⟩ := bind_eq_ok.mp h
    cases node with
    | file contents locked => cases h
    | link target => cases h
    | folder inner access =>
      replace h : (Node.folder inner access).listing = .ok ⟨entries, fault⟩ := h
      rw [Node.listing] at h
      split at h
      · rename_i hread
        cases h
        exact ⟨place, access, hfind, hread, rfl⟩
      · cases h
  · rintro ⟨place, access, hfind, hread, hfault⟩
    rw [openFolder_of_find hfind, Node.listing, if_pos hread, ← hfault]

theorem list_eq_ok_iff {fs : FileSystem} {p : Path} {entries : List (Name × Node)} :
    fs.list p = .ok entries ↔ fs.openFolder p = .ok ⟨entries, none⟩ := by
  rw [list, bind_eq_ok]
  constructor
  · rintro ⟨⟨inner, fault⟩, hopen, hall⟩
    cases fault with
    | none =>
      cases hall
      exact hopen
    | some e => cases hall
  · exact fun h => ⟨_, h, rfl⟩

theorem node?_of_list {fs : FileSystem} {p : Path} {entries : List (Name × Node)}
    (h : fs.list p = .ok entries) : ∃ place access, fs.node? place = some (.folder entries access) := by
  obtain ⟨place, access, hfind, -⟩ := openFolder_eq_ok_iff.mp (list_eq_ok_iff.mp h)
  exact ⟨place, access, node?_of_find hfind⟩

/-! ## Longer paths -/

/-- Steps behind those that lead to a node start from it, if they meet no link themselves. -/
theorem Leads.append {fs : FileSystem} {last : Bool} {at' : Place} {node : Node} {tail : List Step}
    {t : Target} (htail : ∀ links, Leads fs last links at' tail t) (hne : tail ≠ []) {links : Nat}
    {place : Place} {steps : List Step} (h : Leads fs true links place steps (.found at' node)) :
    Leads fs last links place (steps ++ tail) t := by
  generalize htarget : Target.found at' node = target at h
  induction h with
  | stop _ =>
    cases htarget
    exact htail _
  | folder hnode _ ih => exact .folder hnode (ih htarget)
  | here henter _ ih => exact .here henter (ih htarget)
  | up henter _ ih => exact .up henter (ih htarget)
  | absent _ _ _ => cases htarget
  | absentFolder _ _ _ => cases htarget
  | link _ _ _ hlast => cases hlast
  | follow henter hshort hsome _ hempty _ ih =>
    rw [List.cons_append]
    refine .follow henter hshort hsome ?_ hempty ?_
    · exact fun hlast => hne (List.append_eq_nil_iff.mp hlast.1).2
    · rw [← List.append_assoc]
      exact ih htarget
  | name henter hshort hsome hlink _ ih => exact .name henter hshort hsome hlink (ih htarget)

theorem Leads.rest {fs : FileSystem} {last : Bool} {at' : Place} {node : Node} {tail : List Step}
    {t : Target} (hne : tail ≠ []) {links links' : Nat} {place : Place} {steps : List Step}
    (h : Leads fs true links place steps (.found at' node))
    (hall : Leads fs last links' place (steps ++ tail) t) : ∃ fewer, Leads fs last fewer at' tail t := by
  generalize htarget : Target.found at' node = target at h
  induction h generalizing links' with
  | stop _ =>
    cases htarget
    exact ⟨links', hall⟩
  | folder _ _ ih =>
    cases hall with
    | folder _ hall => exact ih hall htarget
  | here _ _ ih =>
    cases hall with
    | here _ hall => exact ih hall htarget
  | up _ _ ih =>
    cases hall with
    | up _ hall => exact ih hall htarget
  | absent _ _ _ => cases htarget
  | absentFolder _ _ _ => cases htarget
  | link _ _ _ hlast => cases hlast
  | @follow _ _ _ _ target more _ henter _ hsome _ _ _ ih =>
    rw [List.cons_append] at hall
    have hmore : more ++ tail ≠ [] := fun h => hne (List.append_eq_nil_iff.mp h).2
    generalize hsteps : more ++ tail = all at hall hmore
    cases hall with
    | absent _ _ _ => exact absurd rfl hmore
    | link _ _ _ _ => exact absurd rfl hmore
    | absentFolder henter' _ hnone =>
      cases henter.symm.trans henter'
      cases hsome.symm.trans hnone
    | follow henter' _ hsome' _ _ hall =>
      cases henter.symm.trans henter'
      cases hsome.symm.trans hsome'
      rw [← hsteps, ← List.append_assoc] at hall
      exact ih hall htarget
    | name henter' _ hsome' hlink _ =>
      cases henter.symm.trans henter'
      cases hsome.symm.trans hsome'
      exact absurd rfl (hlink target)
  | @name _ _ _ _ found more _ henter _ hsome hlink _ ih =>
    rw [List.cons_append] at hall
    have hmore : more ++ tail ≠ [] := fun h => hne (List.append_eq_nil_iff.mp h).2
    generalize hsteps : more ++ tail = all at hall hmore
    cases hall with
    | absent _ _ _ => exact absurd rfl hmore
    | link _ _ _ _ => exact absurd rfl hmore
    | absentFolder henter' _ hnone =>
      cases henter.symm.trans henter'
      cases hsome.symm.trans hnone
    | follow henter' _ hsome' _ _ _ =>
      cases henter.symm.trans henter'
      cases hsome.symm.trans hsome'
      exact absurd rfl (hlink _)
    | name henter' _ _ _ hall =>
      cases henter.symm.trans henter'
      rw [← hsteps] at hall
      exact ih hall htarget

/-- A walk that ends at a folder gets there without the slash at the end as well. -/
theorem Leads.of_slash {fs : FileSystem} {at' : Place} {node : Node} {links : Nat} {place : Place}
    {steps : List Step} (h : Leads fs true links place (steps ++ [.folder]) (.found at' node)) :
    Leads fs true links place steps (.found at' node) := by
  generalize htarget : Target.found at' node = target at h
  generalize hsteps : steps ++ [.folder] = all at h
  induction h generalizing steps with
  | stop _ => simp at hsteps
  | folder hnode hrest ih =>
    cases steps with
    | nil =>
      cases hsteps
      exact hrest
    | cons step more =>
      cases hsteps
      exact .folder hnode (ih htarget rfl)
  | here henter _ ih =>
    cases steps with
    | nil => cases hsteps
    | cons step more =>
      cases hsteps
      exact .here henter (ih htarget rfl)
  | up henter _ ih =>
    cases steps with
    | nil => cases hsteps
    | cons step more =>
      cases hsteps
      exact .up henter (ih htarget rfl)
  | absent _ _ _ => cases htarget
  | absentFolder _ _ _ => cases htarget
  | link _ _ _ hlast => cases hlast
  | follow henter hshort hsome _ hempty _ ih =>
    cases steps with
    | nil => cases hsteps
    | cons step more =>
      cases hsteps
      exact .follow henter hshort hsome (by simp) hempty (ih htarget (List.append_assoc _ _ _))
  | name henter hshort hsome hlink _ ih =>
    cases steps with
    | nil => cases hsteps
    | cons step more =>
      cases hsteps
      exact .name henter hshort hsome hlink (ih htarget rfl)

end FileSystem

/-! ## Names in a folder -/

namespace Path

/-- The steps of a path but for a slash at its end. -/
def spine (p : Path) : List Step := (parts p.bytes).filterMap partStep?

theorem partStep?_name {n : Name} (hn : IsName n) : partStep? n = some (.name n) := by
  rw [partStep?, if_neg hn.1, if_neg hn.2.1, if_neg hn.2.2.1]

theorem spine_append_slash (a : List UInt8) {n : Name} (hn : IsName n) :
    (⟨a ++ slash :: n⟩ : Path).spine = (⟨a⟩ : Path).spine ++ [.name n] := by
  rw [spine, parts_append_slash, parts_of_not_mem hn.2.2.2, List.filterMap_append,
    List.filterMap_cons_some (partStep?_name hn)]
  rfl

theorem spine_child {p : Path} (hne : p.bytes ≠ []) {n : Name} (hn : IsName n) :
    (p.child n).spine = p.spine ++ [.name n] := by
  obtain ⟨bytes⟩ := p
  have hbytes := bytes_child ⟨bytes⟩ hn
  have hchild : (Path.mk bytes).child n = ⟨((Path.mk bytes).child n).bytes⟩ := rfl
  rw [hchild, hbytes]
  split
  · rename_i hends
    -- the slash at the end divides the name from what stands before it
    obtain ⟨a, rfl⟩ := List.getLast?_eq_some_iff.mp (hends.resolve_left hne)
    rw [List.append_assoc, List.singleton_append, spine_append_slash a hn]
    congr 1
    simp [spine, parts_append_slash, parts, partStep?]
  · exact spine_append_slash bytes hn

theorem steps_child (p : Path) {n : Name} (hn : IsName n) : (p.child n).steps = (p.child n).spine := by
  rw [steps, if_neg (getLast?_child_ne_slash p hn).2, List.append_nil]
  rfl

theorem isAbsolute_child {p : Path} (hne : p.bytes ≠ []) {n : Name} (hn : IsName n) :
    (p.child n).isAbsolute = p.isAbsolute := by
  have hhead : ∀ more, (p.bytes ++ more).head? = p.bytes.head? := by
    intro more
    rw [List.head?_append, List.head?_eq_some_head hne, Option.some_or]
  rw [isAbsolute, bytes_child p hn]
  split <;> rw [hhead] <;> rfl

end Path

namespace FileSystem

theorem leads_spine {fs : FileSystem} {p : Path} {place : Place} {node : Node}
    (h : fs.find p = .ok (place, node)) :
    Admits p ∧ Leads fs true maxLinks (fs.startOf p) p.spine (.found place node) := by
  obtain ⟨hadmits, hwalk⟩ := locate_eq_ok_iff.mp (find_eq_ok_iff.mp h)
  refine ⟨hadmits, ?_⟩
  rw [Path.steps] at hwalk
  split at hwalk
  · exact hwalk.of_slash
  · rwa [List.append_nil] at hwalk

/-- A name that an entry of a folder can be looked up by. -/
structure IsUsable (n : Name) : Prop where
  name : IsName n
  clean : 0 ∉ n
  short : n.length ≤ maxName

instance : DecidablePred IsUsable := fun n =>
  decidable_of_iff (IsName n ∧ 0 ∉ n ∧ n.length ≤ maxName)
    ⟨fun h => ⟨h.1, h.2.1, h.2.2⟩, fun h => ⟨h.name, h.clean, h.short⟩⟩

variable {fs : FileSystem} {p : Path} {place : Place} {entries : List (Name × Node)} {access : Access} {n : Name}

theorem locate_child (h : fs.find p = .ok (place, .folder entries access)) (hn : IsUsable n)
    (hshort : (p.child n).bytes.length ≤ maxPath) {last : Bool} {t : Target}
    (ht : ∀ links, Leads fs last links place [.name n] t) : fs.locate (p.child n) last = .ok t := by
  obtain ⟨hadmits, hwalk⟩ := leads_spine h
  rw [locate_eq_ok_iff]
  refine ⟨⟨?_, (Path.getLast?_child_ne_slash p hn.name).1, hshort⟩, ?_⟩
  · rw [Path.bytes_child p hn.name]
    split
    · simpa using ⟨hadmits.clean, hn.clean⟩
    · simpa [slash] using ⟨hadmits.clean, hn.clean⟩
  · rw [Path.steps_child p hn.name, Path.spine_child hadmits.nonempty hn.name, startOf,
      Path.isAbsolute_child hadmits.nonempty hn.name]
    exact hwalk.append ht (List.cons_ne_nil _ _)

/-- Where a name below a path leads, it leads from the folder itself. -/
theorem leads_name_of_find (h : fs.find p = .ok (place, .folder entries access)) (hn : IsName n)
    {found : Place × Node} (hfound : fs.find (p.child n) = .ok found) :
    ∃ links, Leads fs true links place [.name n] (.found found.1 found.2) := by
  obtain ⟨hadmits, hwalk⟩ := leads_spine h
  obtain ⟨-, hchild⟩ := leads_spine hfound
  rw [Path.spine_child hadmits.nonempty hn, startOf, Path.isAbsolute_child hadmits.nonempty hn] at hchild
  exact hwalk.rest (List.cons_ne_nil _ _) hchild

theorem locate_child_of_none (h : fs.find p = .ok (place, .folder entries access))
    (hpass : access.passable = true) (hn : IsUsable n) (hshort : (p.child n).bytes.length ≤ maxPath)
    (hnone : Node.named? entries n = none) (last : Bool) :
    fs.locate (p.child n) last = .ok (.absent place n false) := by
  have henter : fs.enter place = .ok entries := enter_eq_ok_iff.mpr ⟨access, node?_of_find h, hpass⟩
  exact locate_child h hn hshort fun _ => .absent henter hn.short hnone

theorem locate_child_of_some (h : fs.find p = .ok (place, .folder entries access))
    (hpass : access.passable = true) (hn : IsUsable n) (hshort : (p.child n).bytes.length ≤ maxPath)
    {node : Node} (hsome : Node.named? entries n = some node) (hlink : ∀ target, node ≠ .link target)
    (last : Bool) : fs.locate (p.child n) last = .ok (.found (place ++ [n]) node) := by
  have henter : fs.enter place = .ok entries := enter_eq_ok_iff.mpr ⟨access, node?_of_find h, hpass⟩
  have hbelow : fs.node? (place ++ [n]) = some node := (node?_of_enter henter n).trans hsome
  exact locate_child h hn hshort fun _ => .name henter hn.short hsome hlink (.stop hbelow)

/-- Where a name below a path leads anywhere, the folder is passable. -/
theorem passable_of_find (h : fs.find p = .ok (place, .folder entries access)) (hn : IsName n)
    {found : Place × Node} (hfound : fs.find (p.child n) = .ok found) : access.passable = true := by
  obtain ⟨at', node⟩ := found
  obtain ⟨links, hleads⟩ := leads_name_of_find h hn hfound
  have hnode : fs.node? place = some (.folder entries access) := node?_of_find h
  have henter : ∃ inner, fs.enter place = .ok inner := by
    cases hleads with
    | link henter _ _ _ => exact ⟨_, henter⟩
    | follow henter _ _ _ _ _ => exact ⟨_, henter⟩
    | name henter _ _ _ _ => exact ⟨_, henter⟩
  obtain ⟨inner, henter⟩ := henter
  obtain ⟨access', hnode', hpass⟩ := enter_eq_ok_iff.mp henter
  cases hnode.symm.trans hnode'
  exact hpass

end FileSystem
end GroovyWorkspace
