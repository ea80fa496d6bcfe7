import GroovyWorkspace.FileSystem.Basic
import GroovyWorkspace.Path.Normal
import GroovyWorkspace.Proofs.Path.Child
import Mathlib.Data.List.Induction

/-!
# Normal forms and the places they lead to

Seen from a place in the file system, the components of a path lead to another place, one step at a time
and by spelling alone. A normal form is the root and names, or steps upwards and names
(`isNormal_normalComponents`), and leads to the same place as the path it comes from
(`leadsTo_normalComponents`). The normal form of an absolute path spells out the place
(`normalComponents_root`).
-/

namespace GroovyWorkspace

namespace Component

/-- One step from a place: a name goes down, `..` goes up and stays at the root, and the root starts
afresh. -/
def walk (place : Place) : Component → Place
  | .root => []
  | .here => place
  | .up => place.dropLast
  | .name n => place ++ [n]

/-- The place that components lead to from another one. -/
def leadsTo (place : Place) (cs : List Component) : Place := cs.foldl walk place

theorem leadsTo_append (place : Place) (cs ds : List Component) :
    leadsTo place (cs ++ ds) = leadsTo (leadsTo place cs) ds := List.foldl_append

theorem leadsTo_names (place : Place) (ns : List Name) :
    leadsTo place (ns.map .name) = place ++ ns := by
  induction ns generalizing place with
  | nil => simp [leadsTo]
  | cons n ns ih =>
    rw [List.map_cons, leadsTo, List.foldl_cons, ← leadsTo, ih, walk, List.append_assoc]
    rfl

theorem leadsTo_root_names (place : Place) (ns : List Name) :
    leadsTo place (.root :: ns.map .name) = ns := leadsTo_names [] ns

/-- Steps upwards stop at the root, and names go on from there. -/
theorem leadsTo_ups_names (n : Name) (k j : Nat) (ns : List Name) :
    leadsTo (List.replicate k n) (List.replicate j .up ++ ns.map .name) =
      List.replicate (k - j) n ++ ns := by
  have hups : leadsTo (List.replicate k n) (List.replicate j .up) = List.replicate (k - j) n := by
    induction j generalizing k with
    | zero => rfl
    | succ j ih =>
      rw [List.replicate_succ, leadsTo, List.foldl_cons, ← leadsTo, walk, List.dropLast_replicate, ih,
        Nat.sub_sub, Nat.add_comm]
  rw [leadsTo_append, hups, leadsTo_names]

/-- The forms of a path that has no step to work out: the root and names, or steps upwards and names. -/
inductive IsNormal : List Component → Prop
  | absolute (ns : List Name) : IsNormal (.root :: ns.map .name)
  | relative (k : Nat) (ns : List Name) : IsNormal (List.replicate k .up ++ ns.map .name)

/-- A normal form is determined by the places it leads to. -/
theorem IsNormal.eq_of_leadsTo {cs ds : List Component} (hcs : IsNormal cs) (hds : IsNormal ds)
    (n : Name) (h : ∀ k, leadsTo (List.replicate k n) cs = leadsTo (List.replicate k n) ds) :
    cs = ds := by
  -- from the root both lead to their names; steps upwards show where the start is deep enough
  cases hcs with
  | absolute ns =>
    cases hds with
    | absolute ms =>
      have hroot := h 0
      rw [leadsTo_root_names, leadsTo_root_names] at hroot
      rw [hroot]
    | relative k ms =>
      have hroot := h 0
      have hdeep := h (k + 1)
      rw [leadsTo_root_names, leadsTo_ups_names] at hroot hdeep
      simp [hroot] at hdeep
  | relative k ns =>
    cases hds with
    | absolute ms =>
      have hroot := h 0
      have hdeep := h (k + 1)
      rw [leadsTo_root_names, leadsTo_ups_names] at hroot hdeep
      simp [← hroot] at hdeep
    | relative l ms =>
      have hroot := h 0
      have hdeep := congrArg List.length (h (k + l))
      rw [leadsTo_ups_names, leadsTo_ups_names] at hroot hdeep
      simp only [Nat.zero_sub, List.replicate_zero, List.nil_append] at hroot
      simp only [List.length_append, List.length_replicate, hroot] at hdeep
      rw [hroot, show k = l by omega]

end Component

namespace Path

open Component

/-! ## The form and the place -/

theorem normalComponents_concat (cs : List Component) (c : Component) :
    normalComponents (cs ++ [c]) = (settle (normalComponents cs).reverse c).reverse := by
  rw [normalComponents, normalComponents, List.foldl_append, List.reverse_reverse]
  rfl

/-- Names stay behind what comes before them. -/
theorem normalComponents_append_names (cs : List Component) (ns : List Name) :
    normalComponents (cs ++ ns.map .name) = normalComponents cs ++ ns.map .name := by
  induction ns generalizing cs with
  | nil => simp
  | cons n rest ih =>
    rw [List.map_cons, List.append_cons, ih, normalComponents_concat, settle, List.reverse_cons,
      List.reverse_reverse, List.append_assoc, List.singleton_append]

/-- A step upwards takes back the name at the end. -/
theorem settle_up_concat (cs : List Component) (n : Name) :
    (settle (cs ++ [Component.name n]).reverse .up).reverse = cs ∧
      ∀ place, leadsTo place cs = walk (leadsTo place (cs ++ [Component.name n])) .up := by
  constructor
  · rw [List.reverse_append, List.reverse_singleton, List.singleton_append, settle,
      List.reverse_reverse]
  · intro place
    rw [leadsTo_append]
    exact List.dropLast_concat.symm

/-- Steps upwards that have nothing to take back are kept. -/
theorem settle_up_replicate (k : Nat) :
    (settle (List.replicate k Component.up).reverse .up).reverse = List.replicate (k + 1) .up := by
  cases k with
  | zero => rfl
  | succ k =>
    rw [List.reverse_replicate, List.replicate_succ, settle, ← List.replicate_succ,
      ← List.replicate_succ, List.reverse_replicate]
    · simp
    · simp

/-- One more step from a normal form gives a normal form, and leads where the step leads. -/
theorem settle_isNormal {cs : List Component} (h : IsNormal cs) (c : Component) :
    IsNormal (settle cs.reverse c).reverse ∧
      ∀ place, leadsTo place (settle cs.reverse c).reverse = walk (leadsTo place cs) c := by
  cases c with
  | here =>
    rw [settle, List.reverse_reverse]
    exact ⟨h, fun _ => rfl⟩
  | root => exact ⟨.absolute [], fun _ => rfl⟩
  | name n =>
    rw [settle, List.reverse_cons, List.reverse_reverse]
    refine ⟨?_, fun place => leadsTo_append place cs [.name n]⟩
    cases h with
    | absolute ns => simpa using IsNormal.absolute (ns ++ [n])
    | relative k ns => simpa using IsNormal.relative k (ns ++ [n])
  | up =>
    cases h with
    | absolute ns =>
      rcases List.eq_nil_or_concat ns with rfl | ⟨ms, n, rfl⟩
      · exact ⟨.absolute [], fun _ => rfl⟩
      · rw [List.concat_eq_append, List.map_append, List.map_singleton, ← List.cons_append]
        obtain ⟨hback, hplace⟩ := settle_up_concat (.root :: ms.map .name) n
        rw [hback]
        exact ⟨.absolute ms, hplace⟩
    | relative k ns =>
      rcases List.eq_nil_or_concat ns with rfl | ⟨ms, n, rfl⟩
      · rw [List.map_nil, List.append_nil, settle_up_replicate]
        refine ⟨by simpa using IsNormal.relative (k + 1) [], fun place => ?_⟩
        rw [List.replicate_succ', leadsTo_append]
        rfl
      · rw [List.concat_eq_append, List.map_append, List.map_singleton, ← List.append_assoc]
        obtain ⟨hback, hplace⟩ := settle_up_concat (List.replicate k .up ++ ms.map .name) n
        rw [hback]
        exact ⟨.relative k ms, hplace⟩

theorem isNormal_normalComponents (cs : List Component) : IsNormal (normalComponents cs) := by
  induction cs using List.reverseRecOn with
  | nil => exact .relative 0 []
  | append_singleton cs c ih =>
    rw [normalComponents_concat]
    exact (settle_isNormal ih c).1

theorem leadsTo_normalComponents (place : Place) (cs : List Component) :
    leadsTo place (normalComponents cs) = leadsTo place cs := by
  induction cs using List.reverseRecOn with
  | nil => rfl
  | append_singleton cs c ih =>
    rw [normalComponents_concat, (settle_isNormal (isNormal_normalComponents cs) c).2, ih, leadsTo_append]
    rfl

theorem normalComponents_root (cs : List Component) :
    normalComponents (.root :: cs) = .root :: (leadsTo [] cs).map .name := by
  refine (isNormal_normalComponents _).eq_of_leadsTo (.absolute _) [] fun k => ?_
  rw [leadsTo_normalComponents]
  exact (leadsTo_names [] _).symm

theorem mem_of_mem_normalComponents {d : Component} {cs : List Component}
    (h : d ∈ normalComponents cs) : d ∈ cs := by
  induction cs using List.reverseRecOn with
  | nil => exact h
  | append_singleton cs c ih =>
    rw [normalComponents_concat, List.mem_reverse] at h
    rw [List.mem_append, List.mem_singleton]
    have hback : d ∈ (normalComponents cs).reverse → d ∈ cs := fun hd => ih (List.mem_reverse.mp hd)
    cases c with
    | here => exact .inl (hback h)
    | root => exact .inr (List.mem_singleton.mp h)
    | name m => exact (List.mem_cons.mp h).symm.imp hback id
    | up =>
      simp only [settle] at h
      split at h
      · rename_i heq
        rw [heq] at hback
        exact .inl (hback (List.mem_cons_of_mem _ h))
      · rename_i heq
        rw [heq] at hback
        exact .inl (hback h)
      · exact (List.mem_cons.mp h).symm.imp hback id

/-! ## Spelling a normal form -/

theorem slash_not_mem_of_mem_parts {b part : List UInt8} (h : part ∈ parts b) : slash ∉ part := by
  induction b generalizing part with
  | nil =>
    obtain rfl := List.mem_singleton.mp h
    exact List.not_mem_nil
  | cons c rest ih =>
    rw [parts] at h
    split at h
    · rcases List.mem_cons.mp h with rfl | h
      · exact List.not_mem_nil
      · exact ih h
    · rename_i hc
      cases hp : parts rest with
      | nil => exact absurd hp (parts_ne_nil rest)
      | cons q qs =>
        rw [hp] at h ih
        rcases List.mem_cons.mp h with rfl | h
        · rw [List.mem_cons, not_or]
          exact ⟨Ne.symm hc, ih List.mem_cons_self⟩
        · exact ih (List.mem_cons_of_mem _ h)

theorem isName_of_mem_components {p : Path} {n : Name} (h : .name n ∈ p.components) : IsName n := by
  have hlead : .name n ∉ p.lead := by
    unfold lead
    split
    · simp
    · split <;> simp
  rw [components, List.mem_append] at h
  obtain ⟨part, hpart, hstep⟩ := List.mem_filterMap.mp (h.resolve_left hlead)
  unfold step? at hstep
  split at hstep
  · cases hstep
  · rename_i hidle
    split at hstep
    · cases hstep
    · rename_i hdots
      cases hstep
      exact ⟨fun hnil => hidle (.inl hnil), fun hdot => hidle (.inr hdot), hdots,
        slash_not_mem_of_mem_parts hpart⟩

theorem parts_unparts {ps : List (List UInt8)} (hne : ps ≠ []) (h : ∀ part ∈ ps, slash ∉ part) :
    parts (unparts ps) = ps := by
  induction ps with
  | nil => exact absurd rfl hne
  | cons part ps ih =>
    rw [List.forall_mem_cons] at h
    cases ps with
    | nil => exact parts_of_not_mem h.1
    | cons q qs =>
      rw [unparts, parts_append_slash, parts_of_not_mem h.1, ih (List.cons_ne_nil _ _) h.2]
      · rfl
      · simp

/-- The components of a path apart from a leading full stop or the root. -/
def tail (p : Path) : List Component := (parts p.bytes).filterMap step?

theorem components_of_isAbsolute {p : Path} (h : p.isAbsolute = true) :
    p.components = .root :: p.tail := by
  rw [components, lead, if_pos h]
  rfl

theorem leadsTo_components_of_not_isAbsolute {p : Path} (h : p.isAbsolute = false) (place : Place) :
    leadsTo place p.components = leadsTo place p.tail := by
  rw [components, lead, h, if_neg Bool.false_ne_true]
  split <;> rfl

/-- Components that can stand behind the start of a path: steps upwards and names. -/
def AreSteps (cs : List Component) : Prop := ∀ c ∈ cs, c = .up ∨ ∃ n, IsName n ∧ c = .name n

theorem AreSteps.slash_not_mem {cs : List Component} (h : AreSteps cs) :
    ∀ part ∈ cs.map componentBytes, slash ∉ part := by
  intro part hpart
  obtain ⟨c, hc, rfl⟩ := List.mem_map.mp hpart
  rcases h c hc with rfl | ⟨n, hn, rfl⟩
  · decide
  · exact hn.2.2.2

theorem AreSteps.filterMap_step? {cs : List Component} (h : AreSteps cs) :
    (cs.map componentBytes).filterMap step? = cs := by
  induction cs with
  | nil => rfl
  | cons c cs ih =>
    obtain ⟨hc, hcs⟩ := List.forall_mem_cons.mp h
    have hstep : step? (componentBytes c) = some c := by
      rcases hc with rfl | ⟨n, hn, rfl⟩
      · decide
      · exact step?_name hn
    rw [List.map_cons, List.filterMap_cons_some hstep, ih hcs]

/-- A relative spelling starts with a part that is neither empty nor a full stop. -/
theorem lead_unparts {part : List UInt8} {ps : List (List UInt8)} (hne : part ≠ []) (hdot : part ≠ [dot])
    (h : ∀ q ∈ part :: ps, slash ∉ q) : (⟨unparts (part :: ps)⟩ : Path).lead = [] := by
  have habs : (⟨unparts (part :: ps)⟩ : Path).isAbsolute = false := by
    obtain ⟨b, rest, rfl⟩ := List.exists_cons_of_ne_nil hne
    have hb : b ≠ slash := fun hb => h _ List.mem_cons_self (hb ▸ List.mem_cons_self)
    cases ps <;> simp [isAbsolute, unparts, hb]
  rw [lead, habs, parts_unparts (List.cons_ne_nil _ _) h]
  simp [hdot]

theorem AreSteps.components_unparts {cs : List Component} (h : AreSteps cs) :
    (⟨unparts (cs.map componentBytes)⟩ : Path).components = cs := by
  cases cs with
  | nil => decide
  | cons c cs =>
    have hslash := h.slash_not_mem
    have hpart : componentBytes c ≠ [] ∧ componentBytes c ≠ [dot] := by
      rcases h c List.mem_cons_self with rfl | ⟨n, hn, rfl⟩
      · decide
      · exact ⟨hn.1, hn.2.1⟩
    rw [components, parts_unparts (by simp) hslash, h.filterMap_step?, List.map_cons,
      lead_unparts hpart.1 hpart.2 hslash, List.nil_append]

theorem AreSteps.components_unparts_root {cs : List Component} (h : AreSteps cs) (hne : cs ≠ []) :
    (⟨unparts ([] :: cs.map componentBytes)⟩ : Path).components = .root :: cs := by
  have hslash : ∀ part ∈ [] :: cs.map componentBytes, slash ∉ part :=
    List.forall_mem_cons.mpr ⟨List.not_mem_nil, h.slash_not_mem⟩
  have habs : (⟨unparts ([] :: cs.map componentBytes)⟩ : Path).isAbsolute = true := by
    obtain ⟨c, rest, rfl⟩ := List.exists_cons_of_ne_nil hne
    rfl
  rw [components_of_isAbsolute habs, tail, parts_unparts (List.cons_ne_nil _ _) hslash,
    List.filterMap_cons_none (by decide), h.filterMap_step?]

theorem ofComponents_of_ne {cs : List Component} (h : cs ≠ [.root]) :
    ofComponents cs = ⟨unparts (cs.map componentBytes)⟩ := by
  unfold ofComponents
  split
  · exact absurd rfl h
  · rfl

/-- A normal form is spelled so that its components are read back. -/
theorem components_ofComponents {cs : List Component} (h : IsNormal cs)
    (hnames : ∀ n, .name n ∈ cs → IsName n) : (ofComponents cs).components = cs := by
  cases h with
  | absolute ns =>
    have hsteps : AreSteps (ns.map .name) := by
      intro c hc
      obtain ⟨n, -, rfl⟩ := List.mem_map.mp hc
      exact .inr ⟨n, hnames n (List.mem_cons_of_mem _ hc), rfl⟩
    cases ns with
    | nil => decide
    | cons n ns => exact hsteps.components_unparts_root (by simp)
  | relative k ns =>
    have hsteps : AreSteps (List.replicate k .up ++ ns.map .name) := by
      intro c hc
      rcases List.mem_append.mp hc with hup | hname
      · exact .inl (List.eq_of_mem_replicate hup)
      · obtain ⟨n, -, rfl⟩ := List.mem_map.mp hname
        exact .inr ⟨n, hnames n hc, rfl⟩
    have hroot : List.replicate k Component.up ++ ns.map .name ≠ [.root] := by
      intro heq
      rcases hsteps .root (by rw [heq]; exact List.mem_singleton_self _) with h | ⟨n, -, h⟩ <;> cases h
    rw [ofComponents_of_ne hroot, hsteps.components_unparts]

theorem components_normalize (p : Path) : p.normalize.components = normalComponents p.components :=
  components_ofComponents (isNormal_normalComponents _) fun _ hn =>
    isName_of_mem_components (mem_of_mem_normalComponents hn)

theorem startsWith_normalize_iff {p q : Path} :
    p.normalize.startsWith q.normalize = true ↔
      normalComponents q.components <+: normalComponents p.components := by
  rw [startsWith, List.isPrefixOf_iff_prefix, components_normalize, components_normalize]

/-! ## Paths seen from a folder -/

theorem tail_join {cwd p : Path} (hcwd : cwd.isAbsolute = true) (hp : p.isAbsolute = false) :
    (cwd.join p).isAbsolute = true ∧ (cwd.join p).tail = cwd.tail ++ p.tail := by
  obtain ⟨bytes⟩ := cwd
  have hne : bytes ≠ [] := by
    rintro rfl
    cases hcwd
  have habs : ∀ more, (⟨bytes ++ more⟩ : Path).isAbsolute = true := by
    intro more
    obtain ⟨b, rest, rfl⟩ := List.exists_cons_of_ne_nil hne
    exact hcwd
  unfold join
  rw [hp, if_neg Bool.false_ne_true]
  split
  · rename_i hends
    refine ⟨habs _, ?_⟩
    -- the slash at the end is the one that divides
    obtain ⟨a, rfl⟩ : ∃ a, bytes = a ++ [slash] :=
      List.getLast?_eq_some_iff.mp (hends.resolve_left hne)
    simp [tail, parts_append_slash, parts, step?]
  · exact ⟨habs _, by rw [tail, parts_append_slash, List.filterMap_append]; rfl⟩

theorem normalComponents_join {cwd : Path} (hcwd : cwd.isAbsolute = true) (p : Path) :
    normalComponents (cwd.join p).components =
      .root :: (leadsTo (leadsTo [] cwd.tail) p.components).map .name := by
  cases hp : p.isAbsolute with
  | true =>
    rw [join, if_pos hp, components_of_isAbsolute hp, normalComponents_root]
    rfl
  | false =>
    obtain ⟨habs, hsteps⟩ := tail_join hcwd hp
    rw [components_of_isAbsolute habs, normalComponents_root, hsteps, leadsTo_append,
      leadsTo_components_of_not_isAbsolute hp]

end Path
end GroovyWorkspace
