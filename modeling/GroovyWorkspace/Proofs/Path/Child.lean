import GroovyWorkspace.Path.Basic

/-!
# Names below a path

Joining a name to a path adds one component, however the path is spelled. So the paths below a root
differ as soon as their names do, and the same path below the same root has one spelling only
(`under_injective`).
-/

namespace GroovyWorkspace

/-- Bytes that can name an entry of a folder. -/
def IsName (n : List UInt8) : Prop := n ≠ [] ∧ n ≠ [dot] ∧ n ≠ [dot, dot] ∧ slash ∉ n

instance : DecidablePred IsName := fun n => by unfold IsName; infer_instance

namespace Path

/-! ## Parts -/

theorem parts_ne_nil (b : List UInt8) : parts b ≠ [] := by
  cases b with
  | nil => exact List.cons_ne_nil _ _
  | cons c rest =>
    rw [parts]
    split
    · exact List.cons_ne_nil _ _
    · split <;> exact List.cons_ne_nil _ _

theorem parts_append_slash (a b : List UInt8) : parts (a ++ slash :: b) = parts a ++ parts b := by
  induction a with
  | nil => simp [parts]
  | cons c rest ih =>
    rw [List.cons_append, parts, parts, ih]
    by_cases hc : c = slash
    · rw [if_pos hc, if_pos hc]; rfl
    · rw [if_neg hc, if_neg hc]
      cases hp : parts rest with
      | nil => exact absurd hp (parts_ne_nil rest)
      | cons p ps => rfl

theorem parts_of_not_mem {n : List UInt8} (h : slash ∉ n) : parts n = [n] := by
  induction n with
  | nil => rfl
  | cons c rest ih =>
    obtain ⟨hc, hrest⟩ := not_or.mp (mt List.mem_cons.mpr h)
    rw [parts, if_neg (Ne.symm hc), ih hrest]

theorem head?_parts_append_slash (a b : List UInt8) :
    (parts (a ++ slash :: b)).head? = (parts a).head? := by
  rw [parts_append_slash]
  cases hp : parts a with
  | nil => exact absurd hp (parts_ne_nil a)
  | cons p ps => rfl

/-! ## Joining a name -/

theorem step?_name {n : List UInt8} (h : IsName n) : step? n = some (.name n) := by
  obtain ⟨hnil, hdot, hdots, -⟩ := h
  rw [step?, if_neg (by simp [hnil, hdot]), if_neg hdots]

theorem not_isAbsolute_name {n : List UInt8} (h : IsName n) : (⟨n⟩ : Path).isAbsolute = false := by
  cases n with
  | nil => rfl
  | cons c rest =>
    have hc : c ≠ slash := fun hc => h.2.2.2 (hc ▸ List.mem_cons_self)
    simp [isAbsolute, hc]

/-- What stands before the last slash of a path decides how it starts. -/
theorem components_slash_name {a n : List UInt8} (hn : IsName n) {p : Path}
    (hlead : p.lead = (⟨a ++ slash :: n⟩ : Path).lead)
    (hparts : (parts a).filterMap step? = (parts p.bytes).filterMap step?) :
    (⟨a ++ slash :: n⟩ : Path).components = p.components ++ [.name n] := by
  unfold components
  rw [← hlead, parts_append_slash, parts_of_not_mem hn.2.2.2, List.filterMap_append, hparts,
    List.append_assoc]
  simp [step?_name hn]

theorem lead_congr {p q : Path} (habs : p.bytes.head? = q.bytes.head?)
    (hparts : (parts p.bytes).head? = (parts q.bytes).head?) : p.lead = q.lead := by
  unfold lead isAbsolute
  rw [habs, hparts]

theorem components_child (p : Path) {n : List UInt8} (hn : IsName n) :
    (p.child n).components = p.components ++ [.name n] := by
  obtain ⟨bytes⟩ := p
  unfold child join
  rw [not_isAbsolute_name hn, if_neg Bool.false_ne_true]
  split
  · rename_i hends
    rcases hends with hnil | hlast
    · -- nothing stands before the name
      replace hnil : bytes = [] := hnil
      subst hnil
      have hparts : parts n = [n] := parts_of_not_mem hn.2.2.2
      have hlead : (⟨n⟩ : Path).lead = [] := by
        rw [lead, not_isAbsolute_name hn, hparts]
        simp [hn.2.1]
      have hempty : (⟨[]⟩ : Path).components = [] := by decide
      rw [List.nil_append, hempty, components, hlead, hparts]
      simp [step?_name hn]
    · -- the path ends in a slash already
      obtain ⟨a, rfl⟩ : ∃ a, bytes = a ++ [slash] := List.getLast?_eq_some_iff.mp hlast
      rw [List.append_assoc, List.singleton_append]
      refine components_slash_name hn (lead_congr ?_ ?_) ?_
      · cases a <;> rfl
      · rw [head?_parts_append_slash, head?_parts_append_slash]
      · rw [parts_append_slash, List.filterMap_append]
        simp [parts, step?]
  · rename_i hends
    have hne : bytes ≠ [] := fun h => hends (.inl h)
    refine components_slash_name hn (lead_congr ?_ (head?_parts_append_slash _ _).symm) rfl
    rw [List.head?_append, List.head?_eq_some_head hne, Option.some_or]

theorem bytes_child (p : Path) {n : List UInt8} (hn : IsName n) :
    (p.child n).bytes =
      if p.bytes = [] ∨ p.bytes.getLast? = some slash then p.bytes ++ n else p.bytes ++ slash :: n := by
  rw [child, join, not_isAbsolute_name hn, if_neg Bool.false_ne_true]
  split <;> rfl

theorem getLast?_child_ne_slash (p : Path) {n : List UInt8} (hn : IsName n) :
    (p.child n).bytes ≠ [] ∧ (p.child n).bytes.getLast? ≠ some slash := by
  have hlast : ∀ front : List UInt8, front ++ n ≠ [] ∧ (front ++ n).getLast? ≠ some slash := by
    intro front
    refine ⟨List.append_ne_nil_of_right_ne_nil _ hn.1, fun h => hn.2.2.2 ?_⟩
    rw [List.getLast?_append, List.getLast?_eq_some_getLast hn.1, Option.some_or] at h
    exact Option.some.inj h ▸ List.getLast_mem hn.1
  rw [bytes_child p hn]
  split
  · exact hlast _
  · rw [List.append_cons]
    exact hlast _

theorem bytes_child_child (p : Path) {m n : List UInt8} (hm : IsName m) (hn : IsName n) :
    ((p.child m).child n).bytes = (p.child m).bytes ++ slash :: n := by
  obtain ⟨hne, hlast⟩ := getLast?_child_ne_slash p hm
  rw [bytes_child _ hn, if_neg (not_or.mpr ⟨hne, hlast⟩)]

theorem exists_parts_child (p : Path) {n : List UInt8} (hn : IsName n) :
    ∃ front, parts (p.child n).bytes = front ++ [n] := by
  have hparts := parts_of_not_mem hn.2.2.2
  rw [bytes_child p hn]
  split
  · rename_i hends
    rcases hends with hnil | hlast
    · exact ⟨[], by rw [hnil, List.nil_append, hparts, List.nil_append]⟩
    · obtain ⟨a, ha⟩ := List.getLast?_eq_some_iff.mp hlast
      exact ⟨parts a, by rw [ha, List.append_assoc, List.singleton_append, parts_append_slash, hparts]⟩
  · exact ⟨parts p.bytes, by rw [parts_append_slash, hparts]⟩

theorem unparts_parts (b : List UInt8) : unparts (parts b) = b := by
  induction b with
  | nil => rfl
  | cons c rest ih =>
    rw [parts]
    cases hp : parts rest with
    | nil => exact absurd hp (parts_ne_nil rest)
    | cons q qs =>
      rw [hp] at ih
      split
      · rename_i hc
        rw [unparts, ih, hc, List.nil_append]
        exact List.cons_ne_nil _ _
      · cases qs with
        | nil => rw [unparts] at ih ⊢; rw [ih]
        | cons r rs =>
          rw [unparts] at ih ⊢
          · rw [List.cons_append, ih]
          · exact List.cons_ne_nil _ _
          · exact List.cons_ne_nil _ _

theorem trimParts_concat {n : List UInt8} (hn : IsName n) (front : List (List UInt8)) :
    trimParts (front ++ [n]) = front ++ [n] := by
  have hidle : isIdle n = false := by simp [isIdle, hn.1, hn.2.1]
  cases front with
  | nil => rfl
  | cons q qs => simp [trimParts, hidle]

theorem parent?_child_child (p : Path) {m n : List UInt8} (hm : IsName m) (hn : IsName n) :
    ((p.child m).child n).parent? = some (p.child m) := by
  obtain ⟨front, hfront⟩ := exists_parts_child p hm
  have hunparts : unparts (front ++ [m]) = (p.child m).bytes := by rw [← hfront, unparts_parts]
  rw [parent?, bytes_child_child p hm hn, parts_append_slash, parts_of_not_mem hn.2.2.2, hfront,
    trimParts_concat hn, List.reverse_append, List.reverse_append, List.reverse_singleton,
    List.reverse_singleton, List.singleton_append, List.singleton_append]
  obtain ⟨c, cs, rfl⟩ := List.exists_cons_of_ne_nil hn.1
  dsimp only
  rw [List.reverse_cons, List.reverse_reverse, trimParts_concat hm]
  split
  · rename_i hempty
    have hmem : m ∈ [[]] := by rw [← hempty]; simp
    exact absurd (List.mem_singleton.mp hmem) hm.1
  · rw [hunparts]

/-- The path that names lead to from a root. -/
def under (root : Path) (ns : List (List UInt8)) : Path := ns.foldl child root

theorem components_under (root : Path) {ns : List (List UInt8)} (h : ∀ n ∈ ns, IsName n) :
    (root.under ns).components = root.components ++ ns.map .name := by
  induction ns generalizing root with
  | nil => simp [under]
  | cons n rest ih =>
    show ((root.child n).under rest).components = _
    rw [ih _ fun m hm => h m (List.mem_cons_of_mem _ hm),
      components_child root (h n List.mem_cons_self), List.append_assoc]
    rfl

theorem names_eq_of_under {root : Path} {ns ms : List (List UInt8)} (hns : ∀ n ∈ ns, IsName n)
    (hms : ∀ n ∈ ms, IsName n) (h : (root.under ns).components = (root.under ms).components) :
    ns = ms := by
  rw [components_under root hns, components_under root hms] at h
  exact (List.map_inj_right fun _ _ heq => Component.name.inj heq).mp (List.append_cancel_left h)

theorem under_injective {root : Path} {ns ms : List (List UInt8)} (hns : ∀ n ∈ ns, IsName n)
    (hms : ∀ n ∈ ms, IsName n) (h : (root.under ns).components = (root.under ms).components) :
    root.under ns = root.under ms := by
  rw [names_eq_of_under hns hms h]

end Path
end GroovyWorkspace
