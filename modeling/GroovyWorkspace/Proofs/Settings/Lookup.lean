import GroovyWorkspace.Settings.Basic
import Mathlib.Data.List.Basic

/-!
# Cuts of dotted keys

A dotted key can be cut at any of its dots, and each cut names a place in a document: all segments but
the last are sections, the last one holds the value. The lookup tries the cuts with a longer first
segment before those with a shorter one, and goes on in the same way behind it. So it finds a value
exactly if some cut leads to one, and then that of the first such cut (`get?_eq_first_cut`).
-/

namespace GroovyWorkspace

/-- A key is cut at some of its dots into segments, which may be empty and may hold further dots. -/
def IsCut (key : String) (segments : List String) : Prop :=
  segments ≠ [] ∧ ".".intercalate segments = key

/-- The value that segments lead to: all but the last name objects, and the last names a value that is
not null. -/
def Entries.reach? : Entries → List String → Option Value
  | _, [] => none
  | entries, [s] => (entries.get? s).filter fun v => !v.isNull
  | entries, s :: rest =>
    match entries.get? s with
    | some (.object inner) => reach? inner rest
    | _ => none

/-- The cut whose first segment is longer comes first; among equals the next segments decide. -/
def Precedes : List String → List String → Prop
  | s :: ss, t :: ts => t.length < s.length ∨ s.length = t.length ∧ Precedes ss ts
  | _, _ => False

theorem Precedes.asymm {ss ts : List String} (h : Precedes ss ts) : ¬ Precedes ts ss := by
  induction ss generalizing ts with
  | nil => exact h.elim
  | cons s ss ih =>
    cases ts with
    | nil => exact h.elim
    | cons t ts =>
      rintro (hlt | ⟨heq, hrest⟩)
      · rcases h with hgt | ⟨heq, -⟩ <;> omega
      · rcases h with hgt | ⟨-, hss⟩
        · omega
        · exact ih hss hrest

/-! ## All cuts in order -/

/-- The cuts of `back.reverse ++ rest` whose first segment goes at least to the end of `back`, in the
order in which they are tried. -/
def cutsFrom (back : List Char) : List Char → List (List String)
  | [] => [[String.ofList back.reverse]]
  | c :: rest =>
    cutsFrom (c :: back) rest ++
      if c = '.' then (cutsFrom [] rest).map (String.ofList back.reverse :: ·) else []

theorem cutsFrom_eq_cons (back rest : List Char) :
    ∃ others, cutsFrom back rest = [String.ofList (back.reverse ++ rest)] :: others := by
  induction rest generalizing back with
  | nil => exact ⟨[], by rw [cutsFrom, List.append_nil]⟩
  | cons c rest ih =>
    obtain ⟨others, h⟩ := ih (c :: back)
    rw [cutsFrom, h, List.reverse_cons, List.append_assoc]
    exact ⟨_, rfl⟩

/-- The first segment of a cut holds the part of the key that is settled as belonging to it. -/
theorem mem_cutsFrom {back rest : List Char} {segments : List String} :
    segments ∈ cutsFrom back rest ↔
      ∃ t ts, segments = String.ofList (back.reverse ++ t) :: ts ∧
        ['.'].intercalate (t :: ts.map String.toList) = rest := by
  induction rest generalizing back segments with
  | nil =>
    rw [cutsFrom, List.mem_singleton]
    constructor
    · rintro rfl
      exact ⟨[], [], by simp, by simp⟩
    · rintro ⟨t, ts, rfl, h⟩
      cases ts with
      | nil =>
        obtain rfl : t = [] := by simpa using h
        simp
      | cons u us => simp [List.intercalate_cons_cons] at h
  | cons c rest ih =>
    rw [cutsFrom, List.mem_append, ih]
    constructor
    · rintro (⟨t, ts, rfl, h⟩ | h)
      · refine ⟨c :: t, ts, by simp, ?_⟩
        rw [List.intercalate_cons_cons_left, h]
      · split at h
        · rename_i hc
          obtain ⟨tail, htail, rfl⟩ := List.mem_map.mp h
          obtain ⟨t, ts, rfl, hjoin⟩ := ih.mp htail
          refine ⟨[], _, by rw [List.append_nil], ?_⟩
          simp only [List.reverse_nil, List.nil_append, List.map_cons, String.toList_ofList]
          rw [List.intercalate_cons_cons, hjoin, hc]
          rfl
        · cases h
    · rintro ⟨t, ts, rfl, h⟩
      cases t with
      | cons d t =>
        rw [List.intercalate_cons_cons_left] at h
        obtain ⟨rfl, hrest⟩ := List.cons.inj h
        exact .inl ⟨t, ts, by simp, hrest⟩
      | nil =>
        cases ts with
        | nil => simp at h
        | cons u us =>
          rw [List.map_cons, List.intercalate_cons_cons] at h
          obtain ⟨rfl, hrest⟩ := List.cons.inj h
          refine .inr ?_
          rw [if_pos rfl, List.append_nil]
          exact List.mem_map_of_mem (ih.mpr ⟨u.toList, us, by simp, hrest⟩)

theorem mem_cutsFrom_iff_isCut {key : String} {segments : List String} :
    segments ∈ cutsFrom [] key.toList ↔ IsCut key segments := by
  rw [mem_cutsFrom, IsCut, ← String.toList_inj, String.toList_intercalate]
  constructor
  · rintro ⟨t, ts, rfl, h⟩
    exact ⟨List.cons_ne_nil _ _, by simpa using h⟩
  · rintro ⟨hne, h⟩
    cases segments with
    | nil => exact absurd rfl hne
    | cons s ss => exact ⟨s.toList, ss, by simp, by simpa using h⟩

theorem pairwise_precedes_cutsFrom (back rest : List Char) :
    (cutsFrom back rest).Pairwise Precedes := by
  induction rest generalizing back with
  | nil => exact List.pairwise_singleton _ _
  | cons c rest ih =>
    rw [cutsFrom, List.pairwise_append]
    refine ⟨ih _, ?_, ?_⟩
    · split
      · exact List.pairwise_map.mpr ((ih []).imp fun h => .inr ⟨rfl, h⟩)
      · exact List.Pairwise.nil
    · -- where the first segment goes on over the dot it is longer than where it ends there
      intro longer hlonger shorter hshorter
      obtain ⟨t, ts, rfl, -⟩ := mem_cutsFrom.mp hlonger
      split at hshorter
      · obtain ⟨tail, -, rfl⟩ := List.mem_map.mp hshorter
        refine .inl ?_
        simp only [String.length_ofList, List.length_append, List.length_reverse, List.length_cons]
        omega
      · cases hshorter

/-! ## The lookup goes through the cuts -/

theorem reach?_cons {entries : Entries} {s : String} {rest : List String} (h : rest ≠ []) :
    entries.reach? (s :: rest) =
      match entries.get? s with
      | some (.object inner) => Entries.reach? inner rest
      | _ => none := by
  cases rest with
  | nil => exact absurd rfl h
  | cons t ts => rfl

theorem lookupFrom_eq_findSome? (entries : Entries) (back rest : List Char) :
    entries.lookupFrom back rest = (cutsFrom back rest).findSome? entries.reach? := by
  induction rest generalizing entries back with
  | nil => rw [Entries.lookupFrom, cutsFrom, List.findSome?_singleton]; rfl
  | cons c rest ih =>
    -- a cut at this dot leads into the section named before it, and nowhere if there is none
    have hsection : ((cutsFrom [] rest).map (String.ofList back.reverse :: ·)).findSome?
          entries.reach? =
        match entries.get? (String.ofList back.reverse) with
        | some (.object inner) => Entries.lookupFrom inner [] rest
        | _ => none := by
      have hcuts : ∀ tail ∈ cutsFrom [] rest, tail ≠ [] := by
        intro tail htail
        obtain ⟨t, ts, rfl, -⟩ := mem_cutsFrom.mp htail
        exact List.cons_ne_nil _ _
      rw [List.findSome?_map]
      split
      · rename_i inner hinner
        rw [ih]
        rw [← List.head?_filterMap, ← List.head?_filterMap]
        refine congrArg List.head? (List.filterMap_congr fun tail htail => ?_)
        show entries.reach? (_ :: tail) = _
        rw [reach?_cons (hcuts tail htail), hinner]
      · rename_i hno
        rw [List.findSome?_eq_none_iff]
        intro tail htail
        show entries.reach? (_ :: tail) = _
        rw [reach?_cons (hcuts tail htail)]
        split
        · rename_i inner hinner
          exact absurd hinner (hno inner)
        · rfl
    rw [Entries.lookupFrom, cutsFrom, List.findSome?_append, ih]
    cases (cutsFrom (c :: back) rest).findSome? entries.reach? with
    | some v => rfl
    | none =>
      rw [Option.none_or]
      by_cases hc : c = '.'
      · rw [if_pos hc, if_pos hc]
        exact hsection.symm
      · rw [if_neg hc, if_neg hc, List.findSome?_nil]

theorem Entries.get?_cons (k : String) (v : Value) (rest : Entries) (t : String) :
    Entries.get? ((k, v) :: rest) t = if t = k then some v else rest.get? t := by
  rw [Entries.get?, List.lookup_cons]
  by_cases ht : t = k
  · rw [beq_iff_eq.mpr ht, if_pos ht]
  · rw [beq_eq_false_iff_ne.mpr ht, if_neg ht]
    rfl

theorem Entries.lookup_of_flat {entries : Entries} {key : String} {v : Value}
    (h : entries.reach? [key] = some v) : entries.lookup key = some v := by
  obtain ⟨others, hcuts⟩ := cutsFrom_eq_cons [] key.toList
  rw [Entries.lookup, lookupFrom_eq_findSome?, hcuts, List.reverse_nil, List.nil_append,
    String.ofList_toList, List.findSome?_cons, h]

/-- In a document with one string, only the key as a whole leads to a value. -/
theorem Settings.get?_single (k s key : String) :
    (⟨[(k, .string s)]⟩ : Settings).get? key = if key = k then some (.string s) else none := by
  have hget : ∀ t, Entries.get? [(k, .string s)] t = if t = k then some (.string s) else none :=
    Entries.get?_cons k (.string s) []
  by_cases hkey : key = k
  · have hflat : Entries.reach? [(k, .string s)] [key] = some (.string s) := by
      rw [Entries.reach?, hget, if_pos hkey]
      rfl
    rw [if_pos hkey]
    exact Entries.lookup_of_flat hflat
  · show Entries.lookupFrom [(k, .string s)] [] key.toList = _
    rw [if_neg hkey, lookupFrom_eq_findSome?, List.findSome?_eq_none_iff]
    intro segments hsegments
    obtain ⟨hne, hjoin⟩ := mem_cutsFrom_iff_isCut.mp hsegments
    cases segments with
    | nil => exact absurd rfl hne
    | cons t rest =>
      by_cases hrest : rest = []
      · -- the only segment is the key itself
        subst hrest
        have ht : t = key := by simpa using hjoin
        rw [Entries.reach?, hget, if_neg (ht ▸ hkey)]
        rfl
      · -- a string has no sections
        rw [reach?_cons hrest, hget]
        by_cases ht : t = k
        · rw [if_pos ht]
        · rw [if_neg ht]

theorem precedes_of_isCut {key : String} {other : List String} (h : IsCut key other) :
    other = [key] ∨ Precedes [key] other := by
  obtain ⟨others, hcuts⟩ := cutsFrom_eq_cons [] key.toList
  have hpairs := pairwise_precedes_cutsFrom [] key.toList
  rw [← mem_cutsFrom_iff_isCut, hcuts, List.mem_cons] at h
  rw [hcuts, List.pairwise_cons] at hpairs
  simp only [List.reverse_nil, List.nil_append, String.ofList_toList] at h hpairs
  exact h.imp id (hpairs.1 other)

/-- The first value in an ordered list is that of the element before all others with a value. -/
theorem findSome?_eq_some_iff_of_pairwise {α β : Type} {R : α → α → Prop}
    (hasymm : ∀ a b, R a b → ¬ R b a) {l : List α} (hl : l.Pairwise R) (f : α → Option β) (v : β) :
    l.findSome? f = some v ↔
      ∃ a ∈ l, f a = some v ∧ ∀ b ∈ l, (f b).isSome = true → b = a ∨ R a b := by
  rw [List.findSome?_eq_some_iff]
  constructor
  · rintro ⟨before, a, behind, rfl, hv, hnone⟩
    rw [List.pairwise_append, List.pairwise_cons] at hl
    refine ⟨a, List.mem_append_right _ List.mem_cons_self, hv, ?_⟩
    intro b hb hsome
    rw [List.mem_append, List.mem_cons] at hb
    rcases hb with hmem | rfl | hmem
    · rw [hnone b hmem] at hsome
      cases hsome
    · exact .inl rfl
    · exact .inr (hl.2.1.1 b hmem)
  · rintro ⟨a, ha, hv, hbest⟩
    obtain ⟨before, behind, rfl⟩ := List.append_of_mem ha
    rw [List.pairwise_append] at hl
    refine ⟨before, a, behind, rfl, hv, ?_⟩
    intro b hmem
    -- an earlier element with a value would come before the first one
    have hearlier : R b a := hl.2.2 b hmem a List.mem_cons_self
    rw [Option.eq_none_iff_forall_ne_some]
    intro w hw
    rcases hbest b (List.mem_append_left _ hmem) (by rw [hw]; rfl) with rfl | hafter
    · exact hasymm b b hearlier hearlier
    · exact hasymm b a hearlier hafter

/-- **Lookup through cuts.** A key has a value exactly if one of its cuts leads to one. The value is that
of the first such cut: longer first segments come before shorter ones, then longer second segments,
and so on. The key as a whole comes before all other cuts. -/
theorem Settings.get?_eq_first_cut (s : Settings) (key : String) :
    ((s.get? key).isSome = true ↔
        ∃ segments, IsCut key segments ∧ (s.entries.reach? segments).isSome = true) ∧
      (∀ v, s.get? key = some v ↔
        ∃ segments, IsCut key segments ∧ s.entries.reach? segments = some v ∧
          ∀ other, IsCut key other → (s.entries.reach? other).isSome = true →
            other = segments ∨ Precedes segments other) ∧
      ∀ v, s.entries.reach? [key] = some v → s.get? key = some v := by
  have hget : s.get? key = (cutsFrom [] key.toList).findSome? s.entries.reach? :=
    lookupFrom_eq_findSome? _ _ _
  have hfirst : ∀ v, s.get? key = some v ↔
      ∃ segments, IsCut key segments ∧ s.entries.reach? segments = some v ∧
        ∀ other, IsCut key other → (s.entries.reach? other).isSome = true →
          other = segments ∨ Precedes segments other := by
    intro v
    rw [hget, findSome?_eq_some_iff_of_pairwise (fun _ _ h => h.asymm)
      (pairwise_precedes_cutsFrom [] key.toList)]
    simp only [mem_cutsFrom_iff_isCut]
  refine ⟨?_, hfirst, ?_⟩
  · rw [hget, List.findSome?_isSome_iff]
    simp only [mem_cutsFrom_iff_isCut]
  · intro v hv
    have hflat : IsCut key [key] := ⟨List.cons_ne_nil _ _, by simp⟩
    exact (hfirst v).mpr ⟨[key], hflat, hv, fun other hother _ => precedes_of_isCut hother⟩

end GroovyWorkspace
