import GroovyWorkspace.Path.Map
import GroovyWorkspace.Proofs.Path.Order
import Mathlib.Data.List.Sort

/-!
# Maps over paths as functions

What a table says is the function from paths to entries that it stands for. `stored?` gives the entry
with the spelling of its key, and the lemmas here say how `insert` and `erase` change it. Keys in
strictly increasing order (`Sorted`) make the function determine the list of values, and the table if the
spelling of the keys counts (`Sorted.ext`). The order in which different keys are listed does not change
the function (`Distinct.stored?_eq_of_perm`).
-/

namespace GroovyWorkspace.PathMap

open Std

variable {α : Type}

/-- The entry of a path, with the spelling under which it is kept. -/
def stored? (m : PathMap α) (p : Path) : Option (Path × α) := m.entries.find? fun e => p.same e.1

/-- The keys increase strictly. -/
def Sorted (m : PathMap α) : Prop := m.entries.Pairwise fun a b => a.1.compare b.1 = .lt

theorem findIn_eq (p : Path) (l : List (Path × α)) :
    findIn p l = (l.find? fun e => p.same e.1).map Prod.snd := by
  induction l with
  | nil => rfl
  | cons e rest ih =>
    rw [findIn, List.find?_cons, ih]
    cases p.same e.1 <;> rfl

theorem get?_eq_stored? (m : PathMap α) (p : Path) : m.get? p = (m.stored? p).map Prod.snd :=
  findIn_eq p m.entries

theorem stored?_congr {p q : Path} (h : p.same q = true) (m : PathMap α) :
    m.stored? p = m.stored? q := by
  unfold stored?
  simp only [Path.same_congr h]

theorem get?_congr {p q : Path} (h : p.same q = true) (m : PathMap α) : m.get? p = m.get? q := by
  rw [get?_eq_stored?, get?_eq_stored?, stored?_congr h]

theorem contains_congr {p q : Path} (h : p.same q = true) (m : PathMap α) :
    m.contains p = m.contains q := by
  unfold contains
  rw [get?_congr h]

theorem contains_eq_isSome_stored? (m : PathMap α) (p : Path) :
    m.contains p = (m.stored? p).isSome := by
  rw [contains, get?_eq_stored?, Option.isSome_map]

theorem any_keys (m : PathMap α) (p : Path) : m.keys.any p.same = m.contains p := by
  rw [contains_eq_isSome_stored?, stored?, List.isSome_find?, keys, List.any_map]
  rfl

theorem same_of_stored? {m : PathMap α} {p : Path} {e : Path × α} (h : m.stored? p = some e) :
    p.same e.1 = true := by
  have hfound := List.find?_some (p := fun e : Path × α => p.same e.1) h
  exact hfound

@[simp] theorem sorted_empty : ({} : PathMap α).Sorted := List.Pairwise.nil

/-! ## Inserting -/

/-- The smallest key of a list bounds what an insertion can put in front of it. -/
theorem lt_of_mem_insertIn {a p : Path} {v : α} {l : List (Path × α)}
    (hp : a.compare p = .lt) (hl : ∀ e ∈ l, a.compare e.1 = .lt) :
    ∀ e ∈ insertIn p v l, a.compare e.1 = .lt := by
  induction l with
  | nil =>
    intro e he
    rw [insertIn, List.mem_singleton] at he
    rw [he]; exact hp
  | cons hd rest ih =>
    obtain ⟨q, w⟩ := hd
    have hq : a.compare q = .lt := hl (q, w) List.mem_cons_self
    have hrest : ∀ e ∈ rest, a.compare e.1 = .lt := fun e he => hl e (List.mem_cons_of_mem _ he)
    intro e he
    rw [insertIn] at he
    cases hc : p.compare q with
    | lt =>
      simp only [hc, List.mem_cons] at he
      rcases he with rfl | rfl | he
      · exact hp
      · exact hq
      · exact hrest e he
    | eq =>
      simp only [hc, List.mem_cons] at he
      rcases he with rfl | he
      · exact hq
      · exact hrest e he
    | gt =>
      simp only [hc, List.mem_cons] at he
      rcases he with rfl | he
      · exact hq
      · exact ih hrest e he

theorem Sorted.insert {m : PathMap α} (hm : m.Sorted) (p : Path) (v : α) :
    (m.insert p v).Sorted := by
  obtain ⟨l⟩ := m
  show (insertIn p v l).Pairwise _
  replace hm : l.Pairwise fun a b => a.1.compare b.1 = .lt := hm
  induction l with
  | nil => exact List.pairwise_singleton _ _
  | cons hd rest ih =>
    obtain ⟨q, w⟩ := hd
    obtain ⟨hq, hrest⟩ := List.pairwise_cons.mp hm
    rw [insertIn]
    cases hc : p.compare q with
    | lt =>
      refine List.pairwise_cons.mpr ⟨?_, hm⟩
      intro e he
      rcases List.mem_cons.mp he with rfl | he
      · exact hc
      · exact TransCmp.lt_trans hc (hq e he)
    | eq => exact List.pairwise_cons.mpr ⟨hq, hrest⟩
    | gt =>
      exact List.pairwise_cons.mpr
        ⟨lt_of_mem_insertIn (OrientedCmp.lt_of_gt hc) hq, ih hrest⟩

theorem get?_insert (m : PathMap α) (p q : Path) (v : α) :
    (m.insert p v).get? q = if q.same p then some v else m.get? q := by
  obtain ⟨l⟩ := m
  show findIn q (insertIn p v l) = if q.same p then some v else findIn q l
  induction l with
  | nil => rfl
  | cons hd rest ih =>
    obtain ⟨r, w⟩ := hd
    rw [insertIn]
    cases hc : p.compare r with
    | lt => rfl
    | eq =>
      have hsame : q.same p = q.same r := by
        rw [Path.same_comm q p, Path.same_comm q r, Path.same_congr (Path.compare_eq_iff.mp hc)]
      simp only [findIn, hsame]
      cases q.same r <;> rfl
    | gt =>
      simp only [findIn, ih]
      by_cases hr : q.same r = true
      · -- the two keys differ, so `q` cannot be the one that is inserted
        have hp : q.same p = false := by
          rw [Path.same_congr hr]
          exact Path.not_same_of_lt (OrientedCmp.lt_of_gt hc)
        simp [hr, hp]
      · simp [hr]

theorem contains_insert (m : PathMap α) (p q : Path) (v : α) :
    (m.insert p v).contains q = (q.same p || m.contains q) := by
  unfold contains
  rw [get?_insert]
  cases q.same p <;> rfl

/-- The entry after an insertion: a key that was there keeps its spelling. -/
theorem stored?_insert {m : PathMap α} (hm : m.Sorted) (p q : Path) (v : α) :
    (m.insert p v).stored? q =
      if q.same p then some (((m.stored? p).map Prod.fst).getD p, v) else m.stored? q := by
  obtain ⟨l⟩ := m
  show (insertIn p v l).find? (fun e => q.same e.1) =
    if q.same p then some (((l.find? fun e => p.same e.1).map Prod.fst).getD p, v)
    else l.find? fun e => q.same e.1
  replace hm : l.Pairwise fun a b => a.1.compare b.1 = .lt := hm
  induction l with
  | nil => cases hqp : q.same p <;> simp [insertIn, hqp]
  | cons hd rest ih =>
    obtain ⟨r, w⟩ := hd
    obtain ⟨hr, hrest⟩ := List.pairwise_cons.mp hm
    rw [insertIn]
    cases hc : p.compare r with
    | lt =>
      -- every key of the list is greater, so `p` is new
      have hnone : ((r, w) :: rest).find? (fun e => p.same e.1) = none := by
        rw [List.find?_eq_none]
        intro e he
        rcases List.mem_cons.mp he with rfl | he
        · rw [Path.not_same_of_lt hc]; exact Bool.false_ne_true
        · rw [Path.not_same_of_lt (TransCmp.lt_trans hc (hr e he))]; exact Bool.false_ne_true
      rw [hnone]
      cases hqp : q.same p <;> simp [List.find?_cons, hqp]
    | eq =>
      have hpr : p.same r = true := Path.compare_eq_iff.mp hc
      have hsame : q.same p = q.same r := by
        rw [Path.same_comm q p, Path.same_comm q r, Path.same_congr hpr]
      cases hqr : q.same r <;> simp [hpr, hsame, hqr]
    | gt =>
      have hpr : p.same r = false := by
        rw [Path.same_comm]
        exact Path.not_same_of_lt (OrientedCmp.lt_of_gt hc)
      simp only [List.find?_cons, hpr, ih hrest]
      by_cases hqr : q.same r = true
      · have hqp : q.same p = false := by rw [Path.same_congr hqr, Path.same_comm, hpr]
        simp [hqr, hqp]
      · simp [hqr]

/-- What an insertion leaves at a path depends on the entry that was there. -/
theorem stored?_insert_congr {m n : PathMap α} (hm : m.Sorted) (hn : n.Sorted) {p : Path}
    (h : m.stored? p = n.stored? p) (q : Path) (v : α) :
    (m.insert q v).stored? p = (n.insert q v).stored? p := by
  rw [stored?_insert hm, stored?_insert hn]
  by_cases hpq : p.same q = true
  · rw [← stored?_congr hpq, ← stored?_congr hpq, h]
  · rw [if_neg hpq, if_neg hpq, h]

/-! ## Erasing -/

theorem Sorted.erase {m : PathMap α} (hm : m.Sorted) (p : Path) : (m.erase p).Sorted :=
  List.Pairwise.filter _ hm

theorem stored?_erase (m : PathMap α) (p q : Path) :
    (m.erase p).stored? q = if q.same p then none else m.stored? q := by
  unfold stored? erase
  rw [List.find?_filter]
  by_cases hqp : q.same p = true
  · rw [if_pos hqp, List.find?_eq_none]
    intro e _
    rw [Path.same_congr hqp]
    cases p.same e.1 <;> simp
  · rw [if_neg hqp]
    congr 1
    funext e
    by_cases hqe : q.same e.1 = true
    · have hpe : p.same e.1 = false := by
        rw [Path.same_comm, ← Path.same_congr hqe]
        exact Bool.eq_false_iff.mpr hqp
      simp [hqe, hpe]
    · simp [hqe]

theorem get?_erase (m : PathMap α) (p q : Path) :
    (m.erase p).get? q = if q.same p then none else m.get? q := by
  rw [get?_eq_stored?, stored?_erase, get?_eq_stored?]
  cases q.same p <;> rfl

/-! ## Sorted tables -/

theorem Sorted.stored?_of_mem {m : PathMap α} (hm : m.Sorted) {e : Path × α} (he : e ∈ m.entries) :
    m.stored? e.1 = some e := by
  obtain ⟨l⟩ := m
  show l.find? (fun d => e.1.same d.1) = some e
  replace hm : l.Pairwise fun a b => a.1.compare b.1 = .lt := hm
  replace he : e ∈ l := he
  induction l with
  | nil => exact absurd he List.not_mem_nil
  | cons hd rest ih =>
    obtain ⟨hhd, hrest⟩ := List.pairwise_cons.mp hm
    rcases List.mem_cons.mp he with rfl | he
    · rw [List.find?_cons, Path.same_self]
    · have hne : e.1.same hd.1 = false := by
        rw [Path.same_comm]
        exact Path.not_same_of_lt (hhd e he)
      rw [List.find?_cons, hne]
      exact ih hrest he

theorem mem_of_stored? {m : PathMap α} {p : Path} {e : Path × α} (h : m.stored? p = some e) :
    e ∈ m.entries :=
  List.mem_of_find?_eq_some h

theorem Sorted.mem_values_iff {m : PathMap α} (hm : m.Sorted) {v : α} :
    v ∈ m.values ↔ ∃ p, m.get? p = some v := by
  constructor
  · intro hv
    obtain ⟨e, he, rfl⟩ := List.mem_map.mp hv
    exact ⟨e.1, by rw [get?_eq_stored?, hm.stored?_of_mem he]; rfl⟩
  · rintro ⟨p, hp⟩
    rw [get?_eq_stored?] at hp
    obtain ⟨e, he, rfl⟩ := Option.map_eq_some_iff.mp hp
    exact List.mem_map_of_mem (mem_of_stored? he)

/-- A key smaller than all keys of a list has no value in it, however it is spelled. -/
theorem findIn_eq_none_of_lt {p a : Path} {l : List (Path × α)} (hp : p.same a = true)
    (h : ∀ e ∈ l, a.compare e.1 = .lt) : findIn p l = none := by
  rw [findIn_eq, Option.map_eq_none_iff, List.find?_eq_none]
  intro e he
  rw [Path.same_congr hp, Path.not_same_of_lt (h e he)]
  exact Bool.false_ne_true

/-- Of two lists that say the same, the first does not start with a smaller key: that key would be
missing in the second. -/
theorem head_not_lt {d e : Path × α} {l k : List (Path × α)} (hk : ∀ x ∈ k, e.1.compare x.1 = .lt)
    (h : ∀ p, findIn p (d :: l) = findIn p (e :: k)) : d.1.compare e.1 ≠ .lt := by
  intro hlt
  have hmiss : findIn d.1 (e :: k) = none := by
    refine findIn_eq_none_of_lt (Path.same_self _) fun x hx => ?_
    rcases List.mem_cons.mp hx with rfl | hx
    · exact hlt
    · exact TransCmp.lt_trans hlt (hk x hx)
  rw [← h d.1] at hmiss
  simp [findIn] at hmiss

/-- Two sorted tables that say the same of every path hold the same values in the same order. -/
theorem Sorted.values_eq {m n : PathMap α} (hm : m.Sorted) (hn : n.Sorted)
    (h : ∀ p, m.get? p = n.get? p) : m.values = n.values := by
  obtain ⟨l⟩ := m
  obtain ⟨k⟩ := n
  show l.map Prod.snd = k.map Prod.snd
  replace hm : l.Pairwise fun a b => a.1.compare b.1 = .lt := hm
  replace hn : k.Pairwise fun a b => a.1.compare b.1 = .lt := hn
  replace h : ∀ p, findIn p l = findIn p k := h
  induction l generalizing k with
  | nil =>
    cases k with
    | nil => rfl
    | cons e rest => simpa [findIn] using h e.1
  | cons d l ih =>
    cases k with
    | nil => simpa [findIn] using h d.1
    | cons e k =>
      obtain ⟨hd, hl⟩ := List.pairwise_cons.mp hm
      obtain ⟨he, hk⟩ := List.pairwise_cons.mp hn
      have hsame : d.1.same e.1 = true := by
        rw [← Path.compare_eq_iff]
        cases hc : d.1.compare e.1 with
        | lt => exact absurd hc (head_not_lt he h)
        | gt => exact absurd (OrientedCmp.lt_of_gt hc) (head_not_lt hd fun p => (h p).symm)
        | eq => rfl
      have hv : d.2 = e.2 := by simpa [findIn, hsame] using h d.1
      have htail : ∀ p, findIn p l = findIn p k := by
        intro p
        by_cases hp : p.same d.1 = true
        · have hpe : p.same e.1 = true := by rw [Path.same_congr hp, hsame]
          rw [findIn_eq_none_of_lt hp hd, findIn_eq_none_of_lt hpe he]
        · have hpe : p.same e.1 = false := by
            rw [Path.same_comm, ← Path.same_congr hsame, Path.same_comm]
            exact Bool.eq_false_iff.mpr hp
          simpa [findIn, hp, hpe] using h p
      rw [List.map_cons, List.map_cons, hv, ih k hl hk htail]

theorem Sorted.mem_entries_iff {m : PathMap α} (hm : m.Sorted) {e : Path × α} :
    e ∈ m.entries ↔ m.stored? e.1 = some e := ⟨hm.stored?_of_mem, mem_of_stored?⟩

theorem Sorted.mem_keys_iff {m : PathMap α} (hm : m.Sorted) {p : Path} :
    p ∈ m.keys ↔ (m.stored? p).map Prod.fst = some p := by
  rw [keys, List.mem_map, Option.map_eq_some_iff]
  constructor
  · rintro ⟨e, he, rfl⟩
    exact ⟨e, hm.stored?_of_mem he, rfl⟩
  · rintro ⟨e, he, heq⟩
    exact ⟨e, mem_of_stored? he, heq⟩

/-- A path that comes in is listed as it is spelled, unless it is there already. -/
theorem Sorted.mem_keys_insert {m : PathMap α} (hm : m.Sorted) {p q : Path} {v : α} :
    q ∈ (m.insert p v).keys ↔ (q = p ∧ m.contains q = false) ∨ q ∈ m.keys := by
  rw [(hm.insert p v).mem_keys_iff, hm.mem_keys_iff, stored?_insert hm, contains_eq_isSome_stored?]
  by_cases hqp : q.same p = true
  · rw [if_pos hqp, ← stored?_congr hqp]
    cases m.stored? q with
    | none => simp [eq_comm]
    | some e => simp
  · have hne : q ≠ p := by
      rintro rfl
      exact hqp (Path.same_self q)
    simp [hqp, hne]

theorem mem_keys_erase {m : PathMap α} {p q : Path} :
    q ∈ (m.erase p).keys ↔ p.same q = false ∧ q ∈ m.keys := by
  unfold keys erase
  simp only [List.mem_map, List.mem_filter]
  constructor
  · rintro ⟨e, ⟨he, hp⟩, rfl⟩
    exact ⟨by simpa using hp, e, he, rfl⟩
  · rintro ⟨hp, e, he, rfl⟩
    exact ⟨e, ⟨he, by simpa using hp⟩, rfl⟩

/-- Two sorted tables with the same entry at every path are the same table. -/
theorem Sorted.ext {m n : PathMap α} (hm : m.Sorted) (hn : n.Sorted)
    (h : ∀ p, m.stored? p = n.stored? p) : m = n := by
  let before : Path × α → Path × α → Prop := fun a b => a.1.compare b.1 = .lt
  have hself : ∀ a, ¬ before a a := fun a ha => by
    have hdiffers := Path.not_same_of_lt ha
    rw [Path.same_self] at hdiffers
    cases hdiffers
  have : Std.Irrefl before := ⟨hself⟩
  have : Std.Antisymm before := ⟨fun a b hab hba => absurd (TransCmp.lt_trans hab hba) (hself a)⟩
  have hentries : m.entries = n.entries := by
    refine List.Pairwise.eq_of_mem_iff (r := before) hm hn fun e => ?_
    rw [hm.mem_entries_iff, hn.mem_entries_iff, h]
  obtain ⟨l⟩ := m
  obtain ⟨k⟩ := n
  rw [show l = k from hentries]

/-! ## Tables in any order -/

/-- No two keys mean the same path. -/
def Distinct (m : PathMap α) : Prop := m.entries.Pairwise fun a b => a.1.same b.1 = false

theorem Sorted.distinct {m : PathMap α} (hm : m.Sorted) : m.Distinct :=
  List.Pairwise.imp Path.not_same_of_lt hm

theorem Distinct.erase {m : PathMap α} (hm : m.Distinct) (p : Path) : (m.erase p).Distinct :=
  List.Pairwise.filter _ hm

theorem Distinct.size_erase {m : PathMap α} (hm : m.Distinct) (p : Path) :
    (m.erase p).size + (if m.contains p then 1 else 0) = m.size := by
  rw [← any_keys]
  obtain ⟨l⟩ := m
  show (l.filter fun e => ¬ p.same e.1).length + (if (l.map Prod.fst).any p.same then 1 else 0) = l.length
  replace hm : l.Pairwise fun a b => a.1.same b.1 = false := hm
  induction l with
  | nil => rfl
  | cons e rest ih =>
    obtain ⟨he, hrest⟩ := List.pairwise_cons.mp hm
    cases hp : p.same e.1 with
    | true =>
      -- the entries behind have other paths
      have hkeep : rest.filter (fun d => ¬ p.same d.1) = rest := by
        refine List.filter_eq_self.mpr fun d hd => ?_
        rw [Path.same_congr hp, he d hd]
        rfl
      rw [List.filter_cons_of_neg (by simp [hp]), hkeep, List.map_cons, List.any_cons, hp, Bool.true_or,
        if_pos rfl, List.length_cons]
    | false =>
      rw [List.filter_cons_of_pos (by simp [hp]), List.map_cons, List.any_cons, hp, Bool.false_or,
        List.length_cons, List.length_cons, ← ih hrest]
      omega

theorem Distinct.perm {m n : PathMap α} (hm : m.Distinct) (h : n.entries.Perm m.entries) : n.Distinct :=
  (h.pairwise_iff fun hab => (Path.same_comm _ _).trans hab).mpr hm

theorem Distinct.stored?_eq_some_iff {m : PathMap α} (hm : m.Distinct) {p : Path} {e : Path × α} :
    m.stored? p = some e ↔ e ∈ m.entries ∧ p.same e.1 = true := by
  refine ⟨fun h => ⟨mem_of_stored? h, same_of_stored? h⟩, fun ⟨he, hp⟩ => ?_⟩
  obtain ⟨d, hd⟩ : ∃ d, m.stored? p = some d :=
    Option.isSome_iff_exists.mp (List.find?_isSome.mpr ⟨e, he, hp⟩)
  -- two entries for one path have one key, so that they are one entry
  have hkeys : d.1.same e.1 = true := by rw [← Path.same_congr (same_of_stored? hd), hp]
  have heq : d = e := by
    refine List.Pairwise.forall_of_forall_of_flip (l := m.entries) (R := fun a b => a.1.same b.1 = true → a = b)
      (fun _ _ _ => rfl) (List.Pairwise.imp ?_ hm) (List.Pairwise.imp ?_ hm) (mem_of_stored? hd) he hkeys
    · intro a b hab hsame
      rw [hab] at hsame
      cases hsame
    · intro a b hab hsame
      rw [Path.same_comm, hab] at hsame
      cases hsame
  rw [hd, heq]

/-- The order in which different keys are listed does not matter. -/
theorem Distinct.stored?_eq_of_perm {m n : PathMap α} (hm : m.Distinct)
    (h : n.entries.Perm m.entries) (p : Path) : n.stored? p = m.stored? p := by
  refine Option.ext fun e => ?_
  rw [(hm.perm h).stored?_eq_some_iff, hm.stored?_eq_some_iff, h.mem_iff]

theorem contains_eq_of_perm {m n : PathMap α} (h : n.entries.Perm m.entries) (p : Path) :
    n.contains p = m.contains p := by
  rw [contains_eq_isSome_stored?, contains_eq_isSome_stored?, stored?, stored?, List.isSome_find?,
    List.isSome_find?, h.any_eq]

end GroovyWorkspace.PathMap
