import GroovyWorkspace.Path.Normal
import GroovyWorkspace.Path.Order

/-!
# The order of paths is total

`Path.compare` is the lexicographic order of the components, so it is oriented and transitive, and it
calls two paths equal exactly if they have the same components. If no two of some paths are spellings of
one, sorting gives a list that goes strictly up (`pairwise_lt_sort`), and then it depends on what is in the
list alone (`eq_of_pairwise_lt`).
-/

namespace GroovyWorkspace

open Std

theorem compareBytes_eq_compare : ∀ a b : List UInt8, compareBytes a b = compare a b
  | [], [] => rfl
  | [], _ :: _ => rfl
  | _ :: _, [] => rfl
  | a :: as, b :: bs => by
    rw [compareBytes, List.compare_cons_cons, compareBytes_eq_compare as bs]
    by_cases hlt : a < b
    · rw [if_pos hlt, compare_eq_lt.mpr hlt, Ordering.lt_then]
    · by_cases hgt : b < a
      · rw [if_neg hlt, if_pos hgt, compare_eq_gt.mpr hgt, Ordering.gt_then]
      · have heq : a = b := UInt8.le_antisymm (UInt8.not_lt.mp hgt) (UInt8.not_lt.mp hlt)
        rw [if_neg hlt, if_neg hgt, Std.compare_eq_iff_eq.mpr heq, Ordering.eq_then]

theorem compareBytes_eq_lt_iff {a b : List UInt8} : compareBytes a b = .lt ↔ a < b := by
  fun_induction compareBytes a b with
  | case1 => simp
  | case2 b bs => simp
  | case3 a as => simp
  | case4 a as b bs hlt => simp [List.cons_lt_cons_iff, hlt]
  | case5 a as b bs hlt hgt =>
    have hne : a ≠ b := by rintro rfl; exact hlt hgt
    simp [List.cons_lt_cons_iff, hlt, hne]
  | case6 a as b bs hlt hgt ih =>
    have heq : a = b := UInt8.le_antisymm (UInt8.not_lt.mp hgt) (UInt8.not_lt.mp hlt)
    simp [heq, ih]

namespace Component

/-- Components are compared by kind first and by bytes afterwards. -/
theorem compare_eq_compareLex :
    Component.compare = compareLex (compareOn rank) (compareOn Path.componentBytes) := by
  funext a b
  cases a <;> cases b <;>
    simp only [Component.compare, compareLex, compareOn, rank, compareBytes_eq_compare] <;> rfl

instance : TransCmp Component.compare := by
  rw [compare_eq_compareLex]
  infer_instance

instance : LawfulEqCmp Component.compare where
  eq_of_compare {a b} h := by
    rw [compare_eq_compareLex, compareLex_eq_eq] at h
    obtain ⟨hrank, hbytes⟩ := h
    have hr : a.rank = b.rank := LawfulEqOrd.eq_of_compare hrank
    have hb : Path.componentBytes a = Path.componentBytes b := LawfulEqOrd.eq_of_compare hbytes
    cases a <;> cases b <;> simp_all [rank, Path.componentBytes]

end Component

namespace Path

theorem compareComponents_eq_compareLex :
    ∀ cs ds, compareComponents cs ds = List.compareLex Component.compare cs ds
  | [], [] => rfl
  | [], _ :: _ => rfl
  | _ :: _, [] => rfl
  | c :: cs, d :: ds => by
    rw [compareComponents, List.compareLex_cons_cons, compareComponents_eq_compareLex cs ds]
    cases c.compare d <;> rfl

theorem compare_eq_compareLex (p q : Path) :
    p.compare q = List.compareLex Component.compare p.components q.components :=
  compareComponents_eq_compareLex _ _

theorem same_iff {p q : Path} : p.same q = true ↔ p.components = q.components := by
  unfold same; exact decide_eq_true_iff

@[simp] theorem same_self (p : Path) : p.same p = true := same_iff.mpr rfl

theorem same_comm (p q : Path) : p.same q = q.same p := by
  rw [Bool.eq_iff_iff, same_iff, same_iff]; exact eq_comm

theorem same_congr {p q : Path} (h : p.same q = true) (r : Path) : p.same r = q.same r := by
  rw [Bool.eq_iff_iff, same_iff, same_iff, same_iff.mp h]

instance : TransCmp Path.compare where
  eq_swap {p q} := by
    rw [compare_eq_compareLex, compare_eq_compareLex]
    exact OrientedCmp.eq_swap
  isLE_trans {p q r} := by
    rw [compare_eq_compareLex, compare_eq_compareLex, compare_eq_compareLex]
    exact TransCmp.isLE_trans

/-- The order tells two paths apart exactly if their components differ. -/
theorem compare_eq_iff {p q : Path} : p.compare q = .eq ↔ p.same q = true := by
  rw [compare_eq_compareLex, LawfulEqCmp.compare_eq_iff_eq, same_iff]

theorem not_same_of_lt {p q : Path} (h : p.compare q = .lt) : p.same q = false := by
  rw [← Bool.not_eq_true, ← compare_eq_iff, h]
  exact nofun

/-! ## Sorting -/

theorem sort_perm (ps : List Path) : (sort ps).Perm ps := List.mergeSort_perm ps _

theorem mem_sort {q : Path} {ps : List Path} : q ∈ sort ps ↔ q ∈ ps := List.mem_mergeSort

theorem isLE_total (p q : Path) : ((p.compare q).isLE || (q.compare p).isLE) = true := by
  have hswap : q.compare p = (p.compare q).swap := OrientedCmp.eq_swap
  rw [hswap]
  cases p.compare q <;> rfl

theorem pairwise_lt_sort {ps : List Path} (h : ps.Pairwise fun p q => p.same q = false) :
    (sort ps).Pairwise fun p q => p.compare q = .lt := by
  have hdiffer : (sort ps).Pairwise fun p q => p.same q = false :=
    (sort_perm ps).symm.pairwise h fun {p q} hpq => by rwa [same_comm]
  have hsorted : (sort ps).Pairwise fun p q => (p.compare q).isLE = true :=
    List.pairwise_mergeSort (fun _ _ _ => TransCmp.isLE_trans) isLE_total ps
  refine (hsorted.and hdiffer).imp fun {p q} hpq => ?_
  obtain ⟨hle, hsame⟩ := hpq
  cases hcmp : p.compare q with
  | lt => rfl
  | eq => rw [compare_eq_iff.mp hcmp] at hsame; cases hsame
  | gt => rw [hcmp] at hle; cases hle

theorem not_lt_self (p : Path) : p.compare p ≠ .lt := by
  rw [compare_eq_iff.mpr (same_self p)]
  exact nofun

theorem eq_of_pairwise_lt {ps qs : List Path} (hps : ps.Pairwise fun p q => p.compare q = .lt)
    (hqs : qs.Pairwise fun p q => p.compare q = .lt) (h : ∀ p, p ∈ ps ↔ p ∈ qs) : ps = qs := by
  have hnodup : ∀ rs : List Path, (rs.Pairwise fun p q => p.compare q = .lt) → rs.Nodup := by
    intro rs hrs
    refine hrs.imp ?_
    rintro p q hlt rfl
    exact not_lt_self p hlt
  have hperm : ps.Perm qs := (List.perm_ext_iff_of_nodup (hnodup ps hps) (hnodup qs hqs)).mpr h
  refine hperm.eq_of_pairwise (fun p q _ _ hpq hqp => ?_) hps hqs
  exact absurd (TransCmp.lt_trans hpq hqp) (not_lt_self p)

/-- Sorting gives the one list with the same paths that goes strictly up. -/
theorem sort_eq_of_perm {ps qs : List Path} (h : ps.Perm qs)
    (hqs : qs.Pairwise fun p q => p.compare q = .lt) : sort ps = qs := by
  have hps : ps.Pairwise fun p q => p.same q = false :=
    h.symm.pairwise (hqs.imp not_same_of_lt) fun {p q} hpq => by rwa [same_comm]
  refine eq_of_pairwise_lt (pairwise_lt_sort hps) hqs fun p => ?_
  rw [mem_sort, h.mem_iff]

end Path
end GroovyWorkspace
