import GroovyWorkspace.Proofs.Path.Normal
import Mathlib.Data.List.Infix

/-!
# Below a root, seen from any folder

A path whose normal form begins with that of a root need not lie below the root: where the root is
relative, what follows may start at the root of the file system or go further up. It lies below the root
from every folder exactly if only names follow (`forall_startsWith_join_iff`).
-/

namespace GroovyWorkspace.Path

open Component

/-- The normal form of `p` is that of `root` with names behind it. -/
def AddsNames (root p : Path) : Prop :=
  ∃ ns : List Name, p.normalize.components = root.normalize.components ++ ns.map .name

/-- What follows the start of a normal form is names, or the start is steps upwards only and the whole
leads away from any folder that is no deeper than they go. -/
theorem isNormal_append_cases {start rest : List Component} (h : IsNormal (start ++ rest)) :
    (∃ ns : List Name, rest = ns.map .name) ∨
      ∃ j ns, start = List.replicate j .up ∧
        ∀ n, leadsTo (List.replicate (j + 1) n) (start ++ rest) = ns := by
  generalize hall : start ++ rest = all at h
  cases h with
  | absolute ms =>
    rcases List.append_eq_cons_iff.mp hall with ⟨rfl, rfl⟩ | ⟨front, rfl, hfront⟩
    · exact .inr ⟨0, ms, rfl, fun n => leadsTo_root_names _ ms⟩
    · obtain ⟨-, ns, -, -, hns⟩ := List.map_eq_append_iff.mp hfront
      exact .inl ⟨ns, hns.symm⟩
  | relative k ms =>
    rcases List.append_eq_append_iff.mp hall with ⟨ups, hups, rfl⟩ | ⟨front, -, hfront⟩
    · obtain ⟨hlength, hstart, hrest⟩ := List.replicate_eq_append_iff.mp hups
      cases hk : ups.length with
      | zero => exact .inl ⟨ms, by rw [List.length_eq_zero_iff.mp hk, List.nil_append]⟩
      | succ i =>
        refine .inr ⟨start.length, ms, hstart, fun n => ?_⟩
        rw [leadsTo_ups_names, Nat.sub_eq_zero_of_le (by omega), List.replicate_zero, List.nil_append]
    · obtain ⟨-, ns, -, -, hns⟩ := List.map_eq_append_iff.mp hfront
      exact .inl ⟨ns, hns.symm⟩

/-- A path whose normal form begins with that of a root adds names to it, or the root is steps upwards only
and the path leads away from any folder that is no deeper than they go. -/
theorem addsNames_or_leadsTo {root p : Path} (h : p.normalize.startsWith root.normalize = true) :
    AddsNames root p ∨
      ∃ j ns, normalComponents root.components = List.replicate j .up ∧
        ∀ n, leadsTo (List.replicate (j + 1) n) p.components = ns := by
  obtain ⟨rest, hrest⟩ := startsWith_normalize_iff.mp h
  have hnormal : IsNormal (normalComponents root.components ++ rest) := by
    rw [hrest]
    exact isNormal_normalComponents _
  rcases isNormal_append_cases hnormal with ⟨ns, rfl⟩ | ⟨j, ns, hups, hleads⟩
  · exact .inl ⟨ns, by rw [components_normalize, components_normalize, hrest]⟩
  · refine .inr ⟨j, ns, hups, fun n => ?_⟩
    rw [← hleads n, hrest, leadsTo_normalComponents]

/-- There is a path to every place whose names can name entries. -/
theorem exists_cwd (place : Place) (h : ∀ n ∈ place, IsName n) :
    ∃ cwd : Path, cwd.isAbsolute = true ∧ leadsTo [] cwd.tail = place := by
  have hnames : ∀ n, .name n ∈ Component.root :: place.map .name → IsName n := by
    intro n hn
    exact h n (by simpa using hn)
  have hcomponents := components_ofComponents (.absolute place) hnames
  have habs : (ofComponents (.root :: place.map .name)).isAbsolute = true := by
    cases place <;> rfl
  rw [components_of_isAbsolute habs, List.cons.injEq] at hcomponents
  exact ⟨_, habs, by rw [hcomponents.2, leadsTo_names, List.nil_append]⟩

theorem exists_isName_ne_head (ns : List Name) : ∃ n, IsName n ∧ ns.head? ≠ some n := by
  by_cases h : ns.head? = some [97]
  · exact ⟨[98], by decide, by rw [h]; decide⟩
  · exact ⟨[97], by decide, h⟩

/-- Seen from a folder, paths are compared by the places they lead to. -/
theorem startsWith_join_iff {cwd : Path} (hcwd : cwd.isAbsolute = true) (p root : Path) :
    (cwd.join p).normalize.startsWith (cwd.join root).normalize = true ↔
      leadsTo (leadsTo [] cwd.tail) root.components <+: leadsTo (leadsTo [] cwd.tail) p.components := by
  rw [startsWith_normalize_iff, normalComponents_join hcwd, normalComponents_join hcwd,
    List.cons_prefix_cons, List.prefix_map_iff_of_injective fun _ _ => Component.name.inj]
  exact and_iff_right rfl

/-- A path whose normal form begins with that of a root lies below the root from every folder exactly if
it adds names to the root. -/
theorem forall_startsWith_join_iff {root p : Path} (h : p.normalize.startsWith root.normalize = true) :
    (∀ cwd : Path, cwd.isAbsolute = true →
        (cwd.join p).normalize.startsWith (cwd.join root).normalize = true) ↔ AddsNames root p := by
  constructor
  · intro hall
    rcases addsNames_or_leadsTo h with hadds | ⟨j, ns, hups, hleads⟩
    · exact hadds
    · -- one level deeper than the steps upwards go, the root is a folder that the path need not enter
      obtain ⟨n, hn, hhead⟩ := exists_isName_ne_head ns
      obtain ⟨cwd, hcwd, hplace⟩ := exists_cwd (List.replicate (j + 1) n) fun m hm =>
        List.eq_of_mem_replicate hm ▸ hn
      have hroot : leadsTo (List.replicate (j + 1) n) root.components = [n] := by
        have hone := leadsTo_ups_names n (j + 1) j []
        rwa [Nat.add_sub_cancel_left, List.map_nil, List.append_nil, ← hups,
          leadsTo_normalComponents] at hone
      have hbelow := (startsWith_join_iff hcwd p root).mp (hall cwd hcwd)
      rw [hplace, hleads, hroot] at hbelow
      obtain ⟨more, rfl⟩ := hbelow
      exact absurd rfl hhead
  · rintro ⟨ns, hns⟩ cwd hcwd
    rw [components_normalize, components_normalize] at hns
    rw [startsWith_join_iff hcwd, ← leadsTo_normalComponents _ p.components, hns, leadsTo_append,
      leadsTo_normalComponents, leadsTo_names]
    exact List.prefix_append _ _

theorem addsNames_of_isAbsolute_or_name {root p : Path}
    (h : p.normalize.startsWith root.normalize = true)
    (hroot : root.isAbsolute = true ∨ ∃ n, .name n ∈ root.normalize.components) :
    AddsNames root p := by
  refine (addsNames_or_leadsTo h).resolve_right ?_
  rintro ⟨j, ns, hups, -⟩
  rcases hroot with habs | ⟨n, hn⟩
  · rw [components_of_isAbsolute habs, normalComponents_root] at hups
    cases j <;> cases hups
  · rw [components_normalize, hups] at hn
    cases List.eq_of_mem_replicate hn

end GroovyWorkspace.Path
