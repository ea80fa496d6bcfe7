import GroovyWorkspace.Library.Classpath
import GroovyWorkspace.Proofs.Path.Order
import Mathlib.Data.List.Induction

/-!
# Classpaths keep first spellings

A path is added to a classpath if no entry is a spelling of it. What is compared is what a path means, and
what is kept is how it is spelled. So the entries are the given paths without those that an earlier one is a
spelling of (`entries_of_madeFrom`), whether the paths came one by one or in lists.
-/

namespace GroovyWorkspace

namespace Path

/-- The paths of a list that no earlier path of it is a spelling of. -/
def firsts (ps : List Path) : List Path :=
  (ps.zipIdx.filter fun e => !(ps.take e.2).any e.1.same).map Prod.fst

theorem firsts_concat (ps : List Path) (p : Path) :
    firsts (ps ++ [p]) = firsts ps ++ if ps.any p.same then [] else [p] := by
  -- what stands before a path of `ps` is the same in the longer list
  have hkeep : ps.zipIdx.filter (fun e => !((ps ++ [p]).take e.2).any e.1.same) =
      ps.zipIdx.filter fun e => !(ps.take e.2).any e.1.same := by
    refine List.filter_congr fun e he => ?_
    have hlt : e.2 < ps.length := by simpa using (List.mem_zipIdx he).2.1
    rw [List.take_append_of_le_length (Nat.le_of_lt hlt)]
  unfold firsts
  rw [List.zipIdx_append, List.filter_append, List.map_append, hkeep]
  congr 1
  cases hp : ps.any p.same <;> simp [hp]

theorem find?_firsts (ps : List Path) (p : Path) : (firsts ps).find? p.same = ps.find? p.same := by
  induction ps using List.reverseRecOn with
  | nil => rfl
  | append_singleton ps q ih =>
    rw [firsts_concat, List.find?_append, List.find?_append, ih]
    cases hq : ps.any q.same with
    | false => rfl
    | true =>
      cases hp : ps.find? p.same with
      | some r => rfl
      | none =>
        -- `q` has been there before, and `p` has not
        have hpq : p.same q = false := by
          rw [Bool.eq_false_iff]
          intro hsame
          rw [← List.isSome_find?, ← funext (same_congr hsame), hp] at hq
          cases hq
        simp [hpq]

theorem any_firsts (ps : List Path) (p : Path) : (firsts ps).any p.same = ps.any p.same := by
  rw [← List.isSome_find?, ← List.isSome_find?, find?_firsts]

theorem pairwise_firsts (ps : List Path) : (firsts ps).Pairwise fun p q => p.same q = false := by
  induction ps using List.reverseRecOn with
  | nil => exact List.Pairwise.nil
  | append_singleton ps q ih =>
    rw [firsts_concat, List.pairwise_append]
    cases hq : ps.any q.same with
    | true => exact ⟨ih, List.Pairwise.nil, fun _ _ _ h => absurd h List.not_mem_nil⟩
    | false =>
      refine ⟨ih, List.pairwise_singleton _ _, fun p hp r hr => ?_⟩
      obtain rfl := List.mem_singleton.mp hr
      rw [← any_firsts, List.any_eq_false] at hq
      rw [same_comm, Bool.eq_false_iff]
      exact hq p hp

theorem firsts_eq_self {ps : List Path} (h : ps.Pairwise fun p q => p.same q = false) : firsts ps = ps := by
  induction ps using List.reverseRecOn with
  | nil => rfl
  | append_singleton ps q ih =>
    obtain ⟨hps, -, hq⟩ := List.pairwise_append.mp h
    have hnew : ps.any q.same = false := by
      rw [List.any_eq_false]
      intro p hp
      rw [same_comm, hq p hp q (List.mem_singleton_self q)]
      exact Bool.false_ne_true
    rw [firsts_concat, ih hps, hnew, if_neg Bool.false_ne_true]

end Path

namespace Classpath

variable {c : Classpath} {given : List Path}

theorem entries_push (h : c.entries = Path.firsts given) (p : Path) :
    (c.push p).entries = Path.firsts (given ++ [p]) := by
  rw [push, Path.firsts_concat, ← Path.any_firsts given p, ← h]
  cases c.entries.any p.same
  · rfl
  · exact (List.append_nil _).symm

theorem entries_extend (h : c.entries = Path.firsts given) (ps : List Path) :
    (c.extend ps).entries = Path.firsts (given ++ ps) := by
  induction ps generalizing c given with
  | nil => rw [List.append_nil]; exact h
  | cons p rest ih =>
    rw [List.append_cons]
    exact ih (entries_push h p)

theorem entries_ofList (ps : List Path) : (ofList ps).entries = Path.firsts ps := by
  have hempty : empty.entries = Path.firsts [] := rfl
  exact entries_extend hempty ps

theorem extend_extend (c : Classpath) (ps qs : List Path) : (c.extend ps).extend qs = c.extend (ps ++ qs) :=
  List.foldl_append.symm

theorem extend_of_forall {ps : List Path} (h : ∀ p ∈ ps, c.entries.any p.same = true) : c.extend ps = c := by
  induction ps with
  | nil => rfl
  | cons p rest ih =>
    rw [List.forall_mem_cons] at h
    have hpush : c.push p = c := by rw [push, if_pos h.1]
    rw [extend, List.foldl_cons, hpush]
    exact ih h.2

/-- A classpath that has been made from none by adding one path, adding a list of paths, or collecting a list
of paths into a new classpath, with all paths that have been given for it. -/
inductive MadeFrom : List Path → Classpath → Prop
  | empty : MadeFrom [] empty
  | push {given : List Path} {c : Classpath} (h : MadeFrom given c) (p : Path) :
    MadeFrom (given ++ [p]) (c.push p)
  | extend {given : List Path} {c : Classpath} (h : MadeFrom given c) (ps : List Path) :
    MadeFrom (given ++ ps) (c.extend ps)
  | collect (ps : List Path) : MadeFrom ps (ofList ps)

theorem MadeFrom.entries_eq (h : MadeFrom given c) : c.entries = Path.firsts given := by
  induction h with
  | empty => rfl
  | push _ p ih => exact entries_push ih p
  | extend _ ps ih => exact entries_extend ih ps
  | collect ps => exact entries_ofList ps

/-- **Classpaths keep first spellings.** The entries of a classpath are the paths given for it, in order,
without those that an earlier one is a spelling of. So no two entries are spellings of one path, and each path
has its first spelling. Adding paths that are there changes nothing, and adding two lists is adding one behind
the other. -/
theorem entries_of_madeFrom (h : MadeFrom given c) :
    c.entries = Path.firsts given ∧
      (c.entries.Pairwise fun p q => p.same q = false) ∧
      (∀ p : Path, c.entries.find? p.same = given.find? p.same) ∧
      (∀ ps, (∀ p ∈ ps, c.entries.any p.same = true) → c.extend ps = c) ∧
      ∀ ps qs, (c.extend ps).extend qs = c.extend (ps ++ qs) := by
  have hentries := h.entries_eq
  refine ⟨hentries, ?_, fun p => ?_, fun ps => extend_of_forall, extend_extend c⟩
  · rw [hentries]
    exact Path.pairwise_firsts given
  · rw [hentries]
    exact Path.find?_firsts given p

/-- Two paths in two spellings each, and one that only looks like the first. -/
def mixedSpellings : List Path :=
  [.ofString "libs/a.jar", .ofString "libs//b.jar", .ofString "libs/./a.jar", .ofString "./libs/a.jar",
    .ofString "libs/b.jar/"]

/-- A classpath that has been collected, then pushed to, then extended. -/
def mixedClasspath : Classpath :=
  ((ofList [.ofString "libs/a.jar", .ofString "libs//b.jar"]).push (.ofString "libs/./a.jar")).extend
    [.ofString "./libs/a.jar", .ofString "libs/b.jar/"]

theorem entries_of_madeFrom_mixedSpellings :
    MadeFrom mixedSpellings mixedClasspath ∧
      mixedClasspath.entries =
        [.ofString "libs/a.jar", .ofString "libs//b.jar", .ofString "./libs/a.jar"] ∧
      mixedClasspath.extend mixedSpellings = mixedClasspath := by
  have hcollected := MadeFrom.collect [.ofString "libs/a.jar", .ofString "libs//b.jar"]
  have hmade : MadeFrom mixedSpellings mixedClasspath :=
    (hcollected.push (.ofString "libs/./a.jar")).extend [.ofString "./libs/a.jar", .ofString "libs/b.jar/"]
  obtain ⟨hentries, -, -, hcontained, -⟩ := entries_of_madeFrom hmade
  exact ⟨hmade, hentries.trans (by decide), hcontained mixedSpellings (by decide)⟩

end Classpath
end GroovyWorkspace
