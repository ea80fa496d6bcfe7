import GroovyWorkspace.Proofs.Path.Below
import GroovyWorkspace.Proofs.Path.Order

/-!
# Normal forms are canonical

What a path means is the place that it leads to from each folder. `normalize` keeps this meaning
(`placeFrom_normalize`), and two paths with the same meaning have the same normal form, byte for byte
(`normalize_eq_of_placeFrom`). So normal forms stand for meanings (`normalize_canonical`).
-/

namespace GroovyWorkspace

namespace Component

theorem IsNormal.here_not_mem {cs : List Component} (h : IsNormal cs) : .here ∉ cs := by
  cases h with
  | absolute ns => simp
  | relative k ns => simp [List.mem_replicate]

/-- A normal form that does not start at the root is steps upwards and names. -/
theorem IsNormal.exists_relative {cs : List Component} (h : IsNormal cs) (hroot : .root ∉ cs) :
    ∃ k, ∃ ns : List Name, cs = List.replicate k .up ++ ns.map .name := by
  cases h with
  | absolute ns => exact absurd List.mem_cons_self hroot
  | relative k ns => exact ⟨k, ns, rfl⟩

end Component

namespace Path

open Component

/-! ## The form -/

theorem root_not_mem_components {p : Path} (h : p.isAbsolute = false) : .root ∉ p.components := by
  have hlead : .root ∉ p.lead := by
    rw [lead, h, if_neg Bool.false_ne_true]
    split <;> simp
  rw [components, List.mem_append, not_or]
  refine ⟨hlead, fun hmem => ?_⟩
  obtain ⟨part, -, hstep⟩ := List.mem_filterMap.mp hmem
  unfold step? at hstep
  split at hstep
  · cases hstep
  · split at hstep <;> cases hstep

theorem components_normalize_of_isAbsolute {p : Path} (h : p.isAbsolute = true) :
    ∃ ns : List Name, p.normalize.components = .root :: ns.map .name :=
  ⟨_, by rw [components_normalize, components_of_isAbsolute h, normalComponents_root]⟩

/-- The normal form of a relative path is steps upwards and names. -/
theorem components_normalize_of_not_isAbsolute {p : Path} (h : p.isAbsolute = false) :
    ∃ k, ∃ ns : List Name, p.normalize.components = List.replicate k .up ++ ns.map .name := by
  rw [components_normalize]
  refine (isNormal_normalComponents _).exists_relative fun hroot => ?_
  exact root_not_mem_components h (mem_of_mem_normalComponents hroot)

/-! ## The place -/

/-- The place that a path leads to from a folder, one component after the other. -/
def placeFrom (cwd p : Path) : Place := leadsTo (leadsTo [] cwd.components) p.components

theorem placeFrom_normalize (cwd p : Path) : placeFrom cwd p.normalize = placeFrom cwd p := by
  rw [placeFrom, components_normalize, leadsTo_normalComponents]
  rfl

/-- Paths that lead to the same place from every folder have the same normal form. -/
theorem normalize_eq_of_placeFrom {p q : Path}
    (h : ∀ cwd : Path, cwd.isAbsolute = true → placeFrom cwd p = placeFrom cwd q) :
    p.normalize = q.normalize := by
  have hname : IsName [97] := by decide
  -- folders nested in each other under one name are enough to tell normal forms apart
  have hcomponents : normalComponents p.components = normalComponents q.components := by
    refine (isNormal_normalComponents _).eq_of_leadsTo (isNormal_normalComponents _) [97] fun k => ?_
    obtain ⟨cwd, hcwd, hplace⟩ := exists_cwd (List.replicate k [97]) fun n hn =>
      List.eq_of_mem_replicate hn ▸ hname
    have hstart : leadsTo [] cwd.components = List.replicate k [97] := by
      rw [components_of_isAbsolute hcwd]
      exact hplace
    rw [leadsTo_normalComponents, leadsTo_normalComponents, ← hstart]
    exact h cwd hcwd
  rw [normalize, normalize, hcomponents]

theorem normalize_normalize (p : Path) : p.normalize.normalize = p.normalize :=
  normalize_eq_of_placeFrom fun cwd _ => placeFrom_normalize cwd p

/-- **Normal forms are canonical.** A normal form has no `.`; that of an absolute path is the root and
names, and that of a relative path is steps upwards and names. It leads where the path leads from every
folder, two paths have the same normal form exactly if they lead to the same place from every folder, and
it is its own normal form. -/
theorem normalize_canonical (p : Path) :
    .here ∉ p.normalize.components ∧
      (p.isAbsolute = true → ∃ ns : List Name, p.normalize.components = .root :: ns.map .name) ∧
      (p.isAbsolute = false →
        ∃ k, ∃ ns : List Name, p.normalize.components = List.replicate k .up ++ ns.map .name) ∧
      (∀ cwd : Path, cwd.isAbsolute = true → placeFrom cwd p.normalize = placeFrom cwd p) ∧
      (∀ q : Path, (p.normalize = q.normalize ↔
          ∀ cwd : Path, cwd.isAbsolute = true → placeFrom cwd p = placeFrom cwd q) ∧
        (p.normalize.same q.normalize = true ↔ p.normalize = q.normalize)) ∧
      p.normalize.normalize = p.normalize := by
  refine ⟨?_, components_normalize_of_isAbsolute, components_normalize_of_not_isAbsolute,
    fun cwd _ => placeFrom_normalize cwd p, fun q => ⟨⟨?_, normalize_eq_of_placeFrom⟩, ?_⟩,
    normalize_normalize p⟩
  · rw [components_normalize]
    exact (isNormal_normalComponents _).here_not_mem
  · intro heq cwd _
    rw [← placeFrom_normalize cwd p, heq, placeFrom_normalize]
  · rw [same_iff]
    constructor
    · intro hsame
      -- the spelling of a normal form is told by its components
      rw [components_normalize, components_normalize] at hsame
      rw [normalize, normalize, hsame]
    · exact congrArg components

/-- From `/x` the paths `./a/../../b` and `../b` lead to `/b`, and from every folder to the same place. -/
theorem normalize_canonical_dotted :
    (ofString "./a/../../b").isAbsolute = false ∧
      (ofString "./a/../../b").normalize = ofString "../b" ∧
      placeFrom (ofString "/x") (ofString "./a/../../b") = [Text.encode "b"] ∧
      ∀ cwd : Path, cwd.isAbsolute = true →
        placeFrom cwd (ofString "./a/../../b") = placeFrom cwd (ofString "../b") := by
  obtain ⟨-, -, -, -, hiff, -⟩ := normalize_canonical (ofString "./a/../../b")
  exact ⟨by decide, by decide, by decide, (hiff (ofString "../b")).1.mp (by decide)⟩

end Path
end GroovyWorkspace
