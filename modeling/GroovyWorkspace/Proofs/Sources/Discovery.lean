import GroovyWorkspace.Proofs.FileSystem.Walk
import GroovyWorkspace.Proofs.Sources.Build

/-!
# The files below a root

Every file that is found lies under the root, at names that the walk has passed. Below one root a path
therefore is always found in one spelling, whatever becomes of the disk in between (`fileAt_eq`).
-/

namespace GroovyWorkspace

namespace CompilationUnit

theorem filesOf_under {fs : FileSystem} (hfs : fs.WellNamed) {root q : Path}
    (hq : q ∈ filesOf fs root) : ∃ ns, (∀ n ∈ ns, IsName n) ∧ q = root.under ns := by
  unfold filesOf at hq
  split at hq
  · cases hg : fs.groovyFiles root with
    | error e => rw [hg] at hq; cases hq
    | ok files =>
      rw [hg] at hq
      replace hq : q ∈ files := hq
      obtain ⟨visits, hwalk, hfiles⟩ := bind_eq_ok.mp hg
      cases hfiles
      rw [Path.mem_sort, List.mem_map] at hq
      obtain ⟨v, hv, rfl⟩ := hq
      exact hfs.walk_under hwalk (List.mem_filter.mp hv).1
  · cases hq

/-- Whether a path is among the files found below a root, in some spelling. -/
def isListed (fs : FileSystem) (root : Option Path) (p : Path) : Bool :=
  (root.elim [] (filesOf fs)).any p.same

theorem isSome_fileAt (fs : FileSystem) (root : Option Path) (p : Path) :
    (fileAt fs root p).isSome = isListed fs root p := by
  unfold fileAt isListed
  rw [List.isSome_find?, List.any_reverse]

theorem fileAt_under {fs : FileSystem} (hfs : fs.WellNamed) {root p q : Path}
    (h : fileAt fs (some root) p = some q) : ∃ ns, (∀ n ∈ ns, IsName n) ∧ q = root.under ns :=
  filesOf_under hfs (List.mem_reverse.mp (List.mem_of_find?_eq_some h))

/-- Two file systems that both list a path below a root list it in the same spelling. -/
theorem fileAt_eq {fs gs : FileSystem} (hfs : fs.WellNamed) (hgs : gs.WellNamed)
    {root : Option Path} {p : Path} (h : isListed fs root p = isListed gs root p) :
    fileAt fs root p = fileAt gs root p := by
  rw [← isSome_fileAt, ← isSome_fileAt] at h
  cases root with
  | none => rfl
  | some root =>
    cases hf : fileAt fs (some root) p with
    | none =>
      rw [hf] at h
      exact (Option.isNone_iff_eq_none.mp (by rw [← Option.not_isSome, ← h]; rfl)).symm
    | some q =>
      rw [hf] at h
      obtain ⟨r, hg⟩ := Option.isSome_iff_exists.mp h.symm
      obtain ⟨ns, hns, rfl⟩ := fileAt_under hfs hf
      obtain ⟨ms, hms, rfl⟩ := fileAt_under hgs hg
      have hq : p.components = (root.under ns).components := Path.same_iff.mp (List.find?_some hf)
      have hr : p.components = (root.under ms).components := Path.same_iff.mp (List.find?_some hg)
      rw [hg, Path.under_injective hns hms (hq.symm.trans hr)]

end CompilationUnit
end GroovyWorkspace
