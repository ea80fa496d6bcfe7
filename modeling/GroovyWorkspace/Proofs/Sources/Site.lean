import GroovyWorkspace.Proofs.Sources.Build

/-!
# Uses of a factory

A factory is used on a disk that may change under it. What a use can do is said once, in `step_cases`: it
leaves the factory as it was, drops the unit, or is a build that succeeds.
-/

namespace GroovyWorkspace
namespace UnitFactory

/-- What can be done with a factory, and to the disk under it. -/
inductive Use where
  | files (fs : FileSystem)
  | setLibrary (path : Option String)
  | applySettings (store : Store)
  | invalidate
  | create (root : Option Path) (buffers : Buffers)

structure Site where
  fs : FileSystem
  factory : UnitFactory := {}

namespace Site

/-- One use of the factory. A build that fails leaves it as it was. -/
def step (s : Site) : Use → Site
  | .files fs => { s with fs }
  | .setLibrary path => { s with factory := (s.factory.setLibrary s.fs path).1 }
  | .applySettings store => { s with factory := (s.factory.applySettings s.fs store).1 }
  | .invalidate => { s with factory := s.factory.invalidate }
  | .create root buffers =>
    match s.factory.create s.fs root buffers with
    | .ok (_, f) => { s with factory := f }
    | .error _ => s

def run (s : Site) (uses : List Use) : Site := uses.foldl step s

/-- Whether a use sets the library folder, be it to the same one again. -/
def replaces (s : Site) : Use → Bool
  | .setLibrary path => (s.factory.setLibrary s.fs path).2
  | .applySettings store => (s.factory.applySettings s.fs store).2
  | _ => false

theorem run_concat (s : Site) (uses : List Use) (use : Use) :
    s.run (uses ++ [use]) = (s.run uses).step use := by
  unfold run
  rw [List.foldl_append]
  rfl

theorem useLibrary_cases (f : UnitFactory) (folder : Option LibraryFolder) :
    f.useLibrary folder = (f, false) ∨ (f.useLibrary folder).1.cached = none := by
  cases folder with
  | none => exact .inl rfl
  | some folder => exact .inr rfl

/-- A use leaves the factory as it was, drops the unit, or is a build that succeeds. -/
theorem step_cases (s : Site) (use : Use) :
    ((s.step use).factory = s.factory ∧ s.replaces use = false) ∨
      (s.step use).factory.cached = none ∨
      ∃ root buffers u, use = .create root buffers ∧
        s.factory.create s.fs root buffers = .ok (u, { s.factory with cached := some u }) ∧
        s.step use = { s with factory := { s.factory with cached := some u } } := by
  cases use with
  | files fs => exact .inl ⟨rfl, rfl⟩
  | invalidate => exact .inr (.inl rfl)
  | setLibrary path =>
    rcases useLibrary_cases s.factory (path.bind fun t => LibraryFolder.open? s.fs (Path.ofString t))
      with hkeep | hdrop
    · exact .inl ⟨congrArg Prod.fst hkeep, congrArg Prod.snd hkeep⟩
    · exact .inr (.inl hdrop)
  | applySettings store =>
    rcases useLibrary_cases s.factory (LibraryFolder.ofStore? s.fs store) with hkeep | hdrop
    · exact .inl ⟨congrArg Prod.fst hkeep, congrArg Prod.snd hkeep⟩
    · exact .inr (.inl hdrop)
  | create root buffers =>
    cases hc : s.factory.create s.fs root buffers with
    | error e =>
      refine .inl ⟨?_, rfl⟩
      rw [step, hc]
    | ok result =>
      obtain ⟨u, f⟩ := result
      obtain ⟨rfl, -⟩ := create_cases hc
      refine .inr (.inr ⟨root, buffers, u, rfl, hc, ?_⟩)
      rw [step, hc]

theorem cached_of_step {s : Site} {use : Use} (huse : ∀ root buffers, use ≠ .create root buffers)
    {u : CompilationUnit} (hu : (s.step use).factory.cached = some u) : s.factory.cached = some u := by
  rcases s.step_cases use with ⟨hsame, -⟩ | hdrop | ⟨root, buffers, v, rfl, -, -⟩
  · rw [← hsame, hu]
  · rw [hdrop] at hu
    cases hu
  · exact absurd rfl (huse root buffers)

theorem run_fs {s : Site} {uses : List Use} (h : ∀ fs, .files fs ∉ uses) : (s.run uses).fs = s.fs := by
  induction uses generalizing s with
  | nil => rfl
  | cons use more ih =>
    have hstep : (s.step use).fs = s.fs := by
      cases use with
      | files fs => exact absurd List.mem_cons_self (h fs)
      | create root buffers => rw [Site.step]; split <;> rfl
      | _ => rfl
    rw [← hstep]
    exact ih fun fs hfs => h fs (List.mem_cons_of_mem _ hfs)

end Site
end UnitFactory
end GroovyWorkspace
