import GroovyWorkspace.CommandLine.Report

/-!
# The program

From arguments, environment and file system to what is printed and the exit code. Wrong arguments
end with code 2, a command that fails with code 1. The texts of the help and of the completion scripts are
left out: they follow from the description of the arguments alone.
-/

namespace GroovyWorkspace.CommandLine

structure Outcome where
  exit : Nat
  out : Output := .text ""
  err : String := ""
  deriving DecidableEq, Repr

/-- The text without a command. -/
def hint (p : Palette) : String :=
  unlines [p.paint [.bold, .green] programName ++ " Groovy classpath CLI", "",
    "Run " ++ p.paint [.cyan] (programName ++ " --help") ++ " for available commands."]

/-- The report on the setup that options ask for. If there is none, that is all there is to tell. -/
def Setup.reportOn (fs : FileSystem) (e : Environment) (o : Options) (tell : Setup → Report) : Report :=
  match ofOptions fs e o with
  | .ok s => tell s
  | .error err => { failure := some err }

def Command.report (fs : FileSystem) (e : Environment) (o : Options) (p : Palette) : Command → Report
  | .resolve json => Setup.reportOn fs e o fun s => .ofText (s.resolveText fs json)
  | .check => Setup.reportOn fs e o fun s => s.checkReport fs p
  | .classpath json lines => Setup.reportOn fs e o fun s => .ofText (s.classpathText fs json lines)
  | .sources json => Setup.reportOn fs e o fun s => .ofText (s.sourcesText fs json p)
  | .completions shell => { out := .script shell }

def run (fs : FileSystem) (e : Environment) (args : List String) : Outcome :=
  let p : Palette := ⟨e.forcesColour⟩
  match Invocation.ofArguments args with
  | .error err => { exit := 2, err := unlines ["error: " ++ err.message] }
  | .ok .help => { exit := 0, out := .help }
  | .ok .version => { exit := 0, out := .text (unlines [programName ++ " " ++ programVersion]) }
  | .ok (.run _ none) => { exit := 0, out := .text (hint p) }
  | .ok (.run o (some command)) =>
    let report := command.report fs e o p
    match report.failure with
    | none => { exit := 0, out := report.out }
    | some err =>
      { exit := 1
        out := report.out
        err := unlines [p.paint [.bold, .red] "error" ++ ": " ++ err.message] }

end GroovyWorkspace.CommandLine
