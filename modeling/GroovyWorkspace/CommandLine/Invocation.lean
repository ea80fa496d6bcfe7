import GroovyWorkspace.CommandLine.Argument
import GroovyWorkspace.Path.Basic

/-!
# Invocations

What a list of arguments asks for. Arguments are read from the left. A value for an option is waited
for and looked at only when the next option or flag comes, or at the end; the arguments before a command
end after those behind it. Behind `--` nothing is an option.
-/

namespace GroovyWorkspace.CommandLine

/-! ## Types -/

inductive Command where
  | resolve (json : Bool)
  | check
  | classpath (json lines : Bool)
  | sources (json : Bool)
  | completions (shell : Shell)
  deriving DecidableEq, Repr

/-- Arguments that every command takes. -/
structure Options where
  verbose : Bool := false
  workspace : Option Path := none
  userSettings : Option Path := none
  additionalLibraries : Option String := none
  deriving DecidableEq, Repr, Inhabited

inductive Invocation where
  | help
  | version
  | run (options : Options) (command : Option Command)
  deriving DecidableEq, Repr

/-- Why reading ends before the arguments do. -/
inductive Stop where
  | error (e : ArgumentError)
  | help
  | version
  deriving DecidableEq, Repr

/-- Something that has a value. -/
inductive Slot where
  | option (o : ValueOption)
  | shell
  deriving DecidableEq, Repr

/-- The arguments read so far at one level. `pending` is what a value was last wanted for, with the
value if it has come. -/
structure Given where
  flags : List Flag := []
  values : List (ValueOption × String) := []
  shell : Option Shell := none
  pending : Option (Slot × Option String) := none
  deriving DecidableEq, Repr, Inhabited

/-! ## One argument -/

namespace Given

def addValue (g : Given) (o : ValueOption) (v : String) : Except Stop Given :=
  if (g.values.lookup o).isSome then .error (.error (.repeated o.shown))
  else if v = "" ∧ ¬ o.takesEmpty then .error (.error (.valueRequired o.shown))
  else .ok { g with values := g.values ++ [(o, v)] }

def addShell (g : Given) (v : String) : Except Stop Given :=
  match Shell.ofName? v with
  | some shell => .ok { g with shell := some shell }
  | none =>
    .error (.error (if v = "" then .valueRequired shellShown else .unknownShell v))

/-- Records the pending value. -/
def settle (g : Given) : Except Stop Given :=
  let cleared := { g with pending := none }
  match g.pending with
  | none => .ok g
  | some (.option o, none) => .error (.error (.valueRequired o.shown))
  | some (.option o, some v) => cleared.addValue o v
  | some (.shell, none) => .error (.error (.valueRequired shellShown))
  | some (.shell, some v) => cleared.addShell v

/-- Whether the next argument is the value of an option, unless it looks like an option itself. -/
def isWaiting (g : Given) : Bool :=
  match g.pending with
  | some (.option _, none) => true
  | _ => false

/-- Records a value that was waited for. -/
def fill (g : Given) (v : String) : Given :=
  { g with pending := g.pending.map fun p => (p.1, some v) }

/-- Records a flag. Help and version end the reading. -/
def addFlag (g : Given) (f : Flag) : Except Stop Given := do
  let g ← g.settle
  match f with
  | .help => .error .help
  | .version => .error .version
  | f =>
    if g.flags.contains f then .error (.error (.repeated f.shown))
    else .ok { g with flags := g.flags ++ [f] }

/-- Reads an option or flag by its long name, with the value behind the equals sign if there is one. -/
def long (level : Level) (g : Given) (name : String) (value : Option String) : Except Stop Given :=
  match level.flagOfName? name, ValueOption.ofName? name, value with
  | some f, _, none => g.addFlag f
  | some f, _, some v => .error (.error (.unexpectedValue v f.shown))
  | none, some o, none => do
    let g ← g.settle
    .ok { g with pending := some (.option o, none) }
  | none, some o, some v => do
    let g ← g.settle
    g.addValue o v
  | none, none, _ => .error (.error (.unexpected ("--" ++ name)))

/-- Reads flags by their letters. -/
def short (level : Level) : Given → List Char → Except Stop Given
  | g, [] => .ok g
  | g, c :: rest =>
    match level.flagOfLetter? c with
    | some f => do short level (← g.addFlag f) rest
    | none => .error (.error (.unexpected (String.ofList ['-', c])))

/-- Whether there is still room for the name of a shell. -/
def takesShell (level : Level) (g : Given) : Bool :=
  level = .behind .completions && g.shell.isNone &&
    match g.pending with
    | some (.shell, _) => false
    | _ => true

/-- Reads an argument that is no option. `closed` says that it stands behind `--`. -/
def word (level : Level) (g : Given) (s : String) (closed : Bool) : Except Stop Given :=
  if g.takesShell level then do
    let g ← g.settle
    .ok { g with pending := some (.shell, some s) }
  else if level ≠ .top then .error (.error (.unexpected s))
  else if closed ∧ ((CommandName.ofName? s).isSome ∨ s = helpWord) then
    .error (.error (.unexpected s))
  else .error (.error (.unknownCommand s))

end Given

/-! ## All arguments -/

/-- Where the words behind the help command lead: each names a command of the one before. Only the
program itself has commands. -/
def helpOn : List String → Stop
  | [] => .help
  | [s] =>
    if (CommandName.ofName? s).isSome ∨ s = helpWord then .help else .error (.unknownCommand s)
  | s :: t :: _ =>
    if (CommandName.ofName? s).isSome ∨ s = helpWord then .error (.unknownCommand t)
    else .error (.unknownCommand s)

/-- The name and the value of a long argument, given behind its two dashes. -/
def splitLong (s : List Char) : String × Option String :=
  match s.dropWhile (· ≠ '=') with
  | [] => (String.ofList s, none)
  | _ :: v => (String.ofList (s.takeWhile (· ≠ '=')), some (String.ofList v))

def readClosed (level : Level) : Given → List String → Except Stop Given
  | g, [] => .ok g
  | g, s :: rest => do readClosed level (← g.word level s true) rest

/-- Reads the arguments of a level: all of them, or those before a command, which then comes with
the arguments behind it. -/
def readLevel (level : Level) :
    Given → List String → Except Stop (Given × Option (CommandName × List String))
  | g, [] => .ok (g, none)
  | g, s :: rest =>
    let command := if level = .top ∧ ¬ g.isWaiting then CommandName.ofName? s else none
    match command, s.toList with
    | some c, _ => .ok (g, some (c, rest))
    | none, ['-', '-'] => do
      let g ← readClosed level g rest
      .ok (g, none)
    | none, '-' :: '-' :: cs => do
      let (name, value) := splitLong cs
      readLevel level (← g.long level name value) rest
    | none, '-' :: c :: cs => do readLevel level (← g.short level (c :: cs)) rest
    | none, _ =>
      if level = .top ∧ ¬ g.isWaiting ∧ s = helpWord then .error (helpOn rest)
      else if g.isWaiting then readLevel level (g.fill s) rest
      else do readLevel level (← g.word level s false) rest

/-- The command that the arguments behind its name make. -/
def Given.toCommand (g : Given) : CommandName → Except Stop Command
  | .resolve => .ok (.resolve (g.flags.contains .json))
  | .check => .ok .check
  | .classpath =>
    match g.flags.filter fun f => f = .json || f = .lines with
    | a :: b :: _ => .error (.error (.conflict a.shown b.shown))
    | _ => .ok (.classpath (g.flags.contains .json) (g.flags.contains .lines))
  | .sources => .ok (.sources (g.flags.contains .json))
  | .completions =>
    match g.shell with
    | some shell => .ok (.completions shell)
    | none => .error (.error .shellRequired)

def readCommand (name : CommandName) (args : List String) : Except Stop (Given × Command) := do
  let (g, _) ← readLevel (.behind name) {} args
  let g ← g.settle
  .ok (g, ← g.toCommand name)

/-- The options given before and behind a command. The later ones count. -/
def Options.ofGiven (before behind : Given) : Options :=
  let value (o : ValueOption) := (behind.values.lookup o).orElse fun _ => before.values.lookup o
  { verbose := before.flags.contains .verbose || behind.flags.contains .verbose
    workspace := (value .workspace).map Path.ofString
    userSettings := (value .userSettings).map Path.ofString
    additionalLibraries := value .additionalLibraries }

/-- Reads all arguments, stopping where help or the version is asked for. -/
def readAll (args : List String) : Except Stop (Options × Option Command) := do
  match ← readLevel .top {} args with
  | (before, none) => do
    let before ← before.settle
    .ok (Options.ofGiven before {}, none)
  | (before, some (name, rest)) => do
    let (behind, command) ← readCommand name rest
    let before ← before.settle
    .ok (Options.ofGiven before behind, some command)

/-- What a list of arguments asks for. -/
def Invocation.ofArguments (args : List String) : Except ArgumentError Invocation :=
  match readAll args with
  | .ok (options, command) => .ok (.run options command)
  | .error .help => .ok .help
  | .error .version => .ok .version
  | .error (.error e) => .error e

end GroovyWorkspace.CommandLine
