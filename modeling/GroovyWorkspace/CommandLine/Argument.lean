/-!
# The arguments of the program

The commands, the options that take a value, the flags, and what can be wrong with a list of
arguments. An option or flag is known by its long name; the name that messages show also has the kind of
value it takes.
-/

namespace GroovyWorkspace.CommandLine

def programName : String := "groovy-classpath"

def programVersion : String := "0.1.0"

/-! ## Commands -/

/-- A shell that completions can be written for. -/
inductive Shell where
  | bash
  | elvish
  | fish
  | powershell
  | zsh
  deriving DecidableEq, Repr

namespace Shell

def name : Shell → String
  | bash => "bash"
  | elvish => "elvish"
  | fish => "fish"
  | powershell => "powershell"
  | zsh => "zsh"

def all : List Shell := [bash, elvish, fish, powershell, zsh]

def ofName? (s : String) : Option Shell := all.find? fun shell => shell.name = s

end Shell

/-- What the program can be told to do. -/
inductive CommandName where
  | resolve
  | check
  | classpath
  | sources
  | completions
  deriving DecidableEq, Repr

namespace CommandName

def name : CommandName → String
  | resolve => "resolve"
  | check => "check"
  | classpath => "classpath"
  | sources => "sources"
  | completions => "completions"

def all : List CommandName := [resolve, check, classpath, sources, completions]

def ofName? (s : String) : Option CommandName := all.find? fun c => c.name = s

end CommandName

/-- The word that asks for help on a command. -/
def helpWord : String := "help"

/-! ## Options and flags -/

/-- An option that takes a value. All of them stand before or behind the command. -/
inductive ValueOption where
  | workspace
  | userSettings
  | additionalLibraries
  deriving DecidableEq, Repr

namespace ValueOption

def name : ValueOption → String
  | workspace => "workspace"
  | userSettings => "user-settings"
  | additionalLibraries => "additional-libraries"

/-- The option as messages show it. -/
def shown : ValueOption → String
  | workspace => "--workspace <DIR>"
  | userSettings => "--user-settings <FILE>"
  | additionalLibraries => "--additional-libraries <PATH>"

/-- Whether the value of an option may be empty: only a path may not. -/
def takesEmpty : ValueOption → Bool
  | additionalLibraries => true
  | workspace | userSettings => false

def all : List ValueOption := [workspace, userSettings, additionalLibraries]

def ofName? (s : String) : Option ValueOption := all.find? fun o => o.name = s

end ValueOption

/-- An argument that takes no value. -/
inductive Flag where
  | verbose
  | json
  | lines
  | help
  | version
  deriving DecidableEq, Repr

namespace Flag

def name : Flag → String
  | verbose => "verbose"
  | json => "json"
  | lines => "lines"
  | help => "help"
  | version => "version"

def shown (f : Flag) : String := "--" ++ f.name

/-- The letter for a flag, if it has one. -/
def letter? : Flag → Option Char
  | verbose => some 'v'
  | help => some 'h'
  | version => some 'V'
  | json | lines => none

end Flag

/-- Where an argument stands: before any command, or behind one. -/
inductive Level where
  | top
  | behind (command : CommandName)
  deriving DecidableEq, Repr

namespace Level

/-- The flags that are known at a level. -/
def flags : Level → List Flag
  | top => [.verbose, .help, .version]
  | behind .resolve | behind .sources => [.verbose, .help, .json]
  | behind .classpath => [.verbose, .help, .json, .lines]
  | behind .check | behind .completions => [.verbose, .help]

def flagOfName? (l : Level) (s : String) : Option Flag := l.flags.find? fun f => f.name = s

def flagOfLetter? (l : Level) (c : Char) : Option Flag := l.flags.find? fun f => f.letter? = some c

end Level

/-! ## Errors -/

/-- What is wrong with a list of arguments. -/
inductive ArgumentError where
  | unknownCommand (word : String)
  | unexpected (argument : String)
  | valueRequired (shown : String)
  | unexpectedValue (value shown : String)
  | repeated (shown : String)
  | conflict (first second : String)
  | unknownShell (word : String)
  | shellRequired
  deriving DecidableEq, Repr

/-- The argument that names a shell, as messages show it. -/
def shellShown : String := "<SHELL>"

def ArgumentError.message : ArgumentError → String
  | unknownCommand word => "unrecognized subcommand '" ++ word ++ "'"
  | unexpected argument => "unexpected argument '" ++ argument ++ "' found"
  | valueRequired shown => "a value is required for '" ++ shown ++ "' but none was supplied"
  | unexpectedValue value shown =>
    "unexpected value '" ++ value ++ "' for '" ++ shown ++ "' found; no more were expected"
  | repeated shown => "the argument '" ++ shown ++ "' cannot be used multiple times"
  | conflict first second => "the argument '" ++ first ++ "' cannot be used with '" ++ second ++ "'"
  | unknownShell word => "invalid value '" ++ word ++ "' for '" ++ shellShown ++ "'"
  | shellRequired => "the following required arguments were not provided:"

end GroovyWorkspace.CommandLine
