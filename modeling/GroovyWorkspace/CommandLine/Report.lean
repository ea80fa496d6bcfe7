import GroovyWorkspace.CommandLine.Setup
import GroovyWorkspace.CommandLine.Style
import GroovyWorkspace.Sources.Factory

/-!
# Reports

What each command finds out about a setup, and how it is told. Finding out and telling are kept
apart: the findings are values, and the text is made from them alone.
-/

namespace GroovyWorkspace.CommandLine

/-- What is printed: a text, or one of those that are made from the description of the arguments and have
no wording here, the help and the script that completes arguments in a shell. -/
inductive Output where
  | text (s : String)
  | help
  | script (shell : Shell)
  deriving DecidableEq, Repr

/-- What a command prints, and why it fails if it does. It may fail after it has printed something. -/
structure Report where
  out : Output := .text ""
  failure : Option CommandError := none
  deriving DecidableEq, Repr

/-- The report of a command that prints a text or fails. -/
def Report.ofText : Except CommandError String → Report
  | .ok text => { out := .text text }
  | .error e => { failure := some e }

/-- Lines as a text; each of them ends with a line break. -/
def unlines (lines : List String) : String := String.join (lines.map (· ++ "\n"))

/-- A document over several lines, as a text. -/
def documentText (d : Json.Document) : String := unlines [Json.pretty d]

namespace Setup

/-! ## The folder -/

def folder? (s : Setup) (fs : FileSystem) : Option Path := resolveFolder? fs s.settings.toStore

/-- Tells the library folder; nothing if there is none. -/
def resolveText (s : Setup) (fs : FileSystem) (json : Bool) : Except CommandError String :=
  if json then do
    let folder ←
      match s.folder? fs with
      | some p => p.document.mapError .document
      | none => .ok .null
    .ok (documentText (.record [("folder", folder)]))
  else .ok (unlines ((s.folder? fs).map Path.display).toList)

/-! ## The check -/

/-- What the check finds out: the outcome, the scope that the setting is in, and what comes of listing
the jars, if there is a folder that can be opened. -/
structure Findings where
  check : FolderCheck
  scope : Option Scope
  jars : Option (Except ClasspathError (List Path))

/-- Checks the library folder. -/
def findings (s : Setup) (fs : FileSystem) : Findings :=
  let check := FolderCheck.ofStore fs s.settings.toStore
  { check
    scope := s.settings.scopeOf? librariesKey
    jars := (check.resolved?.bind (LibraryFolder.open? fs)).map fun folder => folder.jars fs }

/-- The line that tells how many jars there are. -/
def countLine (n : Nat) : String := "  " ++ Nat.repr n ++ " jar(s) will be added to the classpath"

/-- The last lines of the check. Where the jars cannot be listed they end early. -/
def Findings.verdict (f : Findings) (p : Palette) : List String :=
  let found := "  " ++ p.paint [.bold, .green] "ok" ++ " " ++ f.check.message
  let nothing := "  No additional classpath folder is contributed."
  match f.check, f.jars with
  | .resolved _, some (.ok jars) => [found, countLine jars.length]
  | .resolved _, some (.error _) => [found]
  | .resolved _, none => [found, "  " ++ p.paint [.bold, .yellow] "warn" ++ " folder is not readable"]
  | .notConfigured, _ => ["  " ++ p.paint [.dimmed] "-" ++ " " ++ f.check.message, nothing]
  | _, _ => ["  " ++ p.paint [.bold, .red] "x" ++ " " ++ f.check.message, nothing]

def Findings.lines (f : Findings) (p : Palette) : List String :=
  [p.paint [.bold] "Additional Classpath Folder",
   "",
   p.paint [.dimmed] "Setting" ++ ":  " ++ librariesKey,
   p.paint [.dimmed] "Scope" ++ ":   " ++
     match f.scope with
     | some scope => p.paint [.cyan] scope.name
     | none => p.paint [.dimmed] "none"] ++
  (f.check.configured?.map fun path => p.paint [.dimmed] "Path" ++ ":    " ++ path.display).toList ++
  [""] ++ f.verdict p

/-- Tells what the check finds out, and fails if the jars cannot be listed. -/
def checkReport (s : Setup) (fs : FileSystem) (p : Palette) : Report :=
  let f := s.findings fs
  { out := .text (unlines (f.lines p))
    failure :=
      match f.jars with
      | some (.error e) => some (.classpath e)
      | _ => none }

/-! ## The classpath -/

def classpath (s : Setup) (fs : FileSystem) : Except ClasspathError Classpath :=
  Classpath.ofFolder fs (LibraryFolder.ofStore? fs s.settings.toStore)

/-- Tells the classpath: as a document, an entry a line, or as one path list, which is left out if it
is empty. -/
def classpathText (s : Setup) (fs : FileSystem) (json lines : Bool) : Except CommandError String := do
  let c ← (s.classpath fs).mapError .classpath
  if json then do
    let d ← c.document.mapError .document
    .ok (documentText d)
  else if lines then .ok (unlines (c.entries.map Path.display))
  else if c.entries.isEmpty then .ok ""
  else do
    let joined ← c.joined.mapError .classpath
    .ok (unlines [joined.display])

/-! ## The sources -/

/-- The compilation unit of the workspace, no buffers being open. -/
def unit (s : Setup) (fs : FileSystem) : Except ClasspathError CompilationUnit := do
  let factory := (UnitFactory.empty.applySettings fs s.settings.toStore).1
  let (u, _) ← factory.create fs (some s.workspace) Buffers.empty
  .ok u

def listing (p : Palette) (heading : String) (items : List String) : List String :=
  (p.paint [.bold] heading ++ ":") ::
    if items.isEmpty then ["  " ++ p.paint [.dimmed] "None"]
    else items.map fun item => "  " ++ p.paint [.green] "+" ++ " " ++ item

/-- A source as seen from the workspace. -/
def sourceName (s : Setup) (source : Source) : String :=
  ((source.path.below? s.workspace).getD source.path).display

def sourcesText (s : Setup) (fs : FileSystem) (json : Bool) (p : Palette) :
    Except CommandError String := do
  let u ← (s.unit fs).mapError .classpath
  if json then do
    let config ← u.config.document.mapError .document
    let sources ← (u.sources.mapM Source.document).mapError .document
    .ok (documentText (.record [("config", config), ("sources", .list sources)]))
  else
    .ok (unlines (listing p "Classpath" (u.config.classpath.entries.map Path.display) ++ [""] ++
      listing p "Sources" (u.sources.map s.sourceName)))

end Setup
end GroovyWorkspace.CommandLine
