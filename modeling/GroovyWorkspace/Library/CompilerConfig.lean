import GroovyWorkspace.Json.Printer
import GroovyWorkspace.Library.Classpath

/-!
# Compiler configurations

What a compilation unit is compiled with: the classpath, the imports added to every script, and the
class that scripts extend.
-/

namespace GroovyWorkspace

/-- Imports added to every script: single classes, and packages as a whole. -/
structure ImportCustomizer where
  imports : List String := []
  starImports : List String := []
  deriving DecidableEq, Repr, Inhabited

namespace ImportCustomizer

/-- Adds a class. -/
def addImport (c : ImportCustomizer) (className : String) : ImportCustomizer :=
  { c with imports := c.imports ++ [className] }

/-- Adds a package. -/
def addStarImport (c : ImportCustomizer) (package : String) : ImportCustomizer :=
  { c with starImports := c.starImports ++ [package] }

def camelK : ImportCustomizer where
  imports := ["org.apache.camel.k.loader.groovy.dsl.IntegrationConfiguration"]
  starImports := ["org.apache.camel", "org.apache.camel.spi"]

end ImportCustomizer

/-- The configuration of a compilation unit. -/
structure CompilerConfig where
  debug : Bool := true
  verbose : Bool := true
  classpath : Classpath
  customizers : List ImportCustomizer := []
  scriptBaseClass : Option String := none
  deriving DecidableEq, Repr, Inhabited

namespace CompilerConfig

/-- Adds imports. -/
def addCustomizer (c : CompilerConfig) (customizer : ImportCustomizer) : CompilerConfig :=
  { c with customizers := c.customizers ++ [customizer] }

/-- The configuration for the scripts of a workspace: the jars of the library folder and the imports of
Camel K. -/
def ofLibrary (fs : FileSystem) (library : Option LibraryFolder) :
    Except ClasspathError CompilerConfig :=
  (Classpath.ofFolder fs library).map fun classpath =>
    { classpath, customizers := [ImportCustomizer.camelK] }

def imports (c : CompilerConfig) : List String := c.customizers.flatMap (·.imports)

def starImports (c : CompilerConfig) : List String := c.customizers.flatMap (·.starImports)

end CompilerConfig

/-- A path that is to be written to a document is not text. -/
inductive DocumentError where
  | notText
  deriving DecidableEq, Repr

def DocumentError.message : DocumentError → String
  | notText => "path contains invalid UTF-8 characters"

def Path.document (p : Path) : Except DocumentError Json.Document :=
  match p.text? with
  | some s => .ok (.text s)
  | none => .error .notText

def Classpath.document (c : Classpath) : Except DocumentError Json.Document :=
  (c.entries.mapM Path.document).map .list

def ImportCustomizer.document (c : ImportCustomizer) : Json.Document :=
  .record [("imports", .list (c.imports.map .text)), ("star_imports", .list (c.starImports.map .text))]

/-- A configuration in a document. The script base class is left out if there is none. -/
def CompilerConfig.document (c : CompilerConfig) : Except DocumentError Json.Document := do
  let classpath ← c.classpath.document
  .ok (.record ([("debug", .flag c.debug), ("verbose", .flag c.verbose), ("classpath", classpath),
    ("import_customizers", .list (c.customizers.map ImportCustomizer.document))] ++
    (c.scriptBaseClass.map fun name => ("script_base_class", .text name)).toList))

end GroovyWorkspace
