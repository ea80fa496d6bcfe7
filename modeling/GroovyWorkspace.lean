import GroovyWorkspace.CommandLine.Program
import GroovyWorkspace.Fixture
import GroovyWorkspace.Main
import GroovyWorkspace.Proofs.Json.Decoration
import GroovyWorkspace.Proofs.Json.Separation
import GroovyWorkspace.Proofs.Settings.Layers
import GroovyWorkspace.Proofs.Settings.Lookup
import GroovyWorkspace.Proofs.Sources.CurrentRoot
import GroovyWorkspace.Proofs.Sources.FirstBuild
import GroovyWorkspace.Proofs.Sources.Incremental
import GroovyWorkspace.Proofs.Library.Jars
import GroovyWorkspace.Proofs.Sources.Configuration
import GroovyWorkspace.Proofs.Settings.Loading
import GroovyWorkspace.Proofs.CommandLine.Setup
import GroovyWorkspace.Proofs.CommandLine.Classpath
import GroovyWorkspace.Proofs.FileSystem.Edit
import GroovyWorkspace.Proofs.Json.Quote
import GroovyWorkspace.Proofs.Fixture
import GroovyWorkspace.Proofs.Path.Canonical
import GroovyWorkspace.Proofs.Sources.Patch
import GroovyWorkspace.Proofs.Json.TrailingComma
import GroovyWorkspace.Proofs.Json.Cut
import GroovyWorkspace.Proofs.Json.Rescan
import GroovyWorkspace.Proofs.Json.Strict
import GroovyWorkspace.Proofs.FileSystem.Reorder
import GroovyWorkspace.Proofs.Sources.Exact
import GroovyWorkspace.Proofs.Library.PathList
import GroovyWorkspace.Proofs.Library.Listing
import GroovyWorkspace.Proofs.Sources.Failure
import GroovyWorkspace.Proofs.Settings.Insertion
import GroovyWorkspace.Proofs.Sources.History
