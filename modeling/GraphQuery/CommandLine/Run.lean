import GraphQuery.Catalog.Basic
import GraphQuery.Command.Compile
import GraphQuery.Command.Table
import GraphQuery.Command.Summary
import GraphQuery.CommandLine.Call
import GraphQuery.Query.OfForm
import GraphQuery.Text.Utf8

namespace GraphQuery.CommandLine

structure Host (m : Type → Type) (σ : Type) where
  environment : Text → m Text
  fileContent : Text → m (Except Text Text)
  readInput : m (Except Text Text)
  openCatalog : Text → m (Except CatalogError (Catalog σ))
  saveCatalog : Text → Catalog σ → m Unit
  newCompilation : m Text
  report : Event → m Unit
  write : Text → m Unit

inductive RunError where
  | usage (e : UsageError)
  | format (value : Text)
  | settings (e : SettingsError)
  | setting (f : SettingsFault)
  | twoQueries
  | queryFile (path cause : Text)
  | queryInput (cause : Text)
  | emptyQuery
  | query (e : QueryError)
  | compile (f : CompileFault)
  | catalog (e : CatalogError)
  | noCatalog

def RunError.failure : RunError → Failure
  | usage e => .plain e.message
  | format value =>
    .of .configInvalid ("invalid format " ++ Text.quote value ++ ": must be one of [text yaml]")
  | settings e => e.failure
  | setting f => f.failure
  | twoQueries => .of .invalidQuery "give either a query argument or --file, not both"
  | queryFile path cause =>
    .wrap (.plain cause) .invalidQuery "reading query file" [("path", .text path)]
  | queryInput cause => .wrap (.plain cause) .invalidQuery "reading query from stdin"
  | emptyQuery => .of .invalidQuery "empty query"
  | query e => e.failure
  | compile f => f.failure
  | catalog e => e.failure
  | noCatalog => .of .configInvalid
      ("no catalog configured: set --catalog or " ++
        Settings.variableOf SettingKey.catalogPath.text)

section

variable {m : Type → Type} [Monad m] {σ : Type} [Store σ]

def readEnvironment (host : Host m σ) : List Text → m (List (Text × Text))
  | [] => pure []
  | name :: rest => do
    let value ← host.environment name
    return (name, value) :: (← readEnvironment host rest)

def readSettingsFile (host : Host m σ) (path : Text) : m (Option Settings.File) := do
  if path.isEmpty then return none
  return some ⟨path, ← host.fileContent path⟩

/-- Flags come before all other settings. -/
def overridden (s : Settings) (fs : Flags) : Settings :=
  { s with
    catalogPath := if fs.catalog.isEmpty then s.catalogPath else fs.catalog
    defaultGraphs := if fs.defaultGraphs.isEmpty then s.defaultGraphs else fs.defaultGraphs
    namedGraphs := if fs.namedGraphs.isEmpty then s.namedGraphs else fs.namedGraphs }

def loadSettings (host : Host m σ) (fs : Flags) : ExceptT RunError m Settings := do
  let values ← ExceptT.lift (readEnvironment host Settings.variableNames)
  let environment (name : Text) : Text := ((values.find? (·.1 = name)).map (·.2)).getD []
  let file ← ExceptT.lift (readSettingsFile host fs.config)
  match Settings.load environment file with
  | .error e => throw (.settings e)
  | .ok s =>
    let s := overridden s fs
    match s.faults with
    | [] => return s
    | f :: _ => throw (.setting f)

/-- The text of the query: the argument, or a file, or the standard input. -/
def readQuery (host : Host m σ) (call : Call) : ExceptT RunError m Text := do
  match call.arguments with
  | argument :: _ => if call.flags.file.isEmpty then return argument else throw .twoQueries
  | [] =>
    if !call.flags.file.isEmpty then
      match ← host.fileContent call.flags.file with
      | .error cause => throw (.queryFile call.flags.file cause)
      | .ok t => return t
    else
      match ← host.readInput with
      | .error cause => throw (.queryInput cause)
      | .ok t => if Text.isBlank t then throw .emptyQuery else return t

def openCatalog (host : Host m σ) (path : Text) : ExceptT RunError m (Catalog σ) := do
  match ← host.openCatalog path with
  | .error e => throw (.catalog e)
  | .ok c => return c

def reportAll (host : Host m σ) : List Event → m Unit
  | [] => pure ()
  | e :: rest => do
    host.report e
    reportAll host rest

def compileQuery (host : Host m σ) (call : Call) : ExceptT RunError m Command := do
  let t ← readQuery host call
  match Query.ofText t with
  | .error e => throw (.query e)
  | .ok q =>
    let s ← loadSettings host call.flags
    let view ← if s.catalogPath.isEmpty then pure none
      else some <$> Catalog.view <$> openCatalog host s.catalogPath
    let r := GraphQuery.compile { s.options with catalog := view }.withSystemGraphs q
    if call.flags.verbose || s.annotate then
      let id ← host.newCompilation
      ExceptT.lift (reportAll host (r.steps.map (Step.event id)))
    match r.result with
    | .error f => throw (.compile f)
    | .ok c => return c

def listGraphs (c : Catalog σ) : Except CatalogError Text := do
  let defaults ← c.defaults
  let named ← c.named
  let defaultLine (iri : Text) : Text := "default <" ++ iri ++ ">\n"
  let namedLine (iri : Text) : Text := "named   <" ++ iri ++ ">\n"
  return defaults.flatMap defaultLine ++ named.flatMap namedLine

def onCatalog (call : Call) (c : Catalog σ) : Except CatalogError (Catalog σ × Text) :=
  match call.verb with
  | .setDefault => (c.setDefaults call.arguments).map (·, [])
  | .addNamed => (call.arguments.foldlM Catalog.addNamed c).map (·, [])
  | .removeNamed => (call.arguments.foldlM Catalog.removeNamed c).map (·, [])
  | _ => (listGraphs c).map (c, ·)

def runCatalog (host : Host m σ) (call : Call) : ExceptT RunError m Unit := do
  let s ← loadSettings host call.flags
  if s.catalogPath.isEmpty then throw .noCatalog
  let c ← openCatalog host s.catalogPath
  match onCatalog call c with
  | .error e => throw (.catalog e)
  | .ok (c, t) =>
    host.saveCatalog s.catalogPath c
    host.write t

def perform (host : Host m σ) (call : Call) : ExceptT RunError m Unit := do
  if call.isHelp then return
  if call.flags.format ≠ "text" && call.flags.format ≠ "yaml" then
    throw (.format call.flags.format)
  match call.verb with
  | .compile | .explain =>
    let c ← compileQuery host call
    host.write <|
      if call.flags.format = "yaml" then c.summary.yaml
      else if call.verb = .explain then c.explain
      else c.text ++ "\n"
  | _ => runCatalog host call

def run (host : Host m σ) (arguments : List Text) : m (Except Failure Unit) := do
  let result ← (do
    match readCall arguments with
    | .error e => throw (.usage e)
    | .ok call => perform host call : ExceptT RunError m Unit).run
  return result.mapError RunError.failure

end

end GraphQuery.CommandLine
