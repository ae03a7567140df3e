import GraphQuery.Catalog.OrderedStore
import GraphQuery.CommandLine.Run
import GraphQuery.Trace.Render

namespace GraphQuery.Program

def bytes (t : Text) : ByteArray := ⟨t.toArray⟩

/-- The name of a file; one that is not valid UTF-8 names no file. -/
def fileName (path : Text) : String := (String.fromUTF8? (bytes path)).getD ""

def causeOf (action path : Text) (e : IO.Error) : Text :=
  let reason : Text := match e with
    | .noFileOrDirectory .. => "no such file or directory"
    | .permissionDenied .. => "permission denied"
    | .inappropriateType .. => "not a directory"
    | e => e.toString
  action ++ " " ++ path ++ ": " ++ reason

def fileContent (path : Text) : IO (Except Text Text) := do
  try
    return .ok (← IO.FS.readBinFile (fileName path)).toList
  catch e => return .error (causeOf "open" path e)

def catalogFile (path : Text) : Text := path ++ "/graphs"

def openCatalog (path : Text) : IO (Except CatalogError (Catalog OrderedStore)) := do
  try
    IO.FS.createDirAll (fileName path)
    match ← fileContent (catalogFile path) with
    | .ok t => return .ok ⟨.ofWritten t⟩
    | .error _ => return .ok ⟨.empty⟩
  catch _ => return .error (.notDirectory path)

def saveCatalog (path : Text) (c : Catalog OrderedStore) : IO Unit :=
  IO.FS.writeBinFile (fileName (catalogFile path)) (bytes c.store.written)

def readInput : IO (Except Text Text) := do
  try
    return .ok (← (← IO.getStdin).readBinToEnd).toList
  catch e => return .error (causeOf "read" "/dev/stdin" e)

def writeTo (stream : IO IO.FS.Stream) (t : Text) : IO Unit := do
  (← stream).write (bytes t)

def host : CommandLine.Host IO OrderedStore where
  environment name := return ((← IO.getEnv (fileName name)).map Text.ofString).getD []
  fileContent := fileContent
  readInput := readInput
  openCatalog := openCatalog
  saveCatalog := saveCatalog
  newCompilation := return Text.hex 8 (← IO.rand 0 0xFFFFFFFF)
  report e := writeTo IO.getStderr e.line
  write := writeTo IO.getStdout

def report (f : Failure) : Text :=
  "error: " ++ f.message ++ "\n" ++ Text.when (!f.code.isEmpty) ("code: " ++ f.code ++ "\n")

end GraphQuery.Program

def main (arguments : List String) : IO UInt32 := do
  match ← GraphQuery.CommandLine.run GraphQuery.Program.host
      (arguments.map GraphQuery.Text.ofString) with
  | .ok _ => return 0
  | .error f =>
    GraphQuery.Program.writeTo IO.getStderr (GraphQuery.Program.report f)
    return 1
