import SchemaCompiler.CommandLine.Program

/-! The program on the system it is started on. -/

namespace SchemaCompiler

def entryOnDisk? (path : Path) : IO (Option Entry) := do
  let handle ← try some <$> IO.FS.Handle.mk path.text .read catch _ => pure none
  match handle with
  | none => return none
  | some handle =>
    try
      let content ← handle.readBinToEnd
      return some (.file content.toList)
    catch _ => return some .directory

def fileProblem : IO.Error → FileProblem
  | .noFileOrDirectory .. => .missing
  | .alreadyExists .. => .exists
  | .inappropriateType _ code _ => if code = 21 then .isDirectory else .notDirectory
  | error => .other error.toString

/-- Runs an action on files; its failure is a fault at the path. A null character, at which the
system would cut the path, is refused before. -/
def onDisk (path : Path) (refusal : FileProblem) (action : IO Unit) :
    IO (Except FileFault Unit) := do
  if path.hasNull then return .error ⟨refusal, path⟩
  try
    action
    return .ok ()
  catch error => return .error ⟨fileProblem error, path⟩

instance : OperatingSystem IO where
  workingDirectory := do
    let place ← IO.currentDir
    return .ofText place.toString
  entry? := entryOnDisk?
  makeDirectories path := onDisk path .nullInDirectory (IO.FS.createDirAll path.text)
  write path content := onDisk path .nullInFile (IO.FS.writeFile path.text content)
  say := IO.print
  complain := IO.eprint

def Crash.message : Crash → String
  | .failure (.compile error) => error.text
  | .failure (.misuse misuse) => misuse.message
  | .failure (.lookup _) => "a type could not be looked up"
  | .failure (.endless generic) => (Cause.endlessInstantiation generic).message
  | .failure (.hook typeName message) => s!"{typeName}: {message}"
  | .file fault => fault.message

end SchemaCompiler

open SchemaCompiler in
def main (words : List String) : IO UInt32 := do
  match ← runProgram words with
  | .code code => return code.toUInt32
  | .crash crash =>
    IO.eprintln crash.message
    return 1
