import SchemaCompiler.CommandLine.Files
import SchemaCompiler.Error
import SchemaCompiler.Text.Basic
import SchemaCompiler.Text.Quoted

/-! What commands need of the system they run on: files, and two channels for lines of text. A
`Machine` is such a system as a value. A fault in a document is reported with the name of its
file. -/

namespace SchemaCompiler

/-- The system that a command runs on. -/
class OperatingSystem (m : Type → Type) where
  workingDirectory : m Path
  /-- What a path leads to. -/
  entry? : Path → m (Option Entry)
  /-- Makes a directory and those it stands in, as far as they are not there. -/
  makeDirectories : Path → m (Except FileFault Unit)
  write : Path → String → m (Except FileFault Unit)
  /-- Writes text on the channel for results. -/
  say : String → m Unit
  /-- Writes text on the channel for errors. -/
  complain : String → m Unit

/-- Files, the working directory and the text that was written on the channels. -/
structure Machine where
  files : Files := {}
  workingDirectory : Path := ⟨true, []⟩
  output : String := ""
  errors : String := ""
  deriving Repr, Inhabited

namespace Machine

/-- What a change of the files answers, and the machine after it. -/
def change (machine : Machine) (changed : Except FileFault Unit × Files) :
    Except FileFault Unit × Machine :=
  (changed.1, { machine with files := changed.2 })

instance : OperatingSystem (StateM Machine) where
  workingDirectory := do return (← get).workingDirectory
  entry? path := do
    let machine ← get
    return machine.files.entry? (machine.workingDirectory.join path)
  makeDirectories path := modifyGet fun machine =>
    machine.change (machine.files.makeDirectories (machine.workingDirectory.join path))
  write path content := modifyGet fun machine =>
    machine.change (machine.files.write (machine.workingDirectory.join path) content)
  say text := modify fun machine => { machine with output := machine.output ++ text }
  complain text := modify fun machine => { machine with errors := machine.errors ++ text }

end Machine

def FileFault.message (fault : FileFault) : String :=
  let path := quoted fault.path.text
  match fault.problem with
  | .missing => "[Errno 2] No such file or directory: " ++ path
  | .exists => "[Errno 17] File exists: " ++ path
  | .notDirectory => "[Errno 20] Not a directory: " ++ path
  | .isDirectory => "[Errno 21] Is a directory: " ++ path
  | .nameTooLong => "[Errno 36] File name too long: " ++ path
  | .nullInDirectory => "mkdir: embedded null character in path"
  | .nullInFile => "embedded null byte"
  | .other message => message

def readDocument (path : Path) (content : List UInt8) : Except CompileError Json :=
  let fault (f : DocumentFault) : CompileError :=
    ⟨.malformedDocument path.name f, ⟨some path.stem, none⟩⟩
  match Utf8.decode content with
  | .error f => .error (fault (.bytes f))
  | .ok text =>
    (Json.read (String.ofList (unifyLineEnds text.toList))).mapError fun f => fault (.json f)

variable {m : Type → Type} [Monad m] [OperatingSystem m]

open OperatingSystem

def loadDocument (path : String) : m (Except CompileError Json) := do
  let path := Path.ofText path
  match ← entry? (m := m) path with
  | some (.file content) => return readDocument path content
  | _ => return readDocument path []

end SchemaCompiler
