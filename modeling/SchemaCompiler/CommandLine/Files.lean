import SchemaCompiler.CommandLine.Path

/-! Files and directories. Steps through a path lead from directory to directory, and only the last
one may lead to a file. -/

namespace SchemaCompiler

inductive Entry where
  | directory
  | file (content : List UInt8)
  deriving DecidableEq, Repr, Inhabited

/-- Why a file cannot be written or a directory cannot be made. -/
inductive FileProblem where
  | missing
  | exists
  | notDirectory
  | isDirectory
  | nameTooLong
  | nullInDirectory
  | nullInFile
  /-- A problem in the words of the system. -/
  | other (message : String)
  deriving DecidableEq, Repr

structure FileFault where
  problem : FileProblem
  path : Path
  deriving DecidableEq, Repr

/-- Entries by the names that lead to them from the root, which is a directory itself. -/
structure Files where
  entries : List (List String × Entry) := []
  deriving DecidableEq, Repr, Inhabited

namespace Files

def entryAt? (files : Files) (place : List String) : Option Entry :=
  if place.isEmpty then some .directory
  else (files.entries.find? (·.1 = place)).map (·.2)

/-- Puts an entry at a place, instead of the one that is there. -/
def put (files : Files) (place : List String) (entry : Entry) : Files :=
  if files.entries.any (·.1 = place) then
    ⟨files.entries.map fun (p, e) => if p = place then (p, entry) else (p, e)⟩
  else ⟨files.entries ++ [(place, entry)]⟩

/-- The bytes that a name has at most. -/
def longestName : Nat := 255

/-- The place that steps lead to from `here`; nothing needs to be there. -/
def walk (files : Files) (here : List String) : List String → Except FileProblem (List String)
  | [] => .ok here
  | step :: rest =>
    match files.entryAt? here with
    | some .directory =>
      if step = "." then files.walk here rest
      else if step = ".." then files.walk here.dropLast rest
      else if longestName < step.utf8ByteSize then .error .nameTooLong
      else files.walk (here ++ [step]) rest
    | some (.file _) => .error .notDirectory
    | none => .error .missing

def entry? (files : Files) (path : Path) : Option Entry :=
  match files.walk [] path.parts with
  | .ok place => files.entryAt? place
  | .error _ => none

def makeDirectory (files : Files) (path : Path) : Except FileProblem Files :=
  match files.walk [] path.parts with
  | .error problem => .error problem
  | .ok place =>
    match files.entryAt? place with
    | some _ => .error .exists
    | none => .ok (files.put place .directory)

def ensureDirectory (files : Files) (path : Path) : Except FileProblem Files :=
  match files.makeDirectory path with
  | .ok files => .ok files
  | .error problem =>
    if problem ≠ .missing ∧ files.entry? path = some .directory then .ok files else .error problem

/-- Makes the directory that names, the last one first, lead to, and those it stands in. The ones that
are made before a fault stay. -/
def ensureAll (files : Files) : (names : List String) → Except FileFault Unit × Files
  | [] => (.ok (), files)
  | name :: outer =>
    let path : Path := ⟨true, (name :: outer).reverse⟩
    match files.ensureDirectory path with
    | .ok files => (.ok (), files)
    | .error .missing =>
      match files.ensureAll outer with
      | (.error fault, files) => (.error fault, files)
      | (.ok (), files) =>
        match files.ensureDirectory path with
        | .ok files => (.ok (), files)
        | .error problem => (.error ⟨problem, path⟩, files)
    | .error problem => (.error ⟨problem, path⟩, files)

/-- Makes a directory and those it stands in, as far as they are not there. -/
def makeDirectories (files : Files) (path : Path) : Except FileFault Unit × Files :=
  if path.hasNull then (.error ⟨.nullInDirectory, path⟩, files)
  else files.ensureAll path.parts.reverse

def write (files : Files) (path : Path) (content : String) : Except FileFault Unit × Files :=
  if path.hasNull then (.error ⟨.nullInFile, path⟩, files)
  else match files.walk [] path.parts with
  | .error problem => (.error ⟨problem, path⟩, files)
  | .ok place =>
    match files.entryAt? place with
    | some .directory => (.error ⟨.isDirectory, path⟩, files)
    | _ => (.ok (), files.put place (.file content.toUTF8.toList))

end Files

end SchemaCompiler
