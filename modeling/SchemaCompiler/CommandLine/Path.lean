import SchemaCompiler.Text.Basic

/-! Paths of files. A path is a list of names, taken from the root or from the working directory;
the name of a file may end in a suffix. -/

namespace SchemaCompiler

structure Path where
  isAbsolute : Bool := false
  parts : List String := []
  deriving DecidableEq, Repr, Inhabited

namespace Path

/-- The steps that a text leads through, including those that stay in a directory. -/
def steps (text : String) : Path where
  isAbsolute := text.startsWith "/"
  parts := ((splitAll '/' text.toList).map String.ofList).filter (· ≠ "") ++
    if text.endsWith "/" then ["."] else []

def ofText (text : String) : Path :=
  let path := steps text
  { path with parts := path.parts.filter (· ≠ ".") }

def text (path : Path) : String :=
  let names := "/".intercalate path.parts
  if path.isAbsolute then "/" ++ names
  else if path.parts.isEmpty then "."
  else names

def join (base path : Path) : Path :=
  if path.isAbsolute then path else { base with parts := base.parts ++ path.parts }

/-- Whether a null character is in a path, which no system takes. -/
def hasNull (path : Path) : Bool :=
  path.parts.any fun part => part.toList.contains '\x00'

def parent (path : Path) : Path :=
  { path with parts := path.parts.dropLast }

def name (path : Path) : String :=
  path.parts.getLast?.getD ""

/-- A name before its suffix, and the suffix with its dot. A dot at the start of a name or at its
end begins no suffix. -/
def splitName (name : String) : String × String :=
  match splitLast '.' name.toList with
  | (some (c :: stem), d :: suffix) =>
    (String.ofList (c :: stem), String.ofList ('.' :: d :: suffix))
  | _ => (name, "")

def stem (path : Path) : String :=
  (splitName path.name).1

def suffix (path : Path) : String :=
  (splitName path.name).2

/-- The names that are left when each step upwards takes away the name before it. -/
def climb (done : List String) : List String → List String
  | [] => done.reverse
  | ".." :: rest => climb done.tail rest
  | part :: rest => climb (part :: done) rest

/-- The path from the root that a path means in a working directory. -/
def resolve (workingDirectory path : Path) : Path where
  isAbsolute := true
  parts := climb [] (workingDirectory.join path).parts

end Path

end SchemaCompiler
