/-! Texts as lists of characters: sets of characters, line ends, and the parts between marks. A text
read from a file has a single line feed at the end of each line, whichever of the three usual line
ends the file has. -/

namespace SchemaCompiler

/-- A set of code points as inclusive ranges. -/
abbrev CodeRanges := List (Nat × Nat)

def CodeRanges.has (ranges : CodeRanges) (c : Char) : Bool :=
  ranges.any fun (low, high) => low ≤ c.toNat && c.toNat ≤ high

/-- The text with a line feed for each carriage return and for each carriage return that a line feed
follows. -/
def unifyLineEnds : List Char → List Char
  | [] => []
  | '\r' :: '\n' :: rest => '\n' :: unifyLineEnds rest
  | '\r' :: rest => '\n' :: unifyLineEnds rest
  | c :: rest => c :: unifyLineEnds rest

/-- A place in a text as line and column, both counted from one. -/
def lineAndColumn (before : List Char) : Nat × Nat :=
  (before.count '\n' + 1, (before.reverse.takeWhile (· ≠ '\n')).length + 1)

def splitFirst (mark : Char) (s : List Char) : List Char × Option (List Char) :=
  match s.dropWhile (· ≠ mark) with
  | _ :: rest => (s.takeWhile (· ≠ mark), some rest)
  | [] => (s, none)

def splitLast (mark : Char) (s : List Char) : Option (List Char) × List Char :=
  match s.reverse.dropWhile (· ≠ mark) with
  | _ :: before => (some before.reverse, (s.reverse.takeWhile (· ≠ mark)).reverse)
  | [] => (none, s)

/-- The parts of a text between marks, of which there is one at least. -/
def splitAll (mark : Char) : List Char → List (List Char)
  | [] => [[]]
  | c :: rest =>
    match splitAll mark rest with
    | [] => [[c]]
    | part :: parts => if c = mark then [] :: part :: parts else (c :: part) :: parts

end SchemaCompiler
