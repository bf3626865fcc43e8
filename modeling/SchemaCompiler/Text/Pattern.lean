/-! Shell-style patterns. A star stands for any text, a question mark for any character, and a
bracket for one character of a set, or for one outside it when the set starts with an exclamation
mark. A bracket that is not closed stands for itself, and a range whose ends are out of order is
empty. -/

namespace SchemaCompiler

inductive PatternElement where
  | anyText
  | anyChar
  | char (c : Char)
  /-- One character inside the ranges, or outside all of them. -/
  | oneOf (negated : Bool) (ranges : List (Char × Char))
  /-- No character at all. -/
  | never
  deriving DecidableEq, Repr

namespace PatternElement

def admits : PatternElement → Char → Bool
  | .anyText, _ => true
  | .anyChar, _ => true
  | .char d, c => c = d
  | .oneOf negated ranges, c => (ranges.any fun (low, high) => low ≤ c && c ≤ high) != negated
  | .never, _ => false

/-- Cuts the inside of a bracket at its range marks. A mark neither starts a piece nor closes the
range that has just been opened, so pieces between two marks have two characters or more. -/
def pieces : (taken : List Char) → (wait : Nat) → List Char → List (List Char)
  | taken, _, [] => [taken.reverse]
  | taken, 0, '-' :: rest => taken.reverse :: pieces [] 2 rest
  | taken, wait, c :: rest => pieces (c :: taken) (wait - 1) rest

/-- Joins pieces into ranges, from the last to the first: where the ends of a range are out of order
both are dropped and the pieces become one. -/
def dropEmptyRanges : List (List Char) → List (List Char)
  | [] => []
  | piece :: rest =>
    match dropEmptyRanges rest with
    | [] => [piece]
    | next :: others =>
      if (piece.getLast?.any fun low => next.head?.any fun high => high < low) then
        (piece.dropLast ++ next.drop 1) :: others
      else piece :: next :: others

/-- The ranges that a piece and the ones after it stand for: the last character of a piece and the
first one of the next are the ends of a range, every other character stands for itself. -/
def rangesOf (piece : List Char) : List (List Char) → List (Char × Char)
  | [] => piece.map fun c => (c, c)
  | next :: rest =>
    let range := match piece.getLast?, next.head? with
      | some low, some high => [(low, high)]
      | _, _ => []
    (piece.dropLast.map fun c => (c, c)) ++ range ++ rangesOf (next.drop 1) rest

/-- The element for pieces. When nothing is left of them it stands for no character, and an
exclamation mark alone excludes none. -/
def ofPieces : List (List Char) → PatternElement
  | [] => .never
  | [[]] => .never
  | [['!']] => .anyChar
  | ('!' :: first) :: rest => .oneOf true (rangesOf first rest)
  | first :: rest => .oneOf false (rangesOf first rest)

def ofBracket (inside : List Char) : PatternElement :=
  if !inside.contains '-' then ofPieces [inside]
  else
    let wait := if inside.head? = some '!' then 2 else 1
    let ps := pieces [] wait inside
    -- a mark at the very end belongs to the piece before it
    let ps := match ps.getLast?, ps.dropLast with
      | some [], before => match before.getLast? with
        | some last => before.dropLast ++ [last ++ ['-']]
        | none => ps
      | _, _ => ps
    ofPieces (dropEmptyRanges ps)

end PatternElement

/-- The text inside a bracket and what follows its end. The first character, or the one after an
exclamation mark, does not end the bracket. -/
def splitBracket (cs : List Char) : Option (List Char × List Char) :=
  let (negation, cs) := match cs with
    | '!' :: rest => (['!'], rest)
    | _ => ([], cs)
  let (first, cs) := match cs with
    | ']' :: rest => ([']'], rest)
    | _ => ([], cs)
  match cs.dropWhile (· ≠ ']') with
  | _ :: rest => some (negation ++ first ++ cs.takeWhile (· ≠ ']'), rest)
  | [] => none

/-- The elements of a pattern. Each step takes at least one character, so the length of the pattern
bounds their number. -/
def patternElements : (bound : Nat) → List Char → List PatternElement
  | 0, _ => []
  | _, [] => []
  | bound + 1, '*' :: rest => .anyText :: patternElements bound rest
  | bound + 1, '?' :: rest => .anyChar :: patternElements bound rest
  | bound + 1, '[' :: rest =>
    match splitBracket rest with
    | some (inside, rest) => PatternElement.ofBracket inside :: patternElements bound rest
    | none => .char '[' :: patternElements bound rest
  | bound + 1, c :: rest => .char c :: patternElements bound rest

/-- Whether some end of a text, the whole or the empty one included, passes a test. -/
def anySuffix (test : List Char → Bool) : List Char → Bool
  | [] => test []
  | c :: cs => test (c :: cs) || anySuffix test cs

def matchesElements : List PatternElement → List Char → Bool
  | [], cs => cs.isEmpty
  | .anyText :: es, cs => anySuffix (matchesElements es) cs
  | e :: es, c :: cs => e.admits c && matchesElements es cs
  | _ :: _, [] => false

/-- Whether a pattern stands for a name as a whole. Letters match in their own case only. -/
def matchesPattern (pattern name : String) : Bool :=
  matchesElements (patternElements pattern.length pattern.toList) name.toList

end SchemaCompiler
