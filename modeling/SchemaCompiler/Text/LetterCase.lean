import SchemaCompiler.Text.CaseTable

/-! Lower and upper case of a whole text. Two lower-case mappings look beyond the single character:
the dotted capital I becomes two characters, and a capital sigma takes its final form at the end of
a word. -/

namespace SchemaCompiler

/-- Whether the next character that counts for the case of a word has case. -/
def meetsCased (cs : List Char) : Bool :=
  match cs.dropWhile caseIgnorableRanges.has with
  | [] => false
  | c :: _ => casedRanges.has c

/-- The lower case of the characters that follow `before`, which is held in reverse. -/
def lowerAfter (before : List Char) : List Char → List Char
  | [] => []
  | c :: rest =>
    let mapped :=
      if c.toNat < 0x80 then [c.toLower]
      else if c = 'Σ' then [if meetsCased before && !meetsCased rest then 'ς' else 'σ']
      else if c.toNat = 0x130 then ['i', Char.ofNat 0x307]
      else [lowerRows.apply c]
    mapped ++ lowerAfter (c :: before) rest

def lowerText (s : String) : String :=
  String.ofList (lowerAfter [] s.toList)

def upperChars (c : Char) : List Char :=
  if c.toNat < 0x80 then [c.toUpper]
  else match upperExpansions.find? fun (n, _) => n == c.toNat with
    | some (_, ns) => ns.map Char.ofNat
    | none => [upperRows.apply c]

def upperText (s : String) : String :=
  String.ofList (s.toList.flatMap upperChars)

end SchemaCompiler
