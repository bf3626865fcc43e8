import SchemaCompiler.Text.LetterCase

/-! Names in snake case. A name is split in front of each capitalised word and in front of each
capital that follows a lower-case letter or a digit, and then put into lower case. Only ASCII
letters count as capitals and lower-case letters, and a line break is no character in front of which
a word is split off. -/

namespace SchemaCompiler

/-- Splits a name in front of each capital that is followed by a lower-case letter. While
`inWord` holds, the lower-case letters of the word just split off are passed over; a character that
belongs to such a word is not looked at again. -/
def splitWords : (inWord : Bool) → List Char → List Char
  | inWord, c :: u :: rest =>
    if inWord && c.isLower then c :: splitWords true (u :: rest)
    else if c ≠ '\n' && u.isUpper && (rest.head?.any Char.isLower) then
      c :: '_' :: u :: splitWords true rest
    else c :: splitWords false (u :: rest)
  | _, cs => cs

/-- Splits a name in front of each capital that follows a lower-case letter or a digit. -/
def splitCapitals : List Char → List Char
  | c :: u :: rest =>
    if (c.isLower || c.isDigit) && u.isUpper then c :: '_' :: splitCapitals (u :: rest)
    else c :: splitCapitals (u :: rest)
  | cs => cs

def snakeCase (name : String) : String :=
  lowerText (String.ofList (splitCapitals (splitWords false name.toList)))

end SchemaCompiler
