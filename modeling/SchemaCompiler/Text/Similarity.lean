/-! How alike two texts are. The longest run of characters that two texts share is matched first,
then the parts before it and the parts after it; texts are alike if the matched characters make up
three fifths of both or more. -/

namespace SchemaCompiler

def commonStart : List Char → List Char → Nat
  | a :: as, b :: bs => if a = b then commonStart as bs + 1 else 0
  | _, _ => 0

/-- A run of shared characters: where it starts in either text, and its length. -/
structure SharedRun where
  first : Nat := 0
  second : Nat := 0
  length : Nat := 0
  deriving DecidableEq, Repr

/-- The longest shared run, of several the one that starts first in the first text, then in the
second. -/
def longestRun (a b : List Char) : SharedRun :=
  (List.range a.length).foldl (fun best i =>
    (List.range b.length).foldl (fun best j =>
      let length := commonStart (a.drop i) (b.drop j)
      if length > best.length then ⟨i, j, length⟩ else best) best) {}

/-- The number of matched characters. Every run takes a character of the first text at least, so its
length bounds the depth. -/
def matchedChars : (bound : Nat) → List Char → List Char → Nat
  | 0, _, _ => 0
  | bound + 1, a, b =>
    let run := longestRun a b
    if run.length = 0 then 0
    else matchedChars bound (a.take run.first) (b.take run.second) + run.length +
      matchedChars bound (a.drop (run.first + run.length)) (b.drop (run.second + run.length))

/-- The names that are like a text, at most three of them and those that are most like it. They are
in order. -/
def similarNames (names : List String) (text : String) : List String :=
  let score (name : String) : Nat × Nat :=
    (matchedChars name.length name.toList text.toList, name.length + text.length)
  let scored := (names.map fun name => (name, score name)).filter fun (_, matched, total) =>
    10 * matched ≥ 3 * total
  let best := scored.mergeSort fun (_, m, t) (_, n, u) => m * u ≥ n * t
  ((best.take 3).map (·.1)).mergeSort fun a b => a ≤ b

end SchemaCompiler
