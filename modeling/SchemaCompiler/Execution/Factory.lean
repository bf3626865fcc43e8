/-! Factories of generic types. A factory builds a type for each list of arguments once, and answers
the type it has built before when the arguments have the same names again. -/

namespace SchemaCompiler

/-- A factory and the types it has built, by the names of their arguments and in order. -/
structure Factory (τ : Type) where
  name : String
  cache : List (List String × τ) := []
  deriving Repr

namespace Factory

variable {τ ε : Type}

def cached? (f : Factory τ) (key : List String) : Option τ :=
  (f.cache.find? fun (k, _) => k = key).map (·.2)

/-- The type for arguments of these names and the factory afterwards. What `build` does not build is
not remembered. -/
def apply (f : Factory τ) (build : List String → Except ε τ) (key : List String) :
    Except ε τ × Factory τ :=
  match f.cached? key with
  | some type => (.ok type, f)
  | none =>
    match build key with
    | .ok type => (.ok type, { f with cache := f.cache ++ [(key, type)] })
    | .error e => (.error e, f)

end Factory

end SchemaCompiler
