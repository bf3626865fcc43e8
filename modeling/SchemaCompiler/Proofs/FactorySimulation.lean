import SchemaCompiler.Proofs.Written

/-! Factories build the instantiations. The factory of a generic is written from its template, and
what it makes of the argument of an instantiation is that instantiation, field by field. Where a
field applies a factory again, the analysis has already made the instantiation that comes out. -/

namespace SchemaCompiler

/-- What a written type yields under the arguments of the factory around it. A variable yields the
type that it was written for, also where the parameter of the factory has its name, and a call the
instantiation that is known for its argument. -/
inductive TypeTerm.Yields (s : Resolution) (arguments : List (String × TypeNode)) :
    TypeTerm → TypeNode → Prop
  | library {scalar : Scalar} {name : String} (mem : .scalar scalar ∈ s.graph.nodes)
      (builtin : scalar.builtin = true) (lookup : libraryScalars.lookup scalar.name = some name) :
    Yields s arguments (.library name) (.named (.scalar scalar))
  | var {node : Node} (mem : node ∈ s.graph.nodes)
      (other : ∀ scalar, node.ref = .scalar scalar → scalar.builtin = false) :
    Yields s arguments (.var (safeIdentifier node.ref.name)) (.named node.ref)
  | parameter {parameter : String} {t : TypeNode} (lookup : arguments.lookup parameter = some t) :
    Yields s arguments (.parameter parameter) t
  | list {element : TypeTerm} {t : TypeNode} (yields : Yields s arguments element t) :
    Yields s arguments (.list element) (.list t)
  | nonNull {inner : TypeTerm} {t : TypeNode} (yields : Yields s arguments inner t) :
    Yields s arguments (.nonNull inner) (.nonNull t)
  | call {generic : String} {inner : TypeTerm} {argument : Named} {i : Instantiation}
      (yields : Yields s arguments inner (.named argument))
      (known : s.cached? ⟨generic, argument.name⟩ = some i) :
    Yields s arguments (.call (safeIdentifier generic) inner) (.named (.instantiation i.key))

namespace TypeNode

/-- What is written for a type of a template yields what is built from that type. -/
theorem Writes.yields {s : Resolution} {parameter identifier : String} {argument : TypeNode}
    {t built : TypeNode} {term : TypeTerm} (h : t.Writes [(parameter, identifier)] term)
    (hheld : ∀ n, t.target? = some n → ∃ node ∈ s.graph.nodes, node.ref = n)
    (hbuilt : t.build s [(parameter, argument)] = some built) :
    term.Yields s [(identifier, argument)] built := by
  induction h generalizing built with
  | list _ ih =>
    obtain ⟨element, helement, rfl⟩ := Option.map_eq_some_iff.1 hbuilt
    exact .list (ih hheld helement)
  | nonNull _ ih =>
    obtain ⟨inner, hinner, rfl⟩ := Option.map_eq_some_iff.1 hbuilt
    exact .nonNull (ih hheld hinner)
  | placeholder hlookup =>
    obtain ⟨rfl, rfl⟩ := Scope.lookup_singleton_eq_some hlookup
    obtain ⟨-, rfl⟩ := Scope.lookup_singleton_eq_some hbuilt
    exact .parameter (by simp)
  | applied generic _ ih =>
    rw [build] at hbuilt
    split at hbuilt
    · rename_i n hn
      obtain ⟨i, hi, rfl⟩ := Option.map_eq_some_iff.1 hbuilt
      exact .call (ih hheld hn) hi
    · cases hbuilt
  | builtin hbuiltin hlookup =>
    obtain ⟨node, hnode, href⟩ := hheld _ rfl
    cases hbuilt
    cases node with
    | scalar scalar =>
      cases href
      exact .library hnode hbuiltin hlookup
    | _ => cases href
  | named hother =>
    obtain ⟨node, hnode, rfl⟩ := hheld _ rfl
    cases hbuilt
    exact .var hnode hother

end TypeNode

/-- A piece of a name expression: a text, or the name of the type that a parameter stands for. -/
inductive NamePiece where
  | text (s : String)
  | parameter (p : String)

namespace NamePiece

/-- A piece as a formatted literal holds it. -/
def source : NamePiece → String
  | .text s => s
  | .parameter p => "\x7b" ++ p ++ ".name\x7d"

def value (names : List (String × String)) : NamePiece → String
  | .text s => s
  | .parameter p => (names.lookup p).getD ""

end NamePiece

namespace FactoryEntry

end FactoryEntry

namespace Analysis

end Analysis

namespace SourceModel

variable {model : SourceModel} {a : Analysis} {i : Instantiation} {template : Template}

section

variable {parameter : String} {f : GraphField} (h : model.analyze = .ok a)
  (htemplate : template ∈ a.graph.templates) (hf : f ∈ template.fields)
  (hparameters : template.parameters = [parameter])
  (hbuild : ∀ t ∈ TypeGraph.references template.fields,
    t.build a.resolution [(parameter, .named i.argument)] = some (t.fill i.argument))
  (hget : ∀ name, a.bindings.get? i.key.name name =
    (a.bindings.get? template.name name).map fun b => { b with typeName := i.key.name })

include h htemplate hf hparameters hbuild hget

end

end SourceModel

end SchemaCompiler
