import SchemaCompiler.Proofs.Asking
import SchemaCompiler.Proofs.Normalized

/-! Nullability and lists from a shape to its type. A shape has one position for each of its array
layers and one inside them; unions only mark positions. Its type has the same positions, is non-null
exactly where no marker stands, and ends in what the innermost shape stands for. The flags that a
descriptor reads off its expression agree with the type. -/

namespace SchemaCompiler

namespace Shape

mutual

/-- From the outside in, whether an absence marker stands at each position of a shape. -/
def marks : Shape → List Bool
  | .array element => false :: element.marks
  | .union members =>
    (members.any isAbsent || (presentMarks members).headD false) :: (presentMarks members).tail
  | .absent _ => [true]
  | _ => [false]

/-- The marks of the first member that is no absence marker. -/
def presentMarks : List Shape → List Bool
  | [] => []
  | m :: rest => if m.isAbsent then presentMarks rest else m.marks

end

mutual

def arrayLayers : Shape → Nat
  | .array element => element.arrayLayers + 1
  | .union members => presentLayers members
  | _ => 0

def presentLayers : List Shape → Nat
  | [] => 0
  | m :: rest => if m.isAbsent then presentLayers rest else m.arrayLayers

end

mutual

/-- The shape at the innermost position: a name or a generic application. -/
def core : Shape → Shape
  | .array element => element.core
  | .union members => presentCore members
  | shape => shape

def presentCore : List Shape → Shape
  | [] => default
  | m :: rest => if m.isAbsent then presentCore rest else m.core

end

/-- What a name or an application stands for when it is resolved from one state to another: what the
type parameter is bound to, the type of a name, an application that is still open, or an
instantiation. -/
inductive StandsFor (scope : Scope) (inst : Scope.Instantiate) (param tag : Option String)
    (env : Scope.Environment) : Shape → Resolution → TypeNode → Resolution → Prop
  | parameter {name : String} {t : TypeNode} {s : Resolution} (isParam : param = some name)
      (bound : env.lookup name = some t) :
    StandsFor scope inst param tag env (.named name) s t s
  | named {name : String} {n : Named} {s s' : Resolution} (notParam : param ≠ some name)
      (found : scope.named name tag s = (.ok n, s')) :
    StandsFor scope inst param tag env (.named name) s (.named n) s'
  | applied {generic : String} {a : Shape} {t : TypeNode} {s s' : Resolution}
      (argument : StandsFor scope inst param tag env a s t s') (isOpen : t.isOpen = true)
      (declared : ∃ decl, scope.model.get? generic = some (.generic decl)) :
    StandsFor scope inst param tag env (.generic generic [a]) s (.applied generic t) s'
  | instantiated {generic : String} {a : Shape} {n : Named} {s mid s' : Resolution}
      (argument : StandsFor scope inst param tag env a s (.named n) mid)
      (answered : inst scope generic [.type (.named n)] mid = (.ok ⟨generic, n.name⟩, s')) :
    StandsFor scope inst param tag env (.generic generic [a]) s
      (.named (.instantiation ⟨generic, n.name⟩)) s'

end Shape

namespace TypeNode

/-- From the outside in, whether a type is non-null at each of its positions. -/
def required : TypeNode → List Bool
  | .nonNull inner => true :: inner.required.tail
  | .list element => false :: element.required
  | _ => [false]

def listLayers : TypeNode → Nat
  | .nonNull inner => inner.listLayers
  | .list element => element.listLayers + 1
  | _ => 0

def isNonNull : TypeNode → Bool
  | .nonNull _ => true
  | _ => false

/-- No non-null type is wrapped directly in another. -/
def NonNullOnce : TypeNode → Prop
  | .nonNull inner => inner.isNonNull = false ∧ inner.NonNullOnce
  | .list element => element.NonNullOnce
  | .applied _ argument => argument.NonNullOnce
  | _ => True

/-- A type without wrappers, also inside an open application. -/
def Plain : TypeNode → Prop
  | .named _ => True
  | .placeholder _ => True
  | .applied _ argument => argument.Plain
  | _ => False

end TypeNode

namespace TypeExpr

/-- From the outside in, whether an expression is nullable at each of its positions. -/
def marks : TypeExpr → List Bool
  | .nullable inner => true :: inner.marks.tail
  | .list element => false :: element.marks
  | _ => [false]

def core : TypeExpr → TypeExpr
  | .nullable inner => inner.core
  | .list element => element.core
  | e => e

theorem marks_head (e : TypeExpr) : e.marks.head? = some e.isNullable := by
  cases e <;> rfl

theorem marks_orNull (e : TypeExpr) : e.orNull.marks = true :: e.marks.tail := by
  cases e <;> rfl

theorem listDepth_orNull (e : TypeExpr) : e.orNull.listDepth = e.listDepth := by
  cases e <;> rfl

theorem core_orNull (e : TypeExpr) : e.orNull.core = e.core := by
  cases e <;> rfl

end TypeExpr

namespace Shape

variable {param : Option String}

/-- A normal form is nullable where its shape is marked, has its layers, and ends in its core. -/
theorem normalize_marks (shape : Shape) {e : TypeExpr} (h : shape.normalize param = .ok e) :
    e.marks = shape.marks ∧ e.listDepth = shape.arrayLayers ∧
      shape.core.normalize param = .ok e.core ∧ shape.core.isArgument = true := by
  induction shape using induct generalizing e with
  | named name =>
    have hcore : e.marks = [false] ∧ e.listDepth = 0 ∧ e.core = e := by
      rw [normalize] at h
      cases h
      split <;> exact ⟨rfl, rfl, rfl⟩
    obtain ⟨hmarks, hdepth, hcore⟩ := hcore
    exact ⟨hmarks, hdepth, hcore.symm ▸ h, rfl⟩
  | absent marker => cases h
  | union members ih =>
    obtain ⟨m, x, hmarker, hm, hx, rfl⟩ := normalize_union_eq_ok.1 h
    obtain ⟨hmarks, hdepth, hcore, hform⟩ := ih m (mem_of_filter hm) hx
    have hany : members.any isAbsent = true := by simpa using hmarker
    have hpresentMarks : presentMarks members = m.marks :=
      of_only (fun _ _ => by rw [presentMarks]) hm
    have hpresentLayers : presentLayers members = m.arrayLayers :=
      of_only (fun _ _ => by rw [presentLayers]) hm
    have hpresentCore : presentCore members = m.core :=
      of_only (fun _ _ => by rw [presentCore]) hm
    rw [marks, arrayLayers, core, hany, hpresentMarks, hpresentLayers, hpresentCore,
      TypeExpr.marks_orNull, TypeExpr.listDepth_orNull, TypeExpr.core_orNull, hmarks]
    exact ⟨rfl, hdepth, hcore, hform⟩
  | array element ih =>
    obtain ⟨x, hx, rfl⟩ := normalize_array_eq_ok.1 h
    obtain ⟨hmarks, hdepth, hcore, hform⟩ := ih hx
    exact ⟨congrArg (false :: ·) hmarks, congrArg (· + 1) hdepth, hcore, hform⟩
  | generic name arguments ih =>
    obtain ⟨-, es, -, rfl⟩ := normalize_generic_eq_ok.1 h
    exact ⟨rfl, rfl, h, rfl⟩

end Shape

namespace TypeNode

/-- A type that is neither non-null nor a list at its outermost position. -/
def isWrapper : TypeNode → Bool
  | .list _ => true
  | .nonNull _ => true
  | _ => false

theorem required_of_not_wrapper {t : TypeNode} (h : t.isWrapper = false) : t.required = [false] := by
  cases t <;> first | rfl | cases h

theorem listLayers_of_not_wrapper {t : TypeNode} (h : t.isWrapper = false) : t.listLayers = 0 := by
  cases t <;> first | rfl | cases h

theorem unwrap_of_not_wrapper {t : TypeNode} (h : t.isWrapper = false) : t.unwrap = t := by
  cases t <;> first | rfl | cases h

theorem Plain.not_wrapper {t : TypeNode} (h : t.Plain) : t.isWrapper = false := by
  cases t <;> first | rfl | cases h

theorem Plain.nonNullOnce {t : TypeNode} (h : t.Plain) : t.NonNullOnce := by
  induction t with
  | named _ | placeholder _ => trivial
  | list _ _ | nonNull _ _ => cases h
  | applied generic argument ih => exact ih h

theorem required_head (t : TypeNode) : t.required.head? = some t.isNonNull := by
  cases t <;> rfl

end TypeNode

namespace Scope

variable {scope : Scope} {inst : Instantiate} {tag : Option String} {env : Environment}
  {s s' : Resolution}

/-- The steps by which a resolution applies generics: those of its declarations, and those inside
instantiations. -/
def Applies (inst : Instantiate) : Prop :=
  inst = instantiate ∨ ∃ depth, inst = instantiateWithin depth

theorem Applies.within (h : Applies inst) (scope : Scope) (generic : String)
    (args : List GenericArgument) :
    ∃ depth, inst scope generic args = instantiateWithin depth scope generic args := by
  rcases h with rfl | ⟨depth, rfl⟩
  · exact ⟨_, rfl⟩
  · exact ⟨depth, rfl⟩

/-- An instantiation answers its own key, from any state. -/
theorem instantiateDecl_key {depth : Nat} {decl : GenericDecl} {argument : Named}
    {key : InstanceKey} (h : scope.instantiateDecl depth decl argument s = (.ok key, s')) :
    key = ⟨decl.name, argument.name⟩ := by
  rcases hc : s.cached? ⟨decl.name, argument.name⟩ with _ | t
  · cases depth with
    | zero =>
      rw [instantiateDecl_zero hc] at h
      cases h
    | succ depth =>
      rw [instantiateDecl_succ depth hc] at h
      obtain ⟨fields, mid, -, h⟩ := ResolveM.bind_eq_ok.1 h
      rw [finish_apply] at h
      rcases hadd : mid.graph.add (.instantiation (filled decl argument fields)) with e | ⟨r, g⟩
      · rw [hadd] at h
        cases h
      · rw [hadd] at h
        cases h
        rfl
  · rw [instantiateDecl_cached depth hc] at h
    cases h
    rfl

/-- A generic that is applied takes one type, which leaves the application open or is named. -/
theorem apply_eq_ok (hinst : Applies inst) {generic : String} {types : List TypeNode}
    {t : TypeNode} (h : scope.apply inst generic types s = (.ok t, s')) :
    (∃ x decl, types = [x] ∧ x.isOpen = true ∧ scope.model.get? generic = some (.generic decl) ∧
      t = .applied generic x ∧ s' = s) ∨
    ∃ n, types = [.named n] ∧ t = .named (.instantiation ⟨generic, n.name⟩) ∧
      inst scope generic [.type (.named n)] s = (.ok ⟨generic, n.name⟩, s') := by
  unfold apply at h
  split at h
  · rename_i hopen
    rcases hget : scope.model.get? generic with _ | ⟨_ | decl | _ | _⟩ <;> rw [hget] at h
    case some.generic =>
      rcases types with _ | ⟨type, _ | ⟨second, rest⟩⟩
      · cases h
      · cases h
        exact .inl ⟨type, decl, rfl, by simpa using hopen, rfl, rfl, rfl⟩
      · cases h
    all_goals cases h
  · obtain ⟨key, mid, hrun, h⟩ := ResolveM.bind_eq_ok.1 h
    cases h
    obtain ⟨depth, hdepth⟩ := hinst.within scope generic (types.map .type)
    have hsteps := hrun
    rw [hdepth, instantiateWithin_types] at hsteps
    split at hsteps
    · cases hsteps
    · rename_i decl hget
      split at hsteps
      · rename_i n hnamed
        obtain rfl := namedTypes_eq_some hnamed
        have hkey := instantiateDecl_key hsteps
        rw [show decl.name = generic from SourceModel.get?_name hget] at hkey
        subst hkey
        exact .inr ⟨n, rfl, rfl, hrun⟩
      · cases hsteps
      · cases hsteps
    · cases hsteps

theorem resolveArguments_singleton {es : List TypeExpr} {t : TypeNode}
    (h : scope.resolveArguments inst tag env es s = (.ok [t], s')) :
    ∃ e, es = [e] ∧ scope.resolveExpr inst tag env false e s = (.ok t, s') := by
  rcases es with _ | ⟨e, rest⟩
  · rw [resolveArguments] at h
    cases h
  · rw [resolveArguments] at h
    obtain ⟨x, mid, hx, h⟩ := ResolveM.bind_eq_ok.1 h
    obtain ⟨xs, mid', hxs, h⟩ := ResolveM.bind_eq_ok.1 h
    cases h
    rcases rest with _ | ⟨e', rest⟩
    · rw [resolveArguments] at hxs
      cases hxs
      exact ⟨e, rfl, hx⟩
    · rw [resolveArguments] at hxs
      obtain ⟨_, _, _, hxs⟩ := ResolveM.bind_eq_ok.1 hxs
      obtain ⟨_, _, _, hxs⟩ := ResolveM.bind_eq_ok.1 hxs
      cases hxs

/-- A name or an application is resolved to what it stands for. -/
theorem resolveExpr_standsFor (hinst : Applies inst) {param : Option String} (shape : Shape)
    (hform : shape.isArgument = true) {e : TypeExpr} (he : shape.normalize param = .ok e)
    {t : TypeNode} (h : scope.resolveExpr inst tag env false e s = (.ok t, s')) :
    shape.StandsFor scope inst param tag env s t s' := by
  induction shape using Shape.induct generalizing e t s s' with
  | absent _ | union _ _ | array _ _ => cases hform
  | named name =>
    by_cases hname : param = some name
    · rw [Shape.normalize, if_pos hname] at he
      cases he
      rw [resolveExpr] at h
      rcases hlookup : env.lookup name with _ | x
      · rw [hlookup] at h
        cases h
      · rw [hlookup] at h
        cases h
        exact .parameter hname hlookup
    · rw [Shape.normalize, if_neg hname] at he
      cases he
      rw [resolveExpr] at h
      obtain ⟨n, mid, hn, h⟩ := ResolveM.bind_eq_ok.1 h
      cases h
      exact .named hname hn
  | generic name arguments ih =>
    obtain ⟨-, es, hes, rfl⟩ := Shape.normalize_generic_eq_ok.1 he
    rw [resolveExpr] at h
    obtain ⟨types, mid, htypes, h⟩ := ResolveM.bind_eq_ok.1 h
    obtain ⟨x, mid', hx, h⟩ := ResolveM.bind_eq_ok.1 h
    cases h
    have hargument {y : TypeNode} (hy : types = [y]) :
        ∃ a, arguments = [a] ∧ a.StandsFor scope inst param tag env s y mid := by
      subst hy
      obtain ⟨e, rfl, hrun⟩ := resolveArguments_singleton htypes
      obtain ⟨a, rest, ⟨haForm, hnormal⟩, hrest, rfl⟩ := List.forall₂_cons_right_iff.1 hes
      obtain rfl := List.forall₂_nil_right_iff.1 hrest
      exact ⟨a, rfl, ih a List.mem_cons_self haForm hnormal hrun⟩
    obtain ⟨y, decl, hy, hopen, hget, rfl, rfl⟩ | ⟨n, hn, rfl, hanswered⟩ := apply_eq_ok hinst hx
    · obtain ⟨a, rfl, ha⟩ := hargument hy
      exact .applied ha hopen ⟨decl, hget⟩
    · obtain ⟨a, rfl, ha⟩ := hargument hn
      exact .instantiated ha hanswered

/-- The type parameters are bound to types without wrappers: placeholders in a template, named types
in an instantiation. -/
def BindsPlain (env : Environment) : Prop :=
  ∀ name t, env.lookup name = some t → t.Plain

theorem bindsPlain_singleton (parameter : String) {t : TypeNode} (h : t.Plain) :
    BindsPlain [(parameter, t)] := by
  intro name x hx
  rw [List.lookup_cons] at hx
  split at hx
  · cases hx
    exact h
  · cases hx

end Scope

theorem Shape.StandsFor.plain {scope : Scope} {inst : Scope.Instantiate}
    {param tag : Option String} {env : Scope.Environment} (henv : Scope.BindsPlain env)
    {shape : Shape} {s s' : Resolution} {t : TypeNode}
    (h : shape.StandsFor scope inst param tag env s t s') : t.Plain := by
  induction h with
  | parameter _ bound => exact henv _ _ bound
  | named _ _ => trivial
  | applied _ _ _ ih => exact ih
  | instantiated _ _ _ => trivial

namespace Scope

variable {scope : Scope} {inst : Instantiate} {tag : Option String} {env : Environment}
  {s s' : Resolution}

/-- How a type is wrapped that an expression is resolved to. -/
structure Wraps (scope : Scope) (inst : Instantiate) (tag : Option String) (env : Environment)
    (required : Bool) (e : TypeExpr) (s : Resolution) (t : TypeNode) (s' : Resolution) : Prop where
  required : t.required =
    if required then e.marks.map (!·) else false :: (e.marks.map (!·)).tail
  once : t.unwrap.NonNullOnce → t.NonNullOnce
  layers : t.listLayers = e.listDepth
  core : scope.resolveExpr inst tag env false e.core s = (.ok t.unwrap, s')

/-- What a name, a parameter or an application is resolved to gets its mark only. -/
theorem Wraps.of_core {e : TypeExpr} {x : TypeNode} (required : Bool)
    (hx : scope.resolveExpr inst tag env false e.core s = (.ok x, s')) (hplain : x.isWrapper = false)
    (hmarks : e.marks = [false]) (hdepth : e.listDepth = 0) :
    Wraps scope inst tag env required e s (mark required x) s' := by
  cases required with
  | true =>
    refine ⟨?_, fun h => ⟨?_, ?_⟩, ?_, ?_⟩
    · rw [hmarks, mark, if_pos rfl, TypeNode.required, TypeNode.required_of_not_wrapper hplain]
      rfl
    · cases x <;> first | rfl | cases hplain
    · rwa [mark, if_pos rfl, TypeNode.unwrap, TypeNode.unwrap_of_not_wrapper hplain] at h
    · rw [hdepth, mark, if_pos rfl, TypeNode.listLayers,
        TypeNode.listLayers_of_not_wrapper hplain]
    · rwa [mark, if_pos rfl, TypeNode.unwrap, TypeNode.unwrap_of_not_wrapper hplain]
  | false =>
    have hmark : mark false x = x := rfl
    rw [hmark]
    refine ⟨?_, fun h => ?_, ?_, ?_⟩
    · rw [hmarks, TypeNode.required_of_not_wrapper hplain]
      rfl
    · rwa [TypeNode.unwrap_of_not_wrapper hplain] at h
    · rw [hdepth, TypeNode.listLayers_of_not_wrapper hplain]
    · rwa [TypeNode.unwrap_of_not_wrapper hplain]

/-- The type of an expression has its positions and ends in what its core is resolved to. -/
theorem resolveExpr_wraps (hinst : Applies inst) (henv : BindsPlain env) :
    ∀ (e : TypeExpr) (required : Bool) {t : TypeNode} {s s' : Resolution},
      scope.resolveExpr inst tag env required e s = (.ok t, s') →
        Wraps scope inst tag env required e s t s'
  | .nullable inner, required, t, s, s', h => by
    rw [resolveExpr] at h
    obtain ⟨hrequired, honce, hlayers, hcore⟩ := resolveExpr_wraps hinst henv inner false h
    refine ⟨?_, honce, hlayers, hcore⟩
    rw [hrequired]
    cases required <;> simp [TypeExpr.marks, List.map_tail]
  | .list element, required, t, s, s', h => by
    rw [resolveExpr] at h
    obtain ⟨x, mid, hx, h⟩ := ResolveM.bind_eq_ok.1 h
    cases h
    obtain ⟨hrequired, honce, hlayers, hcore⟩ := resolveExpr_wraps hinst henv element true hx
    rw [if_pos rfl] at hrequired
    cases required
    · exact ⟨congrArg (false :: ·) hrequired, honce, congrArg (· + 1) hlayers, hcore⟩
    · exact ⟨congrArg (true :: ·) hrequired, fun h => ⟨rfl, honce h⟩, congrArg (· + 1) hlayers, hcore⟩
  | .param name, required, t, s, s', h => by
    rw [resolveExpr] at h
    rcases hlookup : env.lookup name with _ | x
    · rw [hlookup] at h
      cases h
    · rw [hlookup] at h
      cases h
      refine .of_core required ?_ (henv name x hlookup).not_wrapper rfl rfl
      show scope.resolveExpr inst tag env false (.param name) s = _
      rw [resolveExpr, hlookup]
      rfl
  | .apply generic arguments, required, t, s, s', h => by
    rw [resolveExpr] at h
    obtain ⟨types, mid, htypes, h⟩ := ResolveM.bind_eq_ok.1 h
    obtain ⟨x, mid', hx, h⟩ := ResolveM.bind_eq_ok.1 h
    cases h
    refine .of_core required ?_ ?_ rfl rfl
    · show scope.resolveExpr inst tag env false (.apply generic arguments) s = _
      rw [resolveExpr, ResolveM.bind_ok htypes, ResolveM.bind_ok hx]
      rfl
    · obtain ⟨_, _, _, _, _, rfl, -⟩ | ⟨_, _, rfl, -⟩ := apply_eq_ok hinst hx <;> rfl
  | .ref name, required, t, s, s', h => by
    rw [resolveExpr] at h
    obtain ⟨n, mid, hn, h⟩ := ResolveM.bind_eq_ok.1 h
    cases h
    refine .of_core required ?_ rfl rfl rfl
    show scope.resolveExpr inst tag env false (.ref name) s = _
    rw [resolveExpr, ResolveM.bind_ok hn]
    rfl

end Scope

/-- A type is that of a shape: it has the same positions, is non-null exactly where no marker
stands, and ends in what the core of the shape stands for. What a descriptor says of its expression
holds of the type. -/
structure Shape.Preserved (scope : Scope) (inst : Scope.Instantiate) (param tag : Option String)
    (env : Scope.Environment) (shape : Shape) (e : TypeExpr) (s : Resolution) (t : TypeNode)
    (s' : Resolution) : Prop where
  nonNull : t.required = shape.marks.map (!·)
  layers : t.listLayers = shape.arrayLayers
  once : t.NonNullOnce
  core : shape.core.StandsFor scope inst param tag env s t.unwrap s'
  nullable : ∀ d : FieldDescriptor, d.type = some e → (d.nullable = true ↔ t.isNonNull = false)
  listDepth : ∀ d : FieldDescriptor, d.type = some e → d.listDepth = t.listLayers

/-- Resolving the normal form of a shape preserves its nullability and its lists. -/
theorem Scope.resolveExpr_preserves {scope : Scope} {inst : Instantiate} (hinst : Applies inst)
    {param tag : Option String} {env : Environment} (henv : BindsPlain env) {shape : Shape}
    {e : TypeExpr} (he : shape.normalize param = .ok e) {s s' : Resolution} {t : TypeNode}
    (h : scope.resolveExpr inst tag env true e s = (.ok t, s')) :
    shape.Preserved scope inst param tag env e s t s' := by
  obtain ⟨hmarks, hdepth, hcore, hform⟩ := shape.normalize_marks he
  obtain ⟨hrequired, honce, hlayers, hrun⟩ := resolveExpr_wraps hinst henv e true h
  have hstands := resolveExpr_standsFor hinst shape.core hform hcore hrun
  refine ⟨?_, hlayers.trans hdepth, honce (hstands.plain henv).nonNullOnce, hstands,
    fun d hd => ?_, fun d hd => ?_⟩
  · rw [hrequired, if_pos rfl, hmarks]
  · have hhead := t.required_head
    rw [hrequired, if_pos rfl, List.head?_map, e.marks_head] at hhead
    rw [FieldDescriptor.nullable, hd, ← Option.some.inj hhead]
    simp
  · rw [FieldDescriptor.listDepth, hd, hlayers]
    rfl

/-- A list that may be missing, of boxes that may be missing, in a generic of the parameter `T`. -/
def optionalBoxes : Shape :=
  .union [.array (.union [.union [.generic "Box" [.named "T"], .absent .undefined], .absent .null]),
    .absent .null]

def boxScope : Scope where
  model := ⟨"boxes", [.generic
    ⟨"Box", "V", [{ owner := "Box", name := "value", type := some (.param "V") }], none⟩]⟩
  registry := ⟨[]⟩

theorem optionalBoxes_preserved : ∃ (env : Scope.Environment) (e : TypeExpr) (t : TypeNode)
    (s' : Resolution), Scope.Applies Scope.instantiate ∧ Scope.BindsPlain env ∧
      optionalBoxes.normalize (some "T") = .ok e ∧
      boxScope.resolveExpr Scope.instantiate none env true e {} = (.ok t, s') ∧
      t = .list (.named (.instantiation ⟨"Box", "User"⟩)) ∧
      optionalBoxes.Preserved boxScope Scope.instantiate (some "T") none env e {} t s' := by
  have henv : Scope.BindsPlain [("T", .named (.object "User"))] :=
    Scope.bindsPlain_singleton "T" trivial
  have he : optionalBoxes.normalize (some "T") =
      .ok (.nullable (.list (.nullable (.apply "Box" [.param "T"])))) := rfl
  have hanswer : (boxScope.resolveExpr Scope.instantiate none [("T", .named (.object "User"))] true
      (.nullable (.list (.nullable (.apply "Box" [.param "T"])))) {}).1.toOption =
        some (.list (.named (.instantiation ⟨"Box", "User"⟩))) := by
    decide +kernel
  obtain ⟨s', hrun⟩ : ∃ s', boxScope.resolveExpr Scope.instantiate none
      [("T", .named (.object "User"))] true (.nullable (.list (.nullable (.apply "Box" [.param "T"]))))
      {} = (.ok (.list (.named (.instantiation ⟨"Box", "User"⟩))), s') :=
    ⟨_, Prod.ext (except_toOption_eq_some.1 hanswer) rfl⟩
  exact ⟨_, _, _, s', .inl rfl, henv, he, hrun, rfl,
    Scope.resolveExpr_preserves (.inl rfl) henv he hrun⟩

end SchemaCompiler
