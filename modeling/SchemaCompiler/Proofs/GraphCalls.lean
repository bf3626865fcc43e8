import Mathlib.Data.List.Find
import SchemaCompiler.Proofs.Agreement
import SchemaCompiler.Proofs.Dictionary
import SchemaCompiler.Proofs.Step

/-! Calls of the type graph, one after the other. The graph is kept in two dictionaries, of nodes
and of templates, and a node is an object: two that hold the same are still two. Each call is run
check by check, so that it can be asked what a call that is refused has written. No call takes a
name away or gives it another node, and the type graph's lists say what the dictionaries say. -/

namespace SchemaCompiler

/-- A node as an object. Callers make nodes and copies of scalars, the graph makes the shells and
the pending nodes. -/
inductive NodeObject where
  | made (address : ℕ)
  | scalar (copy : ℕ) (scalar : Scalar)
  | shell (name : String) (kind : ShellKind)
  | pending (name : String) (site : Site)
  deriving DecidableEq

inductive GraphCall where
  | add (object : NodeObject)
  | adopt (copy : ℕ) (scalar : Scalar)
  | shell (name : String) (kind : ShellKind)
  | pending (name : String) (site : Site)
  | addTemplate (template : Template)

inductive GraphAnswer where
  | node (object : NodeObject)
  | template (template : Template)

structure GraphTables where
  named : Dictionary String NodeObject := []
  generics : Dictionary String Template := []

def NodeObject.node (heap : ℕ → Node) : NodeObject → Node
  | .made address => heap address
  | .scalar _ s => .scalar s
  | .shell name kind => kind.empty name
  | .pending name site => .pending name site

def GraphCall.name (heap : ℕ → Node) : GraphCall → String
  | .add object => (object.node heap).name
  | .adopt _ scalar => scalar.name
  | .shell name _ => name
  | .pending name _ => name
  | .addTemplate template => template.name

def GraphAnswer.ref? (heap : ℕ → Node) : GraphAnswer → Option Named
  | .node object => some (object.node heap).ref
  | .template _ => none

namespace GraphTables

def refuse (cause : Cause) (site : Site := {}) : Program GraphTables GraphAnswer :=
  throw ⟨cause, site⟩

variable (heap : ℕ → Node)

def add (object : NodeObject) : Program GraphTables GraphAnswer := do
  let tables ← get
  let name := (object.node heap).name
  if (tables.generics.get? name).isSome then refuse (.definedTwice name)
  else
    let existing := tables.named.get? name
    match existing.map (NodeObject.node heap) with
    | some (.pending _ site) => refuse (.unresolved name) site
    | _ =>
      if existing.any (· ≠ object) then refuse (.definedTwice name)
      else do
        modify fun tables => { tables with named := tables.named.set name object }
        pure (.node object)

def adopt (copy : ℕ) (scalar : Scalar) : Program GraphTables GraphAnswer := do
  let tables ← get
  if tables.named.get? scalar.name = some (.scalar copy scalar)
    then pure (.node (.scalar copy scalar))
  else add heap (.scalar copy scalar)

def shell (name : String) (kind : ShellKind) : Program GraphTables GraphAnswer := do
  let tables ← get
  match tables.named.get? name with
  | none => add heap (.shell name kind)
  | some existing =>
    match existing.node heap with
    | .pending _ _ => refuse (.referencedFirst name kind.nodeKind)
    | node =>
      if node.kind ≠ kind.nodeKind then refuse (.otherKind name node.kind kind.nodeKind)
      else match node with
        | .instantiation t => refuse (.isInstantiation name t.key.generic t.key.argument)
        | _ => pure (.node existing)

def pending (name : String) (site : Site) : Program GraphTables GraphAnswer := do
  let tables ← get
  match tables.named.get? name with
  | none => add heap (.pending name site)
  | some existing =>
    match existing.node heap with
    | .instantiation _ => refuse (.unresolved name) site
    | _ => pure (.node existing)

def addTemplate (template : Template) : Program GraphTables GraphAnswer := do
  let tables ← get
  if (tables.generics.get? template.name).isSome ∨ (tables.named.get? template.name).isSome then
    refuse (.definedTwice template.name)
  else do
    modify fun tables => { tables with generics := tables.generics.set template.name template }
    pure (.template template)

/-- A call, check by check. -/
def run : GraphCall → Program GraphTables GraphAnswer
  | .add object => add heap object
  | .adopt copy scalar => adopt heap copy scalar
  | .shell name kind => shell heap name kind
  | .pending name site => pending heap name site
  | .addTemplate template => addTemplate template

def afterAll (tables : GraphTables) (calls : List GraphCall) : GraphTables :=
  calls.foldl (fun tables call => (run heap call tables).2) tables

def graph (tables : GraphTables) : TypeGraph where
  nodes := tables.named.map (·.2.node heap)
  templates := tables.generics.map (·.2)

/-- Whether another copy of a scalar stands under its name. -/
def HoldsOther (tables : GraphTables) (copy : ℕ) (scalar : Scalar) : Prop :=
  ∃ object, tables.named.get? scalar.name = some object ∧ object ≠ .scalar copy scalar ∧
    object.node heap = .scalar scalar

/-- A call on the type graph itself. The type graph does not know objects apart, so it is told
whether it holds the very node that is added, and another copy of a scalar is added as a node. -/
inductive Calls (tables : GraphTables) : GraphCall → TypeGraph.Result (Option Named) → Prop
  | addAgain {object : NodeObject}
      (h : tables.named.get? (object.node heap).name = some object) :
      Calls tables (.add object)
        (((tables.graph heap).addAgain (object.node heap)).map fun r => (some r.1, r.2))
  | add {object : NodeObject}
      (h : tables.named.get? (object.node heap).name ≠ some object) :
      Calls tables (.add object)
        (((tables.graph heap).add (object.node heap)).map fun r => (some r.1, r.2))
  | adopt {copy : ℕ} {scalar : Scalar} (h : ¬ tables.HoldsOther heap copy scalar) :
      Calls tables (.adopt copy scalar)
        (((tables.graph heap).adopt scalar).map fun r => (some r.1, r.2))
  | adoptOther {copy : ℕ} {scalar : Scalar} (h : tables.HoldsOther heap copy scalar) :
      Calls tables (.adopt copy scalar)
        (((tables.graph heap).add (.scalar scalar)).map fun r => (some r.1, r.2))
  | shell {name : String} {kind : ShellKind} :
      Calls tables (.shell name kind)
        (((tables.graph heap).shell name kind).map fun r => (some r.1, r.2))
  | pending {name : String} {site : Site} :
      Calls tables (.pending name site)
        (((tables.graph heap).pending name site).map fun r => (some r.1, r.2))
  | addTemplate {template : Template} :
      Calls tables (.addTemplate template)
        (((tables.graph heap).addTemplate template).map fun g => (none, g))

/-- What dictionaries satisfy between two calls. -/
structure Apart (tables : GraphTables) : Prop where
  named : ∀ e ∈ tables.named, (e.2.node heap).name = e.1
  generics : ∀ e ∈ tables.generics, e.2.name = e.1
  names : (tables.named.map (·.1) ++ tables.generics.map (·.1)).Nodup

/-- Dictionaries that have all entries of others, in the same order, and maybe later ones. -/
structure Extends (tables tables' : GraphTables) : Prop where
  named : tables.named <+: tables'.named
  generics : tables.generics <+: tables'.generics

/-- All that a call about a name can do, on the dictionaries and on the type graph: it is refused,
it answers what the name has, or it gives a free name a node or a template. -/
inductive Outcome (tables : GraphTables) (name : String) :
    Except CompileError GraphAnswer × GraphTables → TypeGraph.Result (Option Named) → Prop
  | refused (e : CompileError) : Outcome tables name (.error e, tables) (.error e)
  | found {object : NodeObject} (h : tables.named.get? name = some object) :
      Outcome tables name (.ok (.node object), tables)
        (.ok (some (object.node heap).ref, tables.graph heap))
  | added {object : NodeObject} (hname : (object.node heap).name = name)
      (hnamed : tables.named.get? name = none) (hgenerics : tables.generics.get? name = none) :
      Outcome tables name
        (.ok (.node object), { tables with named := tables.named ++ [(name, object)] })
        (.ok (some (object.node heap).ref, { tables.graph heap with
          nodes := (tables.graph heap).nodes ++ [object.node heap] }))
  | template {template : Template} (hname : template.name = name)
      (hnamed : tables.named.get? name = none) (hgenerics : tables.generics.get? name = none) :
      Outcome tables name
        (.ok (.template template),
          { tables with generics := tables.generics ++ [(name, template)] })
        (.ok (none, { tables.graph heap with
          templates := (tables.graph heap).templates ++ [template] }))

variable {heap} {tables : GraphTables}

theorem Apart.name_of_get? (h : tables.Apart heap) {name : String} {object : NodeObject}
    (hget : tables.named.get? name = some object) : (object.node heap).name = name :=
  h.named _ (Dictionary.mem_of_get? hget)

/-- Under a name the type graph holds what the dictionary does. -/
theorem Apart.get? (h : tables.Apart heap) (name : String) :
    (tables.graph heap).get? name = (tables.named.get? name).map (NodeObject.node heap) := by
  show (tables.named.map fun e => e.2.node heap).find? _ = _
  rw [List.find?_map, Dictionary.get?, Option.map_map]
  congr 1
  refine List.find?_congr fun e he => ?_
  show decide ((e.2.node heap).name = name) = _
  rw [h.named e he]

theorem Apart.template? (h : tables.Apart heap) (name : String) :
    (tables.graph heap).template? name = tables.generics.get? name := by
  show (tables.generics.map fun e => e.2).find? _ = _
  rw [List.find?_map, Dictionary.get?]
  congr 1
  refine List.find?_congr fun e he => ?_
  show decide (e.2.name = name) = _
  rw [h.generics e he]

theorem Apart.keys (h : tables.Apart heap) : (tables.named.map (·.1)).Nodup :=
  h.names.of_append_left

theorem refuse_outcome {α : Type} (name : String) (cause : Cause) (site : Site)
    (f : α → Option Named × TypeGraph) :
    Outcome heap tables name (refuse cause site tables) ((TypeGraph.refuse cause site).map f) :=
  .refused _

/-- A node is added that the graph does not hold yet. -/
theorem add_outcome (h : tables.Apart heap) (object : NodeObject)
    (hnew : tables.named.get? (object.node heap).name ≠ some object) :
    Outcome heap tables (object.node heap).name (add heap object tables)
      (((tables.graph heap).add (object.node heap)).map fun r => (some r.1, r.2)) := by
  rw [add, Program.bind_apply, Program.get_apply, TypeGraph.add, h.template?, h.get?]
  dsimp only
  rcases hgenerics : tables.generics.get? (object.node heap).name with _ | template
  · rcases hnamed : tables.named.get? (object.node heap).name with _ | existing
    · show Outcome heap tables _
        (.ok (.node object), { tables with named := tables.named.set _ object }) _
      rw [Dictionary.set_of_free hnamed]
      exact .added rfl hnamed hgenerics
    · have hother : existing ≠ object := fun heq => hnew (by rw [hnamed, heq])
      have hname := h.name_of_get? hnamed
      cases hnode : existing.node heap with
      | pending pendingName site =>
        obtain rfl : pendingName = (object.node heap).name := by rw [← hname, hnode]; rfl
        simpa [hnode] using refuse_outcome _ _ _ _
      | _ => simpa [hnode, hother] using refuse_outcome _ _ _ _
  · exact .refused _

/-- The node is added that the graph holds. It stays where it is. -/
theorem addAgain_outcome (h : tables.Apart heap) {object : NodeObject}
    (hheld : tables.named.get? (object.node heap).name = some object) :
    Outcome heap tables (object.node heap).name (add heap object tables)
      (((tables.graph heap).addAgain (object.node heap)).map fun r => (some r.1, r.2)) := by
  unfold TypeGraph.addAgain
  rw [add, Program.bind_apply, Program.get_apply, h.template?]
  dsimp only
  rw [hheld]
  rcases hgenerics : tables.generics.get? (object.node heap).name with _ | template
  · have hset := Dictionary.set_of_get? h.keys hheld
    have hfound := @Outcome.found heap _ _ _ hheld
    have hwrite : ({ tables with named := tables.named.set (object.node heap).name object } :
        GraphTables) = tables := by rw [hset]
    simp only [Option.map_some]
    generalize object.node heap = node at *
    cases node with
    | pending name site => exact .refused _
    | _ =>
      rw [if_neg (by simp), if_neg (by simp), if_neg (by simp)]
      show Outcome heap tables _ (.ok _, { tables with named := _ }) _
      rw [hwrite]
      exact hfound
  · exact .refused _

/-- A scalar is added unless it is the copy that the graph holds. -/
theorem adopt_outcome (h : tables.Apart heap) (copy : ℕ) (scalar : Scalar) :
    ∃ r, Calls heap tables (.adopt copy scalar) r ∧
      Outcome heap tables scalar.name (adopt heap copy scalar tables) r := by
  rw [adopt, Program.bind_apply, Program.get_apply]
  dsimp only
  by_cases hheld : tables.named.get? scalar.name = some (.scalar copy scalar)
  · have hsame : ¬ tables.HoldsOther heap copy scalar := by
      rintro ⟨object, hget, hother, -⟩
      rw [hheld] at hget
      exact hother (Option.some.inj hget).symm
    refine ⟨_, .adopt hsame, ?_⟩
    have hadopt : (tables.graph heap).adopt scalar = .ok (.scalar scalar, tables.graph heap) := by
      rw [TypeGraph.adopt, h.get?, hheld]
      exact if_pos rfl
    rw [if_pos hheld, hadopt]
    exact .found hheld
  · rw [if_neg hheld]
    have hadded : Outcome heap tables scalar.name (add heap (.scalar copy scalar) tables)
        (((tables.graph heap).add (.scalar scalar)).map fun r => (some r.1, r.2)) :=
      add_outcome h (.scalar copy scalar) hheld
    by_cases hother : tables.HoldsOther heap copy scalar
    · exact ⟨_, .adoptOther hother, hadded⟩
    · -- no scalar under the name has the same data, so the type graph adds it too
      have hadopt : (tables.graph heap).adopt scalar =
          (tables.graph heap).add (.scalar scalar) := by
        rw [TypeGraph.adopt]
        split
        · rename_i existing hget
          refine if_neg fun heq => hother ?_
          rw [h.get?] at hget
          obtain ⟨object, hobject, hnode⟩ := Option.map_eq_some_iff.1 hget
          exact ⟨object, hobject, fun hcopy => hheld (hcopy ▸ hobject), heq ▸ hnode⟩
        · rfl
      exact ⟨_, .adopt hother, hadopt ▸ hadded⟩

theorem ShellKind.empty_name (name : String) (kind : ShellKind) :
    (kind.empty name).name = name := by
  cases kind <;> rfl

theorem shell_outcome (h : tables.Apart heap) (name : String) (kind : ShellKind) :
    Outcome heap tables name (shell heap name kind tables)
      (((tables.graph heap).shell name kind).map fun r => (some r.1, r.2)) := by
  rw [shell, Program.bind_apply, Program.get_apply, TypeGraph.shell, h.get?]
  dsimp only
  rcases hnamed : tables.named.get? name with _ | existing
  · have hname := ShellKind.empty_name name kind
    have hnew : tables.named.get? (kind.empty name).name ≠ some (.shell name kind) := by
      rw [hname, hnamed]
      exact (Option.some_ne_none _).symm
    have hadded := add_outcome h (.shell name kind) hnew
    simpa [NodeObject.node, hname] using hadded
  · have hfound := @Outcome.found heap _ _ _ hnamed
    simp only [Option.map_some]
    cases hnode : existing.node heap with
    | pending => exact .refused _
    | instantiation =>
      dsimp only
      split <;> exact .refused _
    | _ =>
      rw [hnode] at hfound
      dsimp only
      split
      · exact .refused _
      · exact hfound

theorem pending_outcome (h : tables.Apart heap) (name : String) (site : Site) :
    Outcome heap tables name (pending heap name site tables)
      (((tables.graph heap).pending name site).map fun r => (some r.1, r.2)) := by
  rw [pending, Program.bind_apply, Program.get_apply, TypeGraph.pending, h.get?]
  dsimp only
  rcases hnamed : tables.named.get? name with _ | existing
  · have hnew : tables.named.get? name ≠ some (.pending name site) := by
      rw [hnamed]
      exact (Option.some_ne_none _).symm
    exact add_outcome h (.pending name site) hnew
  · have hfound := @Outcome.found heap _ _ _ hnamed
    simp only [Option.map_some]
    cases hnode : existing.node heap with
    | instantiation => exact .refused _
    | _ => rw [hnode] at hfound; exact hfound

theorem addTemplate_outcome (h : tables.Apart heap) (template : Template) :
    Outcome heap tables template.name (addTemplate template tables)
      (((tables.graph heap).addTemplate template).map fun g => (none, g)) := by
  rw [addTemplate, Program.bind_apply, Program.get_apply, TypeGraph.addTemplate, h.get?,
    h.template?, Option.isSome_map]
  dsimp only
  split
  · exact .refused _
  · rename_i hfree
    simp only [not_or, Option.not_isSome_iff_eq_none] at hfree
    show Outcome heap tables _
      (.ok (.template template), { tables with generics := tables.generics.set _ template }) _
    rw [Dictionary.set_of_free hfree.1]
    exact .template rfl hfree.2 hfree.1

/-- A call that does not fail has done one thing, and the type graph does the same. -/
theorem run_outcome (h : tables.Apart heap) (call : GraphCall) :
    ∃ r, Calls heap tables call r ∧
      Outcome heap tables (call.name heap) (run heap call tables) r := by
  cases call with
  | add object =>
    by_cases hheld : tables.named.get? (object.node heap).name = some object
    · exact ⟨_, .addAgain hheld, addAgain_outcome h hheld⟩
    · exact ⟨_, .add hheld, add_outcome h object hheld⟩
  | adopt copy scalar => exact adopt_outcome h copy scalar
  | shell name kind => exact ⟨_, .shell, shell_outcome h name kind⟩
  | pending name site => exact ⟨_, .pending, pending_outcome h name site⟩
  | addTemplate template => exact ⟨_, .addTemplate, addTemplate_outcome h template⟩

theorem Extends.refl (tables : GraphTables) : tables.Extends tables :=
  ⟨List.prefix_refl _, List.prefix_refl _⟩

theorem Extends.trans {tables' tables'' : GraphTables} (h₁ : tables.Extends tables')
    (h₂ : tables'.Extends tables'') : tables.Extends tables'' :=
  ⟨h₁.named.trans h₂.named, h₁.generics.trans h₂.generics⟩

namespace Outcome

variable {name : String} {x : Except CompileError GraphAnswer × GraphTables}
  {r : TypeGraph.Result (Option Named)}

theorem extended (ho : Outcome heap tables name x r) : tables.Extends x.2 := by
  cases ho with
  | refused | found => exact .refl tables
  | added => exact ⟨List.prefix_append _ _, List.prefix_refl _⟩
  | template => exact ⟨List.prefix_refl _, List.prefix_append _ _⟩

theorem apart (ho : Outcome heap tables name x r) (h : tables.Apart heap) : x.2.Apart heap := by
  cases ho with
  | refused | found => exact h
  | @added object hname hnamed hgenerics =>
    refine ⟨fun e he => ?_, h.generics, ?_⟩
    · rcases List.mem_append.1 he with he | he
      · exact h.named e he
      · rw [List.mem_singleton.1 he, hname]
    · rw [List.map_append, List.map_singleton, List.append_assoc, List.singleton_append,
        List.nodup_middle, List.nodup_cons, List.mem_append, not_or]
      exact ⟨⟨Dictionary.get?_eq_none.1 hnamed, Dictionary.get?_eq_none.1 hgenerics⟩, h.names⟩
  | @template template hname hnamed hgenerics =>
    refine ⟨h.named, fun e he => ?_, ?_⟩
    · rcases List.mem_append.1 he with he | he
      · exact h.generics e he
      · rw [List.mem_singleton.1 he, hname]
    · rw [List.map_append, List.map_singleton, ← List.append_assoc, List.nodup_append_comm,
        List.singleton_append, List.nodup_cons, List.mem_append, not_or]
      exact ⟨⟨Dictionary.get?_eq_none.1 hnamed, Dictionary.get?_eq_none.1 hgenerics⟩, h.names⟩

theorem unchanged (ho : Outcome heap tables name x r) {e : CompileError} (he : x.1 = .error e) :
    x.2 = tables := by
  cases ho with
  | refused | found => rfl
  | added | template => cases he

theorem node (ho : Outcome heap tables name x r) {object : NodeObject}
    (hx : x.1 = .ok (.node object)) : x.2.named.get? name = some object := by
  cases ho with
  | refused | template => cases hx
  | found h => cases hx; exact h
  | added _ hnamed => cases hx; exact Dictionary.get?_append_self hnamed

theorem template_held (ho : Outcome heap tables name x r) {template : Template}
    (hx : x.1 = .ok (.template template)) : x.2.generics.get? name = some template := by
  cases ho with
  | refused | found | added => cases hx
  | template _ _ hgenerics => cases hx; exact Dictionary.get?_append_self hgenerics

/-- The type graph answers and becomes what the dictionaries say. -/
theorem eq_map (ho : Outcome heap tables name x r) :
    r = x.1.map fun answer => (answer.ref? heap, x.2.graph heap) := by
  cases ho with
  | refused | found => rfl
  | added | template => simp [Except.map, graph, GraphAnswer.ref?]

end Outcome

theorem Apart.afterAll (h : tables.Apart heap) (calls : List GraphCall) :
    (tables.afterAll heap calls).Apart heap := by
  induction calls generalizing tables with
  | nil => exact h
  | cons call rest ih =>
    obtain ⟨r, -, ho⟩ := run_outcome h call
    exact ih (ho.apart h)

theorem Apart.extends_afterAll (h : tables.Apart heap) (calls : List GraphCall) :
    tables.Extends (tables.afterAll heap calls) := by
  induction calls generalizing tables with
  | nil => exact .refl tables
  | cons call rest ih =>
    obtain ⟨r, -, ho⟩ := run_outcome h call
    exact ho.extended.trans (ih (ho.apart h))

/-- After any calls every node and every template stands under its own name, and no name has two.
Later calls leave all entries and their order as they are. A call is answered with the node or the
template that its name then has; one that fails has changed nothing; and each call answers and
leaves what it does on the type graph itself. -/
theorem calls_keep_names (heap : ℕ → Node) (calls later : List GraphCall) :
    let tables := ({} : GraphTables).afterAll heap calls
    tables.Apart heap ∧
      tables.Extends (tables.afterAll heap later) ∧
      (∀ name object, tables.named.get? name = some object →
        (tables.afterAll heap later).named.get? name = some object) ∧
      (∀ name template, tables.generics.get? name = some template →
        (tables.afterAll heap later).generics.get? name = some template) ∧
      ∀ call : GraphCall,
        (∀ object, (run heap call tables).1 = .ok (.node object) →
          (run heap call tables).2.named.get? (call.name heap) = some object) ∧
        (∀ template, (run heap call tables).1 = .ok (.template template) →
          (run heap call tables).2.generics.get? (call.name heap) = some template) ∧
        (∀ e, (run heap call tables).1 = .error e → (run heap call tables).2 = tables) ∧
        Calls heap tables call ((run heap call tables).1.map fun answer =>
          (answer.ref? heap, (run heap call tables).2.graph heap)) := by
  intro tables
  have hinitial : ({} : GraphTables).Apart heap := ⟨by simp, by simp, by simp⟩
  have hapart : tables.Apart heap := hinitial.afterAll calls
  have hextends := hapart.extends_afterAll later
  refine ⟨hapart, hextends, fun name object => Dictionary.get?_mono hextends.named,
    fun name template => Dictionary.get?_mono hextends.generics, fun call => ?_⟩
  obtain ⟨r, hr, ho⟩ := run_outcome hapart call
  exact ⟨fun _ => ho.node, fun _ => ho.template_held, fun _ => ho.unchanged, ho.eq_map ▸ hr⟩

end GraphTables

end SchemaCompiler
