import SchemaCompiler.Proofs.Capture
import SchemaCompiler.Proofs.Cycles
import SchemaCompiler.Proofs.Definitions
import SchemaCompiler.Proofs.Lines

/-! Lazy field maps. The field map of an object is a lambda exactly if it refers to a type that is
not defined before it, or if the object leads back to itself through fields. -/

namespace SchemaCompiler

def lambdaLine : String :=
  indented 4 "fields=lambda: \x7b"

/-- A text that ends in something else is not the line of a lambda. -/
theorem lambdaLine_ne {init last : String} (h : last.toList.getLast?.any (· ≠ '\x7b') = true) :
    lambdaLine ≠ init ++ last := by
  intro heq
  have hlast : last.toList.getLast?.or init.toList.getLast? = some '\x7b' := by
    rw [← List.getLast?_append, ← String.toList_append, ← heq]
    rfl
  obtain ⟨c, hc, hne⟩ := (Option.any_eq_true ..).1 h
  rw [hc, Option.some_or, Option.some.injEq] at hlast
  exact of_decide_eq_true hne hlast

/-- No other line of an object is the one that starts a lambda. -/
theorem ObjectEntry.lambdaLine_mem_lines (o : ObjectEntry) :
    lambdaLine ∈ o.lines ↔ o.isLazy = true := by
  have hcall : lambdaLine ≠ o.var ++ " = GraphQLObjectType(" := lambdaLine_ne rfl
  have hname : lambdaLine ≠ indented 4 ("name=" ++ nameLiteral o.name ++ ",") := by
    rw [indented, ← String.append_assoc]
    exact lambdaLine_ne rfl
  have hdescription : lambdaLine ∉ optionalLine 4 "description" o.description := by
    intro hmem
    obtain ⟨s, -, heq⟩ := List.mem_map.1 hmem
    rw [indented, ← String.append_assoc] at heq
    exact lambdaLine_ne rfl heq.symm
  have hstart : lambdaLine = indented 4 ((if o.isLazy then "fields=lambda: " else "fields=") ++
      "\x7b") ↔ o.isLazy = true := by
    cases o.isLazy <;> decide
  have hfield : lambdaLine ∉ (o.fields.flatMap FieldEntry.lines).map (indented 4) := by
    intro hmem
    obtain ⟨line, hline, heq⟩ := List.mem_map.1 hmem
    obtain ⟨f, -, hline⟩ := List.mem_flatMap.1 hline
    have hdrop : (lambdaLine.toList.drop 4).head? = some ' ' := by
      rw [← heq, toList_indented, List.drop_left' (by simp), f.head?_of_mem_lines line hline]
    exact absurd hdrop (by decide)
  have hclosed : lambdaLine ≠ indented 4 "\x7d," := by decide
  have hend : lambdaLine ≠ ")" := by decide
  simp only [lines, fieldMapLines, List.mem_append, List.mem_cons, List.not_mem_nil, or_false,
    hcall, hname, hdescription, hfield, hclosed, hend, false_or]
  exact hstart

namespace TypeNode

/-- A closed type is made from a named one. -/
theorem target?_of_isClosed {t : TypeNode} (ht : t.isClosed = true) : ∃ n, t.target? = some n := by
  induction t with
  | named n => exact ⟨n, rfl⟩
  | list element ih => exact ih ht
  | nonNull inner ih => exact ih ht
  | placeholder _ => cases ht
  | applied _ _ _ => cases ht

/-- A closed type calls for the variable of the named type in it, if that type is defined. -/
theorem assigned?_eq {t : TypeNode} (ht : t.isClosed = true) {n : Named} (hn : t.target? = some n) :
    t.assigned? = n.definedIn.map fun _ => safeIdentifier n.name := by
  induction t with
  | named n' =>
    cases hn
    cases n with
    | scalar s => by_cases hs : s.builtin <;> simp [assigned?, unwrap, Named.definedIn, hs, Named.name]
    | _ => rfl
  | list element ih => exact ih ht hn
  | nonNull inner ih => exact ih ht hn
  | placeholder _ => cases ht
  | applied _ _ _ => cases ht

end TypeNode

namespace SourceModel

variable {model : SourceModel} {a : Analysis}

/-- The search for a cycle finds exactly the types that lead back to themselves. -/
theorem inCycle_iff (h : model.analyze = .ok a) (t : Named) :
    a.graph.inCycle t = true ↔ Relation.TransGen a.graph.LeadsTo t t := by
  rw [TypeGraph.inCycle_iff_hasObject]
  exact (complete_of_analyze h).cycle_iff_leadsTo

/-- The object types that are written in full are the declared ones. -/
theorem ref_of_objectNodes (h : model.analyze = .ok a) {node : Node}
    (hnode : node ∈ a.emission.objectNodes) :
    node.ref = .object node.name ∧ a.graph.fieldsOf (.object node.name) = node.fields := by
  have hmem := mem_nodes_of_objectNodes hnode
  have hget := TypeGraph.get?_of_mem (complete_of_analyze h).sound.nodup hmem
  have href : node.ref = .object node.name := by
    obtain ⟨type, htype, ht⟩ := List.mem_filterMap.1 hnode
    obtain ⟨node', -, hsame, hget'⟩ := node_of_ordered h htype
    split at ht
    · cases ht
      rfl
    · rename_i key i hfound
      split at ht
      · cases ht
      · rename_i hnone
        cases ht
        cases hget'.symm.trans hfound
        obtain rfl : i.key = key := Named.instantiation.inj hsame
        refine absurd (List.any_eq_true.2 ⟨i, (mem_instantiations h).2 hmem, ?_⟩) hnone
        exact decide_eq_true rfl
    · cases ht
  refine ⟨href, ?_⟩
  have hget' : a.graph.get? (Named.object node.name).name = some node := hget
  simp only [TypeGraph.fieldsOf, hget', href, if_true]

/-- The variables that the fields of an object call for. -/
theorem mem_assigned_iff (h : model.analyze = .ok a) {node : Node}
    (hnode : node ∈ a.emission.objectNodes) {var : String} :
    var ∈ (TypeGraph.references node.fields).filterMap TypeNode.assigned? ↔
      ∃ n, a.graph.LeadsTo (.object node.name) n ∧ n.definedIn.isSome ∧
        safeIdentifier n.name = var := by
  have hreferences := (complete_of_analyze h).node_references (mem_nodes_of_objectNodes hnode)
  have hfields := (ref_of_objectNodes h hnode).2
  constructor
  · intro hvar
    obtain ⟨x, hx, hassigned⟩ := List.mem_filterMap.1 hvar
    obtain ⟨n, hn⟩ := TypeNode.target?_of_isClosed (hreferences x hx).1
    rw [TypeNode.assigned?_eq (hreferences x hx).1 hn] at hassigned
    obtain ⟨place, hplace, rfl⟩ := Option.map_eq_some_iff.1 hassigned
    exact ⟨n, ⟨x, hfields ▸ hx, hn⟩, by rw [hplace]; rfl, rfl⟩
  · rintro ⟨n, ⟨x, hx, hn⟩, hdefined, rfl⟩
    rw [hfields] at hx
    refine List.mem_filterMap.2 ⟨x, hx, ?_⟩
    obtain ⟨place, hplace⟩ := Option.isSome_iff_exists.1 hdefined
    rw [TypeNode.assigned?_eq (hreferences x hx).1 hn, hplace]
    rfl

/-- An object is lazy if one of the types that it leads to is not assigned yet, or if it leads to
itself. -/
theorem isLazy_iff (h : model.analyze = .ok a) {node : Node}
    (hnode : node ∈ a.emission.objectNodes) (defined : List String) :
    a.emission.isLazy defined node = true ↔
      (∃ n, a.graph.LeadsTo (.object node.name) n ∧ n.definedIn.isSome ∧
        safeIdentifier n.name ∉ defined) ∨
      Relation.TransGen a.graph.LeadsTo (.object node.name) (.object node.name) := by
  have hahead : (!((TypeGraph.references node.fields).filterMap TypeNode.assigned?).all
      defined.contains) = true ↔
      ∃ n, a.graph.LeadsTo (.object node.name) n ∧ n.definedIn.isSome ∧
        safeIdentifier n.name ∉ defined := by
    simp only [Bool.not_eq_true', List.all_eq_false, mem_assigned_iff h hnode]
    constructor
    · rintro ⟨_, ⟨n, hlead, hdefined, rfl⟩, hvar⟩
      exact ⟨n, hlead, hdefined, by simpa using hvar⟩
    · rintro ⟨n, hlead, hdefined, hvar⟩
      exact ⟨_, ⟨n, hlead, hdefined, rfl⟩, by simpa using hvar⟩
  rw [Emission.isLazy, Bool.or_eq_true, hahead, (ref_of_objectNodes h hnode).1]
  exact or_congr_right (inCycle_iff h _)

end SourceModel

namespace Emission

variable {e : Emission}

/-- Each object is as lazy as its type has to be behind the objects before it. -/
theorem objectEntries_split {defined : List String} {nodes : List Node}
    {earlier later : List ObjectEntry} {o : ObjectEntry}
    (h : e.objectEntries defined nodes = .ok (earlier ++ o :: later)) :
    ∃ node ∈ nodes, o.name = node.name ∧
      o.isLazy = e.isLazy (defined ++ earlier.map (·.var)) node := by
  induction nodes generalizing defined earlier with
  | nil => simp [objectEntries] at h
  | cons first rest ih =>
    rw [objectEntries] at h
    obtain ⟨fields, -, h⟩ := except_bind_eq_ok.1 h
    obtain ⟨entries, hentries, h⟩ := except_bind_eq_ok.1 h
    rcases earlier with _ | ⟨entry, earlier⟩
    · obtain ⟨rfl, -⟩ := List.cons.inj (Except.ok.inj h)
      exact ⟨first, List.mem_cons_self, rfl, by rw [List.map_nil, List.append_nil]⟩
    · obtain ⟨rfl, rfl⟩ := List.cons.inj (Except.ok.inj h)
      obtain ⟨node, hnode, hname, hlazy⟩ := ih hentries
      refine ⟨node, List.mem_cons_of_mem _ hnode, hname, ?_⟩
      rw [hlazy, List.append_assoc]
      rfl

end Emission

namespace SchemaModule

def namesBefore (m : SchemaModule) (earlier : List ObjectEntry) : List String :=
  m.scalars.map (·.name) ++ m.enums.map (·.name) ++ earlier.map (·.name)

def varsBefore (m : SchemaModule) (earlier : List ObjectEntry) : List String :=
  m.varsBeforeObjects ++ earlier.map (·.var)

end SchemaModule

namespace Analysis

/-- A field or an argument of an object has a type that is made from this one, which is no builtin
scalar. -/
def RefersTo (a : Analysis) (object : String) (n : Named) : Prop :=
  a.graph.LeadsTo (.object object) n ∧ n.definedIn.isSome

/-- An object leads back to itself through the fields and arguments of objects and
instantiations. -/
def Recursive (a : Analysis) (object : String) : Prop :=
  Relation.TransGen a.graph.LeadsTo (.object object) (.object object)

end Analysis

namespace SourceModel

variable {model : SourceModel} {a : Analysis} {m : SchemaModule} {style : ModuleStyle}
  {earlier later : List ObjectEntry} {o : ObjectEntry}

/-- An object is a lambda exactly if it refers to a type whose variable has not been assigned, or if
it is recursive. -/
theorem lambda_iff_unassigned (h : model.analyze = .ok a) (hm : a.emission.Sections style m)
    (hsplit : m.objects = earlier ++ o :: later) :
    lambdaLine ∈ o.lines ↔
      (∃ n, a.RefersTo o.name n ∧ safeIdentifier n.name ∉ m.varsBefore earlier) ∨
        a.Recursive o.name := by
  obtain ⟨node, hnode, hname, hlazy⟩ := Emission.objectEntries_split (hsplit ▸ hm.objects)
  rw [o.lambdaLine_mem_lines, hlazy, isLazy_iff h hnode, hname]
  simp only [Analysis.RefersTo, Analysis.Recursive, SchemaModule.varsBefore, and_assoc]

/-- A type that an object refers to is one that the module defines. -/
theorem mem_typeNames_of_refersTo (h : model.analyze = .ok a) {object : String} {n : Named}
    (hn : a.RefersTo object n) : n.name ∈ a.typeNames := by
  obtain ⟨place, hplace⟩ := Option.isSome_iff_exists.1 hn.2
  rw [typeNames_eq h]
  exact List.mem_map_of_mem (mem_definedTypes_of_holds h (holds_of_leadsTo h hn.1) hplace)

/-- Types before an object are types that the module defines. -/
theorem namesBefore_subset (h : model.analyze = .ok a) (hm : a.emission.Sections style m)
    (hsplit : m.objects = earlier ++ o :: later) : m.namesBefore earlier ⊆ a.typeNames := by
  have hobjects : earlier.map (·.name) ⊆ (a.typesIn .objects).map Named.name := by
    rw [← (definedBy h hm).objects, hsplit, List.map_append]
    exact List.subset_append_left _ _
  rw [SchemaModule.namesBefore, Analysis.typeNames, (definedBy h hm).scalars, (definedBy h hm).enums]
  intro name hname
  simp only [List.mem_append] at hname ⊢
  rcases hname with hname | hname
  · exact .inl (.inl hname)
  · exact .inl (.inr (hobjects hname))

/-- The variables before an object are those of the types before it and of the factories. -/
theorem mem_varsBefore (hm : a.emission.Sections style m)
    (hsplit : m.objects = earlier ++ o :: later) {var : String} : var ∈ m.varsBefore earlier ↔
      var ∈ (m.namesBefore earlier).map safeIdentifier ∨ var ∈ m.factories.map (·.var) := by
  have hobjects : earlier.map (·.var) = (earlier.map (·.name)).map safeIdentifier := by
    rw [List.map_map]
    refine List.map_congr_left fun entry hentry => ?_
    have hmem : entry ∈ m.objects := hsplit ▸ List.mem_append_left _ hentry
    obtain ⟨node, -, hwrites⟩ := forall₂_mem_right (Emission.writesObjects hm.objects) entry hmem
    rw [hwrites.var, Function.comp_apply, hwrites.name]
  rw [SchemaModule.varsBefore, SchemaModule.varsBeforeObjects, SchemaModule.namesBefore, hobjects,
    hm.scalars, hm.enums, Emission.scalars_var, Emission.enums_var]
  simp only [List.map_append, List.mem_append]
  tauto

/-- Where types do not share variables, a type has the variable of one before an object only if it is
that one. -/
theorem mem_namesBefore_iff (h : model.analyze = .ok a) (hm : a.emission.Sections style m)
    (hdistinct : m.typeVars.Nodup) (hsplit : m.objects = earlier ++ o :: later) {n : Named}
    (hn : a.RefersTo o.name n) :
    safeIdentifier n.name ∈ (m.namesBefore earlier).map safeIdentifier ↔
      n.name ∈ m.namesBefore earlier := by
  refine ⟨fun hvar => ?_, List.mem_map_of_mem⟩
  obtain ⟨name, hname, hsame⟩ := List.mem_map.1 hvar
  rw [typeVars_eq h hm] at hdistinct
  rwa [← List.inj_on_of_nodup_map hdistinct (namesBefore_subset h hm hsplit hname)
    (mem_typeNames_of_refersTo h hn) hsame]

/-- Where types do not share variables, a lambda is called for by a type that is not defined yet and
whose variable is not that of a factory either. -/
theorem lambda_iff_undefined (h : model.analyze = .ok a) (hm : a.emission.Sections style m)
    (hdistinct : m.typeVars.Nodup) (hsplit : m.objects = earlier ++ o :: later) :
    lambdaLine ∈ o.lines ↔
      (∃ n, a.RefersTo o.name n ∧ n.name ∉ m.namesBefore earlier ∧
        safeIdentifier n.name ∉ m.factories.map (·.var)) ∨ a.Recursive o.name := by
  rw [lambda_iff_unassigned h hm hsplit]
  refine or_congr_left (exists_congr fun n => and_congr_right fun hn => ?_)
  rw [mem_varsBefore hm hsplit, mem_namesBefore_iff h hm hdistinct hsplit hn, not_or]

theorem typeVar_mem (h : model.analyze = .ok a) (hm : a.emission.Sections style m)
    {object : String} {n : Named} (hn : a.RefersTo object n) :
    safeIdentifier n.name ∈ m.typeVars := by
  rw [typeVars_eq h hm]
  exact List.mem_map_of_mem (mem_typeNames_of_refersTo h hn)

end SourceModel

/-- The field map of an object is emitted as a lambda exactly if a field or an argument refers to a
type that is not defined before the object, or if the object leads back to itself. This holds where
no two variables are the same. Where only those of types differ from one another, a type with the
variable of a factory counts as defined. -/
theorem UnitSource.lambda_iff {source : UnitSource} {config : Config} {hooks : Hooks}
    {schema : EmittedSchema} (h : source.compile config hooks = .ok schema) :
    ∃ a m, source.Emits config hooks a m schema ∧
      ∀ earlier o later, m.objects = earlier ++ o :: later →
        (m.assignedNames.Nodup → (lambdaLine ∈ o.lines ↔
          (∃ n, a.RefersTo o.name n ∧ n.name ∉ m.namesBefore earlier) ∨ a.Recursive o.name)) ∧
        (m.typeVars.Nodup → (lambdaLine ∈ o.lines ↔
          (∃ n, a.RefersTo o.name n ∧ n.name ∉ m.namesBefore earlier ∧
            safeIdentifier n.name ∉ m.factories.map (·.var)) ∨ a.Recursive o.name)) := by
  obtain ⟨a, m, hemits⟩ := compile_eq_ok.1 h
  obtain ⟨model, -, ha⟩ := hemits.analyzed
  obtain ⟨style, -, hm⟩ := hemits.written
  refine ⟨a, m, hemits, fun earlier o later hsplit => ⟨fun hdistinct => ?_, fun hdistinct => ?_⟩⟩
  · rw [m.assignedNames_perm.nodup_iff, List.nodup_append'] at hdistinct
    obtain ⟨-, htypes, happart⟩ := hdistinct
    rw [SourceModel.lambda_iff_undefined ha hm htypes hsplit]
    refine or_congr_left (exists_congr fun n => and_congr_right fun hn => and_iff_left fun hvar => ?_)
    exact happart hvar (SourceModel.typeVar_mem ha hm hn)
  · exact SourceModel.lambda_iff_undefined ha hm hdistinct hsplit

theorem boxUnit_lambdas : ∃ schema a m plain shelf,
    (UnitSource.loaded boxUnit).compile {} {} = .ok schema ∧
      (UnitSource.loaded boxUnit).Emits {} {} a m schema ∧ m.assignedNames.Nodup ∧
      m.objects = [plain, shelf] ∧ lambdaLine ∉ plain.lines ∧ lambdaLine ∈ shelf.lines ∧
      ¬a.Recursive "t_type" ∧
      ((∃ n, a.RefersTo "Shelf" n ∧ n.name ∉ ["t_type"] ∧ safeIdentifier n.name ∉ ["Box"]) ∨
        a.Recursive "Shelf") := by
  obtain ⟨a₀, schema, hemits₀⟩ := boxUnit_emits
  have hcompiles := UnitSource.compile_eq_ok.2 ⟨a₀, _, hemits₀⟩
  obtain ⟨a, m, hemits, hlambda⟩ := UnitSource.lambda_iff hcompiles
  obtain ⟨-, rfl⟩ := hemits₀.unique hemits
  have hdistinct : boxModule.assignedNames.Nodup := by decide
  have hplain := (hlambda [] _ _ rfl).1 hdistinct
  have hshelf := (hlambda [_] _ [] rfl).2 (by decide)
  rw [ObjectEntry.lambdaLine_mem_lines] at hplain hshelf
  refine ⟨schema, a, _, _, _, hcompiles, hemits, hdistinct, rfl, ?_, ?_, fun hloop => ?_, ?_⟩
  · rw [ObjectEntry.lambdaLine_mem_lines]
    decide
  · rw [ObjectEntry.lambdaLine_mem_lines]
  · exact absurd (hplain.2 (.inr hloop)) (by decide)
  · exact hshelf.1 rfl

end SchemaCompiler
