import SchemaCompiler.Error
import SchemaCompiler.Model.Declaration

/-! The source model of a unit. Declarations that do not take part are passed over unseen; the
others are checked for the shape their kind needs, and their types are brought into normal form. A
name of the schema is an ASCII letter or an underscore, then ASCII letters, digits and underscores,
and no two underscores at the start; a line feed after the last character is not looked at. -/

namespace SchemaCompiler

def Shape.isAbsent : Shape → Bool
  | .absent _ => true
  | _ => false

def Shape.isArgument : Shape → Bool
  | .named _ => true
  | .generic _ _ => true
  | _ => false

/-- An expression marked as nullable once, however often its shape says so. -/
def TypeExpr.orNull : TypeExpr → TypeExpr
  | .nullable inner => .nullable inner
  | e => .nullable e

mutual

/-- The normal form of a shape, inside the declaration of the type parameter `param` if there is
one. -/
def Shape.normalize (param : Option String) : Shape → Except Cause TypeExpr
  | .named name => .ok (if param = some name then .param name else .ref name)
  | .array element => do
    let e ← element.normalize param
    .ok (.list e)
  | .union members =>
    let present := members.countP fun m => !m.isAbsent
    if present = members.length then .error .unionWithoutMarker
    else if present ≠ 1 then .error (.unionMembers present)
    else do
      let e ← normalizePresent param members
      .ok e.orNull
  | .generic name arguments =>
    if param = some name then .error (.parameterApplied name)
    else do
      let es ← normalizeArguments param name arguments
      .ok (.apply name es)
  | .absent _ => .error .bareNull

/-- The normal form of the first member that is no absence marker. -/
def normalizePresent (param : Option String) : List Shape → Except Cause TypeExpr
  | [] => .error .bareNull
  | m :: rest => if m.isAbsent then normalizePresent param rest else m.normalize param

def normalizeArguments (param : Option String) (generic : String) :
    List Shape → Except Cause (List TypeExpr)
  | [] => .ok []
  | a :: rest =>
    if a.isArgument then do
      let e ← a.normalize param
      let es ← normalizeArguments param generic rest
      .ok (e :: es)
    else .error (.argumentShape generic)

end

def locate {α : Type} (declaration : String) (field : Option String) :
    Except Cause α → Except CompileError α
  | .ok a => .ok a
  | .error cause => .error ⟨cause, ⟨some declaration, field⟩⟩

def isNameStart (c : Char) : Bool :=
  c.isAlpha || c = '_'

def isNameChar (c : Char) : Bool :=
  c.isAlphanum || c = '_'

def dropFinalLineFeed (cs : List Char) : List Char :=
  if cs.getLast? = some '\n' then cs.dropLast else cs

def isSchemaName (name : String) : Bool :=
  match dropFinalLineFeed name.toList with
  | [] => false
  | c :: rest => isNameStart c && rest.all isNameChar && !(c = '_' && rest.head? = some '_')

def checkName (name : String) : Except Cause Unit :=
  if isSchemaName name then .ok () else .error (.invalidName name)

def HostArgument.extract (param : Option String) (a : HostArgument) :
    Except Cause ArgumentDescriptor := do
  checkName a.name
  let type ← a.type.normalize param
  .ok ⟨a.name, type, a.tag, a.description⟩

/-- The part of a field's check that comes before its types are looked at. -/
def HostField.checkAccess (f : HostField) : Except Cause Unit :=
  match f.access with
  | .accessor => .ok ()
  | .property =>
    if !f.arguments.isEmpty then .error .propertyWithArguments
    else if f.type.isNone then .error .propertyWithoutType
    else .ok ()

def HostField.extract (param : Option String) (owner : String) (f : HostField) :
    Except Cause FieldDescriptor := do
  f.checkAccess
  let arguments ← f.arguments.mapM (HostArgument.extract param)
  if (arguments.map (·.name)).Nodup then
    let type ← f.type.mapM (Shape.normalize param)
    .ok {
      owner := owner
      name := f.name
      type := type
      access := f.access
      effect := if f.deferred then .deferred else .immediate
      arguments := arguments
      tag := f.tag
      description := f.description
      deprecationReason := f.deprecationReason }
  else .error .duplicateArgument

/-- The fields of a declaration; `seen` holds the names of the ones before. -/
def extractFields (param : Option String) (owner : String) :
    (seen : List String) → List HostField → Except CompileError (List FieldDescriptor)
  | _, [] => .ok []
  | seen, f :: rest => do
    locate owner f.name (checkName f.name)
    if seen.contains f.name then locate owner f.name (.error .duplicateField)
    else
      let field ← locate owner f.name (f.extract param owner)
      let fields ← extractFields param owner (f.name :: seen) rest
      .ok (field :: fields)

/-- The members of an enum; `seen` holds the names of the ones before. A member without a value
stands for its own name. -/
def extractMembers (owner : String) :
    (seen : List String) → List HostEnumValue → Except CompileError (List EnumMember)
  | _, [] => .ok []
  | seen, v :: rest => do
    locate owner v.name (checkName v.name)
    if seen.contains v.name then locate owner v.name (.error .duplicateEnumValue)
    else
      let members ← extractMembers owner (v.name :: seen) rest
      .ok (⟨v.name, v.value.getD (.text v.name), v.description⟩ :: members)

namespace HostDeclaration

/-- The fields of an object or generic declaration, of which there has to be one. -/
def extractFields (decl : HostDeclaration) (param : Option String) :
    Except CompileError (List FieldDescriptor) :=
  if decl.fields.isEmpty then locate decl.name none (.error .noFields)
  else SchemaCompiler.extractFields param decl.name [] decl.fields

def extractGeneric (decl : HostDeclaration) (description : Option String) :
    Except CompileError GenericDecl :=
  match decl.typeParameters with
  | [parameter] => do
    locate decl.name none (checkName parameter)
    let fields ← decl.extractFields (some parameter)
    if fields.any fun f => f.type.any TypeExpr.usesParam then
      .ok ⟨decl.name, parameter, fields, description⟩
    else locate decl.name none (.error (.unusedParameter parameter))
  | parameters => locate decl.name none (.error (.parameterCount parameters.length))

def extractEnum (decl : HostDeclaration) (description : Option String) :
    Except CompileError EnumDecl :=
  if decl.values.isEmpty then locate decl.name none (.error .noEnumValues)
  else do
    let members ← extractMembers decl.name [] decl.values
    .ok ⟨decl.name, members, description⟩

def extractScalar (decl : HostDeclaration) (description : Option String) :
    Except CompileError ScalarDecl :=
  match decl.internalType with
  | none => locate decl.name none (.error .noInternalType)
  | some "" => locate decl.name none (.error .noInternalType)
  | some internalType =>
    .ok ⟨decl.name, internalType, decl.tag, decl.implementation, description⟩

def extract (decl : HostDeclaration) (description : Option String) :
    Except CompileError Declaration :=
  match decl.kind with
  | .object => do
    let fields ← decl.extractFields none
    .ok (.object ⟨decl.name, fields, description⟩)
  | .genericObject => do
    let generic ← decl.extractGeneric description
    .ok (.generic generic)
  | .enum => do
    let enum ← decl.extractEnum description
    .ok (.enum enum)
  | .scalar => do
    let scalar ← decl.extractScalar description
    .ok (.scalar scalar)

end HostDeclaration

namespace HostUnit

/-- The source declarations of participating ones; `seen` holds the names of the ones before. -/
def extractAll (unit : HostUnit) :
    (seen : List String) → List HostDeclaration → Except CompileError (List Declaration)
  | _, [] => .ok []
  | seen, decl :: rest => do
    locate decl.name none (checkName decl.name)
    if seen.contains decl.name then locate decl.name none (.error .duplicateDeclaration)
    else
      let first ← decl.extract (unit.descriptionOf decl)
      let others ← extractAll unit (decl.name :: seen) rest
      .ok (first :: others)

def extract (unit : HostUnit) : Except CompileError SourceModel := do
  let declarations ← unit.extractAll [] (unit.declarations.filter unit.includes)
  .ok ⟨unit.name, declarations⟩

end HostUnit

end SchemaCompiler
