import SchemaCompiler.Host.Checked
import SchemaCompiler.Json.Literal
import SchemaCompiler.Json.Reader
import SchemaCompiler.Text.Utf8

/-! The errors of a compilation. An error has a cause, from which its kind and its wording follow,
and a site, the declaration and the field it was met at. The first site that is recorded stays. -/

namespace SchemaCompiler

/-- The declaration and the field that are being looked at, as far as they are known. -/
structure Site where
  declaration : Option String := none
  field : Option String := none
  deriving DecidableEq, Repr, Inhabited

inductive NodeKind where
  | object
  | enum
  | scalar
  | pending
  deriving DecidableEq, Repr, Inhabited

def NodeKind.label : NodeKind → String
  | .object => "ObjectType"
  | .enum => "EnumType"
  | .scalar => "ScalarType"
  | .pending => "PendingType"

inductive ErrorKind where
  | general
  | extraction
  | unresolvedReference
  | resolutionConflict
  | scalarRegistry
  | duplicateScalar
  | ambiguousScalar
  | unknownScalar
  | genericArity
  | unboundAccessor
  | emission
  deriving DecidableEq, Repr, Inhabited

inductive DocumentFault where
  | bytes (fault : Utf8Fault)
  | json (fault : JsonFault)
  deriving DecidableEq, Repr

inductive Cause where
  -- documents
  | malformedDocument (file : String) (fault : DocumentFault)
  | invalidMetadata (unit : Json) (faults : List Fault)
  -- declarations
  | invalidName (name : String)
  | duplicateDeclaration
  | parameterCount (count : Nat)
  | unusedParameter (parameter : String)
  | noFields
  | duplicateField
  | propertyWithArguments
  | propertyWithoutType
  | duplicateArgument
  | noEnumValues
  | duplicateEnumValue
  | noInternalType
  -- type shapes
  | unionWithoutMarker
  | unionMembers (count : Nat)
  | parameterApplied (parameter : String)
  | argumentShape (generic : String)
  | bareNull
  -- scalars
  | scalarNameTaken (name : String)
  | internalTypeTaken (internalType : String) (bound : List String)
  | bindingTaken (binding name : String)
  | ambiguousScalar (internalType : String) (candidates : List String)
  | unknownTag (binding : String) (known : List String)
  | unknownInternalType (internalType : String)
  | scalarNotRegistered (name : String)
  -- types
  | unresolved (name : String)
  | definedTwice (name : String)
  | referencedFirst (name : String) (kind : NodeKind)
  | otherKind (name : String) (existing kind : NodeKind)
  | isInstantiation (name generic : String) (argument : String)
  | unboundParameter (parameter : String)
  | argumentNotNamed
  | notGeneric (name : String)
  | wrongArity (generic : String) (count : Nat)
  | endlessInstantiation (generic : String)
  -- resolvers
  | noReturnType
  | genericArgument (argument type : String)
  | outputArgument (argument type : String)
  | unresolvedArgument (argument : String)
  -- modules
  | notModuleText (file : String)
  /-- An error in the words of whoever reports it. -/
  | stated (kind : ErrorKind) (message : String)
  deriving Repr

def Utf8Fault.message (fault : Utf8Fault) : String :=
  let reason := match fault.reason with
    | .invalidStart => "invalid start byte"
    | .invalidContinuation => "invalid continuation byte"
    | .unexpectedEnd => "unexpected end of data"
  if fault.count = 1 then
    "'utf-8' codec can't decode byte 0x" ++ String.ofList (hexDigits 2 fault.byte.toNat) ++
      s!" in position {fault.position}: {reason}"
  else
    let last := fault.position + fault.count - 1
    s!"'utf-8' codec can't decode bytes in position {fault.position}-{last}: {reason}"

def DocumentFault.message : DocumentFault → String
  | .bytes fault => fault.message
  | .json fault => fault.message

namespace Cause

def kind : Cause → ErrorKind
  | .unresolved _ => .unresolvedReference
  | .definedTwice _ | .referencedFirst .. | .otherKind .. | .isInstantiation .. =>
    .resolutionConflict
  | .scalarNameTaken _ | .internalTypeTaken .. | .bindingTaken .. => .duplicateScalar
  | .ambiguousScalar .. => .ambiguousScalar
  | .unknownTag .. | .unknownInternalType _ | .scalarNotRegistered _ => .unknownScalar
  | .notGeneric _ | .wrongArity .. | .endlessInstantiation _ => .genericArity
  | .noReturnType | .genericArgument .. | .outputArgument .. | .unresolvedArgument _ =>
    .unboundAccessor
  | .notModuleText _ => .emission
  | .stated kind _ => kind
  | _ => .extraction

def message : Cause → String
  | .malformedDocument file fault => s!"{file} is not valid JSON: {fault.message}"
  | .invalidMetadata .. => "invalid declaration metadata"
  | .invalidName name => s!"'{name}' is not a valid schema name"
  | .duplicateDeclaration => "duplicate declaration name"
  | .parameterCount count => s!"generic declarations take exactly one type parameter, got {count}"
  | .unusedParameter parameter => s!"type parameter '{parameter}' is not used by any field"
  | .noFields => "object declaration has no fields"
  | .duplicateField => "duplicate field name"
  | .propertyWithArguments => "stored properties cannot take arguments"
  | .propertyWithoutType => "stored property has no declared type"
  | .duplicateArgument => "duplicate argument name"
  | .noEnumValues => "enum declares no values"
  | .duplicateEnumValue => "duplicate enum value"
  | .noInternalType => "scalar declaration has no internal representation type"
  | .unionWithoutMarker => "unions without a null marker are not supported"
  | .unionMembers count => s!"nullable unions must have exactly one non-null member, got {count}"
  | .parameterApplied parameter => s!"type parameter '{parameter}' cannot take arguments"
  | .argumentShape generic => s!"arguments of generic '{generic}' must be named types"
  | .bareNull => "a bare null type cannot be exposed"
  | .scalarNameTaken name => s!"scalar '{name}' is already registered"
  | .internalTypeTaken internalType bound =>
    let bound := commaSeparated bound
    s!"internal type '{internalType}' is already bound ({bound}); add a disambiguation tag"
  | .bindingTaken binding name => s!"{binding} is already bound to '{name}'"
  | .ambiguousScalar internalType candidates =>
    let candidates := commaSeparated candidates
    s!"'{internalType}' is ambiguous; add a disambiguation tag (one of: {candidates})"
  | .unknownTag binding known =>
    let known := commaSeparated known
    s!"no scalar bound to {binding}; known tags: {known}"
  | .unknownInternalType internalType => s!"no scalar bound to '{internalType}'"
  | .scalarNotRegistered name => s!"scalar '{name}' was not registered before resolution"
  | .unresolved name => s!"unresolved type reference '{name}'"
  | .definedTwice name => s!"type '{name}' is defined more than once"
  | .referencedFirst name kind => s!"'{name}' was referenced before it was declared as {kind.label}"
  | .otherKind name existing kind => s!"'{name}' is already a {existing.label}, not {kind.label}"
  | .isInstantiation name generic argument =>
    s!"'{name}' is already the instantiation {generic}<{argument}>"
  | .unboundParameter parameter => s!"type parameter '{parameter}' is not bound here"
  | .argumentNotNamed => "generic arguments must be named types"
  | .notGeneric name => s!"'{name}' is not a generic declaration"
  | .wrongArity generic count => s!"generic '{generic}' takes 1 type argument(s), got {count}"
  | .endlessInstantiation generic => s!"generic '{generic}' instantiates itself without end"
  | .noReturnType => "accessor has no declared return type that resolves to a schema type"
  | .genericArgument argument type =>
    s!"argument '{argument}' cannot be typed with a generic parameter ({type})"
  | .outputArgument argument type =>
    s!"argument '{argument}' has output type {type}; arguments must be scalars or enums"
  | .unresolvedArgument argument => s!"argument '{argument}' does not resolve to a schema type"
  | .notModuleText file => s!"generated invalid Python for {file}"
  | .stated _ message => message

end Cause

structure CompileError where
  cause : Cause
  site : Site := {}
  deriving Repr

namespace CompileError

/-- Records the site of an error unless one is recorded already. -/
def attach (error : CompileError) (site : Site) : CompileError :=
  if error.site.declaration.isNone then { error with site := site } else error

/-- The place of an error as messages show it, empty if it is not known. -/
def location (error : CompileError) : String :=
  match error.cause with
  | .invalidMetadata unit _ => if unit.isTruthy then unit.plainText else ""
  | _ =>
    let declaration := error.site.declaration.getD ""
    let field := error.site.field.getD ""
    if declaration ≠ "" ∧ field ≠ "" then declaration ++ "." ++ field else declaration

def text (error : CompileError) : String :=
  if error.location = "" then error.cause.message else error.location ++ ": " ++ error.cause.message

end CompileError

end SchemaCompiler
