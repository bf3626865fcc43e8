import SchemaCompiler.Host.Checked
import SchemaCompiler.Host.Unit
import SchemaCompiler.Json.Literal

/-! Checking a JSON document as host metadata. Members are checked in the order in which the parts
are declared, then the unknown ones are refused in the order of the document. Booleans may be
written as numbers or as words, and the number behind an enum value may be written as a boolean or
with an empty fraction. -/

namespace SchemaCompiler

namespace Checked

variable {α : Type}

def noOthers (known : List String) : List (String × Json) → Checked Unit
  | [] => pure ()
  | (name, _) :: rest =>
    if known.contains name then noOthers known rest
    else (fun _ _ => ()) <$> (fail .unknownMember : Checked Unit).within (.key name)
      <*> noOthers known rest

def required (members : List (String × Json)) (name : String) (check : Json → Checked α) :
    Checked α :=
  ((Json.member? name members).elim (fail .missing) check).within (.key name)

def optional (members : List (String × Json)) (name : String) (default : α)
    (check : Json → Checked α) : Checked α :=
  ((Json.member? name members).elim (.valid default) check).within (.key name)

/-- An object with known members; `part` is its name in reports. -/
def object (part : String) (known : List String) (build : List (String × Json) → Checked α) :
    Json → Checked α
  | .object members => (fun value _ => value) <$> build members <*> noOthers known members
  | _ => fail (.notAnObject part)

def text : Json → Checked String
  | .string s => .valid s
  | _ => fail .notText

def text? : Json → Checked (Option String)
  | .null => .valid none
  | json => some <$> text json

def items (check : Json → Checked α) (position : Nat) : List Json → Checked (List α)
  | [] => pure []
  | item :: rest =>
    List.cons <$> (check item).within (.index position) <*> items check (position + 1) rest

def list (check : Json → Checked α) : Json → Checked (List α)
  | .array items => Checked.items check 0 items
  | _ => fail .notAList

def entries (check : Json → Checked α) : List (String × Json) → Checked (List (String × α))
  | [] => pure []
  | (name, item) :: rest =>
    List.cons <$> (Prod.mk name <$> (check item).within (.key name)) <*> entries check rest

def table (check : Json → Checked α) : Json → Checked (List (String × α))
  | .object members => entries check members
  | _ => fail .notATable

/-- The words for true and for false, in any case of their letters. -/
def booleanWord? (s : String) : Option Bool :=
  let word := s.map Char.toLower
  if ["1", "true", "t", "yes", "y", "on"].contains word then some true
  else if ["0", "false", "f", "no", "n", "off"].contains word then some false
  else none

def bitOf (n : Int) : Checked Bool :=
  if n = 1 then .valid true else if n = 0 then .valid false else fail .unreadableBoolean

def boolean : Json → Checked Bool
  | .bool b => .valid b
  | .int n => bitOf n
  | .float x => x.toInt?.elim (fail .notABoolean) bitOf
  | .string s => (booleanWord? s).elim (fail .unreadableBoolean) .valid
  | _ => fail .notABoolean

def wholeNumber (x : Double) : Checked Int :=
  match x, x.toInt? with
  | .finite .., some n => if n.natAbs < power 2 63 then .valid n else fail .integerTooLarge
  | .finite .., none => fail .fractional
  | _, _ => fail .notFinite

/-- The value behind an enum's name. What is neither text nor number has the faults of both. -/
def enumLiteral? : Json → Checked (Option EnumLiteral)
  | .null => .valid none
  | .string s => .valid (some (.text s))
  | .int n => .valid (some (.int n))
  | .bool b => .valid (some (.int (if b then 1 else 0)))
  | json =>
    let number := match json with
      | .float x => wholeNumber x
      | _ => fail .notAnInteger
    match number with
    | .valid n => .valid (some (.int n))
    | .faulty fs =>
      (fun (_ _ : Option EnumLiteral) => none) <$>
        (fail .notText : Checked (Option EnumLiteral)).within (.key "str") <*>
        (Checked.faulty fs : Checked (Option EnumLiteral)).within (.key "int")

def access : Json → Checked Access
  | .string "property" => .valid .property
  | .string "accessor" => .valid .accessor
  | _ => fail (.notAChoice "'property' or 'accessor'")

def declarationKind : Json → Checked DeclarationKind
  | .string "object" => .valid .object
  | .string "enum" => .valid .enum
  | .string "scalar" => .valid .scalar
  | .string "generic_object" => .valid .genericObject
  | _ => fail (.notAChoice "'object', 'enum', 'scalar' or 'generic_object'")

mutual

/-- A type shape. Its kind becomes part of the path to what is inside it. -/
def shape : Json → Checked Shape
  | .object members =>
    match Json.member? "kind" members with
    | some (.string "named") =>
      ((fun name _ => .named name) <$> required members "name" text
        <*> noOthers ["kind", "name"] members).within (.key "named")
    | some (.string "null") =>
      ((fun _ => .absent .null) <$> noOthers ["kind"] members).within (.key "null")
    | some (.string "undefined") =>
      ((fun _ => .absent .undefined) <$> noOthers ["kind"] members).within (.key "undefined")
    | some (.string "union") =>
      ((fun ms _ => .union ms) <$> (shapeListMember "members" members).within (.key "members")
        <*> noOthers ["kind", "members"] members).within (.key "union")
    | some (.string "array") =>
      ((fun element _ => .array element) <$>
        (shapeMember "element" members).within (.key "element")
        <*> noOthers ["kind", "element"] members).within (.key "array")
    | some (.string "generic") =>
      ((fun name arguments _ => .generic name arguments) <$> required members "name" text
        <*> (shapeListMember "arguments" members).within (.key "arguments")
        <*> noOthers ["kind", "name", "arguments"] members).within (.key "generic")
    | some kind => fail (.kindUnknown kind.plainText)
    | none => fail .kindMissing
  | _ => fail .shapeNotAnObject

def shapeMember (name : String) : List (String × Json) → Checked Shape
  | [] => fail .missing
  | (key, value) :: rest => if key = name then shape value else shapeMember name rest

def shapeListMember (name : String) : List (String × Json) → Checked (List Shape)
  | [] => fail .missing
  | (key, value) :: rest => if key = name then shapeList value else shapeListMember name rest

def shapeList : Json → Checked (List Shape)
  | .array items => shapeItems 0 items
  | _ => fail .notAList

def shapeItems (position : Nat) : List Json → Checked (List Shape)
  | [] => pure []
  | item :: rest =>
    List.cons <$> (shape item).within (.index position) <*> shapeItems (position + 1) rest

end

def shape? : Json → Checked (Option Shape)
  | .null => .valid none
  | json => some <$> shape json

def argument : Json → Checked HostArgument :=
  object "HostArgument" ["name", "type", "tag", "description"] fun ms =>
    HostArgument.mk <$> required ms "name" text <*> required ms "type" shape
      <*> optional ms "tag" none text? <*> optional ms "description" none text?

def field : Json → Checked HostField :=
  object "HostField" ["name", "type", "tag", "access", "deferred", "arguments", "description",
      "deprecation_reason"] fun ms =>
    HostField.mk <$> required ms "name" text <*> optional ms "type" none shape?
      <*> optional ms "tag" none text? <*> optional ms "access" .property access
      <*> optional ms "deferred" false boolean <*> optional ms "arguments" [] (list argument)
      <*> optional ms "description" none text? <*> optional ms "deprecation_reason" none text?

def enumValue : Json → Checked HostEnumValue :=
  object "HostEnumValue" ["name", "value", "description"] fun ms =>
    HostEnumValue.mk <$> required ms "name" text <*> optional ms "value" none enumLiteral?
      <*> optional ms "description" none text?

def declaration : Json → Checked HostDeclaration :=
  object "HostDeclaration" ["kind", "name", "participates", "description", "fields",
      "type_parameters", "values", "internal_type", "tag", "implementation"] fun ms =>
    HostDeclaration.mk <$> required ms "kind" declarationKind <*> required ms "name" text
      <*> optional ms "participates" false boolean <*> optional ms "description" none text?
      <*> optional ms "fields" [] (list field) <*> optional ms "type_parameters" [] (list text)
      <*> optional ms "values" [] (list enumValue) <*> optional ms "internal_type" none text?
      <*> optional ms "tag" none text? <*> optional ms "implementation" none text?

def participation : Json → Checked Participation :=
  object "Participation" ["participates", "description"] fun ms =>
    Participation.mk <$> optional ms "participates" true boolean
      <*> optional ms "description" none text?

end Checked

/-- A document as the metadata of a unit, or all its faults. -/
def HostUnit.check : Json → Checked HostUnit :=
  Checked.object "CompilationUnit" ["name", "declarations", "participation"] fun ms =>
    HostUnit.mk <$> Checked.required ms "name" Checked.text
      <*> Checked.optional ms "declarations" [] (Checked.list Checked.declaration)
      <*> Checked.optional ms "participation" [] (Checked.table Checked.participation)

end SchemaCompiler
