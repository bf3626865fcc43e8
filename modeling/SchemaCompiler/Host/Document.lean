import SchemaCompiler.Host.Unit
import SchemaCompiler.Json.Basic

/-! Host metadata as a JSON document in which every member is written, those with their default
value included. -/

namespace SchemaCompiler

mutual

def Shape.toJson : Shape → Json
  | .named name => .object [("kind", .string "named"), ("name", .string name)]
  | .absent .null => .object [("kind", .string "null")]
  | .absent .undefined => .object [("kind", .string "undefined")]
  | .union members =>
    .object [("kind", .string "union"), ("members", .array (shapesToJson members))]
  | .array element => .object [("kind", .string "array"), ("element", element.toJson)]
  | .generic name arguments => .object [("kind", .string "generic"), ("name", .string name),
      ("arguments", .array (shapesToJson arguments))]

def shapesToJson : List Shape → List Json
  | [] => []
  | s :: rest => s.toJson :: shapesToJson rest

end

def Access.toJson : Access → Json
  | .property => .string "property"
  | .accessor => .string "accessor"

def EnumLiteral.toJson : EnumLiteral → Json
  | .text s => .string s
  | .int n => .int n

def DeclarationKind.toJson : DeclarationKind → Json
  | .object => .string "object"
  | .enum => .string "enum"
  | .scalar => .string "scalar"
  | .genericObject => .string "generic_object"

def HostArgument.toJson (a : HostArgument) : Json :=
  .object [("name", .string a.name), ("type", a.type.toJson), ("tag", .ofText? a.tag),
    ("description", .ofText? a.description)]

def HostField.toJson (f : HostField) : Json :=
  .object [("name", .string f.name), ("type", f.type.elim .null Shape.toJson),
    ("tag", .ofText? f.tag), ("access", f.access.toJson), ("deferred", .bool f.deferred),
    ("arguments", .array (f.arguments.map HostArgument.toJson)),
    ("description", .ofText? f.description), ("deprecation_reason", .ofText? f.deprecationReason)]

def HostEnumValue.toJson (v : HostEnumValue) : Json :=
  .object [("name", .string v.name), ("value", v.value.elim .null EnumLiteral.toJson),
    ("description", .ofText? v.description)]

def HostDeclaration.toJson (d : HostDeclaration) : Json :=
  .object [("kind", d.kind.toJson), ("name", .string d.name),
    ("participates", .bool d.participates),
    ("description", .ofText? d.description), ("fields", .array (d.fields.map HostField.toJson)),
    ("type_parameters", .array (d.typeParameters.map .string)),
    ("values", .array (d.values.map HostEnumValue.toJson)),
    ("internal_type", .ofText? d.internalType), ("tag", .ofText? d.tag),
    ("implementation", .ofText? d.implementation)]

def Participation.toJson (p : Participation) : Json :=
  .object [("participates", .bool p.participates), ("description", .ofText? p.description)]

def HostUnit.toJson (u : HostUnit) : Json :=
  .object [("name", .string u.name),
    ("declarations", .array (u.declarations.map HostDeclaration.toJson)),
    ("participation", .object (u.participation.map fun (name, p) => (name, p.toJson)))]

end SchemaCompiler
