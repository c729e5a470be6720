import CodeMarkup.Json
import CodeMarkup.Schema

namespace CodeMarkup

/-!
# Listings of schemas

* `Schema.listing`: the lines for a reader.
* `Schema.toJson`: the json for a program.

Default values are shown as they stand in the definition document.
-/

namespace SchemaAttribute

/-- An attribute on its line. -/
def listing (attr : SchemaAttribute) (tree : Tree) : String :=
  attr.name ++ ": " ++ attr.type.describe ++ (if attr.isRequired then " required" else "")
    ++ match attr.defaultValue with
      | some value => " default=" ++ tree.textOf value
      | none => ""

/-- An attribute as json. -/
def toJson (attr : SchemaAttribute) (tree : Tree) : JsonValue :=
  .object [
    ("name", .string attr.name),
    ("type", .string attr.type.describe),
    ("category", .string attr.type.category),
    ("required", .bool attr.isRequired),
    ("default", .ofOption (fun value => .string (tree.textOf value)) attr.defaultValue)]

end SchemaAttribute

namespace Schema

/-- The lines of an element. -/
def elementListing (schema : Schema) (tree : Tree) (element : SchemaElement) : List String :=
  ("element <" ++ element.tag ++ ">")
    :: (schema.attributesOf element).map (fun attr => "  @" ++ attr.listing tree)
    ++ element.children.map (fun child => "  <" ++ child.1 ++ ">: " ++ child.2.describe)

/-- The lines of a schema. -/
def listing (schema : Schema) (tree : Tree) : List String :=
  ("schema " ++ schema.name)
    :: (if schema.package.isEmpty then [] else ["package " ++ schema.package])
    ++ ["root <" ++ schema.rootTag ++ ">", "attributes:"]
    ++ schema.attributes.map (fun attr => "  " ++ attr.listing tree)
    ++ schema.elements.flatMap (schema.elementListing tree)

/-- An element as json, which names its attributes only. -/
def elementJson (schema : Schema) (element : SchemaElement) : JsonValue :=
  .object [
    ("tag", .string element.tag),
    ("attributes", .array ((schema.attributesOf element).map fun attr => .string attr.name)),
    ("children", .array (element.children.map fun child =>
      .object [("tag", .string child.1), ("type", .string child.2.describe)]))]

/-- A schema as json. -/
def toJson (schema : Schema) (tree : Tree) : JsonValue :=
  .object [
    ("name", .string schema.name),
    ("package", .string schema.package),
    ("rootTag", .string schema.rootTag),
    ("attributes", .array (schema.attributes.map (·.toJson tree))),
    ("elements", .array (schema.elements.map schema.elementJson))]

end Schema

end CodeMarkup
