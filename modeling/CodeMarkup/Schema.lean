import CodeMarkup.Schema.ValueType
import CodeMarkup.Tree

namespace CodeMarkup

/-!
# Schemas

What a definition document defines: attributes and elements.  The attributes of the whole schema
form one registry in the order of their first definition, and an element holds its attributes as
indices into the registry, so that elements with an attribute of one name share it.
-/

/-- An attribute. -/
structure SchemaAttribute where
  /-- Its name. -/
  name : String
  /-- The type of its values. -/
  type : ValueType
  /-- Whether it has to be present. -/
  isRequired : Bool
  /-- The expression of its default value. -/
  defaultValue : Option NodeId
  /-- The type expression that defines it. -/
  source : NodeId

/-- An element. -/
structure SchemaElement where
  /-- Its tag. -/
  tag : String
  /-- Its attributes, in order, by their indices in the registry. -/
  attributes : List Nat
  /-- The tags of its children, in order, with their types. -/
  children : List (String × ValueType)
  /-- The node that defines it. -/
  source : NodeId

namespace SchemaElement

/-- The type of the children with a tag. -/
def child? (element : SchemaElement) (tag : String) : Option ValueType :=
  (element.children.find? (·.1 == tag)).map (·.2)

end SchemaElement

/-- A schema. -/
structure Schema where
  /-- Its name. -/
  name : String
  /-- The package it belongs to, empty if there is none. -/
  package : String
  /-- The tag of the element that a document starts with. -/
  rootTag : String
  /-- The registry of attributes. -/
  attributes : List SchemaAttribute
  /-- The elements, in order. -/
  elements : List SchemaElement
  /-- The node that defines it. -/
  source : NodeId

namespace Schema

/-- The index in a registry of the attribute with a name. -/
def indexOf? (registry : List SchemaAttribute) (name : String) : Option Nat :=
  registry.findIdx? (·.name == name)

/-- The attribute with a name. -/
def attribute? (schema : Schema) (name : String) : Option SchemaAttribute :=
  schema.attributes.find? (·.name == name)

/-- The element with a tag. -/
def element? (schema : Schema) (tag : String) : Option SchemaElement :=
  schema.elements.find? (·.tag == tag)

/-- The element that a document starts with. -/
def rootElement? (schema : Schema) : Option SchemaElement :=
  schema.element? schema.rootTag

/-- The attributes of an element. -/
def attributesOf (schema : Schema) (element : SchemaElement) : List SchemaAttribute :=
  element.attributes.filterMap (schema.attributes[·]?)

/-- Whether an element has an attribute with a name. -/
def hasAttribute (schema : Schema) (element : SchemaElement) (name : String) : Bool :=
  (schema.attributesOf element).any (·.name == name)

end Schema

end CodeMarkup
