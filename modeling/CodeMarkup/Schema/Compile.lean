import CodeMarkup.Schema
import CodeMarkup.Schema.TypeExpression

namespace CodeMarkup

/-!
# Compiling a definition document

A definition document is a tag.  Its `attributes` are a json object of types and seed the registry,
its `elements` are a json array of `element-def` tags, and its `rootTag` names one of those.  An
attribute that is defined again has to agree with its first definition, which stays.

* `Tree.compileSchema`: the schema that a tag defines.
-/

/-- The tag of an element's definition. -/
def elementDef : String :=
  "element-def"

/-- The first key that occurs twice in a row of keys. -/
def firstRepeat? (seen : List String) : List String → Option String
  | [] => none
  | key :: rest => if seen.contains key then some key else firstRepeat? (seen ++ [key]) rest

/-- A registry of attributes, and the indices in it of those just defined. -/
structure Registered where
  /-- The registry. -/
  registry : List SchemaAttribute
  /-- The indices, in order. -/
  indices : List Nat

namespace Tree

/-! ### Shapes -/

/-- The fault of a value with the wrong shape. -/
def wrongShape {α : Type} (tree : Tree) (id : NodeId) (context expected : String) :
    Except SchemaError α :=
  tree.refuse id (.wrongShape context expected (tree.textOf id))

/-- The entries of the json object that an attribute holds, none if the attribute is absent. -/
def objectEntries (tree : Tree) (id : NodeId) (name context : String) :
    Except SchemaError (List NodeId) :=
  match tree.attribute? id name with
  | none => .ok []
  | some attr =>
    match tree.attributeValue? id name with
    | none => tree.wrongShape attr context "object/map"
    | some value =>
      if tree.isJsonObject value then .ok ((tree.jsonEntries? value).getD [])
      else tree.wrongShape value context "object/map"

/-- The values of the json array that an attribute holds, which has to be present. -/
def arrayValues (tree : Tree) (id : NodeId) (tag name : String) :
    Except SchemaError (List NodeId) :=
  match tree.attribute? id name with
  | none => tree.refuse id (.missingAttribute tag name)
  | some attr =>
    match tree.attributeValue? id name with
    | none => tree.wrongShape attr (tag ++ " " ++ name ++ "=") "array"
    | some value =>
      if tree.isJsonArray value then .ok ((tree.jsonValues? value).getD [])
      else tree.wrongShape value (tag ++ " " ++ name ++ "=") "array"

/-! ### Attributes -/

/-- Whether a text is `true`, in any mix of cases. -/
def isTrueText (text : String) : Bool :=
  text.toList.map Char.toLower == "true".toList

/-- An attribute with a name and the expression of its type.  A tag may say next to the type whether
    the attribute is required and what its default is. -/
def compileAttribute (tree : Tree) (name : String) (value : NodeId) :
    Except SchemaError SchemaAttribute := do
  let type ← tree.valueTypeOf value
  let isTag := (tree.tagName? value).isSome
  let isRequired := isTag && (tree.attributeString? value "required").any isTrueText
  let defaultValue := if isTag then tree.attributeValue? value "default" else none
  if name.isEmpty then tree.refuse value (.emptyName "attribute")
  else return ⟨name, type, isRequired, defaultValue, value⟩

/-- The fault of a second definition that disagrees with the first. -/
def conflict? (existing incoming : SchemaAttribute) (context : String) : Option SchemaFault :=
  if existing.isRequired != incoming.isRequired then some (.conflictingRequired context)
  else if existing.defaultValue.isSome != incoming.defaultValue.isSome then
    some (.conflictingDefault context)
  else if existing.type.category != incoming.type.category then
    some (.conflictingType context existing.type.category incoming.type.category)
  else none

/-- Adds an attribute to a registry, or finds the one of its name there. -/
def register (tree : Tree) (found : Registered) (incoming : SchemaAttribute) (context : String)
    (entry : NodeId) : Except SchemaError Registered :=
  let fresh := found.registry.length
  match Schema.indexOf? found.registry incoming.name with
  | none => .ok ⟨found.registry ++ [incoming], found.indices ++ [fresh]⟩
  | some index =>
    match (found.registry[index]?).bind (conflict? · incoming context) with
    | some fault => tree.refuse entry fault
    | none => .ok ⟨found.registry, found.indices ++ [index]⟩

/-- Defines the attributes of a json object. -/
def registerAll (tree : Tree) (registry : List SchemaAttribute) (context : String → String)
    (entries : List NodeId) : Except SchemaError Registered :=
  entries.foldlM (fun found entry => do
    let (name, value) ← tree.entryParts entry
    let incoming ← tree.compileAttribute name value
    tree.register found incoming (context name) entry) ⟨registry, []⟩

/-! ### Elements -/

/-- An element, with the registry after its attributes. -/
def compileElement (tree : Tree) (registry : List SchemaAttribute) (id : NodeId) :
    Except SchemaError (List SchemaAttribute × SchemaElement) := do
  let tag ← tree.requiredString id elementDef "name"
  let entries ← tree.objectEntries id "attributes" ("attributes= for element-def '" ++ tag ++ "'")
  let found ← tree.registerAll registry
    (fun name => "attribute '" ++ name ++ "' on element '" ++ tag ++ "'") entries
  let entries ← tree.objectEntries id "elements" ("elements= for element-def '" ++ tag ++ "'")
  let children ← entries.mapM fun entry => do
    let (child, value) ← tree.entryParts entry
    return (child, ← tree.valueTypeOf value)
  let names := found.indices.filterMap fun index => (found.registry[index]?).map (·.name)
  if tag.isEmpty then tree.refuse id (.emptyName "element")
  else
    match firstRepeat? [] names, firstRepeat? [] (children.map (·.1)) with
    | some name, _ => tree.refuse id (.duplicateAttribute name ("element-def '" ++ tag ++ "'"))
    | none, some child => tree.refuse id (.duplicateChildTag child tag)
    | none, none => return (found.registry, ⟨tag, found.indices, children, id⟩)

/-- The elements that nodes define, with the registry after them.  Nodes that are no `element-def`
    count for nothing. -/
def compileElements (tree : Tree) (registry : List SchemaAttribute) :
    List NodeId → Except SchemaError (List SchemaAttribute × List SchemaElement)
  | [] => .ok (registry, [])
  | id :: rest => do
    if tree.tagName? id == some elementDef then
      let (registry, element) ← tree.compileElement registry id
      let (registry, others) ← tree.compileElements registry rest
      return (registry, element :: others)
    else tree.compileElements registry rest

/-! ### Schemas -/

/-- The first element whose tag an earlier one has. -/
def repeatedElement? (seen : List String) : List SchemaElement → Option SchemaElement
  | [] => none
  | element :: rest =>
    if seen.contains element.tag then some element
    else repeatedElement? (seen ++ [element.tag]) rest

/-- Refuses a schema with two attributes of one name, two elements of one tag or a root tag that
    names no element. -/
def checkSchema (tree : Tree) (schema : Schema) : Except SchemaError Schema :=
  match firstRepeat? [] (schema.attributes.map (·.name)) with
  | some name =>
    tree.refuse schema.source (.duplicateAttribute name "the schema attribute registry")
  | none =>
    match repeatedElement? [] schema.elements with
    | some element => tree.refuse element.source (.duplicateElement element.tag)
    | none =>
      if schema.rootElement?.isSome then .ok schema
      else
        tree.refuse ((tree.attribute? schema.source "rootTag").getD schema.source)
          (.unknownRootTag schema.rootTag (schema.elements.map (·.tag)))

/-- The tag of a definition document. -/
def definitionTag (tree : Tree) (id : NodeId) : Except SchemaError String :=
  match tree.tagName? id with
  | some tag => .ok tag
  | none => tree.refuse id (.invalidDocument "the root of a definition document must be a tag")

/-- The schema that a tag defines. -/
def compileSchema (tree : Tree) (id : NodeId) : Except SchemaError Schema := do
  let tag ← tree.definitionTag id
  let entries ← tree.objectEntries id "attributes" (tag ++ " attributes=")
  let shared ← tree.registerAll [] (fun name => "schema attribute '" ++ name ++ "'") entries
  let definitions ← tree.arrayValues id tag "elements"
  let (registry, elements) ← tree.compileElements shared.registry definitions
  tree.checkSchema
    { name := (tree.attributeString? id "name").getD tag
      package := (tree.attributeString? id "package").getD ""
      rootTag := (tree.attributeString? id "rootTag").getD "root"
      attributes := registry
      elements := elements
      source := id }

end Tree

end CodeMarkup
