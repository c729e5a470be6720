import CodeMarkup.Schema.Error
import CodeMarkup.Schema.ValueType
import CodeMarkup.Tree.Reading

namespace CodeMarkup

/-!
# Type expressions

A type is written as a name, `string`, as a call, `many(string, int)`, or as a tag,
`<list element=<string/>/>`.

* `Tree.valueTypeOf`: the type that a node writes.
-/

namespace Tree

/-! ### Attributes of tags -/

/-- The text of an attribute, which has to be present and not empty. -/
def requiredString (tree : Tree) (id : NodeId) (tag name : String) : Except SchemaError String :=
  match tree.attribute? id name with
  | none => tree.refuse id (.missingAttribute tag name)
  | some attr =>
    match tree.attributeString? id name with
    | some value => if value.isEmpty then tree.refuse attr (.emptyAttribute tag name) else .ok value
    | none => tree.refuse attr (.emptyAttribute tag name)

/-- The value of an attribute, which has to be present; a bare attribute has none. -/
def requiredValue (tree : Tree) (id : NodeId) (tag name : String) : Except SchemaError NodeId :=
  match tree.attributeValue? id name with
  | some value => .ok value
  | none => tree.refuse id (.missingAttribute tag name)

/-- The key and the value of an entry of a json object. -/
def entryParts (tree : Tree) (id : NodeId) : Except SchemaError (String × NodeId) :=
  match tree.jsonKey? id, tree.jsonEntryValue? id with
  | some key, some value => .ok (key, value)
  | _, _ => tree.refuse id (.invalidDocument "expected a key: value pair")

/-! ### Types -/

/-- The simple type that a name stands for. -/
def typeNamed (tree : Tree) (id : NodeId) (name : String) : Except SchemaError ValueType :=
  match ValueType.ofName? name with
  | some type => .ok type
  | none => tree.refuse id (.unknownType name)

/-- The values of an enumeration: texts, at least one, none of them empty. -/
def enumOf (tree : Tree) (id values : NodeId) : Except SchemaError ValueType := do
  if tree.isJsonArray values then
    let texts ← ((tree.jsonValues? values).getD []).mapM fun item =>
      match tree.stringValue? item with
      | some text => if text.isEmpty then badValue item else .ok text
      | none => badValue item
    if texts.isEmpty then tree.refuse id (.badTypeArguments "<enum> needs at least one value")
    else return .enum texts
  else
    tree.refuse values (.wrongShape "<enum> values=" "array of strings" (tree.textOf values))
where
  /-- The fault of a value that is no text, or an empty one. -/
  badValue (item : NodeId) : Except SchemaError String :=
    tree.refuse item
      (.badTypeArguments ("<enum> values must be non-empty strings; got: " ++ tree.textOf item))

/-- The typed keys of a map: the tag holds one json object and nothing else. -/
def typedMapOf (tree : Tree) (inner : NodeId → Except SchemaError ValueType) (id : NodeId) :
    Except SchemaError ValueType := do
  match tree.bodyChildren id with
  | [object] =>
    if tree.isJsonObject object then
      let fields ← ((tree.jsonEntries? object).getD []).mapM fun entry => do
        let (key, value) ← tree.entryParts entry
        return (key, ← inner value)
      return .typedMap fields
    else refused
  | _ => refused
where
  /-- The fault of any other body. -/
  refused : Except SchemaError ValueType :=
    tree.refuse id (.badTypeArguments "typedMap expects a single json object argument")

/-- The type that a tag writes, given the types of the nodes inside it. -/
def typeOfTag (tree : Tree) (inner : NodeId → Except SchemaError ValueType) (id : NodeId)
    (tag : String) : Except SchemaError ValueType := do
  match ValueType.ofName? tag with
  | some type => return type
  | none =>
    match tag with
    | "one" => .one <$> (tree.bodyChildren id).mapM inner
    | "many" => .many <$> (tree.bodyChildren id).mapM inner
    | "typedMap" => tree.typedMapOf inner id
    | "element" | "element-ref" => .element <$> tree.requiredString id tag "name"
    | "namedElement" => .namedElement <$> tree.requiredString id tag "name"
    | "typeRef" => .typeRef <$> tree.requiredString id tag "name"
    | "list" =>
      let element ← tree.requiredValue id tag "element"
      return .many [← inner element]
    | "map" =>
      let key ← tree.requiredString id tag "keyType"
      let value ← tree.requiredString id tag "valueType"
      let key ← tree.typeNamed id key
      return .map key [← tree.typeNamed id value]
    | "list-or-map" =>
      let list ← tree.requiredValue id tag "listElement"
      let map ← tree.requiredValue id tag "mapValue"
      let list ← inner list
      return .listOrMap list (← inner map)
    | "enum" => tree.enumOf id (← tree.requiredValue id tag "values")
    | _ => tree.refuse id (.unknownTypeTag tag)

/-- The name that a reference to a type gives. -/
def typeRefOf (tree : Tree) (id : NodeId) (arguments : List NodeId) :
    Except SchemaError ValueType :=
  match arguments with
  | [target] =>
    match tree.stringValue? target with
    | some name => if name.isEmpty then noName target else .ok (.typeRef name)
    | none => noName target
  | _ =>
    tree.refuse id (.badTypeArguments
      ("typeRef(...) expects exactly 1 argument; got " ++ toString arguments.length))
where
  /-- The fault of an argument that gives no name. -/
  noName (target : NodeId) : Except SchemaError ValueType :=
    tree.refuse target (.badTypeArguments "typeRef(...) expects a type name")

/-- The type that a call writes, given the types of its arguments. -/
def typeOfCall (tree : Tree) (inner : NodeId → Except SchemaError ValueType) (id : NodeId)
    (name : String) (arguments : List NodeId) : Except SchemaError ValueType := do
  match name with
  | "one" => .one <$> arguments.mapM inner
  | "many" => .many <$> arguments.mapM inner
  | "map" =>
    match ← arguments.mapM inner with
    | key :: value :: values => return .map key (value :: values)
    | _ =>
      tree.refuse id
        (.badTypeArguments "map(keyType, valueType...) expects at least 2 arguments")
  | "typeRef" => tree.typeRefOf id arguments
  | _ =>
    if arguments.isEmpty then tree.typeNamed id name
    else tree.refuse id (.unsupportedTypeExpression (tree.textOf id))

/-- The type that a node writes. -/
def valueTypeOf (tree : Tree) (id : NodeId) : Except SchemaError ValueType :=
  let unsupported := tree.refuse id (.unsupportedTypeExpression (tree.textOf id))
  let inner (child : NodeId) : Except SchemaError ValueType :=
    if child < id then tree.valueTypeOf child else unsupported
  match tree.kind id with
  | .tag name _ _ => tree.typeOfTag inner id name
  | .methodCall none _ name arguments => tree.typeOfCall inner id name arguments
  | .simpleName name => tree.typeNamed id name
  | .enclosed expression => inner expression
  | _ => unsupported
termination_by id

end Tree

end CodeMarkup
