import CodeMarkup.Text.Join

namespace CodeMarkup

/-!
# Types of values

The shapes that a schema gives to attributes and child elements.

* `ValueType.category`: the outermost form, without arguments.
* `ValueType.describe`: the type written as a call.
-/

/-- The shape of a value. -/
inductive ValueType where
  | string
  | name
  | qualifiedName
  | boolean
  | integer
  | namePair
  | json
  /-- One value of any of the types. -/
  | one (types : List ValueType)
  /-- Any number of values of the types. -/
  | many (types : List ValueType)
  | map (key : ValueType) (values : List ValueType)
  /-- A map with fixed keys. -/
  | typedMap (fields : List (String × ValueType))
  | typeRef (name : String)
  | element (name : String)
  | namedElement (name : String)
  | listOrMap (list map : ValueType)
  | enum (values : List String)

namespace ValueType

/-- The outermost form of a type. -/
def category : ValueType → String
  | .string => "string"
  | .name => "name"
  | .qualifiedName => "qualifiedName"
  | .boolean => "boolean"
  | .integer => "integer"
  | .namePair => "namePair"
  | .json => "json"
  | .one _ => "one"
  | .many _ => "many"
  | .map _ _ => "map"
  | .typedMap _ => "typedMap"
  | .typeRef _ => "typeRef"
  | .element _ => "element"
  | .namedElement _ => "namedElement"
  | .listOrMap _ _ => "listOrMap"
  | .enum _ => "enum"

/-- The simple type with a name. -/
def ofName? : String → Option ValueType
  | "string" => some .string
  | "name" => some .name
  | "qualifiedName" => some .qualifiedName
  | "bool" | "boolean" => some .boolean
  | "int" | "integer" => some .integer
  | "namePair" => some .namePair
  | "json" => some .json
  | _ => none

/-- A text between double quotes, as it is. -/
def quote (text : String) : String :=
  "\"" ++ text ++ "\""

mutual

/-- The type written as a call. -/
def describe : ValueType → String
  | .one types => "one(" ++ joinWith ", " (describeAll types) ++ ")"
  | .many types => "many(" ++ joinWith ", " (describeAll types) ++ ")"
  | .map key values => "map(" ++ key.describe ++ ", " ++ joinWith ", " (describeAll values) ++ ")"
  | .typedMap fields => "typedMap(\x7b" ++ joinWith ", " (describeFields fields) ++ "\x7d)"
  | .typeRef target => "typeRef(" ++ quote target ++ ")"
  | .element target => "element(" ++ quote target ++ ")"
  | .namedElement target => "namedElement(" ++ quote target ++ ")"
  | .listOrMap list entries => "listOrMap(" ++ list.describe ++ ", " ++ entries.describe ++ ")"
  | .enum values => "enum([" ++ joinWith ", " (values.map quote) ++ "])"
  | type => type.category

/-- Types written as calls. -/
def describeAll : List ValueType → List String
  | [] => []
  | type :: types => type.describe :: describeAll types

/-- Typed keys, each with its type. -/
def describeFields : List (String × ValueType) → List String
  | [] => []
  | (key, type) :: fields => (key ++ ": " ++ type.describe) :: describeFields fields

end

end ValueType

end CodeMarkup
