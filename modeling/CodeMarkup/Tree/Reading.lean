import CodeMarkup.Tree

namespace CodeMarkup

/-!
# Reading values from a tree

Tags, their attributes and json containers as plain data.
-/

namespace Tree

/-! ### Names and simple values -/

/-- The text of a chain of names, `a.b.c`. -/
def dottedName? (tree : Tree) (id : NodeId) : Option String :=
  match tree.kind id with
  | .simpleName name => some name
  | .qualifiedName scope name | .fieldAccess scope name =>
    if scope < id then (tree.dottedName? scope).map (· ++ "." ++ name) else none
  | _ => none
termination_by id

/-- A simple value as text: literals without their quotes, names, and templates that interpolate
    nothing.  `null` is not text. -/
def stringValue? (tree : Tree) (id : NodeId) : Option String :=
  match tree.kind id with
  | .literal (.string text) | .literal (.char text) => some text
  | .literal (.integer text) | .literal (.long text) | .literal (.double text) => some text
  | .literal (.boolean value) => some (if value then "true" else "false")
  | .simpleName text => some text
  | .qualifiedName _ _ | .fieldAccess _ _ => tree.dottedName? id
  | .template raw interpolations => if interpolations.isEmpty then some raw else none
  | .enclosed inner => if inner < id then tree.stringValue? inner else none
  | _ => none
termination_by id

/-! ### Tags -/

/-- The name of a tag. -/
def tagName? (tree : Tree) (id : NodeId) : Option String :=
  match tree.kind id with
  | .tag name _ _ => some name
  | _ => none

/-- Whether a node is an attribute with a given name. -/
def isAttribute (tree : Tree) (id : NodeId) (name : String) : Bool :=
  match tree.kind id with
  | .tagAttribute other _ => other == name
  | _ => false

/-- The first attribute of a tag with a given name. -/
def attribute? (tree : Tree) (id : NodeId) (name : String) : Option NodeId :=
  match tree.kind id with
  | .tag _ attributes _ => attributes.find? (tree.isAttribute · name)
  | _ => none

/-- Whether a tag has an attribute. -/
def hasAttribute (tree : Tree) (id : NodeId) (name : String) : Bool :=
  (tree.attribute? id name).isSome

/-- The value of an attribute; a bare attribute has none. -/
def attributeValue? (tree : Tree) (id : NodeId) (name : String) : Option NodeId := do
  match tree.kind (← tree.attribute? id name) with
  | .tagAttribute _ value => value
  | _ => none

/-- An attribute as text; a bare attribute reads as `true`. -/
def attributeString? (tree : Tree) (id : NodeId) (name : String) : Option String := do
  match tree.kind (← tree.attribute? id name) with
  | .tagAttribute _ none => some "true"
  | .tagAttribute _ (some value) => tree.stringValue? value
  | _ => none

/-- What stands between the two ends of a tag. -/
def bodyChildren (tree : Tree) (id : NodeId) : List NodeId :=
  match tree.kind id with
  | .tag _ _ (some body) =>
    match tree.kind body with
    | .tagBody children => children
    | _ => []
  | _ => []

/-! ### Json containers -/

/-- Whether a node is a json object. -/
def isJsonObject (tree : Tree) (id : NodeId) : Bool :=
  match tree.kind id with
  | .json isArray _ => !isArray
  | _ => false

/-- Whether a node is a json array. -/
def isJsonArray (tree : Tree) (id : NodeId) : Bool :=
  match tree.kind id with
  | .json isArray _ => isArray
  | _ => false

/-- The entries of a json container. -/
def jsonEntries? (tree : Tree) (id : NodeId) : Option (List NodeId) :=
  match tree.kind id with
  | .json _ pairs => some pairs
  | _ => none

/-- The value of an entry of a json container. -/
def jsonEntryValue? (tree : Tree) (id : NodeId) : Option NodeId :=
  match tree.kind id with
  | .jsonEntry _ value => some value
  | _ => none

/-- The key of an entry as text. -/
def jsonKey? (tree : Tree) (id : NodeId) : Option String :=
  match tree.kind id with
  | .jsonEntry (some key) _ => tree.stringValue? key
  | _ => none

/-- The values of a json container, in order. -/
def jsonValues? (tree : Tree) (id : NodeId) : Option (List NodeId) :=
  (tree.jsonEntries? id).map (·.filterMap tree.jsonEntryValue?)

end Tree

end CodeMarkup
