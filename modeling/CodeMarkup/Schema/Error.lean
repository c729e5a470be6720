import CodeMarkup.Text.Join
import CodeMarkup.Tree

namespace CodeMarkup

/-!
# Errors of definitions

A definition is refused as a whole at its first fault, which is placed at the node that causes it.
-/

/-- What is wrong with a definition. -/
inductive SchemaFault where
  | missingAttribute (tag attr : String)
  | emptyAttribute (tag attr : String)
  /-- A value that is not the json container it has to be. -/
  | wrongShape (context expected found : String)
  | duplicateElement (tag : String)
  | duplicateChildTag (child element : String)
  | duplicateAttribute (attr owner : String)
  | emptyName (owner : String)
  /-- A root tag that names no element. -/
  | unknownRootTag (rootTag : String) (defined : List String)
  | conflictingRequired (context : String)
  | conflictingDefault (context : String)
  | conflictingType (context existing incoming : String)
  | unknownType (name : String)
  | unknownTypeTag (tag : String)
  | unsupportedTypeExpression (text : String)
  | badTypeArguments (message : String)
  | invalidDocument (message : String)
  deriving DecidableEq

/-- The fault in words. -/
def SchemaFault.message : SchemaFault → String
  | .missingAttribute tag attr =>
    "<" ++ tag ++ "> is missing the " ++ attr ++ "= attribute"
  | .emptyAttribute tag attr =>
    "attribute " ++ attr ++ " must not be empty on <" ++ tag ++ ">"
  | .wrongShape context expected found =>
    context ++ " must be a json " ++ expected ++ "; got: " ++ found
  | .duplicateElement tag => "duplicate element-def for '" ++ tag ++ "'"
  | .duplicateChildTag child element =>
    "duplicate child tag '" ++ child ++ "' in element-def '" ++ element ++ "'"
  | .duplicateAttribute attr owner =>
    "duplicate attribute '" ++ attr ++ "' in " ++ owner
  | .emptyName owner => owner ++ " name must not be empty"
  | .unknownRootTag rootTag defined =>
    "rootTag='" ++ rootTag ++ "' does not match any element-def; defined: ["
      ++ joinWith ", " defined ++ "]"
  | .conflictingRequired context => "conflicting required= for " ++ context
  | .conflictingDefault context => "conflicting default= presence for " ++ context
  | .conflictingType context existing incoming =>
    "conflicting type for " ++ context ++ ": " ++ existing ++ " vs " ++ incoming
  | .unknownType name => "unknown type name '" ++ name ++ "'"
  | .unknownTypeTag tag => "unknown type tag <" ++ tag ++ ">"
  | .unsupportedTypeExpression text => "unsupported type expression: " ++ text
  | .badTypeArguments message => message
  | .invalidDocument message => "invalid definition document: " ++ message

/-- A fault and the bytes at fault. -/
structure SchemaError where
  /-- What is wrong. -/
  fault : SchemaFault
  /-- Where. -/
  span : Span
  deriving DecidableEq

/-- Fails at a node. -/
def Tree.refuse {α : Type} (tree : Tree) (id : NodeId) (fault : SchemaFault) :
    Except SchemaError α :=
  .error ⟨fault, tree.span id⟩

end CodeMarkup
