import CodeMarkup.Json
import CodeMarkup.Text.Blank
import CodeMarkup.Text.Quoted
import CodeMarkup.Tree

namespace CodeMarkup

/-!
# Listings of trees

A tree is shown with its comments, either as an outline with one line for each node or as json.
Both give a node the same label and the same positions.

* `NodeKind.label`: the form of a node with the name or symbol it stands for.
* `Tree.outline`: the outline.
* `Tree.toJson`: the json.
-/

/-- A literal as a label shows it. -/
def Literal.label : Literal → String
  | .integer text | .long text | .double text => text
  | .char text => "'" ++ text ++ "'"
  | .string text => quoted text
  | .boolean value => if value then "true" else "false"
  | .null => "null"

namespace NodeKind

/-- What a node declares or uses: a name, a symbol or a literal. -/
def detail? : NodeKind → Option String
  | .simpleName name
  | .qualifiedName _ name
  | .classDeclaration _ _ _ name _ _ _ _
  | .enumDeclaration _ _ name _ _ _
  | .enumConstant _ name _ _
  | .methodDeclaration _ _ _ _ name _ _ _
  | .constructorDeclaration _ _ _ name _ _ _
  | .parameterDecl _ _ _ _ name
  | .typeParameter name _
  | .declarator name _ _
  | .classType _ name _
  | .methodCall _ _ name _
  | .memberValue name _
  | .tagAttribute name _ => some name
  | .fieldAccess _ field => some field
  | .tag name _ _ => some ("<" ++ name ++ ">")
  | .primitiveType word => some word.text
  | .binary _ op _ => some op.symbol
  | .unary op _ => some op.symbol
  | .assign _ op _ => some op.symbol
  | .literal value => some value.label
  | _ => none

/-- The form of a node, with its detail. -/
def label (kind : NodeKind) : String :=
  match kind.detail? with
  | some detail => kind.formName ++ " " ++ detail
  | none => kind.formName

end NodeKind

/-- A comment without the blanks around it. -/
def Comment.trimmed (comment : Comment) : String :=
  String.ofList (trimBlanks comment.content.toList)

/-! ### Outlines -/

/-- A comment on one line of an outline. -/
def Comment.outlineText (comment : Comment) : String :=
  comment.kind.name ++ " comment " ++ comment.extent.first.text ++ " " ++ quoted comment.trimmed

/-- The indentation of a node with so many ancestors. -/
def outlineIndent (depth : Nat) : String :=
  String.ofList (List.replicate (2 * depth) ' ')

namespace Tree

/-- The line of a node. -/
def outlineLine (tree : Tree) (id : NodeId) (depth : Nat) : String :=
  let node := tree.node id
  outlineIndent depth ++ node.kind.label ++ " " ++ node.extent.first.text ++ "-"
    ++ node.extent.last.text

/-- The line of a comment below a node, after a mark. -/
def commentLine (mark : String) (depth : Nat) (comment : Comment) : String :=
  outlineIndent depth ++ "  " ++ mark ++ " " ++ comment.outlineText

/-- The visitor that gathers the lines of an outline, the last one first. -/
def outlineVisitor (tree : Tree) : Visitor (List String) where
  enter id ancestors lines :=
    let depth := ancestors.length
    let below := (tree.node id).comment.toList.map (commentLine "=" depth)
    (true, below.reverse ++ tree.outlineLine id depth :: lines)
  leave id ancestors lines :=
    ((tree.node id).orphans.map (commentLine "~" ancestors.length)).reverse ++ lines

/-- One line for each node, indented by its depth, with its comment below it and its orphans below
    its children. -/
def outline (tree : Tree) : List String :=
  (tree.walk tree.outlineVisitor []).reverse

/-! ### Json -/

/-- A comment as json. -/
def commentJson (comment : Comment) : JsonValue :=
  .object [
    ("kind", .string comment.kind.name),
    ("content", .string comment.content),
    ("begin", .string comment.extent.first.text),
    ("end", .string comment.extent.last.text)]

/-- A node as json, given its children. -/
def nodeJson (node : Node) (children : List JsonValue) : JsonValue :=
  .object [
    ("node", .string node.kind.label),
    ("begin", .string node.extent.first.text),
    ("end", .string node.extent.last.text),
    ("comment", .ofOption commentJson node.comment),
    ("orphans", .array (node.orphans.map commentJson)),
    ("children", .array children)]

/-- The nodes from one on down as json. -/
def toJsonFrom (tree : Tree) (id : NodeId) : JsonValue :=
  nodeJson (tree.node id) ((tree.below id).map fun ⟨child, _⟩ => tree.toJsonFrom child)
termination_by id

/-- The whole tree as json. -/
def toJson (tree : Tree) : JsonValue :=
  tree.toJsonFrom tree.root

end Tree

end CodeMarkup
