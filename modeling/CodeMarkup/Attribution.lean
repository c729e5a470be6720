import CodeMarkup.Grammar.Entry

namespace CodeMarkup

/-!
# Attribution of comments

Comments are found apart from the tree and then given to its nodes.  Each comment ends as the
comment of one node, which holds at most one, or as an orphan of the innermost node around it.

For each node, from the root down:

1. a comment inside a child goes to that child;
2. a line comment on the line where a child ends goes to that child, or to a node below it that
   begins on that line;
3. a comment goes to the next child that has none, unless a blank line stands between them and the
   options forbid that;
4. what is left is orphaned.

Before that the root itself may take a comment.

* `Tree.attributeComments`: gives comments to the nodes of a tree.
* `Source.parseWithComments`: a tree with the comments of its text.
-/

/-- How comments are given to nodes. -/
structure MergeOptions where
  /-- Whether a comment may go to a node across blank lines. -/
  acrossBlankLines : Bool := false
  /-- Whether a node begins with the annotations in front of it. -/
  annotationsBegin : Bool := true
  deriving DecidableEq, Inhabited

/-- Takes the last element with a property out of a list. -/
def extractLast? {α : Type} (p : α → Bool) : List α → Option (α × List α)
  | [] => none
  | a :: rest =>
    match extractLast? p rest with
    | some (b, others) => some (b, a :: others)
    | none => if p a then some (a, rest) else none

namespace Tree

/-! ### Places -/

/-- Where a node begins under the options. -/
def beginOf (tree : Tree) (options : MergeOptions) (id : NodeId) : Position :=
  let node := tree.node id
  if options.annotationsBegin then node.extent.first else node.beginWithoutAnnotations

/-- Whether a comment lies inside a node. -/
def encloses (tree : Tree) (options : MergeOptions) (id : NodeId) (comment : Comment) : Bool :=
  tree.beginOf options id ≤ comment.extent.first
    && comment.extent.last ≤ (tree.node id).extent.last

/-- Whether a line lies between a comment and a node, whichever comes first. -/
def isApart (tree : Tree) (comment : Comment) (id : NodeId) : Bool :=
  let extent := (tree.node id).extent
  if comment.extent.first ≤ extent.first then comment.extent.last.line + 1 < extent.first.line
  else extent.last.line + 1 < comment.extent.first.line

/-- The children of a node in the order in which they begin. -/
def childrenByBegin (tree : Tree) (id : NodeId) : List { child : NodeId // child < id } :=
  (tree.below id).mergeSort fun a b => (tree.node a).extent.first ≤ (tree.node b).extent.first

/-! ### Changes -/

/-- Attaches a comment to a node. -/
def attach (tree : Tree) (id : NodeId) (comment : Comment) : Tree :=
  { tree with nodes := tree.nodes.modify id fun node => { node with comment := some comment } }

/-- Adds orphans to a node. -/
def addOrphans (tree : Tree) (id : NodeId) (comments : List Comment) : Tree :=
  { tree with
    nodes := tree.nodes.modify id fun node => { node with orphans := node.orphans ++ comments } }

/-! ### Line comments after a child -/

/-- The node that takes a line comment on `line`: this one if it begins there and has none, else the
    first such node below it, the last child first. -/
def lineTarget? (tree : Tree) (line : Nat) (id : NodeId) : Option NodeId :=
  let node := tree.node id
  if node.extent.first.line = line && node.comment.isNone then some id
  else (tree.childrenByBegin id).reverse.findSome? fun ⟨child, _⟩ => tree.lineTarget? line child
termination_by id

/-- The node that takes a comment because it stands on the line where a child ends. -/
def trailingTarget? (tree : Tree) (children : List NodeId) (comment : Comment) : Option NodeId :=
  if comment.kind = .line then
    let line := comment.extent.first.line
    (children.filter fun child => (tree.node child).extent.last.line = line).findSome?
      (tree.lineTarget? line)
  else none

/-- A comment during the merge at one node, and whether it has been attached already. -/
structure Pending where
  /-- The comment. -/
  comment : Comment
  /-- Whether a node has taken it. -/
  isTaken : Bool

/-- Attaches line comments to the children that end on their lines. -/
def attachTrailing (tree : Tree) (children : List NodeId) : List Comment → Tree × List Pending
  | [] => (tree, [])
  | comment :: rest =>
    match tree.trailingTarget? children comment with
    | some target =>
      let (tree, others) := (tree.attach target comment).attachTrailing children rest
      (tree, ⟨comment, true⟩ :: others)
    | none =>
      let (tree, others) := tree.attachTrailing children rest
      (tree, ⟨comment, false⟩ :: others)

/-! ### Comments before a child -/

/-- What stands in a row at one node: its children and the comments among them. -/
inductive Item where
  | child (id : NodeId)
  | pending (comment : Pending)

/-- Where an item begins under the options. -/
def Item.begin (tree : Tree) (options : MergeOptions) : Item → Position
  | .child id => tree.beginOf options id
  | .pending waiting => waiting.comment.extent.first

/-- Children and comments in the order in which they begin; a child comes before a comment that
    begins with it. -/
def itemsOf (tree : Tree) (options : MergeOptions) (children : List NodeId)
    (comments : List Pending) : List Item :=
  (children.map Item.child ++ comments.map Item.pending).mergeSort fun a b =>
    a.begin tree options ≤ b.begin tree options

/-- Whether a child takes the comment before it. -/
def takesComment (tree : Tree) (options : MergeOptions) (id : NodeId) (comment : Comment) : Bool :=
  (tree.node id).comment.isNone && (options.acrossBlankLines || !tree.isApart comment id)

/-- Goes through the items with the comment that waits for a child.  A child takes it if it can, and
    the next comment replaces it.  Returns the comments that no child takes. -/
def attachPreceding (tree : Tree) (options : MergeOptions) (waiting : Option Comment) :
    List Item → Tree × List Comment
  | [] => (tree, waiting.toList)
  | .pending ⟨comment, isTaken⟩ :: rest =>
    let (tree, left) :=
      tree.attachPreceding options (if isTaken then none else some comment) rest
    (tree, waiting.toList ++ left)
  | .child id :: rest =>
    match waiting with
    | none => tree.attachPreceding options none rest
    | some comment =>
      if tree.takesComment options id comment then
        (tree.attach id comment).attachPreceding options none rest
      else tree.attachPreceding options (some comment) rest

/-! ### The whole tree -/

/-- Attaches or orphans the comments that lie inside no child of a node. -/
def settle (tree : Tree) (options : MergeOptions) (id : NodeId) (children : List NodeId)
    (comments : List Comment) : Tree :=
  let (tree, pending) := tree.attachTrailing children comments
  let (tree, left) := tree.attachPreceding options none (tree.itemsOf options children pending)
  tree.addOrphans id left

/-- Places comments inside a node. -/
def place (tree : Tree) (options : MergeOptions) (id : NodeId) (comments : List Comment) : Tree :=
  if comments.isEmpty then tree
  else
    let children := tree.childrenByBegin id
    let (tree, outside) :=
      children.foldl (fun (tree, comments) ⟨child, _⟩ =>
        let (inside, outside) := comments.partition (tree.encloses options child)
        (tree.place options child inside, outside)) (tree, comments)
    tree.settle options id (children.map (·.val)) outside
termination_by id

/-- Gives the root the comment before it, and returns the others.  A file with a package takes a
    comment before everything else; a file without one takes none; any other root takes the last
    comment that ends before it, under the rule for blank lines. -/
def attachToRoot (tree : Tree) (options : MergeOptions) (comments : List Comment) :
    Tree × List Comment :=
  match tree.kind tree.root with
  | .compilationUnit (some _) _ _ =>
    let begins := (tree.childrenByBegin tree.root).head?.map (tree.node ·.val |>.extent.first)
    match comments with
    | [] => (tree, [])
    | first :: rest =>
      if begins.all (first.extent.first ≤ ·) then (tree.attach tree.root first, rest)
      else (tree, comments)
  | .compilationUnit none _ _ => (tree, comments)
  | _ =>
    match extractLast? (·.extent.last < tree.beginOf options tree.root) comments with
    | none => (tree, comments)
    | some (comment, others) =>
      if !options.acrossBlankLines && tree.isApart comment tree.root then (tree, comments)
      else (tree.attach tree.root comment, others)

/-- Comments in the order in which they begin. -/
def sortComments (comments : List Comment) : List Comment :=
  comments.mergeSort fun a b => a.extent.first ≤ b.extent.first

/-- Gives comments to the nodes of a tree. -/
def attributeComments (tree : Tree) (options : MergeOptions) (comments : List Comment) : Tree :=
  let (tree, others) := tree.attachToRoot options (sortComments comments)
  tree.place options tree.root others

end Tree

/-- Parses a text and gives its comments to the tree. -/
def Source.parseWithComments (source : Source) (entry : EntryPoint) (options : MergeOptions) :
    Except ParseError Tree :=
  (source.parse entry).map (·.attributeComments options source.comments)

end CodeMarkup
