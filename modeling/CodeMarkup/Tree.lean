import CodeMarkup.Node

namespace CodeMarkup

/-!
# Syntax trees

A tree is the sequence of nodes that one parse has made, with the index of the root.  Nodes are made
bottom-up, so a node refers only to earlier ones; readings of a tree follow only such links, which
is why they end.  Ancestors are not stored: a walk carries them along.

* `Tree.walk`: a depth-first walk with a visitor that may leave out what is below a node.
* `Tree.preorder`: all nodes, each with its ancestors.
* `Tree.height`: the longest way down.
-/

/-- The nodes of one parse. -/
structure Tree where
  /-- The text that was parsed. -/
  source : Source
  /-- All nodes, in the order in which they were made. -/
  nodes : Array Node
  /-- The node that covers the whole text. -/
  root : NodeId

/-- What a walk does at each node: `enter` says whether to go below the node, `leave` runs after
    that. Both see the ancestors of the node, nearest first. -/
structure Visitor (σ : Type) where
  /-- On the way down. -/
  enter : NodeId → List NodeId → σ → Bool × σ
  /-- On the way up. -/
  leave : NodeId → List NodeId → σ → σ

namespace Tree

/-- Number of nodes. -/
def size (tree : Tree) : Nat :=
  tree.nodes.size

/-- The node with an index. -/
def node? (tree : Tree) (id : NodeId) : Option Node :=
  tree.nodes[id]?

/-- The node with an index; an index that is not of the tree reads as a blank. -/
def node (tree : Tree) (id : NodeId) : Node :=
  (tree.node? id).getD .blank

/-- The form of a node. -/
def kind (tree : Tree) (id : NodeId) : NodeKind :=
  (tree.node id).kind

/-- The bytes that a node covers. -/
def span (tree : Tree) (id : NodeId) : Span :=
  (tree.node id).span

/-- The nodes that a node refers to, in source order. -/
def children (tree : Tree) (id : NodeId) : List NodeId :=
  (tree.kind id).children

/-- The text that a node was parsed from. -/
def textOf (tree : Tree) (id : NodeId) : String :=
  tree.source.textOf (tree.span id)

/-- Every comment that the tree holds, node by node. -/
def comments (tree : Tree) : List Comment :=
  tree.nodes.toList.flatMap Node.comments

/-- The children of a node that were made before it. -/
def below (tree : Tree) (id : NodeId) : List { child : NodeId // child < id } :=
  (tree.children id).filterMap fun child => if h : child < id then some ⟨child, h⟩ else none

/-- Walks from a node, whose ancestors are given. -/
def walkFrom {σ : Type} (tree : Tree) (visitor : Visitor σ) (id : NodeId) (ancestors : List NodeId)
    (state : σ) : σ :=
  let (goOn, state) := visitor.enter id ancestors state
  let state :=
    if goOn then
      (tree.below id).foldl
        (fun state ⟨child, _⟩ => tree.walkFrom visitor child (id :: ancestors) state) state
    else state
  visitor.leave id ancestors state
termination_by id

/-- Walks the whole tree. -/
def walk {σ : Type} (tree : Tree) (visitor : Visitor σ) (state : σ) : σ :=
  tree.walkFrom visitor tree.root [] state

/-- The visitor that lists what it enters. -/
def preorderVisitor : Visitor (List (NodeId × List NodeId)) where
  enter id ancestors seen := (true, (id, ancestors) :: seen)
  leave _ _ seen := seen

/-- All nodes in the order in which a walk enters them, each with its ancestors, nearest first. -/
def preorder (tree : Tree) : List (NodeId × List NodeId) :=
  (tree.walk preorderVisitor []).reverse

/-- One more than the greatest height of the children. -/
def height (tree : Tree) (id : NodeId) : Nat :=
  (tree.below id).foldl (fun most ⟨child, _⟩ => max most (tree.height child)) 0 + 1
termination_by id

/-- The node reached from `id` by going to the child with each index in turn. -/
def descend? (tree : Tree) (id : NodeId) : List Nat → Option NodeId
  | [] => some id
  | index :: path => do tree.descend? (← (tree.children id)[index]?) path

end Tree

end CodeMarkup
