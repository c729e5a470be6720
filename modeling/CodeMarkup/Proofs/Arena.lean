import CodeMarkup.Proofs.Spans

namespace CodeMarkup

/-!
# The order of a tree's nodes

Nodes are kept in the order in which they were made, and a node refers to others by their numbers.
All readings of a tree go from a node to its children; here it is shown that they end and see no
node twice.

* `Tree.IsParsed.children_nodup`: the children of all nodes are different nodes.
* `Source.parse_forest`: a parsed tree is a forest with children before their parents, and its root
  comes last.
-/

variable {source : Source} {tree : Tree}

/-- The children of all nodes, one node after another. -/
theorem Tree.childrenFrom_zero_eq (tree : Tree) :
    childrenFrom tree.nodes 0 = (List.range tree.size).flatMap tree.children := by
  unfold childrenFrom
  rw [List.drop_zero, tree.nodes_toList_eq, List.flatMap_map]
  rfl

theorem Tree.IsParsed.children_nodup {body : List Token} (h : tree.IsParsed source body) :
    ((List.range tree.size).flatMap tree.children).Nodup := by
  rw [← tree.childrenFrom_zero_eq]
  exact h.unshared

/-- **Parsed trees are forests in order.**  In the tree of every parse that succeeds, the root is
    the last node, children come before their parents, and no node is a child of two nodes or twice
    a child of one. -/
theorem Source.parse_forest (source : Source) (entry : EntryPoint) (tree : Tree)
    (h : source.parse entry = .ok tree) :
    tree.root + 1 = tree.size
    ∧ (∀ id < tree.size, ∀ child ∈ tree.children id, child < id)
    ∧ ((List.range tree.size).flatMap tree.children).Nodup := by
  obtain ⟨body, -, -, hparsed⟩ := Source.parse_eq_ok h
  refine ⟨hparsed.root_last, ?_, hparsed.children_nodup⟩
  intro id hid child hchild
  exact (hparsed.isSound hid).children_lt child hchild

/-- A chain of suffixes, each of which takes the node before it as its child. -/
theorem parse_forest_suffixes :
    ∃ tree, (Source.ofText "a[i].f(x)++").parse .expression = .ok tree
      ∧ tree.size = 6 ∧ tree.root = 5
      ∧ ((List.range tree.size).flatMap tree.children).Nodup := by
  obtain ⟨tree, h, hsize⟩ : ∃ tree, (Source.ofText "a[i].f(x)++").parse .expression = .ok tree
      ∧ tree.size = 6 := Source.exists_eq_ok_and (by decide +kernel)
  obtain ⟨hroot, -, hnodup⟩ := Source.parse_forest _ _ tree h
  exact ⟨tree, h, hsize, Nat.succ.inj (hroot.trans hsize), hnodup⟩

end CodeMarkup
