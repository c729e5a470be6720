import CodeMarkup.Proofs.Positions
import CodeMarkup.Proofs.Spans

namespace CodeMarkup

/-!
# Where declarations begin without their annotations

Annotations and modifier keywords stand in any order in front of a declaration, and the place where
its annotations end is found while they are read (`Gathers`, `Opens`).  Every node that is made
keeps that place (`NodeKind.IsMarked`); here it is compared with the extents of the node and its
children.

* `Source.position_le_extent_last`: a place inside a span is not past its last character.
* `Node.IsSound.mark_between`: the mark of a node lies inside it, between its annotations and its
  other children.
* `Source.parse_annotated_begins`: in a parsed tree a node has such a mark exactly if it has
  annotations in front.
-/

variable {source : Source} {tree : Tree} {id : NodeId}

/-- A boundary before the end of a span has no later position than the last character. -/
theorem Source.position_le_extent_last {span : Span} {offset : Nat} (h : source.HasSpan span)
    (hoffset : source.IsBoundary offset) (hstart : span.start < offset)
    (hstop : offset < span.stop) : source.position offset ≤ (source.extent span).last := by
  obtain ⟨last, -, -, -, hmax, hlast⟩ := exists_extent_last h (Nat.lt_trans hstart hstop)
  rw [hlast]
  exact source.position_le_position (hmax offset hoffset hstop)

/-- A node has a mark exactly if it has annotations in front. -/
theorem Node.IsSound.isSome_mark_iff {nodes : Array Node} {node : Node}
    (h : node.IsSound source nodes id) :
    node.unannotatedBegin.isSome = true ↔ node.kind.annotations ≠ [] := by
  obtain ⟨mark, hbegin, hmarked⟩ := h.marked
  rw [hbegin, Option.isSome_map]
  cases mark with
  | none =>
    have hnone : node.kind.annotations = [] := hmarked
    simp [hnone]
  | some offset =>
    have hmarked : node.kind.IsMarkedAt source nodes node.span offset := hmarked
    exact iff_of_true rfl hmarked.annotated

/-- The mark of a node lies inside it, past its annotations and not past its other children. -/
theorem Node.IsSound.mark_between {mark : Position}
    (h : (tree.node id).IsSound source tree.nodes id)
    (hchildren : ∀ child ∈ tree.children id,
      (tree.node child).IsSound source tree.nodes child)
    (hmark : (tree.node id).unannotatedBegin = some mark) :
    (tree.node id).extent.first < mark ∧ mark ≤ (tree.node id).extent.last
      ∧ (∀ child ∈ (tree.kind id).annotations, (tree.node child).extent.last < mark)
      ∧ ∀ child ∈ tree.children id, child ∉ (tree.kind id).annotations →
        mark ≤ (tree.node child).extent.first := by
  obtain ⟨place, hbegin, hmarked⟩ := h.marked
  rw [hmark] at hbegin
  obtain ⟨offset, rfl, rfl⟩ := Option.map_eq_some_iff.1 hbegin.symm
  have hmarked : (tree.kind id).IsMarkedAt source tree.nodes (tree.span id) offset := hmarked
  have hsize := hmarked.boundary.le_size
  rw [h.extent_eq, Source.extent_first]
  refine ⟨h.hasSpan.start_boundary.position_lt_position hmarked.start_lt hsize,
    Source.position_le_extent_last h.hasSpan hmarked.boundary hmarked.start_lt hmarked.lt_stop,
    fun child hchild => ?_, fun child hchild hother => ?_⟩
  · have hnode := hchildren child ((tree.kind id).annotations_subset hchild)
    obtain ⟨hstart, hstop⟩ := hmarked.annotations_le child hchild
    rw [hnode.extent_eq]
    exact Source.extent_last_lt hnode.hasSpan hstart hstop hsize
  · rw [(hchildren child hchild).extent_eq, Source.extent_first]
    exact source.position_le_position (hmarked.le_others child hchild hother)

/-- **Annotated begins.**  In the tree of every parse that succeeds, a node has a begin without its
    annotations exactly if it has annotations in front, which are among its children.  That begin
    comes after the begin of the node and not after its end, every annotation ends before it, and
    every other child begins there or later. -/
theorem Source.parse_annotated_begins (source : Source) (entry : EntryPoint) (tree : Tree)
    (h : source.parse entry = .ok tree) (id : NodeId) (hid : id < tree.size) :
    ((tree.node id).unannotatedBegin.isSome = true ↔ (tree.kind id).annotations ≠ [])
    ∧ (tree.kind id).annotations ⊆ tree.children id
    ∧ ∀ mark, (tree.node id).unannotatedBegin = some mark →
      (tree.node id).extent.first < mark ∧ mark ≤ (tree.node id).extent.last
      ∧ (∀ child ∈ (tree.kind id).annotations, (tree.node child).extent.last < mark)
      ∧ ∀ child ∈ tree.children id, child ∉ (tree.kind id).annotations →
        mark ≤ (tree.node child).extent.first := by
  obtain ⟨body, -, -, hparsed⟩ := Source.parse_eq_ok h
  have hnode := hparsed.isSound hid
  refine ⟨hnode.isSome_mark_iff, (tree.kind id).annotations_subset, fun mark hmark => ?_⟩
  refine hnode.mark_between (fun child hchild => ?_) hmark
  exact hparsed.isSound (hparsed.child_lt_size hid hchild)

/-- Two annotations with a keyword between them, before another keyword and the type: the mark is
    where the second keyword starts. -/
theorem parse_annotated_begins_field :
    ∃ tree, (Source.ofText "@A final @B static int x;").parse .bodyDeclaration = .ok tree
      ∧ (tree.node tree.root).unannotatedBegin = some ⟨1, 13⟩
      ∧ (tree.kind tree.root).annotations = [1, 3] ∧ tree.children tree.root = [1, 3, 4, 5]
      ∧ (tree.node 3).extent.last < ⟨1, 13⟩ ∧ ⟨1, 13⟩ ≤ (tree.node 4).extent.first := by
  obtain ⟨tree, h, hid, hmark, hannotations, hchildren⟩ : ∃ tree,
      (Source.ofText "@A final @B static int x;").parse .bodyDeclaration = .ok tree
        ∧ tree.root < tree.size ∧ (tree.node tree.root).unannotatedBegin = some ⟨1, 13⟩
        ∧ (tree.kind tree.root).annotations = [1, 3] ∧ tree.children tree.root = [1, 3, 4, 5] :=
    Source.exists_eq_ok_and (by decide +kernel)
  obtain ⟨-, -, hbetween⟩ := Source.parse_annotated_begins _ _ tree h tree.root hid
  obtain ⟨-, -, hbefore, hafter⟩ := hbetween _ hmark
  rw [hannotations] at hbefore hafter
  rw [hchildren] at hafter
  exact ⟨tree, h, hmark, hannotations, hchildren, hbefore 3 (by decide),
    hafter 4 (by decide) (by decide)⟩

end CodeMarkup
