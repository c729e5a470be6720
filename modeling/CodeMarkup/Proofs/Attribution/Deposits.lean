import CodeMarkup.Attribution

namespace CodeMarkup

/-!
# Giving comments to nodes

The attribution of comments changes a tree by one kind of step: a comment is put somewhere at a
node, either into the slot for its comment, which has to be free, or among its orphans.

* `Tree.SameShape`: trees that differ in their comments only.
* `Tree.put`, `Tree.Holds`: a step, and what a tree holds after it.
* `Deposits`: a run of steps, each of which meets a condition.  No comment is lost in a run
  (`Deposits.comments_perm`), and whatever a node holds after it was put there or held before
  (`Deposits.holds`).
-/

/-! ### Shapes -/

/-- A node without its comments. -/
def Node.bare (node : Node) : Node :=
  { node with comment := none, orphans := [] }

namespace Tree

/-- Trees that differ in their comments only. -/
structure SameShape (a b : Tree) : Prop where
  root_eq : a.root = b.root
  nodes_eq : a.nodes.map Node.bare = b.nodes.map Node.bare

variable {tree a b c : Tree} {id : NodeId} {options : MergeOptions}

namespace SameShape

theorem refl (tree : Tree) : tree.SameShape tree :=
  ⟨rfl, rfl⟩

theorem symm (h : a.SameShape b) : b.SameShape a :=
  ⟨h.root_eq.symm, h.nodes_eq.symm⟩

theorem trans (h : a.SameShape b) (h' : b.SameShape c) : a.SameShape c :=
  ⟨h.root_eq.trans h'.root_eq, h.nodes_eq.trans h'.nodes_eq⟩

theorem size_eq (h : a.SameShape b) : a.size = b.size := by
  have hsize := congrArg Array.size h.nodes_eq
  rwa [Array.size_map, Array.size_map] at hsize

theorem bare_eq (h : a.SameShape b) (id : NodeId) : (a.node id).bare = (b.node id).bare := by
  -- a number without a node stands for the blank one, which is bare
  have hnode : ∀ tree : Tree,
      (tree.node id).bare = ((tree.nodes.map Node.bare)[id]?).getD .blank := by
    intro tree
    rw [Tree.node, Tree.node?, Array.getElem?_map]
    cases tree.nodes[id]? <;> rfl
  rw [hnode, hnode, h.nodes_eq]

theorem kind_eq (h : a.SameShape b) (id : NodeId) : a.kind id = b.kind id := by
  have hkind := congrArg Node.kind (h.bare_eq id)
  exact hkind

theorem children_eq (h : a.SameShape b) (id : NodeId) : a.children id = b.children id :=
  congrArg NodeKind.children (h.kind_eq id)

theorem span_eq (h : a.SameShape b) (id : NodeId) : a.span id = b.span id := by
  have hspan := congrArg Node.span (h.bare_eq id)
  exact hspan

theorem extent_eq (h : a.SameShape b) (id : NodeId) : (a.node id).extent = (b.node id).extent := by
  have hextent := congrArg Node.extent (h.bare_eq id)
  exact hextent

theorem unannotatedBegin_eq (h : a.SameShape b) (id : NodeId) :
    (a.node id).unannotatedBegin = (b.node id).unannotatedBegin := by
  have hbegin := congrArg Node.unannotatedBegin (h.bare_eq id)
  exact hbegin

theorem beginOf_eq (h : a.SameShape b) (id : NodeId) :
    a.beginOf options id = b.beginOf options id := by
  simp only [beginOf, Node.beginWithoutAnnotations, h.extent_eq, h.unannotatedBegin_eq]

theorem encloses_eq (h : a.SameShape b) (id : NodeId) (comment : Comment) :
    a.encloses options id comment = b.encloses options id comment := by
  rw [encloses, encloses, h.beginOf_eq, h.extent_eq]

theorem childrenByBegin_eq (h : a.SameShape b) (id : NodeId) :
    a.childrenByBegin id = b.childrenByBegin id := by
  unfold childrenByBegin below
  simp only [h.children_eq, h.extent_eq]

end SameShape

/-! ### Steps -/

/-- Where at a node a comment may stand. -/
inductive Slot where
  /-- As the comment of the node. -/
  | attached
  /-- Among its orphans. -/
  | orphaned

/-- Puts a comment somewhere at a node. -/
def put (tree : Tree) (id : NodeId) (comment : Comment) : Slot → Tree
  | .attached => tree.attach id comment
  | .orphaned => tree.addOrphans id [comment]

/-- Whether a comment may be put somewhere at a node. -/
def IsFree (tree : Tree) (id : NodeId) : Slot → Prop
  | .attached => (tree.node id).comment = none
  | .orphaned => True

/-- What stands somewhere at a node. -/
def Holds (tree : Tree) (id : NodeId) (comment : Comment) : Slot → Prop
  | .attached => (tree.node id).comment = some comment
  | .orphaned => comment ∈ (tree.node id).orphans

variable {comment : Comment} {slot : Slot}

theorem node_modify (tree : Tree) (f : Node → Node) (hid : id < tree.size) (other : NodeId) :
    ({ tree with nodes := tree.nodes.modify id f } : Tree).node other
      = if other = id then f (tree.node id) else tree.node other := by
  unfold Tree.node Tree.node?
  rw [Array.getElem?_modify]
  by_cases h : id = other
  · subst h
    rw [if_pos rfl, if_pos rfl]
    obtain ⟨node, hnode⟩ : ∃ node, tree.nodes[id]? = some node :=
      ⟨_, Array.getElem?_eq_some_iff.2 ⟨hid, rfl⟩⟩
    rw [hnode]
    rfl
  · rw [if_neg h, if_neg (Ne.symm h)]

theorem sameShape_modify (tree : Tree) (f : Node → Node) (hf : ∀ node, (f node).bare = node.bare) :
    SameShape { tree with nodes := tree.nodes.modify id f } tree := by
  refine ⟨rfl, Array.ext_getElem? fun i => ?_⟩
  rw [Array.getElem?_map, Array.getElem?_map, Array.getElem?_modify]
  split
  · cases tree.nodes[i]? <;> simp [hf]
  · rfl

theorem sameShape_put (tree : Tree) (id : NodeId) (comment : Comment) (slot : Slot) :
    (tree.put id comment slot).SameShape tree := by
  cases slot with
  | attached => exact tree.sameShape_modify _ fun _ => rfl
  | orphaned => exact tree.sameShape_modify _ fun _ => rfl

/-- A step adds one comment at one place and leaves everything else. -/
theorem holds_put (hid : id < tree.size) (hfree : tree.IsFree id slot) (other : NodeId)
    (found : Comment) (place : Slot) :
    (tree.put id comment slot).Holds other found place
      ↔ tree.Holds other found place ∨ (other = id ∧ found = comment ∧ place = slot) := by
  cases slot with
  | attached =>
    cases place with
    | attached =>
      -- here the slot has to be free, or the comment in it would be lost
      simp only [put, attach, Holds, IsFree, node_modify _ _ hid] at hfree ⊢
      split
      · next h => simp [h, hfree, eq_comm]
      · next h => simp [h]
    | orphaned =>
      simp only [put, attach, Holds, node_modify _ _ hid]
      split
      · next h => simp [h]
      · simp
  | orphaned =>
    cases place with
    | attached =>
      simp only [put, addOrphans, Holds, node_modify _ _ hid]
      split
      · next h => simp [h]
      · simp
    | orphaned =>
      simp only [put, addOrphans, Holds, node_modify _ _ hid]
      split
      · next h => simp [h]
      · next h => simp [h]

/-- Changing one element of a list so that it holds more. -/
theorem flatMap_modify_perm {α β : Type} {f : α → α} {g : α → List β} (new : List β)
    (items : List α) (i : Nat) (hi : i < items.length)
    (hnew : ∀ a ∈ items[i]?, (g (f a)).Perm (new ++ g a)) :
    ((items.modify i f).flatMap g).Perm (new ++ items.flatMap g) := by
  induction items generalizing i with
  | nil => exact absurd hi (Nat.not_lt_zero _)
  | cons a items ih =>
    cases i with
    | zero =>
      rw [List.modify_zero_cons, List.flatMap_cons, List.flatMap_cons, ← List.append_assoc]
      exact (hnew a rfl).append_right _
    | succ i =>
      rw [List.modify_succ_cons, List.flatMap_cons, List.flatMap_cons]
      have hrest := (ih i (Nat.lt_of_succ_lt_succ hi) hnew).append_left (g a)
      -- what is new stands further on, and is moved to the front
      exact hrest.trans (List.perm_append_comm_assoc _ _ _)

theorem comments_put_perm (hid : id < tree.size) (hfree : tree.IsFree id slot) :
    (tree.put id comment slot).comments.Perm (comment :: tree.comments) := by
  -- only the node that is changed matters
  have hnode : ∀ node ∈ tree.nodes.toList[id]?, node = tree.node id := by
    intro node hnode
    rw [Array.getElem?_toList] at hnode
    rw [Tree.node, Tree.node?, hnode]
    rfl
  cases slot with
  | attached =>
    simp only [put, attach, comments, Array.toList_modify]
    refine flatMap_modify_perm [comment] _ _ hid fun node hmem => ?_
    rw [hnode node hmem]
    simp only [IsFree] at hfree
    simp [Node.comments, hfree]
  | orphaned =>
    simp only [put, addOrphans, comments, Array.toList_modify]
    refine flatMap_modify_perm [comment] _ _ hid fun node hmem => ?_
    simp only [Node.comments, ← List.append_assoc]
    exact List.perm_append_comm

theorem addOrphans_nil (tree : Tree) (id : NodeId) : tree.addOrphans id [] = tree := by
  have hnodes : tree.nodes.modify id
      (fun node => { node with orphans := node.orphans ++ [] }) = tree.nodes := by
    refine Array.ext_getElem? fun i => ?_
    rw [Array.getElem?_modify]
    split
    · cases tree.nodes[i]? <;> simp
    · rfl
  rw [addOrphans, hnodes]

theorem addOrphans_cons (tree : Tree) (id : NodeId) (comment : Comment) (comments : List Comment) :
    tree.addOrphans id (comment :: comments)
      = (tree.addOrphans id [comment]).addOrphans id comments := by
  have hnodes : tree.nodes.modify id
      (fun node => { node with orphans := node.orphans ++ comment :: comments })
      = (tree.nodes.modify id
          (fun node => { node with orphans := node.orphans ++ [comment] })).modify id
        (fun node => { node with orphans := node.orphans ++ comments }) := by
    refine Array.ext_getElem? fun i => ?_
    simp only [Array.getElem?_modify]
    split
    · cases tree.nodes[i]? <;> simp
    · rfl
  rw [addOrphans, addOrphans, addOrphans, hnodes]

end Tree

/-! ### Runs -/

open Tree

/-- From one tree to another comments are put at nodes one by one, in this order; each place is free
    when a comment is put there, and meets a condition. -/
inductive Deposits (P : Comment → NodeId → Slot → Prop) (tree : Tree) :
    List Comment → Tree → Prop where
  | nil : Deposits P tree [] tree
  | put {comments : List Comment} {after : Tree} {id : NodeId} {slot : Slot} {comment : Comment}
      (h : Deposits P tree comments after) (hid : id < after.size) (hfree : after.IsFree id slot)
      (hplace : P comment id slot) :
      Deposits P tree (comments ++ [comment]) (after.put id comment slot)

namespace Deposits

variable {P Q : Comment → NodeId → Slot → Prop} {tree after last : Tree}
  {comments more : List Comment} {id : NodeId} {slot : Slot} {comment : Comment}

theorem single (hid : id < tree.size) (hfree : tree.IsFree id slot) (hplace : P comment id slot) :
    Deposits P tree [comment] (tree.put id comment slot) :=
  .put .nil hid hfree hplace

theorem trans (h : Deposits P tree comments after) (h' : Deposits P after more last) :
    Deposits P tree (comments ++ more) last := by
  induction h' with
  | nil => rwa [List.append_nil]
  | put _ hid hfree hplace ih =>
    rw [← List.append_assoc]
    exact .put ih hid hfree hplace

theorem mono (h : Deposits P tree comments after)
    (himp : ∀ comment ∈ comments, ∀ id slot, P comment id slot → Q comment id slot) :
    Deposits Q tree comments after := by
  induction h with
  | nil => exact .nil
  | put _ hid hfree hplace ih =>
    refine .put (ih fun comment hmem => himp comment (List.mem_append_left _ hmem)) hid hfree ?_
    exact himp _ (List.mem_append_right _ (List.mem_singleton_self _)) _ _ hplace

theorem sameShape (h : Deposits P tree comments after) : after.SameShape tree := by
  induction h with
  | nil => exact .refl tree
  | put _ _ _ _ ih => exact (sameShape_put _ _ _ _).trans ih

/-- **No comment is lost.** -/
theorem comments_perm (h : Deposits P tree comments after) :
    after.comments.Perm (tree.comments ++ comments) := by
  induction h with
  | nil => rw [List.append_nil]
  | @put comments after id slot comment _ hid hfree _ ih =>
    have hput : (after.put id comment slot).comments.Perm (comment :: after.comments) :=
      comments_put_perm hid hfree
    rw [← List.append_assoc]
    exact hput.trans ((ih.cons comment).trans (List.perm_append_singleton comment _).symm)

/-- What a tree holds after a run was there before or was put there. -/
theorem holds (h : Deposits P tree comments after) :
    after.Holds id comment slot → tree.Holds id comment slot ∨ P comment id slot := by
  induction h with
  | nil => exact .inl
  | put _ hid hfree hplace ih =>
    intro hholds
    -- held before the last step, or put there by it
    rcases (holds_put hid hfree id comment slot).1 hholds with hholds | ⟨rfl, rfl, rfl⟩
    · exact ih hholds
    · exact .inr hplace

/-- Every comment of a run stands where it was put. -/
theorem exists_holds (h : Deposits P tree comments after) (hmem : comment ∈ comments) :
    ∃ id slot, P comment id slot ∧ after.Holds id comment slot := by
  induction h with
  | nil => exact absurd hmem List.not_mem_nil
  | @put comments after id slot last _ hid hfree hplace ih =>
    rcases List.mem_append.1 hmem with hmem | hmem
    · obtain ⟨id', slot', hplace', hholds⟩ := ih hmem
      exact ⟨id', slot', hplace', (holds_put hid hfree _ _ _).2 (.inl hholds)⟩
    · obtain rfl := List.mem_singleton.1 hmem
      exact ⟨id, slot, hplace, (holds_put hid hfree _ _ _).2 (.inr ⟨rfl, rfl, rfl⟩)⟩

/-- Orphans are put one by one. -/
theorem addOrphans (hid : id < tree.size) (hplace : ∀ comment ∈ comments, P comment id .orphaned) :
    Deposits P tree comments (tree.addOrphans id comments) := by
  induction comments generalizing tree with
  | nil =>
    rw [tree.addOrphans_nil]
    exact .nil
  | cons comment comments ih =>
    rw [tree.addOrphans_cons]
    have hfirst : Deposits P tree [comment] (tree.put id comment .orphaned) :=
      .single hid trivial (hplace comment List.mem_cons_self)
    -- a step does not change the number of nodes
    have hid' : id < (tree.addOrphans id [comment]).size := hfirst.sameShape.size_eq ▸ hid
    exact hfirst.trans (ih hid' fun c hc => hplace c (List.mem_cons_of_mem _ hc))

end Deposits

end CodeMarkup
