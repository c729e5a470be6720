import CodeMarkup.Proofs.Attribution.Placement
import CodeMarkup.Proofs.Spans

namespace CodeMarkup

/-!
# What becomes of comments

The attribution of comments as a whole, for trees in which children come before their parents and
which hold no comments yet, such as all parsed ones.

* `Tree.Conserves`: the nodes that can be reached hold every comment once, and nothing else has
  changed.
* `comments_conserved`: so it is for parsed trees and for all others.
* `comments_placed`: every comment stands at one of its places, except one that the root takes.
-/

namespace Tree

variable {tree : Tree} {options : MergeOptions} {id target : NodeId} {comment : Comment}
  {slot : Slot}

/-! ### The root -/

theorem extractLast?_perm {α : Type} {p : α → Bool} {items others : List α} {a : α}
    (h : extractLast? p items = some (a, others)) : (a :: others).Perm items := by
  induction items generalizing a others with
  | nil => cases h
  | cons b items ih =>
    rw [extractLast?] at h
    split at h
    · next found rest hfound =>
      cases h
      exact (List.Perm.swap _ _ _).trans ((ih hfound).cons b)
    · split at h
      · cases h
        exact .refl _
      · cases h

/-- What the root takes of some comments, given the tree after it and the comments left. -/
def RootTakes (tree : Tree) (comments : List Comment) (result : Tree × List Comment) : Prop :=
  ((result.1.node tree.root).comment.toList ++ result.2).Perm comments
    ∧ Deposits (fun _ id slot => id = tree.root ∧ slot = .attached) tree
      (result.1.node tree.root).comment.toList result.1

/-- The root takes one comment or none. -/
theorem attachToRoot_takes (hroot : tree.root < tree.size)
    (hfree : (tree.node tree.root).comment = none) (options : MergeOptions)
    (comments : List Comment) :
    tree.RootTakes comments (tree.attachToRoot options comments) := by
  have hnone : tree.RootTakes comments (tree, comments) := by
    unfold RootTakes
    rw [hfree]
    exact ⟨.refl _, .nil⟩
  have hsome : ∀ comment others, (comment :: others).Perm comments →
      tree.RootTakes comments (tree.attach tree.root comment, others) := by
    intro comment others hperm
    have hslot : tree.IsFree tree.root .attached := hfree
    have hheld : ((tree.attach tree.root comment).node tree.root).comment = some comment :=
      (holds_put hroot hslot tree.root comment .attached).2 (.inr ⟨rfl, rfl, rfl⟩)
    unfold RootTakes
    rw [hheld]
    exact ⟨hperm, .single hroot hslot ⟨rfl, rfl⟩⟩
  -- a file with a package takes the first comment, another root the last one before it
  unfold attachToRoot
  split
  · dsimp only
    split
    · exact hnone
    · split
      · exact hsome _ _ (.refl _)
      · exact hnone
  · exact hnone
  · split
    · exact hnone
    · next comment others hfound =>
      split
      · exact hnone
      · exact hsome comment others (extractLast?_perm hfound)

/-! ### Reachable nodes -/

theorem reaches_host (tree : Tree) (options : MergeOptions) (comment : Comment) (id : NodeId) :
    tree.Reaches id (tree.host options comment id) := by
  induction id using Nat.strongRecOn with
  | _ id ih =>
    rw [host]
    split
    · next child hlt hfind =>
      have hchild := mem_children_of_mem_byBegin (List.mem_of_find?_eq_some hfind)
      exact Reaches.trans (.child .refl hchild) (ih child hlt)
    · exact .refl

theorem IsPlace.reaches {top : NodeId} (h : tree.IsPlace options top comment target slot) :
    tree.Reaches top target := by
  have hhost := tree.reaches_host options comment top
  cases h with
  | orphan => exact hhost
  | before hchild _ => exact .child hhost hchild
  | sameLine _ hchild hreaches _ _ => exact Reaches.trans (.child hhost hchild) hreaches

/-- The nodes that can be reached from the root hold some comments, each once; everything else is as
    it was before. -/
structure Conserves (before after : Tree) (comments : List Comment) : Prop where
  held : ∃ ids : List NodeId, ids.Nodup ∧ (∀ id, id ∈ ids ↔ after.Reaches after.root id)
    ∧ (ids.flatMap fun id => (after.node id).comments).Perm comments
  root_eq : after.root = before.root
  size_eq : after.size = before.size
  kind_eq : ∀ id, after.kind id = before.kind id
  span_eq : ∀ id, after.span id = before.span id
  extent_eq : ∀ id, (after.node id).extent = (before.node id).extent
  unannotatedBegin_eq : ∀ id, (after.node id).unannotatedBegin = (before.node id).unannotatedBegin

/-- The comments of a tree, node by node. -/
theorem comments_eq_flatMap (tree : Tree) :
    tree.comments = (List.range tree.size).flatMap fun id => (tree.node id).comments := by
  rw [comments, tree.nodes_toList_eq, List.flatMap_map]

/-- Nodes that hold nothing may be left out. -/
theorem flatMap_filter_eq {α β : Type} (p : α → Bool) (g : α → List β) (items : List α)
    (h : ∀ a ∈ items, p a = false → g a = []) : (items.filter p).flatMap g = items.flatMap g := by
  induction items with
  | nil => rfl
  | cons a items ih =>
    have ih := ih fun b hb => h b (List.mem_cons_of_mem _ hb)
    rw [List.filter_cons, List.flatMap_cons]
    split
    · rw [List.flatMap_cons, ih]
    · next hp =>
      rw [h a List.mem_cons_self (Bool.not_eq_true _ ▸ hp), ih, List.nil_append]

theorem holds_of_mem_comments (h : comment ∈ (tree.node id).comments) :
    ∃ slot, tree.Holds id comment slot := by
  rcases List.mem_append.1 h with h | h
  · exact ⟨.attached, Option.mem_toList.1 h⟩
  · exact ⟨.orphaned, h⟩

theorem comment_free (h : tree.comments = []) (id : NodeId) : (tree.node id).comments = [] := by
  by_cases hid : id < tree.size
  · rw [comments_eq_flatMap, List.flatMap_eq_nil_iff] at h
    exact h id (List.mem_range.2 hid)
  · have hnone : tree.nodes[id]? = none := Array.getElem?_eq_none (Nat.not_lt.1 hid)
    rw [Tree.node, Tree.node?, hnone]
    rfl

theorem not_holds (h : tree.comments = []) : ¬tree.Holds id comment slot := by
  have hfree := comment_free h id
  rw [Node.comments, List.append_eq_nil_iff] at hfree
  intro hholds
  cases slot with
  | attached =>
    have hsome : (tree.node id).comment = some comment := hholds
    rw [hsome] at hfree
    cases hfree.1
  | orphaned =>
    have hmem : comment ∈ (tree.node id).orphans := hholds
    rw [hfree.2] at hmem
    cases hmem

/-! ### The whole merge -/

theorem attributeComments_eq (tree : Tree) (options : MergeOptions) (comments : List Comment) :
    tree.attributeComments options comments
      = (tree.attachToRoot options (sortComments comments)).1.place options
        (tree.attachToRoot options (sortComments comments)).1.root
        (tree.attachToRoot options (sortComments comments)).2 :=
  rfl

/-- The merge in two runs: what the root takes, and what goes down from it. -/
theorem attributeComments_runs (hbase : tree.IsBottomUp) (hroot : tree.root < tree.size)
    (hfree : tree.comments = []) (options : MergeOptions) (comments : List Comment) :
    tree.RootTakes comments (tree.attachToRoot options (sortComments comments))
      ∧ ∃ given, given.Perm (tree.attachToRoot options (sortComments comments)).2
        ∧ Deposits (tree.IsPlace options tree.root)
          (tree.attachToRoot options (sortComments comments)).1 given
          (tree.attributeComments options comments) := by
  have hslot := (List.append_eq_nil_iff.1 (comment_free hfree tree.root)).1
  obtain ⟨hperm, hfirst⟩ := attachToRoot_takes hroot (Option.toList_eq_nil_iff.1 hslot) options
    (sortComments comments)
  have hshape := hfirst.sameShape
  refine ⟨⟨hperm.trans (List.mergeSort_perm _ _), hfirst⟩, ?_⟩
  rw [attributeComments_eq, hshape.root_eq]
  exact place_deposits hbase options tree.root hroot _ _ hshape

/-- Both runs as one, at nodes that can be reached. -/
theorem attributeComments_deposits (hbase : tree.IsBottomUp) (hroot : tree.root < tree.size)
    (hfree : tree.comments = []) (options : MergeOptions) (comments : List Comment) :
    ∃ given, given.Perm comments ∧ Deposits (fun _ id _ => tree.Reaches tree.root id) tree given
      (tree.attributeComments options comments) := by
  obtain ⟨⟨htaken, hfirst⟩, given, hgiven, hsecond⟩ :=
    attributeComments_runs hbase hroot hfree options comments
  have hroots := hfirst.mono (Q := fun _ id _ => tree.Reaches tree.root id) fun _ _ id slot h => by
    rw [h.1]
    exact .refl
  exact ⟨_, (hgiven.append_left _).trans htaken,
    hroots.trans (hsecond.mono fun _ _ id slot h => h.reaches)⟩

/-- The nodes of the tree hold the comments that it is given. -/
theorem attributeComments_perm (hbase : tree.IsBottomUp) (hroot : tree.root < tree.size)
    (hfree : tree.comments = []) (options : MergeOptions) (comments : List Comment) :
    (tree.attributeComments options comments).comments.Perm comments := by
  obtain ⟨given, hgiven, hrun⟩ := attributeComments_deposits hbase hroot hfree options comments
  have hperm := hrun.comments_perm
  rw [hfree, List.nil_append] at hperm
  exact hperm.trans hgiven

/-- **Conservation.**  The reachable nodes hold every comment once, and nothing else changes. -/
theorem attributeComments_conserves (hbase : tree.IsBottomUp) (hroot : tree.root < tree.size)
    (hfree : tree.comments = []) (options : MergeOptions) (comments : List Comment) :
    tree.Conserves (tree.attributeComments options comments) comments := by
  have hall := attributeComments_perm hbase hroot hfree options comments
  obtain ⟨_, _, hrun⟩ := attributeComments_deposits hbase hroot hfree options comments
  have hshape := hrun.sameShape
  refine ⟨?_, hshape.root_eq, hshape.size_eq, hshape.kind_eq, hshape.span_eq, hshape.extent_eq,
    hshape.unannotatedBegin_eq⟩
  -- the reachable nodes are those of all numbers that can be reached, each once
  classical
  refine ⟨(List.range tree.size).filter fun id => decide (tree.Reaches tree.root id),
    List.Pairwise.filter _ List.nodup_range, fun id => ?_, ?_⟩
  · rw [List.mem_filter, List.mem_range, decide_eq_true_eq, hshape.root_eq]
    constructor
    · exact fun h => hshape.symm.reaches h.2
    · intro h
      have hreaches := hshape.reaches h
      exact ⟨Nat.lt_of_le_of_lt (hreaches.le hbase) hroot, hreaches⟩
  -- a node that cannot be reached holds nothing, so that it may be left out
  · rw [flatMap_filter_eq, ← hshape.size_eq, ← comments_eq_flatMap]
    · exact hall
    · intro id _ hunreached
      refine List.eq_nil_iff_forall_not_mem.2 fun comment hmem => ?_
      obtain ⟨slot, hholds⟩ := holds_of_mem_comments hmem
      -- what it holds was there before, or was put at a node that can be reached
      rcases hrun.holds hholds with hheld | hreaches
      · exact not_holds hfree hheld
      · exact of_decide_eq_false hunreached hreaches

end Tree

/-! ### Parsed trees -/

theorem Tree.IsParsed.isBottomUp {source : Source} {body : List Token} {tree : Tree}
    (h : tree.IsParsed source body) : tree.IsBottomUp := by
  intro id child hchild
  by_cases hid : id < tree.size
  · exact (h.isSound hid).children_lt child hchild
  · have hnone : tree.nodes[id]? = none := Array.getElem?_eq_none (Nat.not_lt.1 hid)
    rw [Tree.children, Tree.kind, Tree.node, Tree.node?, hnone] at hchild
    cases hchild

theorem Tree.IsParsed.root_lt {source : Source} {body : List Token} {tree : Tree}
    (h : tree.IsParsed source body) : tree.root < tree.size :=
  Nat.lt_of_succ_le (Nat.le_of_eq h.root_last)

theorem Tree.IsParsed.comments_eq_nil {source : Source} {body : List Token} {tree : Tree}
    (h : tree.IsParsed source body) : tree.comments = [] := by
  rw [Tree.comments_eq_flatMap, List.flatMap_eq_nil_iff]
  intro id hid
  exact (h.isSound (List.mem_range.1 hid)).comments_eq

/-- **No comment is lost, doubled or overwritten.**  This holds for the tree of every text from
    every entry point, and for every list of comments and every tree without comments in which
    children come before their parents. -/
theorem comments_conserved :
    (∀ source entry options tree, Source.parseWithComments source entry options = .ok tree →
      ∃ parsed, source.parse entry = .ok parsed ∧ parsed.Conserves tree source.comments)
    ∧ ∀ (tree : Tree) options comments, tree.IsBottomUp → tree.root < tree.size →
      tree.comments = [] → tree.Conserves (tree.attributeComments options comments) comments := by
  refine ⟨fun source entry options tree h => ?_, fun tree options comments hbase hroot hfree =>
    Tree.attributeComments_conserves hbase hroot hfree options comments⟩
  unfold Source.parseWithComments at h
  cases hparse : source.parse entry with
  | error error =>
    rw [hparse] at h
    cases h
  | ok parsed =>
    rw [hparse] at h
    cases h
    obtain ⟨body, _, _, hparsed⟩ := Source.parse_eq_ok hparse
    exact ⟨parsed, rfl, Tree.attributeComments_conserves hparsed.isBottomUp hparsed.root_lt
      hparsed.comments_eq_nil options source.comments⟩

/-- A block with one empty statement. -/
def Tree.smallBlock : Tree :=
  { source := .ofText "\x7b;\x7d",
    nodes := #[{ kind := .emptyStmt, span := ⟨1, 2⟩, extent := ⟨⟨1, 2⟩, ⟨1, 2⟩⟩ },
      { kind := .block [0], span := ⟨0, 3⟩, extent := ⟨⟨1, 1⟩, ⟨1, 3⟩⟩ }],
    root := 1 }

theorem Tree.smallBlock_isBottomUp : smallBlock.IsBottomUp := by
  intro id child hchild
  match id with
  | 0 => cases hchild
  | 1 =>
    have hone : child ∈ [0] := hchild
    rw [List.mem_singleton.1 hone]
    exact Nat.zero_lt_one
  | id + 2 =>
    have hnone : smallBlock.nodes[id + 2]? = none := rfl
    rw [Tree.children, Tree.kind, Tree.node, Tree.node?, hnone] at hchild
    cases hchild

/-- A comment in front of a name that was parsed, and two at the same place in a block that was
    not. -/
theorem comments_conserved_name_block :
    (∃ tree, (Source.ofText "/* a */ x").parseWithComments .expression {} = .ok tree
      ∧ ∃ parsed, (Source.ofText "/* a */ x").parse .expression = .ok parsed
        ∧ parsed.Conserves tree (Source.ofText "/* a */ x").comments)
    ∧ Tree.smallBlock.Conserves
      (Tree.smallBlock.attributeComments {}
        [⟨.line, "a", ⟨3, 6⟩, ⟨⟨1, 4⟩, ⟨1, 6⟩⟩⟩, ⟨.line, "a", ⟨3, 6⟩, ⟨⟨1, 4⟩, ⟨1, 6⟩⟩⟩])
      [⟨.line, "a", ⟨3, 6⟩, ⟨⟨1, 4⟩, ⟨1, 6⟩⟩⟩, ⟨.line, "a", ⟨3, 6⟩, ⟨⟨1, 4⟩, ⟨1, 6⟩⟩⟩] := by
  refine ⟨?_, comments_conserved.2 _ {} _ Tree.smallBlock_isBottomUp (by decide) rfl⟩
  obtain ⟨tree, h⟩ : ∃ tree,
      (Source.ofText "/* a */ x").parseWithComments .expression {} = .ok tree :=
    Source.exists_eq_ok (by decide +kernel)
  exact ⟨tree, h, comments_conserved.1 _ _ _ tree h⟩

/-- **Comments stand at their places.**  For a parsed tree: no child of its host encloses a comment;
    the root takes one comment or none; every other comment stands at one of its places; and nothing
    stands anywhere else. -/
theorem comments_placed (source : Source) (entry : EntryPoint) (tree : Tree)
    (h : source.parse entry = .ok tree) (options : MergeOptions) (comments : List Comment) :
    let (first, others) := tree.attachToRoot options (Tree.sortComments comments)
    let after := tree.attributeComments options comments
    (∀ comment, ∀ child ∈ tree.children (tree.host options comment tree.root),
      tree.encloses options child comment = false)
    ∧ ((first.node tree.root).comment.toList ++ others).Perm comments
    ∧ (∀ comment ∈ others, ∃ id slot, tree.IsPlace options tree.root comment id slot
      ∧ after.Holds id comment slot)
    ∧ ∀ id slot comment, after.Holds id comment slot →
      (id = tree.root ∧ slot = .attached ∧ (first.node tree.root).comment = some comment)
      ∨ tree.IsPlace options tree.root comment id slot := by
  obtain ⟨body, _, _, hparsed⟩ := Source.parse_eq_ok h
  have hfree := hparsed.comments_eq_nil
  obtain ⟨⟨htaken, hfirst⟩, given, hgiven, hsecond⟩ := Tree.attributeComments_runs
    hparsed.isBottomUp hparsed.root_lt hfree options comments
  refine ⟨fun comment => Tree.host_isInnermost hparsed.isBottomUp options comment tree.root, htaken,
    ?_, ?_⟩
  · intro comment hcomment
    exact hsecond.exists_holds (hgiven.mem_iff.2 hcomment)
  · intro id slot comment hholds
    rcases hsecond.holds hholds with hholds | hplace
    -- what was not put on the way down stands at the root since the first step
    · rcases hfirst.holds hholds with hbefore | ⟨rfl, rfl⟩
      · exact absurd hbefore (Tree.not_holds hfree)
      · exact .inl ⟨rfl, rfl, hholds⟩
    · exact .inr hplace

/-- A comment between two arguments stands at the call or at the argument after it. -/
theorem comments_placed_call :
    ∃ tree, (Source.ofText "f(x, /* a */ y)").parse .expression = .ok tree
      ∧ ∀ comment ∈ (tree.attachToRoot {}
        (Tree.sortComments (Source.ofText "f(x, /* a */ y)").comments)).2,
        ∃ id slot, tree.IsPlace {} tree.root comment id slot
          ∧ (tree.attributeComments {} (Source.ofText "f(x, /* a */ y)").comments).Holds id comment
            slot := by
  obtain ⟨tree, h⟩ : ∃ tree, (Source.ofText "f(x, /* a */ y)").parse .expression = .ok tree :=
    Source.exists_eq_ok (by decide +kernel)
  exact ⟨tree, h, (comments_placed _ _ tree h {} _).2.2.1⟩

end CodeMarkup
