import CodeMarkup.Attribution
import CodeMarkup.Proofs.Spans
import Mathlib.Data.List.Pairwise

namespace CodeMarkup

/-!
# Children of one node

The merge of comments takes for granted that a comment lies inside at most one child of a node.
This holds if the children of a node are apart: each stops before the next one starts.

* `Tree.ReachesOver`: the one form whose children are not apart.  Dimensions after the parameters of
  a method wrap its type, which stands in front of them.
* `Source.parse_siblings_apart`: in a parsed tree two children of a node are apart exactly if they
  are not a type and a parameter of this kind, and no others can both contain a comment.
-/

variable {source : Source} {tree : Tree} {id : NodeId}

/-- The type of a method that reaches over one of its parameters.  What it is made of stops before
    the parameter starts, and its dimensions come after the parameter. -/
def Tree.ReachesOver (tree : Tree) (id type param : NodeId) : Prop :=
  ∃ annotations keywords typeParams name params thrown body base,
    tree.kind id = .methodDeclaration annotations keywords typeParams type name params thrown body
      ∧ param ∈ params ∧ base ≠ type ∧ Wrapped tree.nodes base type
      ∧ (tree.span base).stop ≤ (tree.span param).start
      ∧ (tree.span param).stop < (tree.span type).stop

/-- The children of a method are apart, but for its type and its parameters. -/
theorem Tree.methodDeclaration_apart_or {annotations typeParams params thrown : List NodeId}
    {keywords : List Keyword} {type : NodeId} {name : String} {body : Option NodeId}
    (hkind : tree.kind id
      = .methodDeclaration annotations keywords typeParams type name params thrown body)
    (h : (tree.kind id).IsSpaced tree.nodes) :
    (tree.children id).Pairwise fun a b =>
      (tree.span a).stop ≤ (tree.span b).start ∨ tree.ReachesOver id a b := by
  have hchildren : tree.children id
      = (annotations ++ typeParams) ++ type :: (params ++ (thrown ++ body.toList)) := by
    rw [Tree.children, hkind]
    simp [NodeKind.children]
  rw [hkind] at h
  obtain ⟨htype, base, hover, hbase⟩ := h
  obtain ⟨hfront, hlater, hcross⟩ := List.pairwise_append.1 hbase
  obtain ⟨hparams, hlater⟩ := List.pairwise_cons.1 hlater
  obtain ⟨-, htype, hbefore⟩ := List.pairwise_append.1 htype
  rw [hchildren]
  refine List.pairwise_append.2 ⟨hfront.imp .inl, List.pairwise_cons.2 ⟨fun b hb => ?_,
    hlater.imp .inl⟩, fun a ha b hb => .inl ?_⟩
  -- the type, and what follows it
  · rcases List.mem_append.1 hb with hparam | hrest
    · have hstop := hparams b hb
      by_cases hsame : base = type
      · exact .inl (hsame ▸ hstop)
      · exact .inr ⟨annotations, keywords, typeParams, name, params, thrown, body, base, hkind,
          hparam, hsame, hover.wrapped, hstop, hover.stop_lt hsame b hparam⟩
    · exact .inl ((List.pairwise_cons.1 htype).1 b hrest)
  -- what stands in front of the type stands in front of everything else
  · rcases List.mem_cons.1 hb with rfl | hb
    · exact hbefore a ha b List.mem_cons_self
    · exact hcross a ha b (List.mem_cons_of_mem _ hb)

theorem Tree.children_apart_or (h : (tree.kind id).IsSpaced tree.nodes) :
    (tree.children id).Pairwise fun a b =>
      (tree.span a).stop ≤ (tree.span b).start ∨ tree.ReachesOver id a b := by
  cases hkind : tree.kind id with
  | methodDeclaration annotations keywords typeParams type name params thrown body =>
    exact Tree.methodDeclaration_apart_or hkind h
  | _ =>
    have hapart : AreApart tree.nodes (tree.kind id).children := by
      rw [hkind] at h ⊢
      exact h
    exact hapart.imp .inl

/-- Wherever a node begins under the options, that is not before its first token. -/
theorem Node.IsSound.first_le_beginOf (h : (tree.node id).IsSound source tree.nodes id)
    (options : MergeOptions) : (tree.node id).extent.first ≤ tree.beginOf options id := by
  unfold Tree.beginOf
  dsimp only
  split
  · exact Position.le_refl _
  · exact h.begin_le

/-- Of two nodes that are apart, only one contains a comment. -/
theorem Tree.IsParsed.not_encloses_both {body : List Token} (h : tree.IsParsed source body)
    {a b : NodeId} (ha : a < tree.size) (hb : b < tree.size)
    (hstart : (tree.span a).start < (tree.span b).start)
    (hstop : (tree.span a).stop ≤ (tree.span b).start) {options : MergeOptions}
    {comment : Comment} (hcomment : comment.extent.first ≤ comment.extent.last)
    (hinside : tree.encloses options a comment = true) :
    ¬tree.encloses options b comment = true := by
  intro hinside'
  unfold Tree.encloses at hinside hinside'
  rw [Bool.and_eq_true, decide_eq_true_eq, decide_eq_true_eq] at hinside hinside'
  have hnode := h.isSound ha
  have hnode' := h.isSound hb
  -- the comment would end before `b` begins, and begin after that
  have hlast : (tree.node a).extent.last < (tree.node b).extent.first := by
    rw [hnode.extent_eq, hnode'.extent_eq, Source.extent_first]
    exact Source.extent_last_lt hnode.hasSpan hstart hstop hnode'.hasSpan.start_boundary.le_size
  refine Position.lt_irrefl comment.extent.last ?_
  calc comment.extent.last ≤ (tree.node a).extent.last := hinside.2
    _ < (tree.node b).extent.first := hlast
    _ ≤ tree.beginOf options b := hnode'.first_le_beginOf options
    _ ≤ comment.extent.first := hinside'.1
    _ ≤ comment.extent.last := hcomment

/-- **Children are apart, but for one form.**  In the tree of every parse that succeeds, a child of
    a node stops before a later one starts, exactly if the two are not the type of a method with
    dimensions after its parameters and one of these parameters; and whatever the options are, no
    two children can contain the same comment but such a type and such a parameter. -/
theorem Source.parse_siblings_apart (source : Source) (entry : EntryPoint) (tree : Tree)
    (h : source.parse entry = .ok tree) (id : NodeId) (hid : id < tree.size) :
    ((tree.children id).Pairwise fun a b =>
      (tree.span a).stop ≤ (tree.span b).start ↔ ¬tree.ReachesOver id a b)
    ∧ ∀ (options : MergeOptions) (comment : Comment) (a b : NodeId),
      comment.extent.first ≤ comment.extent.last → a ∈ tree.children id → b ∈ tree.children id →
      a ≠ b → tree.encloses options a comment = true → tree.encloses options b comment = true →
      tree.ReachesOver id a b ∨ tree.ReachesOver id b a := by
  obtain ⟨body, -, -, hparsed⟩ := Source.parse_eq_ok h
  have hnode := hparsed.isSound hid
  have hsize : ∀ child ∈ tree.children id, child < tree.size :=
    fun child hchild => hparsed.child_lt_size hid hchild
  have hpairs := hnode.children_increasing.and (Tree.children_apart_or hnode.spaced)
  refine ⟨hpairs.imp_of_mem fun {a b} _ hb hpair => ⟨?_, hpair.2.resolve_right⟩, ?_⟩
  · -- a type that reaches over a parameter does not stop before it
    rintro hapart ⟨-, -, -, -, -, -, -, -, -, -, -, -, -, hover⟩
    have hle := (hparsed.isSound (hsize b hb)).hasSpan.start_le
    exact Nat.not_lt.2 (Nat.le_trans hapart hle) hover
  · intro options comment a b hcomment ha hb hne hinside hinside'
    have hshares : (tree.children id).Pairwise fun a b =>
        tree.encloses options a comment = true → tree.encloses options b comment = true →
        tree.ReachesOver id a b ∨ tree.ReachesOver id b a := by
      refine hpairs.imp_of_mem fun {a b} ha hb ⟨hstart, hor⟩ hinside hinside' => ?_
      rcases hor with hstop | hover
      · exact absurd hinside' (hparsed.not_encloses_both (hsize a ha) (hsize b hb) hstart hstop
          hcomment hinside)
      · exact .inl hover
    -- it does not matter which of the two comes first
    have : Std.Symm fun a b => tree.encloses options a comment = true →
        tree.encloses options b comment = true →
        tree.ReachesOver id a b ∨ tree.ReachesOver id b a :=
      ⟨fun _ _ hab hb ha => (hab ha hb).symm⟩
    exact hshares.forall ha hb hne hinside hinside'

/-- The brackets at the end wrap the type at the front around the parameter. -/
theorem parse_siblings_apart_dims :
    ∃ tree, (Source.ofText "int f(int a)[];").parse .bodyDeclaration = .ok tree
      ∧ tree.children 4 = [3, 2] ∧ tree.span 3 = ⟨0, 14⟩ ∧ tree.span 2 = ⟨6, 11⟩
      ∧ tree.ReachesOver 4 3 2 := by
  obtain ⟨tree, h, hsize, hchildren, htype, hparam⟩ : ∃ tree,
      (Source.ofText "int f(int a)[];").parse .bodyDeclaration = .ok tree
        ∧ 4 < tree.size ∧ tree.children 4 = [3, 2]
        ∧ tree.span 3 = ⟨0, 14⟩ ∧ tree.span 2 = ⟨6, 11⟩ :=
    Source.exists_eq_ok_and (by decide +kernel)
  refine ⟨tree, h, hchildren, htype, hparam, ?_⟩
  have hpairs := (Source.parse_siblings_apart _ _ tree h 4 hsize).1
  rw [hchildren] at hpairs
  have hpair := (List.pairwise_cons.1 hpairs).1 2 (List.mem_singleton_self _)
  by_contra hnot
  have hapart := hpair.2 hnot
  rw [htype, hparam] at hapart
  exact absurd hapart (by decide)

end CodeMarkup
