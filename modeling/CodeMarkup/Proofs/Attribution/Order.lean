import CodeMarkup.Proofs.Attribution.Policy
import Mathlib.Data.List.Pairwise

namespace CodeMarkup

/-!
# The order of comments

Comments may be given to a tree in any order, as long as no two of them begin at the same position:
they are sorted first, and no step after that depends on anything else.

* `Tree.sortComments_eq_of_perm`: sorting forgets the order in which comments come.
* `Source.comments_increasing`: the comments of a text begin one after another.
* `Tree.settle_orphans`: the merge at one node adds orphans to this node alone, in order.
* `Tree.place_ordersOrphans`: the merge below a node leaves all orphans there in order, because it
  settles each node once.
* `attribution_ignores_order`: so it is for parsed trees.
-/

/-- Comments no two of which begin at the same position. -/
def AreDistinct (comments : List Comment) : Prop :=
  comments.Pairwise fun a b => a.extent.first ≠ b.extent.first

/-- Comments each of which begins before the next one. -/
def AreIncreasing (comments : List Comment) : Prop :=
  comments.Pairwise fun a b => a.extent.first < b.extent.first

variable {comments others : List Comment}

theorem AreIncreasing.areDistinct (h : AreIncreasing comments) : AreDistinct comments := by
  refine h.imp fun {a b} hlt heq => ?_
  rw [heq] at hlt
  exact Position.lt_irrefl _ hlt

theorem AreDistinct.perm (h : AreDistinct comments) (hperm : comments.Perm others) :
    AreDistinct others :=
  (hperm.pairwise_iff fun hne => hne.symm).1 h

/-- A comment is known by where it begins. -/
theorem AreDistinct.eq_of_first_eq (h : AreDistinct comments) {a b : Comment} (ha : a ∈ comments)
    (hb : b ∈ comments) (heq : a.extent.first = b.extent.first) : a = b := by
  have : Std.Symm fun a b : Comment => a.extent.first ≠ b.extent.first := ⟨fun _ _ hne => hne.symm⟩
  by_contra hne
  exact h.forall ha hb hne heq

/-- Comments in order that begin at different positions begin one after another. -/
theorem AreDistinct.areIncreasing (h : AreDistinct comments)
    (hsorted : comments.Pairwise fun a b => a.extent.first ≤ b.extent.first) :
    AreIncreasing comments :=
  (hsorted.and h).imp fun ⟨hle, hne⟩ => Position.lt_of_le_of_ne hle hne

/-! ### Sorting -/

/-- **Sorting forgets the order.** -/
theorem Tree.sortComments_eq_of_perm (h : AreDistinct comments) (hperm : comments.Perm others) :
    sortComments comments = sortComments others := by
  have hsorted : (sortComments comments).Perm (sortComments others) :=
    (List.mergeSort_perm comments _).trans (hperm.trans (List.mergeSort_perm others _).symm)
  refine List.Perm.eq_of_pairwise (fun a b ha hb hab hba => ?_)
    (pairwise_mergeSort_position (·.extent.first) comments)
    (pairwise_mergeSort_position (·.extent.first) others) hsorted
  -- both lists hold the same comments, and two that begin together are one
  have hb' : b ∈ comments := hperm.mem_iff.2 (List.mem_mergeSort.1 hb)
  exact h.eq_of_first_eq (List.mem_mergeSort.1 ha) hb' (Position.le_antisymm hab hba)

/-! ### The comments of a text -/

/-- From a boundary on, comments begin there or later, one after another. -/
theorem Source.commentsFrom_increasing (source : Source) (offset : Nat)
    (before text : List Char) (hchars : source.chars = before ++ text)
    (hoffset : byteLength before = offset) :
    AreIncreasing (source.commentsFrom offset text)
      ∧ ∀ comment ∈ source.commentsFrom offset text,
        source.position offset ≤ comment.extent.first := by
  induction hlength : text.length using Nat.strongRecOn generalizing offset text before with
  | _ length ih =>
    cases text with
    | nil =>
      rw [commentsFrom]
      exact ⟨.nil, by simp⟩
    | cons c text =>
      -- the stretch at the front ends at a boundary, where the others begin
      have happend := Stretch.scan_append c text
      have hlt := Stretch.length_scan_rest_lt c text
      have hpos : 0 < byteLength (Stretch.scan c text).text :=
        byteLength_pos (List.ne_nil_of_length_pos (Stretch.scan_text_pos c text))
      rw [← happend] at hchars
      have hboundary : source.IsBoundary offset := ⟨before, _, hchars, hoffset⟩
      rw [← List.append_assoc] at hchars
      have hstop : byteLength (before ++ (Stretch.scan c text).text)
          = offset + byteLength (Stretch.scan c text).text := by
        rw [byteLength_append, hoffset]
      have hnext : source.IsBoundary (offset + byteLength (Stretch.scan c text).text) :=
        ⟨_, _, hchars, hstop⟩
      obtain ⟨hlater, hfirst⟩ := ih _ (hlength ▸ hlt) _ _ _ hchars hstop rfl
      have hposition : source.position offset
          < source.position (offset + byteLength (Stretch.scan c text).text) :=
        hboundary.position_lt_position (by omega) hnext.le_size
      rw [commentsFrom]
      dsimp only
      split
      · exact ⟨hlater, fun comment hcomment =>
          Position.le_trans (Position.le_of_lt hposition) (hfirst comment hcomment)⟩
      · have hhere : (source.extent
            ⟨offset, offset + byteLength (Stretch.scan c text).text⟩).first
            = source.position offset := source.extent_first _
        refine ⟨List.pairwise_cons.2 ⟨fun comment hcomment => ?_, hlater⟩,
          List.forall_mem_cons.2 ⟨?_, fun comment hcomment => ?_⟩⟩
        · show (source.extent _).first < _
          rw [hhere]
          exact Position.lt_of_lt_of_le hposition (hfirst comment hcomment)
        · show _ ≤ (source.extent _).first
          rw [hhere]
          exact Position.le_refl _
        · exact Position.le_trans (Position.le_of_lt hposition) (hfirst comment hcomment)

theorem Source.comments_increasing (source : Source) : AreIncreasing source.comments :=
  (source.commentsFrom_increasing 0 [] source.chars rfl rfl).1

/-! ### Orphans -/

namespace Tree

variable {tree base : Tree} {options : MergeOptions} {id target : NodeId}

/-- The orphans of a node. -/
def orphansAt (tree : Tree) (id : NodeId) : List Comment :=
  (tree.node id).orphans

/-- A step that attaches comments and makes no orphan. -/
structure KeepsOrphans (before after : Tree) : Prop where
  sameShape : after.SameShape before
  orphansAt_eq : ∀ target, after.orphansAt target = before.orphansAt target

theorem KeepsOrphans.refl (tree : Tree) : tree.KeepsOrphans tree :=
  ⟨.refl tree, fun _ => rfl⟩

theorem KeepsOrphans.trans {a b c : Tree} (h : a.KeepsOrphans b) (h' : b.KeepsOrphans c) :
    a.KeepsOrphans c :=
  ⟨h'.sameShape.trans h.sameShape, fun target =>
    (h'.orphansAt_eq target).trans (h.orphansAt_eq target)⟩

theorem attach_keepsOrphans (tree : Tree) (id : NodeId) (comment : Comment) :
    tree.KeepsOrphans (tree.attach id comment) := by
  refine ⟨tree.sameShape_put id comment .attached, fun target => ?_⟩
  unfold orphansAt node node? attach
  rw [Array.getElem?_modify]
  split
  · cases tree.nodes[target]? <;> rfl
  · rfl

theorem attachTrailing_keepsOrphans (tree : Tree) (children : List NodeId)
    (comments : List Comment) :
    tree.KeepsOrphans (tree.attachTrailing children comments).1 := by
  induction comments generalizing tree with
  | nil => exact .refl tree
  | cons comment comments ih =>
    unfold attachTrailing
    split
    · exact (tree.attach_keepsOrphans _ _).trans (ih _)
    · exact ih tree

theorem attachPreceding_keepsOrphans (tree : Tree) (options : MergeOptions)
    (waiting : Option Comment) (items : List Item) :
    tree.KeepsOrphans (tree.attachPreceding options waiting items).1 := by
  induction items generalizing tree waiting with
  | nil => exact .refl tree
  | cons item items ih =>
    cases item with
    | pending pending => exact ih tree _
    | child child =>
      cases waiting with
      | none => exact ih tree none
      | some comment =>
        simp only [attachPreceding]
        split
        · exact (tree.attach_keepsOrphans _ _).trans (ih _ none)
        · exact ih tree (some comment)

theorem addOrphans_sameShape (tree : Tree) (id : NodeId) (comments : List Comment) :
    (tree.addOrphans id comments).SameShape tree :=
  tree.sameShape_modify _ fun _ => rfl

theorem addOrphans_orphansAt (hid : id < tree.size) (comments : List Comment) (target : NodeId) :
    (tree.addOrphans id comments).orphansAt target
      = if target = id then tree.orphansAt id ++ comments else tree.orphansAt target := by
  unfold orphansAt addOrphans
  rw [node_modify _ _ hid]
  split <;> rfl

/-- What no child takes is left in the order in which it waited. -/
theorem attachPreceding_sublist (tree : Tree) (options : MergeOptions) (waiting : Option Comment)
    (items : List Item) :
    (tree.attachPreceding options waiting items).2.Sublist (waiting.toList ++ waitingIn items) := by
  induction items generalizing tree waiting with
  | nil => exact List.sublist_append_left _ _
  | cons item items ih =>
    cases item with
    | pending pending =>
      obtain ⟨comment, isTaken⟩ := pending
      refine List.Sublist.append_left ?_ _
      refine (ih tree _).trans (List.Sublist.append_right ?_ _)
      cases isTaken <;> exact .refl _
    | child child =>
      cases waiting with
      | none => exact ih tree none
      | some comment =>
        simp only [attachPreceding]
        split
        · exact (ih _ none).trans (List.sublist_append_right _ _)
        · exact ih tree (some comment)

theorem waitingIn_sorted {items : List Item}
    (h : items.Pairwise fun a b => a.begin tree options ≤ b.begin tree options) :
    (waitingIn items).Pairwise fun a b => a.extent.first ≤ b.extent.first := by
  have hwaiting : ∀ item : Item, item.waiting = []
      ∨ ∃ comment, item.waiting = [comment] ∧ item.begin tree options = comment.extent.first := by
    intro item
    match item with
    | .child child => exact .inl rfl
    | .pending ⟨comment, true⟩ => exact .inl rfl
    | .pending ⟨comment, false⟩ => exact .inr ⟨comment, rfl, rfl⟩
  refine List.pairwise_flatMap.2 ⟨fun item _ => ?_, h.imp fun {a b} hle x hx y hy => ?_⟩
  · rcases hwaiting item with hnone | ⟨comment, hone, -⟩
    · rw [hnone]
      exact .nil
    · rw [hone]
      exact List.pairwise_singleton _ _
  -- a comment that waits begins where its item does
  · rcases hwaiting a with hnone | ⟨comment, hone, hbegin⟩
    · rw [hnone] at hx
      cases hx
    · rcases hwaiting b with hnone | ⟨comment', hone', hbegin'⟩
      · rw [hnone] at hy
        cases hy
      · rw [hone, List.mem_singleton] at hx
        rw [hone', List.mem_singleton] at hy
        rwa [hx, hy, ← hbegin, ← hbegin']

/-- **The merge at one node** adds orphans to this node alone, in the order in which they begin. -/
theorem settle_orphans (options : MergeOptions) (hid : id < tree.size) (children : List NodeId)
    (hdistinct : AreDistinct comments) :
    ∃ left, AreIncreasing left ∧ (tree.settle options id children comments).SameShape tree
      ∧ ∀ target, (tree.settle options id children comments).orphansAt target
        = if target = id then tree.orphansAt id ++ left else tree.orphansAt target := by
  unfold settle
  have hcomments := tree.attachTrailing_comments children comments
  have hkeeps := tree.attachTrailing_keepsOrphans children comments
  generalize tree.attachTrailing children comments = trailing at hcomments hkeeps
  obtain ⟨between, pending⟩ := trailing
  -- what waits for a child is in order, and so is what is left of it
  have hsublist : (withTaken false pending).Sublist comments := by
    rw [← hcomments]
    exact List.filter_sublist.map _
  have hwaiting : AreDistinct (waitingIn (between.itemsOf options children pending)) :=
    AreDistinct.perm (hdistinct.sublist hsublist)
      (between.waitingIn_itemsOf_perm options children pending).symm
  have hincreasing := hwaiting.areIncreasing
    (waitingIn_sorted (between.itemsOf_sorted options children pending))
  dsimp only
  have hleft := between.attachPreceding_sublist options none
    (between.itemsOf options children pending)
  replace hkeeps := hkeeps.trans (between.attachPreceding_keepsOrphans options none
    (between.itemsOf options children pending))
  refine ⟨_, List.Pairwise.sublist hleft hincreasing,
    (addOrphans_sameShape _ _ _).trans hkeeps.sameShape, fun target => ?_⟩
  rw [addOrphans_orphansAt (hkeeps.sameShape.size_eq ▸ hid), hkeeps.orphansAt_eq,
    hkeeps.orphansAt_eq]

/-- What a merge below some nodes does to orphans: there they are in order, and elsewhere nothing
    has changed. -/
structure OrdersOrphans (base : Tree) (Below : NodeId → Prop) (before after : Tree) : Prop where
  sameShape : after.SameShape base
  below : ∀ target, Below target → AreIncreasing (after.orphansAt target)
  elsewhere : ∀ target, ¬Below target → after.orphansAt target = before.orphansAt target

/-- One merge after another, below different nodes. -/
theorem OrdersOrphans.trans {A B : NodeId → Prop} {before between after : Tree}
    (h : base.OrdersOrphans A before between) (h' : base.OrdersOrphans B between after)
    (hapart : ∀ target, A target → ¬B target) :
    base.OrdersOrphans (fun target => A target ∨ B target) before after := by
  refine ⟨h'.sameShape, fun target hbelow => ?_, fun target hbelow => ?_⟩
  · rcases hbelow with hA | hB
    · rw [h'.elsewhere target (hapart target hA)]
      exact h.below target hA
    · exact h'.below target hB
  · obtain ⟨hA, hB⟩ := not_or.1 hbelow
    rw [h'.elsewhere target hB, h.elsewhere target hA]

/-- Comments that are handed down to the children of a node, one child after another.  No child
    leads to what is below another one, so the orphans there stay as they are. -/
theorem handDown_ordersOrphans
    (ih : ∀ child < id, ∀ comments, AreDistinct comments → ∀ tree : Tree, tree.SameShape base →
      (∀ target, base.Reaches child target → tree.orphansAt target = []) →
      base.OrdersOrphans (base.Reaches child) tree (tree.place options child comments))
    (todo : List { child : NodeId // child < id })
    (htodo : todo.Pairwise fun a b => ∀ target, base.Reaches a.val target →
      ¬base.Reaches b.val target)
    (hdistinct : AreDistinct comments) (htree : tree.SameShape base)
    (hfree : ∀ child ∈ todo, ∀ target, base.Reaches child.val target →
      tree.orphansAt target = []) :
    AreDistinct (todo.foldl (handDown options) (tree, comments)).2
      ∧ base.OrdersOrphans (fun target => ∃ child ∈ todo, base.Reaches child.val target) tree
        (todo.foldl (handDown options) (tree, comments)).1 := by
  induction todo generalizing tree comments with
  | nil => exact ⟨hdistinct, htree, by simp, fun _ _ => rfl⟩
  | cons child todo ihTodo =>
    obtain ⟨hfirst, hlater⟩ := List.forall_mem_cons.1 hfree
    obtain ⟨haway, htodo⟩ := List.pairwise_cons.1 htodo
    rw [List.foldl_cons, handDown, List.partition_eq_filter_filter]
    dsimp only
    have hchild := ih child.val child.property _
      (hdistinct.filter (tree.encloses options child.val)) tree htree hfirst
    obtain ⟨hleft, hrest⟩ := ihTodo htodo
      (hdistinct.filter (not ∘ tree.encloses options child.val)) hchild.sameShape
      fun other hother target hreaches => by
        rw [hchild.elsewhere target fun hfirst => haway other hother target hfirst hreaches]
        exact hlater other hother target hreaches
    refine ⟨hleft, ?_⟩
    have hboth := hchild.trans hrest <| by
      rintro target hfirst ⟨other, hother, hreaches⟩
      exact haway other hother target hfirst hreaches
    simpa only [List.exists_mem_cons_iff] using hboth

/-- **Each node is settled once.**  After the merge below a node without orphans, the orphans of
    all nodes there are in the order in which they begin. -/
theorem place_ordersOrphans (hbase : base.IsBottomUp) (hapart : base.IsApartBelow) (id : NodeId)
    (hid : id < base.size) (comments : List Comment) (hdistinct : AreDistinct comments)
    (tree : Tree) (htree : tree.SameShape base)
    (hfree : ∀ target, base.Reaches id target → tree.orphansAt target = []) :
    base.OrdersOrphans (base.Reaches id) tree (tree.place options id comments) := by
  induction id using Nat.strongRecOn generalizing comments tree with
  | _ id ih =>
    cases hempty : comments.isEmpty with
    | true =>
      rw [place, if_pos hempty]
      refine ⟨htree, fun target hreaches => ?_, fun _ _ => rfl⟩
      rw [hfree target hreaches]
      exact .nil
    | false =>
      rw [place_eq_settle _ _ _ _ hempty, htree.childrenByBegin_eq]
      have hchild : ∀ child ∈ base.childrenByBegin id, ∀ target, base.Reaches child.val target →
          base.Reaches id target := fun child hmem target hreaches =>
        Reaches.trans (.child .refl (mem_children_of_mem_byBegin hmem)) hreaches
      obtain ⟨hleft, hdown⟩ := handDown_ordersOrphans
        (fun child hlt comments hdistinct tree htree hfree =>
          ih child hlt (Nat.lt_trans hlt hid) comments hdistinct tree htree hfree)
        (base.childrenByBegin id) (hapart id) hdistinct htree
        fun child hmem target hreaches => hfree target (hchild child hmem target hreaches)
      generalize (base.childrenByBegin id).foldl (handDown options) (tree, comments) = state
        at hleft hdown
      obtain ⟨between, outside⟩ := state
      obtain ⟨left, hincreasing, hshape, horphans⟩ := settle_orphans options
        (hdown.sameShape.size_eq ▸ hid) ((base.childrenByBegin id).map (·.val)) hleft
      refine ⟨hshape.trans hdown.sameShape, fun target hreaches => ?_, fun target hnot => ?_⟩
      · rw [horphans]
        split
        -- no child leads back to the node, so it had no orphans until now
        · have hself : ¬∃ child ∈ base.childrenByBegin id, base.Reaches child.val id := by
            rintro ⟨child, -, hback⟩
            exact Nat.not_lt.2 (hback.le hbase) child.property
          rw [hdown.elsewhere id hself, hfree id .refl, List.nil_append]
          exact hincreasing
        · next hne =>
          obtain ⟨child, hmem, hreaches⟩ := hreaches.child_or_eq.resolve_right hne
          exact hdown.below target ⟨_, hbase.mem_byBegin hmem, hreaches⟩
      · have hne : target ≠ id := by
          rintro rfl
          exact hnot .refl
        rw [horphans, if_neg hne]
        refine hdown.elsewhere target ?_
        rintro ⟨child, hmem, hreaches⟩
        exact hnot (hchild child hmem target hreaches)

/-! ### The whole merge -/

theorem attributeComments_orphansAt (hbase : tree.IsBottomUp) (hapart : tree.IsApartBelow)
    (hroot : tree.root < tree.size) (hfree : tree.comments = []) (options : MergeOptions)
    (hdistinct : AreDistinct comments) (id : NodeId) :
    AreIncreasing ((tree.attributeComments options comments).orphansAt id) := by
  obtain ⟨⟨hperm, hfirst⟩, -⟩ := attributeComments_runs hbase hroot hfree options comments
  have hshape := hfirst.sameShape
  rw [attributeComments_eq, hshape.root_eq]
  generalize tree.attachToRoot options (sortComments comments) = result at hperm hfirst hshape
  obtain ⟨first, others⟩ := result
  -- the root may have taken a comment, but nothing is orphaned yet
  have hnone : ∀ target, first.orphansAt target = [] := by
    intro target
    refine List.eq_nil_iff_forall_not_mem.2 fun comment hmem => ?_
    have hholds : first.Holds target comment .orphaned := hmem
    rcases hfirst.holds hholds with hbefore | ⟨-, hslot⟩
    · exact not_holds hfree hbefore
    · cases hslot
  have hothers : AreDistinct others :=
    (hdistinct.perm hperm.symm).sublist (List.sublist_append_right _ _)
  have horders : tree.OrdersOrphans (tree.Reaches tree.root) first
      (first.place options tree.root others) :=
    place_ordersOrphans hbase hapart tree.root hroot others hothers first hshape
      fun target _ => hnone target
  by_cases hreaches : tree.Reaches tree.root id
  · exact horders.below id hreaches
  · rw [horders.elsewhere id hreaches, hnone id]
    exact .nil

end Tree

/-- **Attribution ignores the order of its input.**  For a parsed tree, whatever the options are:
    comments that begin at different positions lead to the same tree in every order, and in this
    tree the orphans of every node begin one after another.  The comments of a text are of this
    kind. -/
theorem attribution_ignores_order (source : Source) (entry : EntryPoint) (tree : Tree)
    (h : source.parse entry = .ok tree) (options : MergeOptions) :
    (∀ comments others : List Comment, comments.Perm others → AreDistinct comments →
      tree.attributeComments options comments = tree.attributeComments options others)
    ∧ (∀ (comments : List Comment) (id : NodeId), AreDistinct comments →
      AreIncreasing ((tree.attributeComments options comments).node id).orphans)
    ∧ AreDistinct source.comments := by
  obtain ⟨body, -, -, hparsed⟩ := Source.parse_eq_ok h
  refine ⟨fun comments others hperm hdistinct => ?_, fun comments id hdistinct => ?_,
    source.comments_increasing.areDistinct⟩
  · unfold Tree.attributeComments
    rw [Tree.sortComments_eq_of_perm hdistinct hperm]
  · exact Tree.attributeComments_orphansAt hparsed.isBottomUp hparsed.isApartBelow hparsed.root_lt
      hparsed.comments_eq_nil options hdistinct id

/-- Two comments in an empty block, the later one first: both are orphans of the block. -/
theorem attribution_ignores_order_block :
    ∃ tree, (Source.ofText "\x7b /* a */ /* b */ \x7d").parse .block = .ok tree
      ∧ tree.attributeComments {} (Source.ofText "\x7b /* a */ /* b */ \x7d").comments.reverse
        = tree.attributeComments {} (Source.ofText "\x7b /* a */ /* b */ \x7d").comments
      ∧ AreIncreasing ((tree.attributeComments {}
        (Source.ofText "\x7b /* a */ /* b */ \x7d").comments.reverse).node tree.root).orphans := by
  obtain ⟨tree, h⟩ : ∃ tree,
      (Source.ofText "\x7b /* a */ /* b */ \x7d").parse .block = .ok tree :=
    Source.exists_eq_ok (by decide +kernel)
  obtain ⟨hsame, horphans, hdistinct⟩ := attribution_ignores_order _ _ tree h {}
  have hreverse := hdistinct.perm (List.reverse_perm _).symm
  exact ⟨tree, h, hsame _ _ (List.reverse_perm _) hreverse, horphans _ _ hreverse⟩

end CodeMarkup
