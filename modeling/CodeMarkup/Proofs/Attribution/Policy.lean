import CodeMarkup.Proofs.Attribution.Merge
import CodeMarkup.Proofs.Reachability

namespace CodeMarkup

/-!
# The policy of attribution

Which comments a node may take, and which may be left over.  Whatever is attached stays attached,
so what can be said of the tree when an orphan is left at a node can be said of the tree at the end.

* `Tree.IsNear`: the comments that a node may take under the rule for blank lines.
* `Tree.IsOnLine`: the nodes that a line comment at a node may go to.
* `Tree.row`: the children of a node and the comments that stop there, in the order in which they
  begin.
* `Tree.Obeys`: what attribution promises of attached comments and of orphans.
* `Tree.settle_obeys`, `Tree.place_obeys`: the merge at one node keeps the promise, and so does the
  merge of the whole tree.
* `attribution_exact`: so it is for parsed trees and the comments of their texts.
-/

/-- What a node holds stays there in a run. -/
theorem Deposits.holds_of_holds {P : Comment → NodeId → Tree.Slot → Prop} {tree after : Tree}
    {comments : List Comment} {id : NodeId} {comment : Comment} {slot : Tree.Slot}
    (h : Deposits P tree comments after) (hholds : tree.Holds id comment slot) :
    after.Holds id comment slot := by
  induction h with
  | nil => exact hholds
  | put _ hid hfree _ ih => exact (Tree.holds_put hid hfree _ _ _).2 (.inl ih)

namespace Tree

variable {tree base after : Tree} {options : MergeOptions} {id child target : NodeId}
  {comment : Comment} {comments : List Comment}

/-- Whether a node has a comment. -/
def HasComment (tree : Tree) (id : NodeId) : Prop :=
  ∃ comment, tree.Holds id comment .attached

theorem hasComment_iff : tree.HasComment id ↔ (tree.node id).comment ≠ none := by
  rw [Option.ne_none_iff_exists']
  rfl

theorem SameShape.isApart_eq (h : tree.SameShape base) (comment : Comment) (id : NodeId) :
    tree.isApart comment id = base.isApart comment id := by
  rw [isApart, isApart, h.extent_eq]

/-- Whether a file is read: the root of such a tree takes a comment across any number of lines. -/
def IsUnit (tree : Tree) : Prop :=
  ∃ package imports types, tree.kind tree.root = .compilationUnit package imports types

/-- Whether a node may take a comment: no line lies between them, or that does not matter, or the
    node begins on the line of the comment. -/
def IsNear (tree : Tree) (options : MergeOptions) (comment : Comment) (id : NodeId) : Prop :=
  options.acrossBlankLines = true ∨ tree.isApart comment id = false
    ∨ (tree.node id).extent.first.line = comment.extent.first.line

/-- The nodes that a line comment may go to that stops at a node: those on its line, of the children
    that end there. -/
def IsOnLine (tree : Tree) (id : NodeId) (comment : Comment) (target : NodeId) : Prop :=
  comment.kind = .line ∧ ∃ child ∈ tree.children id,
    (tree.node child).extent.last.line = comment.extent.first.line ∧ tree.Reaches child target
    ∧ (tree.node target).extent.first.line = comment.extent.first.line

/-! ### Line comments after a child -/

/-- A line comment finds no node only where all have comments. -/
theorem lineTarget?_eq_none {line : Nat} (hbase : tree.IsBottomUp)
    (h : tree.lineTarget? line id = none) (hreaches : tree.Reaches id target)
    (hline : (tree.node target).extent.first.line = line) : tree.HasComment target := by
  induction id using Nat.strongRecOn with
  | _ id ih =>
    rw [lineTarget?] at h
    split at h
    · cases h
    · next hhere =>
      rcases hreaches.child_or_eq with ⟨child, hchild, hreaches⟩ | rfl
      · have hnone := List.findSome?_eq_none_iff.1 h _
          (List.mem_reverse.2 (hbase.mem_byBegin hchild))
        exact ih child (hbase id child hchild) hnone hreaches
      · rw [hasComment_iff]
        intro hnone
        exact hhere (by rw [hline, hnone]; simp)

/-- A line comment that no node takes finds none without a comment. -/
theorem hasComment_of_trailingTarget? {children : List NodeId} (hbase : base.IsBottomUp)
    (hchildren : ∀ child ∈ base.children id, child ∈ children) (htree : tree.SameShape base)
    (h : tree.trailingTarget? children comment = none) (htarget : base.IsOnLine id comment target) :
    tree.HasComment target := by
  obtain ⟨hkind, child, hchild, hends, hreaches, hbegins⟩ := htarget
  have htreeBase : tree.IsBottomUp := fun id child hmem =>
    hbase id child (htree.children_eq id ▸ hmem)
  rw [trailingTarget?, if_pos hkind, List.findSome?_eq_none_iff] at h
  rw [← htree.extent_eq] at hends hbegins
  exact lineTarget?_eq_none htreeBase
    (h child (List.mem_filter.2 ⟨hchildren child hchild, decide_eq_true hends⟩))
    (htree.symm.reaches hreaches) hbegins

/-- The node that takes a line comment is one of those on its line, and has no comment yet. -/
theorem trailingTarget?_isOnLine {children : List NodeId} (hbase : base.IsBottomUp)
    (hid : id < base.size) (hchildren : ∀ child ∈ children, child ∈ base.children id)
    (htree : tree.SameShape base) (h : tree.trailingTarget? children comment = some target) :
    target < tree.size ∧ tree.IsFree target .attached ∧ base.IsOnLine id comment target := by
  obtain ⟨hkind, child, hchild, hends, hfound⟩ := trailingTarget?_spec h
  obtain ⟨hreaches, hbegins, hfree⟩ := lineTarget?_spec hfound
  replace hreaches := htree.reaches hreaches
  rw [htree.extent_eq] at hends hbegins
  have hlt := hbase id child (hchildren child hchild)
  exact ⟨htree.size_eq ▸ Nat.lt_of_le_of_lt (hreaches.le hbase) (Nat.lt_trans hlt hid), hfree,
    hkind, child, hchildren child hchild, hends, hreaches, hbegins⟩

/-- A comment is attached under the rule for blank lines. -/
def Allows (tree : Tree) (options : MergeOptions) (comment : Comment) (id : NodeId) : Slot → Prop
  | .attached => tree.IsNear options comment id
  | .orphaned => False

/-- The line comments after the children of a node: each that is left finds all nodes on its line
    with comments. -/
theorem attachTrailing_allows (options : MergeOptions) (hbase : base.IsBottomUp)
    (hid : id < base.size) {children : List NodeId}
    (hchildren : ∀ child, child ∈ children ↔ child ∈ base.children id)
    (comments : List Comment) (htree : tree.SameShape base) :
    (∃ given, Deposits (base.Allows options) tree given (tree.attachTrailing children comments).1)
      ∧ ∀ comment, ⟨comment, false⟩ ∈ (tree.attachTrailing children comments).2 →
        ∀ target, base.IsOnLine id comment target →
          (tree.attachTrailing children comments).1.HasComment target := by
  induction comments generalizing tree with
  | nil => exact ⟨⟨[], .nil⟩, nofun⟩
  | cons comment comments ih =>
    unfold attachTrailing
    split
    · next found hfound =>
      obtain ⟨hlt, hfree, -, _, -, -, -, hbegins⟩ :=
        trailingTarget?_isOnLine hbase hid (fun child => (hchildren child).1) htree hfound
      have hput : Deposits (base.Allows options) tree [comment] (tree.attach found comment) :=
        .single hlt hfree (.inr (.inr hbegins))
      obtain ⟨⟨given, hgiven⟩, hleft⟩ := ih (hput.sameShape.trans htree)
      refine ⟨⟨_, hput.trans hgiven⟩, fun other hother => hleft other ?_⟩
      simpa using hother
    · next hnone =>
      obtain ⟨⟨given, hgiven⟩, hleft⟩ := ih htree
      refine ⟨⟨given, hgiven⟩, fun other hother target htarget => ?_⟩
      rcases List.mem_cons.1 hother with heq | hother
      · -- this comment finds none now, and what the nodes have stays
        cases heq
        obtain ⟨held, hheld⟩ := hasComment_of_trailingTarget? hbase
          (fun child => (hchildren child).2) htree hnone htarget
        exact ⟨held, hgiven.holds_of_holds hheld⟩
      · exact hleft other hother target htarget

theorem attachTrailing_comments (tree : Tree) (children : List NodeId) (comments : List Comment) :
    (tree.attachTrailing children comments).2.map Pending.comment = comments := by
  induction comments generalizing tree with
  | nil => rfl
  | cons comment comments ih =>
    unfold attachTrailing
    split
    · exact congrArg (comment :: ·) (ih _)
    · exact congrArg (comment :: ·) (ih _)

/-- A comment is not taken where all nodes on its line have comments. -/
theorem not_mem_attachTrailing (hbase : base.IsBottomUp) (hid : id < base.size)
    {children : List NodeId} (hchildren : ∀ child ∈ children, child ∈ base.children id)
    (comments : List Comment) (htree : tree.SameShape base)
    (hline : ∀ target, base.IsOnLine id comment target → tree.HasComment target) :
    ⟨comment, true⟩ ∉ (tree.attachTrailing children comments).2 := by
  induction comments generalizing tree with
  | nil => exact List.not_mem_nil
  | cons other comments ih =>
    unfold attachTrailing
    split
    · next found hfound =>
      obtain ⟨hlt, hfree, honLine⟩ := trailingTarget?_isOnLine hbase hid hchildren htree hfound
      refine List.not_mem_cons_of_ne_of_not_mem ?_ (ih ?_ fun target htarget => ?_)
      · rintro ⟨⟩
        exact hasComment_iff.1 (hline found honLine) hfree
      · exact (tree.sameShape_put found other .attached).trans htree
      · obtain ⟨held, hheld⟩ := hline target htarget
        exact ⟨held, (holds_put hlt hfree _ _ _).2 (.inl hheld)⟩
    · exact List.not_mem_cons_of_ne_of_not_mem nofun (ih htree hline)

/-- Of comments that are the same, the first are taken: where one finds no node, a later one finds
    none either. -/
theorem attachTrailing_pairwise (hbase : base.IsBottomUp) (hid : id < base.size)
    {children : List NodeId} (hchildren : ∀ child, child ∈ children ↔ child ∈ base.children id)
    (comments : List Comment) (htree : tree.SameShape base) :
    (tree.attachTrailing children comments).2.Pairwise fun a b =>
      a.comment = b.comment → b.isTaken = true → a.isTaken = true := by
  induction comments generalizing tree with
  | nil => exact .nil
  | cons comment comments ih =>
    unfold attachTrailing
    split
    · next found hfound =>
      refine List.pairwise_cons.2 ⟨fun _ _ _ _ => rfl, ?_⟩
      exact ih ((tree.sameShape_put found comment .attached).trans htree)
    · next hnone =>
      refine List.pairwise_cons.2 ⟨?_, ih htree⟩
      rintro ⟨other, isTaken⟩ hother rfl rfl
      refine absurd hother (not_mem_attachTrailing hbase hid (fun child => (hchildren child).1)
        comments htree fun target htarget => ?_)
      exact hasComment_of_trailingTarget? hbase (fun child => (hchildren child).2) htree hnone
        htarget

/-! ### Comments before a child -/

/-- What a child says that does not take the comment before it. -/
theorem takesComment_eq_false (htree : tree.SameShape base)
    (h : ¬ tree.takesComment options id comment = true) :
    tree.HasComment id ∨ (options.acrossBlankLines = false ∧ base.isApart comment id = true) := by
  rw [takesComment, htree.isApart_eq] at h
  by_cases hfree : (tree.node id).comment = none
  · simp only [hfree, Option.isNone_none, Bool.true_and, Bool.or_eq_true, not_or,
      Bool.not_eq_true, Bool.not_eq_false'] at h
    exact .inr h
  · exact .inl (hasComment_iff.2 hfree)

/-- A child that takes the comment before it is free, and near enough. -/
theorem takesComment_allows (htree : tree.SameShape base)
    (h : tree.takesComment options id comment = true) :
    tree.IsFree id .attached ∧ base.Allows options comment id .attached := by
  rw [takesComment, htree.isApart_eq, Bool.and_eq_true, Bool.or_eq_true, Option.isNone_iff_eq_none,
    Bool.not_eq_true'] at h
  obtain ⟨hfree, hacross | hnear⟩ := h
  · exact ⟨hfree, .inl hacross⟩
  · exact ⟨hfree, .inr (.inl hnear)⟩

/-- Going through the items gives comments to nodes that are near enough. -/
theorem attachPreceding_allows (options : MergeOptions) {items : List Item}
    (hitems : ∀ child, .child child ∈ items → child < base.size) (waiting : Option Comment)
    (htree : tree.SameShape base) :
    ∃ given, Deposits (base.Allows options) tree given
      (tree.attachPreceding options waiting items).1 := by
  induction items generalizing tree waiting with
  | nil => exact ⟨[], .nil⟩
  | cons item items ih =>
    have hlater : ∀ child, .child child ∈ items → child < base.size :=
      fun child hchild => hitems child (List.mem_cons_of_mem _ hchild)
    cases item with
    | pending pending => exact ih hlater _ htree
    | child child =>
      cases waiting with
      | none => exact ih hlater none htree
      | some comment =>
        simp only [attachPreceding]
        split
        · next htakes =>
          obtain ⟨hfree, hallows⟩ := takesComment_allows htree htakes
          have hlt : child < tree.size := htree.size_eq ▸ hitems child List.mem_cons_self
          have hput : Deposits (base.Allows options) tree [comment] (tree.attach child comment) :=
            .single hlt hfree hallows
          obtain ⟨given, hgiven⟩ := ih hlater none (hput.sameShape.trans htree)
          exact ⟨_, hput.trans hgiven⟩
        · exact ih hlater (some comment) htree

/-- What no child takes was waiting. -/
theorem mem_of_mem_attachPreceding {items : List Item} {waiting : Option Comment}
    (h : comment ∈ (tree.attachPreceding options waiting items).2) :
    comment ∈ waiting ∨ comment ∈ waitingIn items := by
  induction items generalizing tree waiting with
  | nil => exact .inl (Option.mem_toList.1 h)
  | cons item items ih =>
    rw [waitingIn, List.flatMap_cons, List.mem_append, ← waitingIn]
    cases item with
    | pending pending =>
      obtain ⟨found, isTaken⟩ := pending
      rw [attachPreceding] at h
      rcases List.mem_append.1 h with h | h
      · exact .inl (Option.mem_toList.1 h)
      · rcases ih h with h | h
        · cases isTaken with
          | true => cases h
          | false =>
            cases h
            exact .inr (.inl List.mem_cons_self)
        · exact .inr (.inr h)
    | child child =>
      cases waiting with
      | none => exact (ih h).imp_right .inr
      | some other =>
        simp only [attachPreceding] at h
        split at h
        · rcases ih h with h | h
          · cases h
          · exact .inr (.inr h)
        · exact (ih h).imp_right .inr

/-- A child that comes right after a comment that waits has a comment in the end, or a line lies
    between the two. -/
theorem attachPreceding_next {items : List Item}
    (hitems : ∀ child, .child child ∈ items → child < base.size) (waiting : Option Comment)
    (htree : tree.SameShape base) {front back : List Item}
    (hsplit : items = front ++ .pending ⟨comment, false⟩ :: .child child :: back) :
    (tree.attachPreceding options waiting items).1.HasComment child
      ∨ (options.acrossBlankLines = false ∧ base.isApart comment child = true) := by
  induction front generalizing tree waiting items with
  | nil =>
    subst hsplit
    have hback : ∀ other, .child other ∈ back → other < base.size :=
      fun other hother => hitems other (List.mem_cons_of_mem _ (List.mem_cons_of_mem _ hother))
    have hlt : child < tree.size := htree.size_eq ▸ hitems child (by simp)
    simp only [List.nil_append, attachPreceding, Bool.false_eq_true, if_false]
    split
    · next htakes =>
      obtain ⟨hfree, hallows⟩ := takesComment_allows htree htakes
      have hput : Deposits (base.Allows options) tree [comment] (tree.attach child comment) :=
        .single hlt hfree hallows
      obtain ⟨given, hgiven⟩ :=
        attachPreceding_allows options hback none (hput.sameShape.trans htree)
      have hheld : (tree.attach child comment).Holds child comment .attached :=
        (holds_put hlt hfree child comment .attached).2 (.inr ⟨rfl, rfl, rfl⟩)
      exact .inl ⟨comment, hgiven.holds_of_holds hheld⟩
    · next htakes =>
      obtain ⟨given, hgiven⟩ := attachPreceding_allows options hback (some comment) htree
      rcases takesComment_eq_false htree htakes with ⟨held, hheld⟩ | hapart
      · exact .inl ⟨held, hgiven.holds_of_holds hheld⟩
      · exact .inr hapart
  | cons item front ih =>
    subst hsplit
    have hlater : ∀ other,
        .child other ∈ front ++ .pending ⟨comment, false⟩ :: .child child :: back →
          other < base.size := fun other hother => hitems other (List.mem_cons_of_mem _ hother)
    cases item with
    | pending pending => exact ih hlater _ htree rfl
    | child other =>
      cases waiting with
      | none => exact ih hlater none htree rfl
      | some found =>
        simp only [List.cons_append, attachPreceding]
        split
        · exact ih hlater none ((tree.sameShape_put other found .attached).trans htree) rfl
        · exact ih hlater (some found) htree rfl

/-! ### The merge at one node -/

/-- The children of a node and some comments, in the order in which they begin. -/
def row (tree : Tree) (options : MergeOptions) (id : NodeId) (comments : List Comment) :
    List Item :=
  tree.itemsOf options ((tree.childrenByBegin id).map (·.val)) (comments.map (⟨·, false⟩))

theorem IsBottomUp.mem_map_byBegin (hbase : base.IsBottomUp) (id child : NodeId) :
    child ∈ (base.childrenByBegin id).map (·.val) ↔ child ∈ base.children id := by
  rw [List.mem_map]
  constructor
  · rintro ⟨found, hfound, rfl⟩
    exact mem_children_of_mem_byBegin hfound
  · exact fun hchild => ⟨_, hbase.mem_byBegin hchild, rfl⟩

theorem mem_itemsOf_child {children : List NodeId} {pending : List Pending} :
    .child child ∈ tree.itemsOf options children pending ↔ child ∈ children := by
  simp [itemsOf, List.mem_mergeSort]

theorem mem_itemsOf_pending {children : List NodeId} {pending : List Pending} {waiting : Pending} :
    .pending waiting ∈ tree.itemsOf options children pending ↔ waiting ∈ pending := by
  simp [itemsOf, List.mem_mergeSort]

theorem IsBottomUp.itemsOf_lt (hbase : base.IsBottomUp) (hid : id < base.size)
    {pending : List Pending} (child : NodeId)
    (h : .child child ∈ tree.itemsOf options ((base.childrenByBegin id).map (·.val)) pending) :
    child < base.size := by
  rw [mem_itemsOf_child, hbase.mem_map_byBegin] at h
  exact Nat.lt_trans (hbase id child h) hid

/-- An item whether or not its comment is taken. -/
def Item.untaken : Item → Item
  | .child id => .child id
  | .pending waiting => .pending ⟨waiting.comment, false⟩

/-- Whether comments are taken does not change the order of the items. -/
theorem row_eq_map (options : MergeOptions) (id : NodeId) (htree : tree.SameShape base)
    {pending : List Pending}
    (hpending : pending.map Pending.comment = comments) :
    base.row options id comments
      = (tree.itemsOf options ((base.childrenByBegin id).map (·.val)) pending).map
        Item.untaken := by
  unfold row itemsOf
  rw [List.map_mergeSort (s := fun a b => a.begin base options ≤ b.begin base options)]
  · simp only [← hpending, List.map_append, List.map_map]
    rfl
  · intro a _ b _
    rw [htree.begin_eq, htree.begin_eq]
    cases a <;> cases b <;> rfl

/-- A child that follows a comment in the row follows it among the items, where the comment may have
    been taken. -/
theorem exists_split_of_row {items front back : List Item}
    (h : items.map Item.untaken = front ++ .pending ⟨comment, false⟩ :: .child child :: back) :
    ∃ isTaken before later,
      items = before ++ .pending ⟨comment, isTaken⟩ :: .child child :: later := by
  obtain ⟨before, rest, rfl, -, hrest⟩ := List.map_eq_append_iff.1 h
  obtain ⟨first, rest, rfl, hfirst, hrest⟩ := List.map_eq_cons_iff.1 hrest
  obtain ⟨second, later, rfl, hsecond, -⟩ := List.map_eq_cons_iff.1 hrest
  cases first with
  | child => cases hfirst
  | pending waiting =>
    cases second with
    | pending => cases hsecond
    | child =>
      cases hfirst
      cases hsecond
      exact ⟨waiting.isTaken, before, later, rfl⟩

theorem HasComment.of_deposits {P : Comment → NodeId → Slot → Prop}
    (h : tree.HasComment id) (hrun : Deposits P tree comments after) : after.HasComment id := by
  obtain ⟨held, hheld⟩ := h
  exact ⟨held, hrun.holds_of_holds hheld⟩

/-- An orphan says why no node took it: those on its line have comments, and so has the next child,
    or a line lies between. -/
def IsExhausted (base : Tree) (options : MergeOptions) (hosted : List Comment) (tree : Tree)
    (id : NodeId) (comment : Comment) : Prop :=
  (∀ target, base.IsOnLine id comment target → tree.HasComment target)
    ∧ ∀ front child back,
      base.row options id hosted = front ++ .pending ⟨comment, false⟩ :: .child child :: back →
      tree.HasComment child
        ∨ (options.acrossBlankLines = false ∧ base.isApart comment child = true)

theorem IsExhausted.of_deposits {P : Comment → NodeId → Slot → Prop} {hosted : List Comment}
    (h : IsExhausted base options hosted tree id comment) (hrun : Deposits P tree comments after) :
    IsExhausted base options hosted after id comment := by
  obtain ⟨hline, hnext⟩ := h
  refine ⟨fun target htarget => (hline target htarget).of_deposits hrun, ?_⟩
  intro front child back hsplit
  exact (hnext front child back hsplit).imp_left fun hchild => hchild.of_deposits hrun

/-- Sorting keeps the order of elements that belong together. -/
theorem filter_mergeSort_eq {α : Type} {r : α → α → Bool} {p : α → Bool}
    (htrans : ∀ a b c, r a b = true → r b c = true → r a c = true)
    (htotal : ∀ a b, (r a b || r b a) = true)
    (htogether : ∀ a b, p a = true → p b = true → r a b = true) (items : List α) :
    (items.mergeSort r).filter p = items.filter p := by
  have hsorted : (items.filter p).Pairwise fun a b => r a b = true :=
    List.pairwise_filter.2 (List.pairwise_of_forall fun a b => htogether a b)
  have hsublist : (items.filter p).Sublist ((items.mergeSort r).filter p) := by
    have h := (List.sublist_mergeSort htrans htotal hsorted List.filter_sublist).filter p
    simpa only [List.filter_filter, Bool.and_self] using h
  exact (hsublist.eq_of_length ((List.mergeSort_perm items r).filter p).length_eq.symm).symm

/-- The order of items that begin together: children first, and of comments that are the same those
    that are taken. -/
def Item.Precedes : Item → Item → Prop
  | .child _, _ => True
  | .pending _, .child _ => False
  | .pending a, .pending b => a.comment = b.comment → b.isTaken = true → a.isTaken = true

theorem itemsOf_stable (tree : Tree) (options : MergeOptions) (children : List NodeId)
    {pending : List Pending} (hpending : pending.Pairwise fun a b =>
      a.comment = b.comment → b.isTaken = true → a.isTaken = true) (position : Position) :
    (tree.itemsOf options children pending).Pairwise fun a b =>
      a.begin tree options = position → b.begin tree options = position → a.Precedes b := by
  have hinput : (children.map Item.child ++ pending.map Item.pending).Pairwise Item.Precedes := by
    refine List.pairwise_append.2 ⟨?_, List.pairwise_map.2 hpending, ?_⟩
    · exact List.pairwise_map.2 (List.pairwise_of_forall fun _ _ => trivial)
    · intro a ha b _
      obtain ⟨child, -, rfl⟩ := List.mem_map.1 ha
      trivial
  have hfilter := hinput.filter fun item => decide (item.begin tree options = position)
  rw [← filter_mergeSort_eq (r := fun a b => a.begin tree options ≤ b.begin tree options)]
    at hfilter
  · exact (List.pairwise_filter.1 hfilter).imp fun hprecedes ha hb =>
      hprecedes (decide_eq_true ha) (decide_eq_true hb)
  · intro a b c hab hbc
    rw [decide_eq_true_eq] at hab hbc ⊢
    exact Position.le_trans hab hbc
  · intro a b
    rw [Bool.or_eq_true, decide_eq_true_eq, decide_eq_true_eq]
    exact Position.le_total _ _
  · intro a b ha hb
    rw [decide_eq_true_eq] at ha hb ⊢
    rw [ha, hb]
    exact Position.le_refl _

/-- Where a comment that is taken stands right before a child, none like it is left. -/
theorem not_mem_of_next {children : List NodeId} {pending : List Pending}
    {before later : List Item} (hpending : pending.Pairwise fun a b =>
      a.comment = b.comment → b.isTaken = true → a.isTaken = true)
    (hsplit : tree.itemsOf options children pending
      = before ++ .pending ⟨comment, true⟩ :: .child child :: later) :
    ⟨comment, false⟩ ∉ pending := by
  intro hleft
  have hmem : .pending ⟨comment, false⟩ ∈ tree.itemsOf options children pending :=
    mem_itemsOf_pending.2 hleft
  have hstable := tree.itemsOf_stable options children hpending comment.extent.first
  have hsorted := tree.itemsOf_sorted options children pending
  rw [hsplit, List.mem_append] at hmem
  rw [hsplit, List.pairwise_append] at hstable hsorted
  obtain ⟨-, hstable, hacross⟩ := hstable
  obtain ⟨-, hsorted, -⟩ := hsorted
  rcases hmem with hbefore | hafter
  · -- one that comes before would have been taken too
    cases hacross _ hbefore _ List.mem_cons_self rfl rfl rfl rfl
  · -- one that comes after the child begins with it, and children come first
    obtain ⟨hfirst, hsecond⟩ := List.pairwise_cons.1 hsorted
    have hlater : .pending ⟨comment, false⟩ ∈ later := by simpa using hafter
    have hle := hfirst _ List.mem_cons_self
    have hge := (List.pairwise_cons.1 hsecond).1 _ hlater
    have hbegin : tree.beginOf options child = comment.extent.first :=
      Position.le_antisymm hge hle
    exact (List.pairwise_cons.1 hstable).1 _ List.mem_cons_self rfl hbegin

/-- What no child of a node takes has not been taken before, and the child right after it has a
    comment, or a line lies between the two. -/
theorem attachPreceding_left (options : MergeOptions) (hbase : base.IsBottomUp)
    (hid : id < base.size) (htree : tree.SameShape base) {pending : List Pending}
    (hpending : pending.Pairwise fun a b =>
      a.comment = b.comment → b.isTaken = true → a.isTaken = true) (comment : Comment)
    (h : comment ∈ (tree.attachPreceding options none
      (tree.itemsOf options ((base.childrenByBegin id).map (·.val)) pending)).2) :
    ⟨comment, false⟩ ∈ pending ∧ ∀ front child back,
      base.row options id (pending.map Pending.comment)
        = front ++ .pending ⟨comment, false⟩ :: .child child :: back →
      (tree.attachPreceding options none
        (tree.itemsOf options ((base.childrenByBegin id).map (·.val)) pending)).1.HasComment child
        ∨ (options.acrossBlankLines = false ∧ base.isApart comment child = true) := by
  have hwaits : ⟨comment, false⟩ ∈ pending := by
    rcases mem_of_mem_attachPreceding h with hnone | hmem
    · cases hnone
    · rw [(tree.waitingIn_itemsOf_perm options _ pending).mem_iff] at hmem
      obtain ⟨⟨found, isTaken⟩, hfound, rfl⟩ := List.mem_map.1 hmem
      obtain ⟨hpending, hfree⟩ := List.mem_filter.1 hfound
      obtain rfl : isTaken = false := beq_iff_eq.1 hfree
      exact hpending
  refine ⟨hwaits, fun front child back hsplit => ?_⟩
  rw [row_eq_map options id htree rfl] at hsplit
  obtain ⟨isTaken, before, later, hsplit⟩ := exists_split_of_row hsplit
  cases isTaken with
  | false => exact attachPreceding_next (hbase.itemsOf_lt hid) none htree hsplit
  | true =>
    exact absurd hwaits (not_mem_of_next hpending hsplit)

/-- **One node.**  The comments that stop at a node are attached under the rule for blank lines, or
    left at the node as orphans that have found no free node. -/
theorem settle_exhausts (hbase : base.IsBottomUp) (hid : id < base.size) (hosted : List Comment)
    (htree : tree.SameShape base) :
    ∃ given, ∃ left : List Comment,
      Deposits (fun comment target slot => base.Allows options comment target slot
          ∨ (slot = .orphaned ∧ target = id ∧ comment ∈ left)) tree given
        (tree.settle options id ((base.childrenByBegin id).map (·.val)) hosted)
      ∧ ∀ comment ∈ left, IsExhausted base options hosted
        (tree.settle options id ((base.childrenByBegin id).map (·.val)) hosted) id comment := by
  obtain ⟨⟨given, htrailing⟩, hline⟩ := attachTrailing_allows options hbase hid
    (hbase.mem_map_byBegin id) hosted htree
  have hcomments := attachTrailing_comments tree ((base.childrenByBegin id).map (·.val)) hosted
  have hpairwise := attachTrailing_pairwise hbase hid (hbase.mem_map_byBegin id) hosted htree
  unfold settle
  -- first the line comments, then those that wait for a child, then the orphans
  generalize tree.attachTrailing ((base.childrenByBegin id).map (·.val)) hosted = trailing
    at htrailing hline hcomments hpairwise
  obtain ⟨between, pending⟩ := trailing
  dsimp only at htrailing hline hcomments hpairwise ⊢
  subst hcomments
  have hbetween : between.SameShape base := htrailing.sameShape.trans htree
  have hleft := attachPreceding_left options hbase hid hbetween hpairwise
  obtain ⟨more, hpreceding⟩ :=
    attachPreceding_allows options (hbase.itemsOf_lt hid) none hbetween
  generalize between.attachPreceding options none (between.itemsOf options
    ((base.childrenByBegin id).map (·.val)) pending) = preceding at hleft hpreceding
  obtain ⟨last, left⟩ := preceding
  dsimp only at hleft hpreceding ⊢
  have hlast : id < last.size := (hpreceding.sameShape.trans hbetween).size_eq ▸ hid
  have horphans : Deposits (fun comment target slot => base.Allows options comment target slot
      ∨ (slot = .orphaned ∧ target = id ∧ comment ∈ left)) last left (last.addOrphans id left) :=
    .addOrphans hlast fun comment hcomment => .inr ⟨rfl, rfl, hcomment⟩
  refine ⟨_, left, ((htrailing.trans hpreceding).mono fun _ _ _ _ => .inl).trans horphans,
    fun comment hcomment => ?_⟩
  obtain ⟨hwaits, hnext⟩ := hleft comment hcomment
  have hexhausted : IsExhausted base options (pending.map Pending.comment) last id comment :=
    ⟨fun target htarget => (hline comment hwaits target htarget).of_deposits hpreceding, hnext⟩
  exact hexhausted.of_deposits horphans

/-- What attribution promises: a node holds a comment under the rule for blank lines, except that
    the root of a file may hold any; and an orphan has found no free node. -/
structure Obeys (base : Tree) (options : MergeOptions) (hosted : NodeId → List Comment)
    (tree : Tree) : Prop where
  sameShape : tree.SameShape base
  near : ∀ id comment, tree.Holds id comment .attached →
    (id = base.root ∧ base.IsUnit) ∨ base.IsNear options comment id
  exhausted : ∀ id comment, tree.Holds id comment .orphaned →
    IsExhausted base options (hosted id) tree id comment

variable {hosted : NodeId → List Comment}

theorem settle_obeys (hbase : base.IsBottomUp) (hid : id < base.size)
    (h : Obeys base options hosted tree) :
    Obeys base options hosted
      (tree.settle options id ((base.childrenByBegin id).map (·.val)) (hosted id)) := by
  obtain ⟨given, left, hrun, hleft⟩ := settle_exhausts hbase hid (hosted id) h.sameShape
  refine ⟨hrun.sameShape.trans h.sameShape, fun target comment hholds => ?_,
    fun target comment hholds => ?_⟩
  · rcases hrun.holds hholds with hbefore | hnear | ⟨hslot, -⟩
    · exact h.near target comment hbefore
    · exact .inr hnear
    · cases hslot
  · rcases hrun.holds hholds with hbefore | hnear | ⟨-, rfl, hmem⟩
    · exact (h.exhausted target comment hbefore).of_deposits hrun
    · cases hnear
    · exact hleft comment hmem

/-! ### The whole tree -/

/-- Nothing can be reached from two children of one node. -/
def IsApartBelow (tree : Tree) : Prop :=
  ∀ id, (tree.childrenByBegin id).Pairwise fun a b =>
    ∀ target, tree.Reaches a.val target → ¬ tree.Reaches b.val target

theorem host_of_find? {child : { child : NodeId // child < id }}
    (h : (tree.childrenByBegin id).find? (fun child => tree.encloses options child.val comment)
      = some child) : tree.host options comment id = tree.host options comment child.val := by
  rw [host, h]

/-- A comment stops at a node exactly if no child encloses it. -/
theorem host_eq_self_iff (hbase : base.IsBottomUp) :
    base.host options comment id = id
      ↔ ∀ child ∈ base.childrenByBegin id, base.encloses options child.val comment = false := by
  refine ⟨fun hhost => ?_, host_eq_self⟩
  cases hfind : (base.childrenByBegin id).find?
      (fun child => base.encloses options child.val comment) with
  | none => simpa using hfind
  | some child =>
    -- the comment would stop below the child
    have hle := (base.reaches_host options comment child.val).le hbase
    rw [← host_of_find? hfind, hhost] at hle
    exact absurd child.property (Nat.not_lt.2 hle)

/-- A comment stops below a child exactly if that is the first to enclose it. -/
theorem host_iff_of_split (hbase : base.IsBottomUp) (hapart : base.IsApartBelow)
    {passed todo : List { child : NodeId // child < id }} {child : { child : NodeId // child < id }}
    (hchildren : base.childrenByBegin id = passed ++ child :: todo)
    (hreaches : base.Reaches child.val target) :
    base.host options comment id = target
      ↔ ((∀ other ∈ passed, base.encloses options other.val comment = false)
        ∧ base.encloses options child.val comment = true)
        ∧ base.host options comment child.val = target := by
  constructor
  · intro hhost
    cases hfind : (base.childrenByBegin id).find?
        (fun child => base.encloses options child.val comment) with
    | none =>
      -- the comment would stop at the node, which its child does not reach
      have hself : base.host options comment id = id := by rw [host, hfind]
      rw [← hhost, hself] at hreaches
      exact absurd child.property (Nat.not_lt.2 (hreaches.le hbase))
    | some found =>
      have hfound := host_of_find? hfind
      have hbelow := base.reaches_host options comment found.val
      rw [← hfound, hhost] at hbelow
      have hdistinct := hapart id
      rw [hchildren, List.pairwise_append] at hdistinct
      obtain ⟨-, hlater, hearlier⟩ := hdistinct
      rw [hchildren, List.find?_append] at hfind
      cases hpassed : passed.find? (fun child => base.encloses options child.val comment) with
      | some other =>
        rw [hpassed] at hfind
        cases hfind
        exact absurd hreaches
          (hearlier _ (List.mem_of_find?_eq_some hpassed) _ List.mem_cons_self _ hbelow)
      | none =>
        rw [hpassed, Option.none_or, List.find?_cons] at hfind
        split at hfind
        · next hencloses =>
          cases hfind
          exact ⟨⟨by simpa using hpassed, hencloses⟩, hfound.symm.trans hhost⟩
        · exact absurd hbelow ((List.pairwise_cons.1 hlater).1 _
            (List.mem_of_find?_eq_some hfind) _ hreaches)
  · rintro ⟨⟨hpassed, hencloses⟩, hhost⟩
    rw [host_eq_host hchildren hpassed hencloses, hhost]

/-- Which comments of some have passed children that do not enclose them. -/
def outside (tree : Tree) (options : MergeOptions) (passed : List { child : NodeId // child < id })
    (comments : List Comment) : List Comment :=
  comments.filter fun comment => passed.all fun child => !tree.encloses options child.val comment

/-- A child gets the comments that no earlier child encloses, and leaves those that it does not
    enclose itself. -/
theorem handDown_eq (htree : tree.SameShape base) (passed : List { child : NodeId // child < id })
    (child : { child : NodeId // child < id }) (comments : List Comment) :
    handDown options (tree, base.outside options passed comments) child
      = (tree.place options child
          ((base.outside options passed comments).filter (base.encloses options child.val)),
        base.outside options (passed ++ [child]) comments) := by
  have hencloses : tree.encloses options child.val = base.encloses options child.val :=
    funext fun comment => htree.encloses_eq _ comment
  rw [handDown, List.partition_eq_filter_filter]
  dsimp only
  rw [hencloses]
  unfold outside
  rw [List.filter_filter]
  simp [Bool.and_comm]

/-- What comes down to a child are the comments that stop below it. -/
theorem filter_host_eq (hbase : base.IsBottomUp) (hapart : base.IsApartBelow)
    {passed todo : List { child : NodeId // child < id }} {child : { child : NodeId // child < id }}
    (hchildren : base.childrenByBegin id = passed ++ child :: todo) (comments : List Comment)
    (hreaches : base.Reaches child.val target) :
    ((base.outside options passed comments).filter (base.encloses options child.val)).filter
        (fun comment => base.host options comment child.val = target)
      = comments.filter (fun comment => base.host options comment id = target) := by
  unfold outside
  rw [List.filter_filter, List.filter_filter]
  refine List.filter_congr fun comment _ => ?_
  rw [Bool.eq_iff_iff]
  simp only [Bool.and_eq_true, decide_eq_true_eq, List.all_eq_true, Bool.not_eq_true']
  rw [host_iff_of_split hbase hapart hchildren hreaches]
  constructor
  · rintro ⟨⟨hhost, hencloses⟩, hpassed⟩
    exact ⟨⟨hpassed, hencloses⟩, hhost⟩
  · rintro ⟨⟨hpassed, hencloses⟩, hhost⟩
    exact ⟨⟨hhost, hencloses⟩, hpassed⟩

/-- The children of a node keep what attribution promises, one after another. -/
theorem handDown_obeys (hbase : base.IsBottomUp) (hapart : base.IsApartBelow)
    (hhosted : ∀ target, base.Reaches id target →
      comments.filter (fun comment => base.host options comment id = target) = hosted target)
    (ih : ∀ child < id, ∀ comments, (∀ target, base.Reaches child target →
        comments.filter (fun comment => base.host options comment child = target)
          = hosted target) →
      ∀ tree, Obeys base options hosted tree →
        Obeys base options hosted (tree.place options child comments))
    (passed todo : List { child : NodeId // child < id })
    (hchildren : base.childrenByBegin id = passed ++ todo)
    (h : Obeys base options hosted tree) :
    ∃ after, todo.foldl (handDown options) (tree, base.outside options passed comments)
        = (after, base.outside options (passed ++ todo) comments)
      ∧ Obeys base options hosted after := by
  induction todo generalizing passed tree with
  | nil =>
    rw [List.append_nil]
    exact ⟨tree, rfl, h⟩
  | cons child todo ihTodo =>
    rw [List.foldl_cons, handDown_eq h.sameShape]
    have hmem : child ∈ base.childrenByBegin id := by
      rw [hchildren]
      exact List.mem_append_right _ List.mem_cons_self
    have hchild := ih child.val child.property
      ((base.outside options passed comments).filter (base.encloses options child.val))
      (fun target hreaches => by
        rw [filter_host_eq hbase hapart hchildren comments hreaches]
        exact hhosted target
          (Reaches.trans (.child .refl (mem_children_of_mem_byBegin hmem)) hreaches)) tree h
    obtain ⟨after, hfold, hafter⟩ := ihTodo (passed ++ [child])
      (by rw [hchildren, List.append_assoc, List.singleton_append]) hchild
    rw [List.append_assoc, List.singleton_append] at hfold
    exact ⟨after, hfold, hafter⟩

/-- **The whole tree.**  Placing the comments inside a node keeps what attribution promises.  The
    induction is on the node: all comments that stop below a child come down to it, and no other
    child leads there. -/
theorem place_obeys (hbase : base.IsBottomUp) (hapart : base.IsApartBelow)
    (id : NodeId) (hid : id < base.size) (comments : List Comment)
    (hhosted : ∀ target, base.Reaches id target →
      comments.filter (fun comment => base.host options comment id = target) = hosted target)
    (tree : Tree) (h : Obeys base options hosted tree) :
    Obeys base options hosted (tree.place options id comments) := by
  induction id using Nat.strongRecOn generalizing comments tree with
  | _ id ih =>
    cases hempty : comments.isEmpty with
    | true =>
      rw [place, if_pos hempty]
      exact h
    | false =>
      rw [place_eq_settle _ _ _ _ hempty, h.sameShape.childrenByBegin_eq]
      have hall : base.outside options ([] : List { child : NodeId // child < id }) comments
          = comments := by
        simp [outside]
      obtain ⟨after, hfold, hafter⟩ := handDown_obeys hbase hapart hhosted
        (fun child hlt comments hbelow tree htree =>
          ih child hlt (Nat.lt_trans hlt hid) comments hbelow tree htree)
        [] (base.childrenByBegin id) rfl h
      rw [hall, List.nil_append] at hfold
      -- what no child encloses stops at the node
      have hself : base.outside options (base.childrenByBegin id) comments = hosted id := by
        rw [← hhosted id .refl]
        refine List.filter_congr fun comment _ => ?_
        rw [Bool.eq_iff_iff]
        simp only [List.all_eq_true, Bool.not_eq_true', decide_eq_true_eq]
        exact (host_eq_self_iff hbase).symm
      rw [hfold, hself]
      exact settle_obeys hbase hid hafter

/-! ### The root -/

/-- The root takes a comment under the rule for blank lines, unless a file is read. -/
theorem attachToRoot_near (hroot : tree.root < tree.size)
    (hfree : (tree.node tree.root).comment = none)
    (h : ((tree.attachToRoot options comments).1.node tree.root).comment = some comment) :
    tree.IsUnit ∨ tree.IsNear options comment tree.root := by
  have hslot : tree.IsFree tree.root .attached := hfree
  have hheld : ∀ found, ((tree.attach tree.root found).node tree.root).comment = some found :=
    fun found => (holds_put hroot hslot tree.root found .attached).2 (.inr ⟨rfl, rfl, rfl⟩)
  unfold attachToRoot at h
  split at h
  · next hkind => exact .inl ⟨_, _, _, hkind⟩
  · next hkind => exact .inl ⟨_, _, _, hkind⟩
  · split at h
    · rw [hfree] at h
      cases h
    · next found others hfound =>
      split at h
      · rw [hfree] at h
        cases h
      · next hnear =>
        rw [hheld] at h
        cases h
        simp only [Bool.and_eq_true, Bool.not_eq_true', not_and, Bool.not_eq_true] at hnear
        by_cases hacross : options.acrossBlankLines = true
        · exact .inr (.inl hacross)
        · exact .inr (.inr (.inl (hnear (by simpa using hacross))))

/-- The comments that stop at a node on their way down from the root. -/
def hostedAt (tree : Tree) (options : MergeOptions) (comments : List Comment) (id : NodeId) :
    List Comment :=
  comments.filter fun comment => tree.host options comment tree.root = id

/-- **Attribution keeps its promise.** -/
theorem attributeComments_obeys (hbase : tree.IsBottomUp) (hapart : tree.IsApartBelow)
    (hroot : tree.root < tree.size) (hfree : tree.comments = []) (options : MergeOptions)
    (comments : List Comment) :
    Obeys tree options
      (tree.hostedAt options (tree.attachToRoot options (sortComments comments)).2)
      (tree.attributeComments options comments) := by
  obtain ⟨⟨-, hfirst⟩, -⟩ := attributeComments_runs hbase hroot hfree options comments
  have hslot := (List.append_eq_nil_iff.1 (comment_free hfree tree.root)).1
  have hshape := hfirst.sameShape
  rw [attributeComments_eq, hshape.root_eq]
  refine place_obeys hbase hapart tree.root hroot _ (fun target _ => rfl) _
    ⟨hshape, fun id comment hholds => ?_, fun id comment hholds => ?_⟩
  · rcases hfirst.holds hholds with hbefore | ⟨rfl, -⟩
    · exact absurd hbefore (not_holds hfree)
    · exact (attachToRoot_near hroot (Option.toList_eq_nil_iff.1 hslot) hholds).imp_left
        fun hunit => ⟨rfl, hunit⟩
  · rcases hfirst.holds hholds with hbefore | ⟨-, hslot⟩
    · exact absurd hbefore (not_holds hfree)
    · cases hslot

theorem IsParsed.isApartBelow {source : Source} {body : List Token}
    (h : tree.IsParsed source body) : tree.IsApartBelow := by
  intro id
  have hbelow : ((tree.below id).map Subtype.val).Pairwise fun a b =>
      ∀ target, tree.Reaches a target → ¬ tree.Reaches b target := by
    rw [h.isBottomUp.map_below]
    exact h.children_apart
  refine ((List.mergeSort_perm _ _).pairwise_iff fun {a b} hab target hb ha => ?_).2
    (List.pairwise_map.1 hbelow)
  exact hab target ha hb

end Tree

/-! ### The comments of a text -/

/-- The extent of a span is in order. -/
theorem Source.extent_ordered (source : Source) (span : Span) :
    (source.extent span).first ≤ (source.extent span).last := by
  unfold extent
  dsimp only
  split
  · exact Position.le_refl _
  · exact position_le_position _ (Nat.le_max_right _ _)

/-- A comment of a text covers the extent of its span. -/
theorem Source.commentsFrom_extent (source : Source) (offset : Nat) (text : List Char) :
    ∀ comment ∈ source.commentsFrom offset text, comment.extent = source.extent comment.span := by
  fun_induction commentsFrom source offset text with
  | case1 => nofun
  | case2 offset c text stretch span later _ _ _ ih => exact ih
  | case3 offset c text stretch span later kind _ content _ _ _ ih =>
    exact List.forall_mem_cons.2 ⟨rfl, ih⟩

/-- **The policy is exact.**  For a parsed tree and any comments, of which those of the text are in
    order.  Without the option for blank lines no node but the root of a file has a comment before
    it with a line between.  For every orphan of a node, each node that begins on the line of a line
    comment, at or below a child that ends there, has a comment; and a child that follows right
    after the orphan, in the order in which the children and the comments at the node begin, has a
    comment too, unless the option is off and a line lies between. -/
theorem attribution_exact (source : Source) (entry : EntryPoint) (tree : Tree)
    (h : source.parse entry = .ok tree) (options : MergeOptions) (comments : List Comment) :
    let others := (tree.attachToRoot options (Tree.sortComments comments)).2
    let after := tree.attributeComments options comments
    (∀ comment ∈ source.comments, comment.extent.first ≤ comment.extent.last)
    ∧ (options.acrossBlankLines = false → ∀ id comment, (after.node id).comment = some comment →
      comment.extent.first ≤ comment.extent.last → ¬(id = tree.root ∧ tree.IsUnit) →
      comment.extent.first ≤ (tree.node id).extent.first →
      (tree.node id).extent.first.line ≤ comment.extent.last.line + 1)
    ∧ ∀ id, ∀ comment ∈ (after.node id).orphans,
      (∀ target, tree.IsOnLine id comment target → after.HasComment target)
      ∧ ∀ front child back,
        tree.row options id (tree.hostedAt options others id)
          = front ++ .pending ⟨comment, false⟩ :: .child child :: back →
        after.HasComment child
          ∨ (options.acrossBlankLines = false ∧ tree.isApart comment child = true) := by
  obtain ⟨body, -, -, hparsed⟩ := Source.parse_eq_ok h
  have hobeys := Tree.attributeComments_obeys hparsed.isBottomUp hparsed.isApartBelow
    hparsed.root_lt hparsed.comments_eq_nil options comments
  refine ⟨fun comment hcomment => ?_, fun hacross id comment hheld hends hroot hbefore => ?_,
    fun id comment horphan => hobeys.exhausted id comment horphan⟩
  · rw [source.commentsFrom_extent _ _ comment hcomment]
    exact source.extent_ordered _
  · rw [Position.le_iff] at hends
    rcases (hobeys.near id comment hheld).resolve_left hroot with hnear | hnear | hline
    · rw [hacross] at hnear
      cases hnear
    · rw [Tree.isApart, if_pos hbefore] at hnear
      simpa using hnear
    · omega

/-- A block with a comment and a blank line before its statement: an orphan has a statement with a
    comment after it, or a line between. -/
theorem attribution_exact_blankLine :
    ∃ tree, (Source.ofText "\x7b\n// a\n\n;\n\x7d").parse .statement = .ok tree
      ∧ ∀ comments id, ∀ comment ∈ ((tree.attributeComments {} comments).node id).orphans,
        ∀ front child back,
          tree.row {} id (tree.hostedAt {} (tree.attachToRoot {} (Tree.sortComments comments)).2 id)
            = front ++ .pending ⟨comment, false⟩ :: .child child :: back →
          (tree.attributeComments {} comments).HasComment child
            ∨ tree.isApart comment child = true := by
  obtain ⟨tree, hparse⟩ : ∃ tree,
      (Source.ofText "\x7b\n// a\n\n;\n\x7d").parse .statement = .ok tree :=
    Source.exists_eq_ok (by decide +kernel)
  refine ⟨tree, hparse, fun comments id comment hcomment front child back hsplit => ?_⟩
  obtain ⟨-, -, hexact⟩ := attribution_exact _ _ tree hparse {} comments
  exact ((hexact id comment hcomment).2 front child back hsplit).imp_right And.right

end CodeMarkup
