import CodeMarkup.Proofs.Attribution.Deposits
import CodeMarkup.Proofs.Offsets

namespace CodeMarkup

/-!
# Where comments go

A comment goes down from the root as long as a child encloses it.  The node where it stops is its
host: it is orphaned there, or goes to a child of the host that begins after it, or, if it is a line
comment, to a node on its line.

* `Tree.host`: the node where a comment stops.
* `Tree.IsPlace`: the places where a comment may end.
* `Tree.place_deposits`: placing comments puts each of them at such a place.
-/

namespace Tree

/-! ### Hosts -/

/-- A tree in which children come before their parents. -/
def IsBottomUp (tree : Tree) : Prop :=
  ∀ id child, child ∈ tree.children id → child < id

/-- The nodes that can be reached from a node through children, itself included. -/
inductive Reaches (tree : Tree) (id : NodeId) : NodeId → Prop where
  | refl : Reaches tree id id
  | child {a b : NodeId} (h : Reaches tree id a) (hchild : b ∈ tree.children a) :
      Reaches tree id b

/-- The node where a comment stops on its way down: at each node it goes to the first child, in the
    order in which they begin, that encloses it. -/
def host (tree : Tree) (options : MergeOptions) (comment : Comment) (id : NodeId) : NodeId :=
  match (tree.childrenByBegin id).find? fun child => tree.encloses options child.val comment with
  | some ⟨child, _⟩ => tree.host options comment child
  | none => id
termination_by id

/-- The places where a comment may end that starts its way down at `top`. -/
inductive IsPlace (tree : Tree) (options : MergeOptions) (top : NodeId) (comment : Comment) :
    NodeId → Slot → Prop where
  | orphan : IsPlace tree options top comment (tree.host options comment top) .orphaned
  | before {child : NodeId} (hchild : child ∈ tree.children (tree.host options comment top))
      (hbegin : comment.extent.first ≤ tree.beginOf options child) :
      IsPlace tree options top comment child .attached
  | sameLine {child target : NodeId} (hline : comment.kind = .line)
      (hchild : child ∈ tree.children (tree.host options comment top))
      (hreaches : tree.Reaches child target)
      (hends : (tree.node child).extent.last.line = comment.extent.first.line)
      (hbegins : (tree.node target).extent.first.line = comment.extent.first.line) :
      IsPlace tree options top comment target .attached

variable {tree base after : Tree} {options : MergeOptions} {id top child target : NodeId}
  {comment : Comment} {comments : List Comment} {slot : Slot}

theorem mem_children_of_mem_byBegin {child : { child : NodeId // child < id }}
    (h : child ∈ tree.childrenByBegin id) : child.val ∈ tree.children id := by
  unfold childrenByBegin below at h
  rw [List.mem_mergeSort] at h
  obtain ⟨other, hother, hsome⟩ := List.mem_filterMap.1 h
  split at hsome
  · cases hsome
    exact hother
  · cases hsome

theorem IsBottomUp.mem_byBegin (hbase : tree.IsBottomUp) (h : child ∈ tree.children id) :
    ⟨child, hbase id child h⟩ ∈ tree.childrenByBegin id := by
  unfold childrenByBegin below
  rw [List.mem_mergeSort, List.mem_filterMap]
  exact ⟨child, h, dif_pos (hbase id child h)⟩

theorem Reaches.trans {a b c : NodeId} (h : tree.Reaches a b) (h' : tree.Reaches b c) :
    tree.Reaches a c := by
  induction h' with
  | refl => exact h
  | child _ hchild ih => exact .child ih hchild

theorem Reaches.le (hbase : tree.IsBottomUp) (h : tree.Reaches id target) : target ≤ id := by
  induction h with
  | refl => exact Nat.le_refl _
  | child _ hchild ih => exact Nat.le_trans (Nat.le_of_lt (hbase _ _ hchild)) ih

theorem SameShape.reaches (h : tree.SameShape base) (hreaches : tree.Reaches id target) :
    base.Reaches id target := by
  induction hreaches with
  | refl => exact .refl
  | child _ hchild ih => exact .child ih (h.children_eq _ ▸ hchild)

/-- A comment that no child encloses stops. -/
theorem host_eq_self (h : ∀ child ∈ tree.childrenByBegin id,
    tree.encloses options child comment = false) : tree.host options comment id = id := by
  rw [host]
  split
  · next child hchild hfind =>
    have hencloses := List.find?_some hfind
    have hnot := h _ (List.mem_of_find?_eq_some hfind)
    rw [hnot] at hencloses
    cases hencloses
  · rfl

/-- The host of a comment has no child that encloses it. -/
theorem host_isInnermost (hbase : tree.IsBottomUp) (options : MergeOptions) (comment : Comment)
    (id : NodeId) : ∀ child ∈ tree.children (tree.host options comment id),
      tree.encloses options child comment = false := by
  induction id using Nat.strongRecOn with
  | _ id ih =>
    rw [host]
    split
    · next child hlt hfind => exact ih child hlt
    · next hfind =>
      intro child hchild
      have hnot := List.find?_eq_none.1 hfind _ (hbase.mem_byBegin hchild)
      exact Bool.not_eq_true _ ▸ hnot

/-- A comment goes to the first child that encloses it. -/
theorem host_eq_host {passed todo : List { child : NodeId // child < id }}
    {child : { child : NodeId // child < id }}
    (hchildren : tree.childrenByBegin id = passed ++ child :: todo)
    (hpassed : ∀ other ∈ passed, tree.encloses options other comment = false)
    (hencloses : tree.encloses options child comment = true) :
    tree.host options comment id = tree.host options comment child := by
  -- the children before it are passed over, so that it is the one found
  have hfind : (tree.childrenByBegin id).find?
      (fun child => tree.encloses options child.val comment) = some child := by
    rw [hchildren, List.find?_append]
    have hnone : passed.find? (fun child => tree.encloses options child.val comment) = none := by
      rw [List.find?_eq_none]
      intro other hother
      rw [hpassed other hother]
      exact Bool.false_ne_true
    rw [hnone, List.find?_cons, hencloses]
    rfl
  rw [host]
  split
  · next other hother hfind' =>
    rw [hfind] at hfind'
    cases hfind'
    rfl
  · next hfind' =>
    rw [hfind] at hfind'
    cases hfind'

/-! ### Line comments after a child -/

/-- The node that takes a line comment lies below the child, begins on the line and has no comment
    yet. -/
theorem lineTarget?_spec {line : Nat} (h : tree.lineTarget? line id = some target) :
    tree.Reaches id target ∧ (tree.node target).extent.first.line = line
      ∧ (tree.node target).comment = none := by
  induction id using Nat.strongRecOn with
  | _ id ih =>
    rw [lineTarget?] at h
    split at h
    -- the node itself, or the last of its descendants that will do
    · next hhere =>
      cases h
      rw [Bool.and_eq_true, decide_eq_true_eq, Option.isNone_iff_eq_none] at hhere
      exact ⟨.refl, hhere⟩
    · obtain ⟨⟨child, hlt⟩, hmem, hfound⟩ := List.exists_of_findSome?_eq_some h
      obtain ⟨hreaches, hrest⟩ := ih child hlt hfound
      have hchild := mem_children_of_mem_byBegin (List.mem_reverse.1 hmem)
      exact ⟨Reaches.trans (.child .refl hchild) hreaches, hrest⟩

theorem trailingTarget?_spec {children : List NodeId}
    (h : tree.trailingTarget? children comment = some target) :
    comment.kind = .line ∧ ∃ child ∈ children,
      (tree.node child).extent.last.line = comment.extent.first.line
      ∧ tree.lineTarget? comment.extent.first.line child = some target := by
  unfold trailingTarget? at h
  split at h
  · next hline =>
    obtain ⟨child, hmem, hfound⟩ := List.exists_of_findSome?_eq_some h
    obtain ⟨hchild, hends⟩ := List.mem_filter.1 hmem
    exact ⟨hline, child, hchild, of_decide_eq_true hends, hfound⟩
  · cases h

/-- The comments among some that have been taken, or that have not. -/
def withTaken (isTaken : Bool) (pending : List Pending) : List Comment :=
  (pending.filter (·.isTaken == isTaken)).map Pending.comment

/-- What is asked of the comments that are settled at a node: it is their host. -/
def HostsAll (tree : Tree) (options : MergeOptions) (id : NodeId) (comments : List Comment) :
    Prop :=
  ∀ comment ∈ comments, tree.host options comment id = id

/-- Line comments go to nodes on their line. -/
theorem attachTrailing_deposits (hbase : base.IsBottomUp) (hid : id < base.size)
    (children : List NodeId) (hchildren : ∀ child ∈ children, child ∈ base.children id)
    (comments : List Comment) (hhost : base.HostsAll options id comments)
    (htree : tree.SameShape base) :
    Deposits (base.IsPlace options id) tree
        (withTaken true (tree.attachTrailing children comments).2)
        (tree.attachTrailing children comments).1
      ∧ (tree.attachTrailing children comments).2.map Pending.comment = comments := by
  induction comments generalizing tree with
  | nil => exact ⟨.nil, rfl⟩
  | cons comment comments ih =>
    have hothers : base.HostsAll options id comments :=
      fun other hother => hhost other (List.mem_cons_of_mem _ hother)
    unfold attachTrailing
    split
    · next target htarget =>
      obtain ⟨hline, child, hchild, hends, hfound⟩ := trailingTarget?_spec htarget
      obtain ⟨hreaches, hbegins, hfree⟩ := lineTarget?_spec hfound
      replace hreaches := htree.reaches hreaches
      have hmem := hchildren child hchild
      have hsize : target < tree.size := htree.size_eq ▸
        Nat.lt_of_le_of_lt (hreaches.le hbase) (Nat.lt_trans (hbase id child hmem) hid)
      -- the target is looked for in the tree as it is now, but begins where it does in `base`
      have hplace : base.IsPlace options id comment target .attached := by
        refine .sameLine hline ?_ hreaches (htree.extent_eq _ ▸ hends) (htree.extent_eq _ ▸ hbegins)
        rwa [hhost comment List.mem_cons_self]
      replace hfree : tree.IsFree target .attached := hfree
      have hfirst : Deposits (base.IsPlace options id) tree [comment]
          (tree.attach target comment) := .single hsize hfree hplace
      obtain ⟨hrest, hcomments⟩ := ih hothers (hfirst.sameShape.trans htree)
      refine ⟨hfirst.trans hrest, ?_⟩
      rw [List.map_cons, hcomments]
    · obtain ⟨hrest, hcomments⟩ := ih hothers htree
      refine ⟨hrest, ?_⟩
      rw [List.map_cons, hcomments]

/-! ### Comments before a child -/

/-- The comment at an item that waits for a child. -/
def Item.waiting : Item → List Comment
  | .child _ => []
  | .pending waiting => if waiting.isTaken then [] else [waiting.comment]

/-- The comments among some items that wait for a child. -/
def waitingIn (items : List Item) : List Comment :=
  items.flatMap Item.waiting

/-- Items at a node in the order in which they begin. -/
structure AreItems (tree : Tree) (options : MergeOptions) (id : NodeId) (items : List Item) :
    Prop where
  sorted : items.Pairwise fun a b => a.begin tree options ≤ b.begin tree options
  children : ∀ child, .child child ∈ items → child ∈ tree.children id
  hosted : tree.HostsAll options id (waitingIn items)

theorem AreItems.tail {item : Item} {items : List Item}
    (h : tree.AreItems options id (item :: items)) : tree.AreItems options id items := by
  refine ⟨(List.pairwise_cons.1 h.sorted).2, fun child hchild =>
    h.children child (List.mem_cons_of_mem _ hchild), fun comment hcomment => h.hosted comment ?_⟩
  unfold waitingIn
  rw [List.flatMap_cons]
  exact List.mem_append_right _ hcomment

/-- Comments go to the next child that has none. -/
theorem attachPreceding_deposits (hbase : base.IsBottomUp) (hid : id < base.size)
    (items : List Item) (hitems : base.AreItems options id items) (waiting : Option Comment)
    (hwaiting : ∀ comment ∈ waiting, base.host options comment id = id
      ∧ ∀ item ∈ items, comment.extent.first ≤ item.begin base options)
    (htree : tree.SameShape base) :
    ∃ given, Deposits (base.IsPlace options id) tree given
        (tree.attachPreceding options waiting items).1
      ∧ (given ++ (tree.attachPreceding options waiting items).2).Perm
        (waiting.toList ++ waitingIn items) := by
  induction items generalizing tree waiting with
  | nil =>
    refine ⟨[], .nil, ?_⟩
    rw [attachPreceding, waitingIn, List.flatMap_nil, List.append_nil]
    exact .refl _
  | cons item items ih =>
    obtain ⟨hfirst, _⟩ := List.pairwise_cons.1 hitems.sorted
    cases item with
    | pending pending =>
      -- the comment that waited before is left over, and this one waits unless it is taken
      obtain ⟨comment, isTaken⟩ := pending
      have hnext : waitingIn (.pending ⟨comment, isTaken⟩ :: items)
          = (if isTaken then none else some comment : Option Comment).toList
            ++ waitingIn items := by
        rw [waitingIn, List.flatMap_cons, waitingIn]
        cases isTaken <;> rfl
      obtain ⟨given, hgiven, hperm⟩ := ih hitems.tail (if isTaken then none else some comment)
        (fun other hother => by
          split at hother
          · cases hother
          · next hfree =>
            cases hother
            refine ⟨hitems.hosted comment ?_, hfirst⟩
            rw [hnext, if_neg hfree]
            exact List.mem_append_left _ (List.mem_singleton_self _)) htree
      refine ⟨given, hgiven, ?_⟩
      rw [hnext, attachPreceding]
      exact (List.perm_append_comm_assoc _ _ _).trans (hperm.append_left _)
    | child child =>
      have hnext : waitingIn (.child child :: items) = waitingIn items := rfl
      rw [hnext]
      cases waiting with
      | none => exact ih hitems.tail none nofun htree
      | some comment =>
        obtain ⟨hhost, hbefore⟩ := hwaiting comment rfl
        -- a child that cannot take the comment leaves it waiting for the next one
        have hwaits : ∀ other ∈ some comment, base.host options other id = id
            ∧ ∀ item ∈ items, other.extent.first ≤ item.begin base options := by
          rintro other ⟨⟩
          exact ⟨hhost, fun item hitem => hbefore item (List.mem_cons_of_mem _ hitem)⟩
        simp only [attachPreceding]
        split
        · next htakes =>
          have hmem := hitems.children child List.mem_cons_self
          have hsize : child < tree.size := htree.size_eq ▸ Nat.lt_trans (hbase id child hmem) hid
          have hfree : tree.IsFree child .attached :=
            Option.isNone_iff_eq_none.1 (Bool.and_eq_true_iff.1 htakes).1
          -- items are sorted, so the child begins no earlier than the comment that waits
          have hplace : base.IsPlace options id comment child .attached := by
            refine .before ?_ (hbefore _ List.mem_cons_self)
            rwa [hhost]
          have hput : Deposits (base.IsPlace options id) tree [comment]
              (tree.attach child comment) := .single hsize hfree hplace
          obtain ⟨given, hgiven, hperm⟩ := ih hitems.tail none nofun (hput.sameShape.trans htree)
          exact ⟨comment :: given, hput.trans hgiven, hperm.cons comment⟩
        · exact ih hitems.tail (some comment) hwaits htree

/-! ### The whole tree -/

theorem SameShape.begin_eq (h : tree.SameShape base) (item : Item) :
    item.begin tree options = item.begin base options := by
  cases item with
  | child id => exact h.beginOf_eq id
  | pending _ => rfl

/-- What waits among the items of a node are the comments not taken yet. -/
theorem waitingIn_itemsOf_perm (tree : Tree) (options : MergeOptions) (children : List NodeId)
    (pending : List Pending) :
    (waitingIn (tree.itemsOf options children pending)).Perm (withTaken false pending) := by
  refine ((List.mergeSort_perm _ _).flatMap_right Item.waiting).trans (.of_eq ?_)
  rw [List.flatMap_append, List.flatMap_map, List.flatMap_map]
  have hchildren : (children.flatMap fun child => (Item.child child).waiting) = [] := by
    simp [Item.waiting]
  rw [hchildren, List.nil_append]
  induction pending with
  | nil => rfl
  | cons waiting pending ih =>
    obtain ⟨comment, isTaken⟩ := waiting
    rw [List.flatMap_cons, ih]
    cases isTaken <;> rfl

/-- Sorting by a position. -/
theorem pairwise_mergeSort_position {α : Type} (f : α → Position) (items : List α) :
    (items.mergeSort fun a b => f a ≤ f b).Pairwise fun a b => f a ≤ f b := by
  have hsorted : (items.mergeSort fun a b => f a ≤ f b).Pairwise fun a b =>
      decide (f a ≤ f b) = true := by
    refine List.pairwise_mergeSort (fun a b c hab hbc => ?_) (fun a b => ?_) _
    · rw [decide_eq_true_eq] at hab hbc ⊢
      exact Position.le_trans hab hbc
    · rw [Bool.or_eq_true, decide_eq_true_eq, decide_eq_true_eq]
      exact Position.le_total _ _
  exact hsorted.imp fun {a b} hle => of_decide_eq_true hle

theorem itemsOf_sorted (tree : Tree) (options : MergeOptions) (children : List NodeId)
    (pending : List Pending) :
    (tree.itemsOf options children pending).Pairwise fun a b =>
      a.begin tree options ≤ b.begin tree options :=
  pairwise_mergeSort_position (Item.begin tree options) _

theorem areItems_itemsOf (htree : tree.SameShape base) (children : List NodeId)
    (hchildren : ∀ child ∈ children, child ∈ base.children id) (pending : List Pending)
    (hhost : base.HostsAll options id (pending.map Pending.comment)) :
    base.AreItems options id (tree.itemsOf options children pending) := by
  refine ⟨?_, ?_, ?_⟩
  -- sorting uses the tree as it is now, whose nodes begin where those of `base` do
  · refine (tree.itemsOf_sorted options children pending).imp fun {a b} hle => ?_
    rwa [htree.begin_eq, htree.begin_eq] at hle
  · intro child hchild
    unfold itemsOf at hchild
    rw [List.mem_mergeSort, List.mem_append, List.mem_map, List.mem_map] at hchild
    rcases hchild with ⟨other, hother, heq⟩ | ⟨_, _, heq⟩
    · cases heq
      exact hchildren child hother
    · cases heq
  · intro comment hcomment
    have hmem := (tree.waitingIn_itemsOf_perm options children pending).mem_iff.1 hcomment
    obtain ⟨waiting, hwaiting, rfl⟩ := List.mem_map.1 hmem
    exact hhost _ (List.mem_map_of_mem (List.mem_filter.1 hwaiting).1)

theorem withTaken_append_perm (pending : List Pending) :
    (withTaken true pending ++ withTaken false pending).Perm (pending.map Pending.comment) := by
  have hperm := (List.filter_append_perm (·.isTaken == true) pending).map Pending.comment
  rw [List.map_append] at hperm
  have hfalse : (fun waiting : Pending => !(waiting.isTaken == true))
      = fun waiting => waiting.isTaken == false := by
    funext waiting
    cases waiting.isTaken <;> rfl
  rw [hfalse] at hperm
  exact hperm

/-- Comments that lie inside no child of a node are settled there. -/
theorem settle_deposits (hbase : base.IsBottomUp) (hid : id < base.size)
    (children : List NodeId) (hchildren : ∀ child ∈ children, child ∈ base.children id)
    (comments : List Comment) (hhost : base.HostsAll options id comments)
    (htree : tree.SameShape base) :
    ∃ given, given.Perm comments
      ∧ Deposits (base.IsPlace options id) tree given
        (tree.settle options id children comments) := by
  obtain ⟨htrailing, hcomments⟩ :=
    attachTrailing_deposits hbase hid children hchildren comments hhost htree
  unfold settle
  -- first the line comments, then those that wait for a child, then the orphans
  generalize tree.attachTrailing children comments = trailing at htrailing hcomments
  obtain ⟨between, pending⟩ := trailing
  have hshape : between.SameShape base := htrailing.sameShape.trans htree
  have hitems : base.AreItems options id (between.itemsOf options children pending) :=
    areItems_itemsOf hshape children hchildren pending (hcomments ▸ hhost)
  obtain ⟨given, hpreceding, hperm⟩ :=
    attachPreceding_deposits hbase hid _ hitems none nofun hshape
  dsimp only
  generalize between.attachPreceding options none (between.itemsOf options children pending)
    = preceding at hpreceding hperm
  obtain ⟨last, left⟩ := preceding
  -- what no child takes is orphaned at the node itself
  have horphans : ∀ comment ∈ left, base.IsPlace options id comment id .orphaned := by
    intro comment hcomment
    have hself := hitems.hosted comment (hperm.mem_iff.1 (List.mem_append_right _ hcomment))
    have horphan : base.IsPlace options id comment (base.host options comment id) .orphaned :=
      .orphan
    rwa [hself] at horphan
  have hsize : id < last.size := (hpreceding.sameShape.trans hshape).size_eq ▸ hid
  refine ⟨withTaken true pending ++ (given ++ left), ?_,
    htrailing.trans (hpreceding.trans (Deposits.addOrphans hsize horphans))⟩
  -- the three groups are all the comments
  have hwaiting := hperm.trans (between.waitingIn_itemsOf_perm options children pending)
  exact ((hwaiting.append_left _).trans (withTaken_append_perm pending)).trans (.of_eq hcomments)

/-- A child takes the comments it encloses. -/
def handDown (options : MergeOptions) (state : Tree × List Comment)
    (child : { child : NodeId // child < id }) : Tree × List Comment :=
  (state.1.place options child (state.2.partition (state.1.encloses options child)).1,
    (state.2.partition (state.1.encloses options child)).2)

theorem place_eq_settle (tree : Tree) (options : MergeOptions) (id : NodeId)
    (comments : List Comment) (hne : comments.isEmpty = false) :
    tree.place options id comments =
      (((tree.childrenByBegin id).foldl (handDown options) (tree, comments)).1).settle options id
        ((tree.childrenByBegin id).map (·.val))
        ((tree.childrenByBegin id).foldl (handDown options) (tree, comments)).2 := by
  rw [place, if_neg (by rw [hne]; exact Bool.false_ne_true)]
  rfl

theorem IsPlace.of_host_eq (h : tree.host options comment top = tree.host options comment id)
    (hplace : tree.IsPlace options id comment target slot) :
    tree.IsPlace options top comment target slot := by
  cases hplace with
  | orphan =>
    rw [← h]
    exact .orphan
  | before hchild hbegin => exact .before (h ▸ hchild) hbegin
  | sameLine hline hchild hreaches hends hbegins =>
    exact .sameLine hline (h ▸ hchild) hreaches hends hbegins

/-- The children of a node take the comments they enclose, one child after another; the node is the
    host of the others. -/
theorem handDown_deposits
    (ih : ∀ child < id, ∀ tree comments, SameShape tree base → ∃ given, given.Perm comments
      ∧ Deposits (base.IsPlace options child) tree given (tree.place options child comments))
    (passed todo : List { child : NodeId // child < id })
    (hchildren : base.childrenByBegin id = passed ++ todo) (comments : List Comment)
    (hpassed : ∀ comment ∈ comments, ∀ child ∈ passed,
      base.encloses options child.val comment = false) (htree : tree.SameShape base) :
    base.HostsAll options id (todo.foldl (handDown options) (tree, comments)).2
      ∧ ∃ given, (given ++ (todo.foldl (handDown options) (tree, comments)).2).Perm comments
        ∧ Deposits (base.IsPlace options id) tree given
          (todo.foldl (handDown options) (tree, comments)).1 := by
  induction todo generalizing tree comments passed with
  | nil =>
    rw [List.append_nil] at hchildren
    -- no child is left, and none of those passed encloses what is left
    refine ⟨fun comment hcomment => host_eq_self fun child hchild => ?_, [], .refl _, .nil⟩
    exact hpassed comment hcomment child (hchildren ▸ hchild)
  | cons child todo ihTodo =>
    -- the child is the first to enclose them, so their host is below it
    have hinside : ∀ comment, comment ∈ comments.filter (tree.encloses options child) →
        base.host options comment id = base.host options comment child.val := by
      intro comment hcomment
      obtain ⟨hmem, hencloses⟩ := List.mem_filter.1 hcomment
      rw [htree.encloses_eq] at hencloses
      exact host_eq_host hchildren (hpassed comment hmem) hencloses
    obtain ⟨first, hfirst, hdeposits⟩ := ih child.val child.property tree
      (comments.filter (tree.encloses options child)) htree
    have hhere := hdeposits.mono fun comment hcomment target slot hplace =>
      IsPlace.of_host_eq (hinside comment (hfirst.mem_iff.1 hcomment)) hplace
    have hstep : handDown options (tree, comments) child
        = (tree.place options child (comments.filter (tree.encloses options child)),
          comments.filter (!tree.encloses options child ·)) := by
      rw [handDown, List.partition_eq_filter_filter]
      rfl
    rw [List.foldl_cons, hstep]
    -- the other children get what this one does not enclose
    obtain ⟨hhosts, given, hperm, hrest⟩ := ihTodo (passed ++ [child])
      (by rw [hchildren, List.append_assoc, List.singleton_append])
      (comments.filter (!tree.encloses options child ·)) (fun comment hcomment other hother => by
        obtain ⟨hmem, hnot⟩ := List.mem_filter.1 hcomment
        rcases List.mem_append.1 hother with hother | hother
        · exact hpassed comment hmem other hother
        · rw [List.mem_singleton.1 hother, ← htree.encloses_eq]
          simpa using hnot) (hdeposits.sameShape.trans htree)
    refine ⟨hhosts, first ++ given, ?_, hhere.trans hrest⟩
    rw [List.append_assoc]
    exact (hfirst.append hperm).trans (List.filter_append_perm _ comments)

theorem place_deposits (hbase : base.IsBottomUp) (options : MergeOptions) (id : NodeId)
    (hid : id < base.size) (tree : Tree) (comments : List Comment) (htree : tree.SameShape base) :
    ∃ given, given.Perm comments
      ∧ Deposits (base.IsPlace options id) tree given (tree.place options id comments) := by
  induction id using Nat.strongRecOn generalizing tree comments with
  | _ id ih =>
    cases hempty : comments.isEmpty with
    | true =>
      rw [place, if_pos hempty, List.isEmpty_iff.1 hempty]
      exact ⟨[], .refl _, .nil⟩
    | false =>
      rw [place_eq_settle _ _ _ _ hempty, htree.childrenByBegin_eq]
      -- children have smaller numbers, which the induction is on
      have hbelow : ∀ child < id, ∀ tree comments, SameShape tree base → ∃ given,
          given.Perm comments
          ∧ Deposits (base.IsPlace options child) tree given (tree.place options child comments) :=
        fun child hlt tree comments htree => ih child hlt (Nat.lt_trans hlt hid) tree comments htree
      obtain ⟨hhosts, given, hperm, hdown⟩ :=
        handDown_deposits hbelow [] (base.childrenByBegin id) rfl comments nofun htree
      obtain ⟨settled, hsettled, hsettle⟩ := settle_deposits hbase hid
        ((base.childrenByBegin id).map (·.val)) (fun child hchild => by
          obtain ⟨found, hfound, rfl⟩ := List.mem_map.1 hchild
          exact mem_children_of_mem_byBegin hfound) _ hhosts (hdown.sameShape.trans htree)
      exact ⟨given ++ settled, (hsettled.append_left given).trans hperm, hdown.trans hsettle⟩

end Tree

end CodeMarkup
