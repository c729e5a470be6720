import Mathlib.Data.List.Chain
import CodeMarkup.Proofs.Reachability

namespace CodeMarkup

/-!
# The calls of a walk

A walk calls its visitor on the way down and on the way up, and the visitor may leave out what is
below a node.  Whatever it does, its calls follow the tree.

* `Visitor.traced`, `Tree.events`: a visitor that also keeps a log, and the log of a walk.
* `Tree.IsWalk`: the calls for nodes side by side, by the answers that were given.
* `Tree.walkFrom_traced`: a walk is made of such calls, and the log does not change it.
* `Tree.Follows`: what calls have to be like to follow a tree, with `Tree.IsWalk.follows`.
* `Tree.walkShared`: a walk with one path for all calls; `Tree.walkShared_eq` says that it leaves
  the path as it was.
-/

/-- A call of a visitor, with the ancestors of the node from the root on. -/
inductive WalkEvent where
  /-- On the way down; `goOn` is the answer. -/
  | enter (id : NodeId) (path : List NodeId) (goOn : Bool)
  /-- On the way up. -/
  | leave (id : NodeId) (path : List NodeId)
  deriving DecidableEq

namespace WalkEvent

/-- The node of a call. -/
def node : WalkEvent → NodeId
  | enter id _ _ => id
  | leave id _ => id

/-- The ancestors that a call is given. -/
def path : WalkEvent → List NodeId
  | enter _ path _ => path
  | leave _ path => path

/-- The node and the ancestors of a call on the way down. -/
def entered? : WalkEvent → Option (NodeId × List NodeId)
  | enter id path _ => some (id, path)
  | leave _ _ => none

/-- The node and the ancestors of a call on the way up. -/
def left? : WalkEvent → Option (NodeId × List NodeId)
  | enter _ _ _ => none
  | leave id path => some (id, path)

end WalkEvent

/-- Calls where each one on the way down has its call on the way up, for the same node and with the
    same ancestors, after all calls for what is below the node. -/
inductive WellNested : List WalkEvent → Prop where
  | nil : WellNested []
  | node {id : NodeId} {path : List NodeId} {goOn : Bool} {inner later : List WalkEvent}
      (hinner : WellNested inner) (hlater : WellNested later) :
      WellNested (.enter id path goOn :: (inner ++ .leave id path :: later))

variable {σ : Type}

namespace Visitor

/-- A visitor that also writes down how it is called and what it answers. -/
def traced (visitor : Visitor σ) : Visitor (σ × List WalkEvent) where
  enter id ancestors := fun (state, log) =>
    let (goOn, state) := visitor.enter id ancestors state
    (goOn, state, log ++ [.enter id ancestors.reverse goOn])
  leave id ancestors := fun (state, log) =>
    (visitor.leave id ancestors state, log ++ [.leave id ancestors.reverse])

/-- Calls of a visitor one after another, from a state to a state, with its own answers. -/
def Runs (visitor : Visitor σ) : σ → List WalkEvent → σ → Prop
  | state, [], final => final = state
  | state, .enter id path goOn :: events, final =>
    (visitor.enter id path.reverse state).1 = goOn
      ∧ visitor.Runs (visitor.enter id path.reverse state).2 events final
  | state, .leave id path :: events, final =>
    visitor.Runs (visitor.leave id path.reverse state) events final

variable {visitor : Visitor σ}

theorem Runs.append {state middle final : σ} {front back : List WalkEvent}
    (hfront : visitor.Runs state front middle) (hback : visitor.Runs middle back final) :
    visitor.Runs state (front ++ back) final := by
  induction front generalizing state with
  | nil =>
    have hsame : middle = state := hfront
    rw [List.nil_append, ← hsame]
    exact hback
  | cons event front ih =>
    cases event with
    | enter id path goOn => exact ⟨hfront.1, ih hfront.2⟩
    | leave id path => exact ih hfront

end Visitor

namespace Tree

variable {tree : Tree} {visitor : Visitor σ} {id : NodeId}

/-- The calls that a walk makes, in order. -/
def events (tree : Tree) (visitor : Visitor σ) (state : σ) : List WalkEvent :=
  (tree.walk visitor.traced (state, [])).2

/-- The calls for nodes side by side that have the same ancestors.  Only an answer to go on leads to
    calls for the children of a node. -/
inductive IsWalk (tree : Tree) : List NodeId → List NodeId → List WalkEvent → Prop where
  | nil {path : List NodeId} : IsWalk tree [] path []
  | skip {id : NodeId} {ids path : List NodeId} {later : List WalkEvent}
      (hlater : IsWalk tree ids path later) :
      IsWalk tree (id :: ids) path (.enter id path false :: .leave id path :: later)
  | goOn {id : NodeId} {ids path : List NodeId} {inner later : List WalkEvent}
      (hinner : IsWalk tree (tree.children id) (path ++ [id]) inner)
      (hlater : IsWalk tree ids path later) :
      IsWalk tree (id :: ids) path (.enter id path true :: (inner ++ .leave id path :: later))

/-- A node with its ancestors from the root on, followed by all below it, child by child. -/
def placesFrom (tree : Tree) (id : NodeId) (path : List NodeId) : List (NodeId × List NodeId) :=
  (id, path) :: (tree.below id).flatMap fun ⟨child, _⟩ => tree.placesFrom child (path ++ [id])
termination_by id

/-- Nodes from the root down, each a child of the one before it. -/
def IsPath (tree : Tree) (nodes : List NodeId) : Prop :=
  nodes.head? = some tree.root ∧ nodes.IsChain fun parent child => child ∈ tree.children parent

/-- A tree in which a walk cannot go round, and comes to each node once at most. -/
structure IsForest (tree : Tree) : Prop where
  isBottomUp : tree.IsBottomUp
  nodup : ((tree.placesFrom tree.root []).map Prod.fst).Nodup

/-- What calls have to be like to follow a tree. -/
structure Follows (tree : Tree) (events : List WalkEvent) : Prop where
  /-- Calls on the way down and on the way up are nested. -/
  wellNested : WellNested events
  /-- For each call on the way down there is one on the way up. -/
  left_perm : (events.filterMap WalkEvent.left?).Perm (events.filterMap WalkEvent.entered?)
  /-- A node is entered if it is the root or if its parent was entered with an answer to go on. -/
  entered_iff : ∀ id, id ∈ (events.filterMap WalkEvent.entered?).map Prod.fst
    ↔ id = tree.root ∨ ∃ parent path, .enter parent path true ∈ events ∧ id ∈ tree.children parent
  /-- No node is entered twice. -/
  entered_once : ((events.filterMap WalkEvent.entered?).map Prod.fst).Nodup
  /-- Nodes are entered with parents before children, and children in their order. -/
  entered_preorder :
    (events.filterMap WalkEvent.entered?).Sublist (tree.placesFrom tree.root [])
  /-- All calls are given the ancestors from the root on. -/
  isPath : ∀ event ∈ events, tree.IsPath (event.path ++ [event.node])

/-! ### From the walk to its calls -/

theorem IsWalk.append {ids others path : List NodeId} {front back : List WalkEvent}
    (hfront : tree.IsWalk ids path front) (hback : tree.IsWalk others path back) :
    tree.IsWalk (ids ++ others) path (front ++ back) := by
  induction hfront with
  | nil => exact hback
  | skip _ ih => exact .skip (ih hback)
  | goOn hinner _ _ ih =>
    rw [List.cons_append, List.cons_append, List.append_assoc, List.cons_append]
    exact .goOn hinner (ih hback)

/-- Children one after another: the log of each is added to the log before. -/
theorem foldl_traced {kids : List { child : NodeId // child < id }} (ancestors : List NodeId)
    (hkids : ∀ kid ∈ kids, ∀ state log, ∃ events,
      tree.walkFrom visitor.traced kid.val ancestors (state, log)
          = (tree.walkFrom visitor kid.val ancestors state, log ++ events)
        ∧ tree.IsWalk [kid.val] ancestors.reverse events
        ∧ visitor.Runs state events (tree.walkFrom visitor kid.val ancestors state))
    (state : σ) (log : List WalkEvent) :
    ∃ events, kids.foldl
          (fun state ⟨child, _⟩ => tree.walkFrom visitor.traced child ancestors state) (state, log)
        = (kids.foldl (fun state ⟨child, _⟩ => tree.walkFrom visitor child ancestors state) state,
          log ++ events)
      ∧ tree.IsWalk (kids.map Subtype.val) ancestors.reverse events
      ∧ visitor.Runs state events (kids.foldl
        (fun state ⟨child, _⟩ => tree.walkFrom visitor child ancestors state) state) := by
  induction kids generalizing state log with
  | nil => exact ⟨[], by simp, .nil, rfl⟩
  | cons kid kids ih =>
    obtain ⟨hfirst, hothers⟩ := List.forall_mem_cons.1 hkids
    obtain ⟨front, hfront, hwalk, hruns⟩ := hfirst state log
    obtain ⟨back, hback, hwalk', hruns'⟩ :=
      ih hothers (tree.walkFrom visitor kid.val ancestors state) (log ++ front)
    refine ⟨front ++ back, ?_, hwalk.append hwalk', hruns.append hruns'⟩
    rw [List.foldl_cons]
    show kids.foldl _ (tree.walkFrom visitor.traced kid.val ancestors (state, log)) = _
    rw [hfront, hback, List.append_assoc]
    rfl

/-- **A walk is made of its calls.**  Writing them down changes nothing, they are those that the
    answers of the visitor lead to, and the result of the walk is the state after the last one. -/
theorem walkFrom_traced (h : tree.IsBottomUp) (visitor : Visitor σ) (id : NodeId)
    (ancestors : List NodeId) (state : σ) (log : List WalkEvent) :
    ∃ events, tree.walkFrom visitor.traced id ancestors (state, log)
        = (tree.walkFrom visitor id ancestors state, log ++ events)
      ∧ tree.IsWalk [id] ancestors.reverse events
      ∧ visitor.Runs state events (tree.walkFrom visitor id ancestors state) := by
  induction id using Nat.strongRecOn generalizing ancestors state log with
  | _ id ih =>
    cases hanswer : visitor.enter id ancestors state with
    | mk goOn next =>
      have hreverse : ancestors.reverse.reverse = ancestors := List.reverse_reverse ancestors
      cases goOn with
      | false =>
        refine ⟨[.enter id ancestors.reverse false, .leave id ancestors.reverse], ?_,
          .skip .nil, ?_⟩
        · rw [walkFrom, walkFrom]
          simp [Visitor.traced, hanswer]
        · rw [walkFrom]
          simp [Visitor.Runs, hanswer]
      | true =>
        obtain ⟨inner, hfold, hwalk, hruns⟩ := foldl_traced (id :: ancestors)
          (fun kid _ state log => ih kid.val kid.property (id :: ancestors) state log) next
          (log ++ [.enter id ancestors.reverse true])
        rw [h.map_below, List.reverse_cons] at hwalk
        refine ⟨.enter id ancestors.reverse true :: (inner ++ [.leave id ancestors.reverse]), ?_,
          .goOn hwalk .nil, ?_⟩
        · rw [walkFrom, walkFrom]
          simp only [Visitor.traced, hanswer, if_true] at hfold ⊢
          rw [hfold]
          simp
        · rw [walkFrom]
          simp only [Visitor.Runs, hreverse, hanswer, if_true, true_and]
          refine hruns.append ?_
          simp [Visitor.Runs]

theorem events_isWalk (h : tree.IsBottomUp) (visitor : Visitor σ) (state : σ) :
    tree.IsWalk [tree.root] [] (tree.events visitor state)
      ∧ visitor.Runs state (tree.events visitor state) (tree.walk visitor state)
      ∧ (tree.walk visitor.traced (state, [])).1 = tree.walk visitor state := by
  obtain ⟨events, hwalk, hcalls, hruns⟩ := walkFrom_traced h visitor tree.root [] state []
  have hevents : tree.events visitor state = events := by
    rw [Tree.events, walk, hwalk, List.nil_append]
  rw [hevents]
  exact ⟨hcalls, hruns, by rw [walk, hwalk]; rfl⟩

/-! ### Places -/

theorem IsBottomUp.placesFrom_eq (h : tree.IsBottomUp) (id : NodeId) (path : List NodeId) :
    tree.placesFrom id path
      = (id, path) :: (tree.children id).flatMap fun child =>
          tree.placesFrom child (path ++ [id]) := by
  rw [placesFrom, ← h.map_below, List.flatMap_map]

/-- The places depend on nothing but the children. -/
theorem placesFrom_congr {other : Tree} (h : ∀ id, other.children id = tree.children id)
    (id : NodeId) (path : List NodeId) : other.placesFrom id path = tree.placesFrom id path := by
  induction id using Nat.strongRecOn generalizing path with
  | _ id ih =>
    have hbelow : other.below id = tree.below id := by rw [below, below, h]
    rw [placesFrom, placesFrom, hbelow]
    refine congrArg _ (List.flatMap_congr fun kid _ => ?_)
    exact ih kid.val kid.property _

theorem SameShape.isForest {other : Tree} (h : other.SameShape tree) (hforest : tree.IsForest) :
    other.IsForest := by
  constructor
  · intro id child hchild
    rw [h.children_eq] at hchild
    exact hforest.isBottomUp id child hchild
  · rw [h.root_eq, placesFrom_congr h.children_eq]
    exact hforest.nodup

/-! ### Following the tree -/

namespace IsWalk

variable {ids path : List NodeId} {events : List WalkEvent}

theorem wellNested (h : tree.IsWalk ids path events) : WellNested events := by
  induction h with
  | nil => exact .nil
  | skip _ ih => exact .node .nil ih
  | goOn _ _ hinner hlater => exact .node hinner hlater

/-- What is entered, beside the nodes themselves, are children of nodes where the walk goes on. -/
theorem mem_entered_iff (h : tree.IsWalk ids path events) (target : NodeId) :
    target ∈ (events.filterMap WalkEvent.entered?).map Prod.fst
      ↔ target ∈ ids ∨ ∃ parent path, .enter parent path true ∈ events
        ∧ target ∈ tree.children parent := by
  induction h with
  | nil => simp
  | skip _ ih =>
    simp only [List.filterMap_cons, WalkEvent.entered?, List.map_cons, List.mem_cons, ih,
      WalkEvent.enter.injEq, reduceCtorEq, and_false, false_or, or_assoc]
  | goOn _ _ hinner hlater =>
    simp only [List.filterMap_cons, List.filterMap_append, WalkEvent.entered?, List.map_cons,
      List.map_append, List.mem_cons, List.mem_append, hinner, hlater, WalkEvent.enter.injEq,
      and_true, reduceCtorEq, false_or]
    constructor
    · rintro (rfl | (hchild | ⟨parent, path, hmem, hchild⟩)
        | (hother | ⟨parent, path, hmem, hchild⟩))
      · exact .inl (.inl rfl)
      · exact .inr ⟨_, _, .inl ⟨rfl, rfl⟩, hchild⟩
      · exact .inr ⟨parent, path, .inr (.inl hmem), hchild⟩
      · exact .inl (.inr hother)
      · exact .inr ⟨parent, path, .inr (.inr hmem), hchild⟩
    · rintro ((rfl | hother) | ⟨parent, path, ⟨rfl, rfl⟩ | hmem | hmem, hchild⟩)
      · exact .inl rfl
      · exact .inr (.inr (.inl hother))
      · exact .inr (.inl (.inl hchild))
      · exact .inr (.inl (.inr ⟨parent, path, hmem, hchild⟩))
      · exact .inr (.inr (.inr ⟨parent, path, hmem, hchild⟩))

/-- What is left out is left out of the places, and nothing is moved. -/
theorem entered_sublist (hbase : tree.IsBottomUp) (h : tree.IsWalk ids path events) :
    (events.filterMap WalkEvent.entered?).Sublist
      (ids.flatMap fun id => tree.placesFrom id path) := by
  induction h with
  | nil => exact .slnil
  | @skip id ids path later _ ih =>
    rw [List.flatMap_cons, hbase.placesFrom_eq]
    simp only [List.filterMap_cons, WalkEvent.entered?]
    exact (ih.trans (List.sublist_append_right _ _)).cons_cons _
  | @goOn id ids path inner later _ _ hinner hlater =>
    rw [List.flatMap_cons, hbase.placesFrom_eq]
    simp only [List.filterMap_cons, List.filterMap_append, WalkEvent.entered?]
    exact (hinner.append hlater).cons_cons _

/-- A path goes on with a child. -/
theorem isPath_concat {nodes : List NodeId} {parent child : NodeId}
    (h : tree.IsPath (nodes ++ [parent])) (hchild : child ∈ tree.children parent) :
    tree.IsPath (nodes ++ [parent] ++ [child]) := by
  obtain ⟨hhead, hchain⟩ := h
  refine ⟨by simpa using hhead, List.IsChain.append hchain (.singleton child) ?_⟩
  intro last hlast first hfirst
  rw [List.getLast?_concat, Option.mem_some] at hlast
  rw [List.head?_cons, Option.mem_some] at hfirst
  rw [← hlast, ← hfirst]
  exact hchild

theorem isPath (h : tree.IsWalk ids path events) (hids : ∀ id ∈ ids, tree.IsPath (path ++ [id])) :
    ∀ event ∈ events, tree.IsPath (event.path ++ [event.node]) := by
  induction h with
  | nil => simp
  | @skip id ids path later _ ih =>
    obtain ⟨hfirst, hothers⟩ := List.forall_mem_cons.1 hids
    simp only [List.forall_mem_cons]
    exact ⟨hfirst, hfirst, ih hothers⟩
  | @goOn id ids path inner later _ _ hinner hlater =>
    obtain ⟨hfirst, hothers⟩ := List.forall_mem_cons.1 hids
    simp only [List.forall_mem_cons, List.forall_mem_append]
    exact ⟨hfirst, hinner fun child hchild => isPath_concat hfirst hchild, hfirst, hlater hothers⟩

end IsWalk

end Tree

theorem WellNested.left_perm {events : List WalkEvent} (h : WellNested events) :
    (events.filterMap WalkEvent.left?).Perm (events.filterMap WalkEvent.entered?) := by
  induction h with
  | nil => exact .nil
  | @node id path goOn inner later _ _ hinner hlater =>
    simp only [List.filterMap_cons, List.filterMap_append, WalkEvent.left?, WalkEvent.entered?]
    exact List.perm_middle.trans ((hinner.append hlater).cons _)

namespace Tree

variable {tree : Tree}

/-- **Walks follow the tree.** -/
theorem IsWalk.follows {events : List WalkEvent} (hforest : tree.IsForest)
    (h : tree.IsWalk [tree.root] [] events) : tree.Follows events := by
  have hsublist : (events.filterMap WalkEvent.entered?).Sublist (tree.placesFrom tree.root []) := by
    simpa using h.entered_sublist hforest.isBottomUp
  exact {
    wellNested := h.wellNested
    left_perm := h.wellNested.left_perm
    entered_iff := fun id => by simpa using h.mem_entered_iff id
    entered_once := hforest.nodup.sublist (hsublist.map Prod.fst)
    entered_preorder := hsublist
    isPath := h.isPath (by simp [IsPath]) }

/-! ### One path for all calls -/

/-- Walks from a node with a path that all calls share: the node is added before its children are
    walked, and the last node of the path is removed after that. -/
def walkShared (tree : Tree) (visitor : Visitor σ) (id : NodeId) (path : List NodeId) (state : σ) :
    List NodeId × σ :=
  let (goOn, state) := visitor.enter id path.reverse state
  let (path, state) :=
    if goOn then
      let (path, state) := (tree.below id).foldl
        (fun (path, state) ⟨child, _⟩ => tree.walkShared visitor child path state)
        (path ++ [id], state)
      (path.dropLast, state)
    else (path, state)
  (path, visitor.leave id path.reverse state)
termination_by id

/-- **The shared path is left as it was**, and the calls are given the ancestors of their nodes. -/
theorem walkShared_eq (tree : Tree) (visitor : Visitor σ) (id : NodeId) (path : List NodeId)
    (state : σ) :
    tree.walkShared visitor id path state
      = (path, tree.walkFrom visitor id path.reverse state) := by
  induction id using Nat.strongRecOn generalizing path state with
  | _ id ih =>
    have hkids : ∀ (kids : List { child : NodeId // child < id }) (path : List NodeId) (state : σ),
        kids.foldl (fun (path, state) ⟨child, _⟩ => tree.walkShared visitor child path state)
            (path, state)
          = (path, kids.foldl
              (fun state ⟨child, _⟩ => tree.walkFrom visitor child path.reverse state) state) := by
      intro kids
      induction kids with
      | nil => intro path state; rfl
      | cons kid kids hrest =>
        intro path state
        rw [List.foldl_cons, List.foldl_cons]
        show kids.foldl _ (tree.walkShared visitor kid.val path state) = _
        rw [ih kid.val kid.property, hrest]
    rw [walkShared, walkFrom]
    cases visitor.enter id path.reverse state with
    | mk goOn next =>
      cases goOn with
      | false => rfl
      | true => simp only [if_true, hkids, List.dropLast_concat, List.reverse_append,
          List.reverse_singleton, List.singleton_append]

end Tree

end CodeMarkup
