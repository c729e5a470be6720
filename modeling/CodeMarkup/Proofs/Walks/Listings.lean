import CodeMarkup.Listing.Nodes
import CodeMarkup.Proofs.Walks.Events

namespace CodeMarkup

/-!
# Listings of the same nodes

The outline of a tree comes from a walk, and its json from visiting the children of each node in
turn.  Both show the nodes of the tree from the root on, in one order.

* `Visitor.gathering`, `Tree.gather`: visitors that always go on and add lines, and what they
  gather.
* `NodeEntry`: what a listing shows of a node.  `JsonValue.entries` reads the entries from json, and
  `isNodeLine` tells the lines of nodes from those of comments.
* `Tree.outline_nodeLines`, `Tree.toJson_entries`: both listings show the places of the tree.
* `Source.walk_follows`: walks of parsed trees, and their listings.
-/

/-! ### Gathering -/

/-- A visitor that always goes on, and puts what it gathers in front. -/
def Visitor.gathering {α : Type} (before after : NodeId → List NodeId → List α) :
    Visitor (List α) where
  enter id ancestors seen := (true, (before id ancestors).reverse ++ seen)
  leave id ancestors seen := (after id ancestors).reverse ++ seen

namespace Tree

variable {tree : Tree} {α : Type} {before after : NodeId → List NodeId → List α}

/-- What comes before and after each node, with what is below the node in between. -/
def gather (tree : Tree) (before after : NodeId → List NodeId → List α) (id : NodeId)
    (ancestors : List NodeId) : List α :=
  before id ancestors
    ++ (tree.below id).flatMap (fun ⟨child, _⟩ => tree.gather before after child (id :: ancestors))
    ++ after id ancestors
termination_by id

theorem walkFrom_gathering (tree : Tree) (before after : NodeId → List NodeId → List α)
    (id : NodeId) (ancestors : List NodeId) (seen : List α) :
    tree.walkFrom (.gathering before after) id ancestors seen
      = (tree.gather before after id ancestors).reverse ++ seen := by
  induction id using Nat.strongRecOn generalizing ancestors seen with
  | _ id ih =>
    have hkids : ∀ (kids : List { child : NodeId // child < id }) (seen : List α),
        kids.foldl (fun seen ⟨child, _⟩ =>
            tree.walkFrom (.gathering before after) child (id :: ancestors) seen) seen
          = (kids.flatMap fun ⟨child, _⟩ =>
              tree.gather before after child (id :: ancestors)).reverse ++ seen := by
      intro kids
      induction kids with
      | nil => intro seen; rfl
      | cons kid kids hrest =>
        intro seen
        rw [List.foldl_cons, List.flatMap_cons, List.reverse_append, List.append_assoc,
          ← ih kid.val kid.property]
        exact hrest _
    rw [walkFrom, gather]
    simp only [Visitor.gathering, if_true] at hkids ⊢
    rw [hkids]
    simp only [List.reverse_append, List.append_assoc]

/-- If what is kept of the lines around each node is one line, the lines that are kept are those of
    the places, one after another. -/
theorem filter_gather (tree : Tree) (keep : α → Bool) (line : NodeId → List NodeId → α)
    (hbefore : ∀ id ancestors, (before id ancestors).filter keep = [line id ancestors])
    (hafter : ∀ id ancestors, (after id ancestors).filter keep = []) (id : NodeId)
    (ancestors : List NodeId) :
    (tree.gather before after id ancestors).filter keep
      = (tree.placesFrom id ancestors.reverse).map fun place =>
          line place.1 place.2.reverse := by
  induction id using Nat.strongRecOn generalizing ancestors with
  | _ id ih =>
    rw [gather, placesFrom, List.filter_append, List.filter_append, hbefore, hafter,
      List.append_nil, List.filter_flatMap, List.map_cons, List.map_flatMap, List.reverse_reverse,
      List.singleton_append]
    refine congrArg _ (List.flatMap_congr fun kid _ => ?_)
    rw [← List.reverse_cons]
    exact ih kid.val kid.property (id :: ancestors)

theorem preorderVisitor_eq :
    preorderVisitor = .gathering (fun id ancestors => [(id, ancestors)]) fun _ _ => [] :=
  rfl

theorem preorder_eq (tree : Tree) :
    tree.preorder
      = (tree.placesFrom tree.root []).map fun place => (place.1, place.2.reverse) := by
  rw [preorder, walk, preorderVisitor_eq, walkFrom_gathering, List.append_nil,
    List.reverse_reverse]
  rw [← List.filter_true (tree.gather _ _ _ _)]
  exact tree.filter_gather (fun _ => true) (fun id ancestors => (id, ancestors))
    (fun _ _ => rfl) (fun _ _ => rfl) tree.root []

theorem IsParsed.isForest {source : Source} {body : List Token} (h : tree.IsParsed source body) :
    tree.IsForest := by
  refine ⟨h.isBottomUp, ?_⟩
  have hnodup := h.preorder_enters.1
  rw [preorder_eq, List.map_map] at hnodup
  exact hnodup

end Tree

/-! ### Entries -/

/-- What a listing shows of a node. -/
structure NodeEntry where
  /-- The number of its ancestors. -/
  depth : Nat
  /-- Its form, with the name or symbol that it stands for. -/
  label : String
  /-- Where it begins. -/
  first : String
  /-- Where it ends. -/
  last : String
  deriving DecidableEq

/-- The entry as a line. -/
def NodeEntry.line (entry : NodeEntry) : String :=
  outlineIndent entry.depth ++ entry.label ++ " " ++ entry.first ++ "-" ++ entry.last

/-- The entry of a node that has so many ancestors. -/
def Tree.entry (tree : Tree) (id : NodeId) (depth : Nat) : NodeEntry :=
  ⟨depth, (tree.kind id).label, (tree.node id).extent.first.text, (tree.node id).extent.last.text⟩

/-- Whether a line shows a node: the lines of comments have marks after their indentation. -/
def isNodeLine (line : String) : Bool :=
  match line.toList.dropWhile (· = ' ') with
  | [] => false
  | c :: _ => c ≠ '=' && c ≠ '~'

namespace JsonValue

/-- The members of the json of a node. -/
def nodeKeys : List String :=
  ["node", "begin", "end", "comment", "orphans", "children"]

mutual

/-- The entries that the json of a node shows, from the node on. -/
def entries (depth : Nat) : JsonValue → List NodeEntry
  | .object [(node, .string label), (first, .string begins), (last, .string ends),
      (comment, _), (orphans, _), (below, .array children)] =>
    if [node, first, last, comment, orphans, below] = nodeKeys then
      ⟨depth, label, begins, ends⟩ :: entriesAll (depth + 1) children
    else []
  | _ => []

/-- The entries that the json of nodes side by side shows. -/
def entriesAll (depth : Nat) : List JsonValue → List NodeEntry
  | [] => []
  | value :: rest => entries depth value ++ entriesAll depth rest

end

theorem entriesAll_eq (depth : Nat) (values : List JsonValue) :
    entriesAll depth values = values.flatMap (entries depth) := by
  induction values with
  | nil => rw [entriesAll]; rfl
  | cons value values ih => rw [entriesAll, ih, List.flatMap_cons]

end JsonValue

namespace Tree

variable (tree : Tree)

/-! ### Json -/

theorem entries_nodeJson (node : Node) (children : List JsonValue) (depth : Nat) :
    (nodeJson node children).entries depth
      = ⟨depth, node.kind.label, node.extent.first.text, node.extent.last.text⟩
        :: children.flatMap (JsonValue.entries (depth + 1)) := by
  have hkeys : ["node", "begin", "end", "comment", "orphans", "children"] = JsonValue.nodeKeys :=
    rfl
  rw [nodeJson, JsonValue.entries, if_pos hkeys, JsonValue.entriesAll_eq]

theorem toJsonFrom_entries (id : NodeId) (path : List NodeId) :
    (tree.toJsonFrom id).entries path.length
      = (tree.placesFrom id path).map fun place => tree.entry place.1 place.2.length := by
  induction id using Nat.strongRecOn generalizing path with
  | _ id ih =>
    rw [toJsonFrom, placesFrom, entries_nodeJson, List.flatMap_map, List.map_cons,
      List.map_flatMap]
    refine congrArg _ (List.flatMap_congr fun kid _ => ?_)
    have hkid := ih kid.val kid.property (path ++ [id])
    rwa [List.length_append, List.length_singleton] at hkid

/-- **The json shows the places of the tree.** -/
theorem toJson_entries :
    tree.toJson.entries 0
      = (tree.placesFrom tree.root []).map fun place => tree.entry place.1 place.2.length :=
  tree.toJsonFrom_entries tree.root []

/-! ### Outlines -/

/-- What a line shows is told by the first character that is not a space. -/
theorem isNodeLine_eq {line : String} {c : Char} {indent : List Char}
    (hline : ∃ text, line.toList = indent ++ c :: text) (hindent : ∀ d ∈ indent, d = ' ')
    (hc : c ≠ ' ') : isNodeLine line = (c ≠ '=' && c ≠ '~') := by
  obtain ⟨text, hline⟩ := hline
  have hdrop : line.toList.dropWhile (· = ' ') = c :: text := by
    rw [hline, List.dropWhile_append_of_pos (by simpa using hindent)]
    simp [hc]
  rw [isNodeLine, hdrop]

theorem eq_space_of_mem_outlineIndent {depth : Nat} {d : Char}
    (h : d ∈ (outlineIndent depth).toList) : d = ' ' := by
  rw [outlineIndent, String.toList_ofList] at h
  exact List.eq_of_mem_replicate h

/-- No form has a name that starts with a mark of comments. -/
theorem formName_head (kind : NodeKind) :
    kind.formName.toList.head?.any (fun c => c ≠ ' ' && (c ≠ '=' && c ≠ '~')) = true := by
  cases kind <;> simp [NodeKind.formName]

theorem isNodeLine_line (id : NodeId) (depth : Nat) :
    isNodeLine (tree.entry id depth).line = true := by
  have hhead := formName_head (tree.kind id)
  rw [Option.any_eq_true] at hhead
  obtain ⟨c, hc, hmark⟩ := hhead
  obtain ⟨form, hform⟩ := List.head?_eq_some_iff.1 hc
  obtain ⟨label, hlabel⟩ : ∃ label, (tree.kind id).label.toList = c :: label := by
    unfold NodeKind.label
    split
    · exact ⟨_, by rw [String.toList_append, String.toList_append, hform]; rfl⟩
    · exact ⟨form, hform⟩
  simp only [Bool.and_eq_true, decide_eq_true_eq] at hmark
  have hline : ∃ text, (tree.entry id depth).line.toList
      = (outlineIndent depth).toList ++ c :: text := by
    simp [NodeEntry.line, entry, hlabel]
  rw [isNodeLine_eq hline (fun d => eq_space_of_mem_outlineIndent) hmark.1]
  simp [hmark.2]

theorem isNodeLine_commentLine {mark : String} {c : Char} (hmark : mark.toList = [c])
    (hc : c = '=' ∨ c = '~') (depth : Nat) (comment : Comment) :
    isNodeLine (commentLine mark depth comment) = false := by
  have hindent : ∀ d ∈ (outlineIndent depth).toList ++ [' ', ' '], d = ' ' := by
    intro d hd
    rcases List.mem_append.1 hd with hd | hd
    · exact eq_space_of_mem_outlineIndent hd
    · simpa using hd
  have hline : ∃ text, (commentLine mark depth comment).toList
      = ((outlineIndent depth).toList ++ [' ', ' ']) ++ c :: text := by
    simp [commentLine, hmark]
  rw [isNodeLine_eq hline hindent (by rcases hc with rfl | rfl <;> decide)]
  rcases hc with rfl | rfl <;> decide

/-- **The lines of nodes in an outline are those of the places of the tree.** -/
theorem outline_nodeLines :
    tree.outline.filter isNodeLine
      = (tree.placesFrom tree.root []).map fun place =>
          (tree.entry place.1 place.2.length).line := by
  have hvisitor : tree.outlineVisitor = .gathering
      (fun id ancestors => tree.outlineLine id ancestors.length
        :: (tree.node id).comment.toList.map (commentLine "=" ancestors.length))
      (fun id ancestors => (tree.node id).orphans.map (commentLine "~" ancestors.length)) := by
    simp [outlineVisitor, Visitor.gathering]
  have hcomments : ∀ {mark : String} {c : Char}, mark.toList = [c] → (c = '=' ∨ c = '~') →
      ∀ (depth : Nat) (comments : List Comment),
        (comments.map (commentLine mark depth)).filter isNodeLine = [] := by
    intro mark c hmark hc depth comments
    simp [List.filter_eq_nil_iff, isNodeLine_commentLine hmark hc]
  rw [outline, walk, hvisitor, walkFrom_gathering, List.append_nil, List.reverse_reverse,
    tree.filter_gather isNodeLine fun id ancestors => (tree.entry id ancestors.length).line]
  · simp
  · intro id ancestors
    have hline : isNodeLine (tree.outlineLine id ancestors.length) = true :=
      tree.isNodeLine_line id ancestors.length
    rw [List.filter_cons_of_pos hline, hcomments (c := '=') rfl (.inl rfl)]
    rfl
  · intro id ancestors
    exact hcomments (c := '~') rfl (.inr rfl) _ _

end Tree

/-! ### Parsed trees -/

/-- Trees with and without their comments come to each node once at most. -/
theorem Source.isForest_of_parse {source : Source} {entry : EntryPoint} {tree : Tree}
    (h : source.parse entry = .ok tree
      ∨ ∃ options, source.parseWithComments entry options = .ok tree) : tree.IsForest := by
  rcases h with h | ⟨options, h⟩
  · obtain ⟨body, -, -, hparsed⟩ := Source.parse_eq_ok h
    exact hparsed.isForest
  · unfold Source.parseWithComments at h
    cases hparse : source.parse entry with
    | error error =>
      rw [hparse] at h
      cases h
    | ok parsed =>
      rw [hparse] at h
      cases h
      obtain ⟨body, -, -, hparsed⟩ := Source.parse_eq_ok hparse
      obtain ⟨_, _, hrun⟩ := Tree.attributeComments_deposits hparsed.isBottomUp hparsed.root_lt
        hparsed.comments_eq_nil options source.comments
      exact hrun.sameShape.isForest hparsed.isForest

/-- **Walks follow parsed trees.**  Whatever the visitor does, its calls are nested, a node is
    entered if its parent was entered with an answer to go on, once and in the order of the places,
    and all calls are given the ancestors of their nodes.  The visitor is called in this way and no
    other, and a path that all calls share is left as it was.  The outline and the json show the
    same nodes with the same labels and positions, in the order of the places. -/
theorem Source.walk_follows (source : Source) (entry : EntryPoint) (tree : Tree)
    (h : source.parse entry = .ok tree
      ∨ ∃ options, source.parseWithComments entry options = .ok tree) :
    (∀ (σ : Type) (visitor : Visitor σ) (state : σ),
      tree.Follows (tree.events visitor state)
        ∧ visitor.Runs state (tree.events visitor state) (tree.walk visitor state)
        ∧ (tree.walk visitor.traced (state, [])).1 = tree.walk visitor state
        ∧ ∀ id path, tree.walkShared visitor id path state
          = (path, tree.walkFrom visitor id path.reverse state))
      ∧ (∀ id path, tree.placesFrom id path
        = (id, path) :: (tree.children id).flatMap fun child =>
            tree.placesFrom child (path ++ [id]))
      ∧ tree.outline.filter isNodeLine = (tree.toJson.entries 0).map NodeEntry.line
      ∧ tree.toJson.entries 0
        = (tree.placesFrom tree.root []).map fun place =>
            tree.entry place.1 place.2.length := by
  have hforest := Source.isForest_of_parse h
  refine ⟨fun σ visitor state => ?_, hforest.isBottomUp.placesFrom_eq, ?_, tree.toJson_entries⟩
  · obtain ⟨hwalk, hruns, hstate⟩ := Tree.events_isWalk hforest.isBottomUp visitor state
    exact ⟨hwalk.follows hforest, hruns, hstate,
      fun id path => tree.walkShared_eq visitor id path state⟩
  · rw [tree.outline_nodeLines, tree.toJson_entries, List.map_map]
    rfl

/-- The visitor that counts the nodes and leaves out what is below one of them. -/
def Visitor.skipping (skipped : NodeId) : Visitor Nat where
  enter id _ count := (id != skipped, count + 1)
  leave _ _ count := count

/-- What is below the call is left out, and both listings show all four nodes. -/
theorem Source.walk_follows_skippedCall :
    ∃ tree, (Source.ofText "a + f(b)").parse .expression = .ok tree
      ∧ tree.events (.skipping 2) 0
        = [.enter 3 [] true, .enter 0 [3] true, .leave 0 [3], .enter 2 [3] false, .leave 2 [3],
          .leave 3 []]
      ∧ tree.Follows (tree.events (.skipping 2) 0)
      ∧ (tree.toJson.entries 0).length = 4
      ∧ tree.outline.filter isNodeLine = (tree.toJson.entries 0).map NodeEntry.line := by
  obtain ⟨tree, hparse, hevents, hlength⟩ : ∃ tree,
      (Source.ofText "a + f(b)").parse .expression = .ok tree
        ∧ tree.events (.skipping 2) 0
          = [.enter 3 [] true, .enter 0 [3] true, .leave 0 [3], .enter 2 [3] false, .leave 2 [3],
            .leave 3 []]
        ∧ (tree.toJson.entries 0).length = 4 := Source.exists_eq_ok_and (by decide +kernel)
  obtain ⟨hwalks, -, hlistings, -⟩ := Source.walk_follows _ _ tree (.inl hparse)
  exact ⟨tree, hparse, hevents, (hwalks Nat (.skipping 2) 0).1, hlength, hlistings⟩

end CodeMarkup
