import CodeMarkup.Proofs.Parsing.Leaves

namespace CodeMarkup

/-!
# The forest that a parse builds

A parse makes nodes bottom-up: at any time it holds a row of trees that have no parent yet, and a
new node takes some of them as its children.

* `NodeKind.IsKeyed`: the entries of a json object have keys, all of them different, and those of a
  json array have none.
* `ArePast`, `NodeKind.IsFormed`: parts of a form that are followed by a token of it stop before it
  does.
* `AreApart`, `NodeKind.IsSpaced`: parts of a form stop before the next one starts, but for the type
  of a method with dimensions after its parameters.
* `NodeKind.IsMarked`: where the annotations in front of a form end.
* `Node.IsSound`, `IsArena`: a node covers its children, which were made before it and start one
  after another; every node of a sequence is such a node.
* `Row`: trees between two offsets, made since some point, none of which has a parent or is listed
  twice.  Rows add up (`Row.append`), and a node may take the place of its children (`Row.wrap`).
* `Accounts`: no node made since some point is lost: it is in the row, has a parent, or was passed
  over by a later node in one of the two ways of `LeftOut`.
* `Reads s ids t`: from `s` to `t` the parse made the row `ids` out of the tokens it took.
* `Yields s ids t`: so it did, and the trees of the row are apart.
* `Takes`, `Closes`, `Makes`: a stretch that takes at least one token; one that ends with a token
  after all its trees; one that makes a single node of all its tokens.
-/

/-- The span of a node of a sequence. -/
def spanIn (nodes : Array Node) (id : NodeId) : Span :=
  ((nodes[id]?).getD .blank).span

/-- The form of a node of a sequence. -/
def kindIn (nodes : Array Node) (id : NodeId) : NodeKind :=
  ((nodes[id]?).getD .blank).kind

/-- The children of all nodes from an index on. -/
def childrenFrom (nodes : Array Node) (n : Nat) : List NodeId :=
  (nodes.toList.drop n).flatMap (·.kind.children)

/-- The text of a form that may stand as a key. -/
def NodeKind.keyText? : NodeKind → Option String
  | .literal (.string text) | .literal (.integer text) | .literal (.long text)
  | .literal (.double text) | .simpleName text => some text
  | _ => none

/-- The text of the key of an entry, if the node is an entry with a key. -/
def keyIn (nodes : Array Node) (id : NodeId) : Option String :=
  match kindIn nodes id with
  | .jsonEntry (some key) _ => (kindIn nodes key).keyText?
  | _ => none

/-- A form whose entries have keys if it is a json object, no two of them with the same text, and
    none if it is a json array. -/
def NodeKind.IsKeyed (nodes : Array Node) : NodeKind → Prop
  | .json false entries => (∀ entry ∈ entries, keyIn nodes entry ≠ none)
      ∧ (entries.map (keyIn nodes)).Nodup
  | .json true entries => ∀ entry ∈ entries, ∃ value, kindIn nodes entry = .jsonEntry none value
  | _ => True

/-- Nodes of a sequence that stop before an offset. -/
def ArePast (nodes : Array Node) (stop : Nat) (ids : List NodeId) : Prop :=
  ∀ id ∈ ids, id < nodes.size ∧ (spanIn nodes id).stop < stop

/-- What a form that stops at an offset asks of its parts.  The entries of a json container are
    keyed or not, as it asks; and in an operation or an operand, parts that are followed by a token
    of the form stop before it does. -/
def NodeKind.IsFormed (nodes : Array Node) (stop : Nat) : NodeKind → Prop
  | .json isArray entries =>
    (NodeKind.json isArray entries).IsKeyed nodes ∧ ArePast nodes stop entries
  | .binary left _ _ => ArePast nodes stop [left]
  | .instanceOf expression _ => ArePast nodes stop [expression]
  | .unary op operand => op.isTrailing = true → ArePast nodes stop [operand]
  | .cast type _ => ArePast nodes stop [type]
  | .arrayCreation _ sizes _ _ => ArePast nodes stop sizes
  | .objectCreation scope type arguments body =>
    ArePast nodes stop (NodeKind.objectCreation scope type arguments body).children
  | .methodCall scope types name arguments =>
    ArePast nodes stop (NodeKind.methodCall scope types name arguments).children
  | .classType scope name arguments =>
    ArePast nodes stop (NodeKind.classType scope name arguments).children
  | .arrayAccess array index => ArePast nodes stop [array, index]
  | .arrayType part | .fieldAccess part _ | .enclosed part | .classLiteral part
  | .methodReference part _ => ArePast nodes stop [part]
  | .thisExpr part | .superExpr part => ArePast nodes stop part.toList
  | .arrayInitializer parts | .template _ parts => ArePast nodes stop parts
  | _ => True

/-- Nodes of a sequence that stand one after another: each stops before the next one starts. -/
def AreApart (nodes : Array Node) (ids : List NodeId) : Prop :=
  ids.Pairwise fun a b => (spanIn nodes a).stop ≤ (spanIn nodes b).start

/-- A type made of another one by dimensions around it. -/
inductive Wrapped (nodes : Array Node) (base : NodeId) : NodeId → Prop where
  | refl : Wrapped nodes base base
  | dims {component type : NodeId} (h : Wrapped nodes base component)
      (hkind : kindIn nodes type = .arrayType component) : Wrapped nodes base type

/-- The type of a method with dimensions after its parameters: these wrap the type `base` that
    stands in front of the parameters, so that the whole reaches over them. -/
structure Overhangs (nodes : Array Node) (base returnType : NodeId) (params : List NodeId) :
    Prop where
  base_le : base ≤ returnType
  wrapped : Wrapped nodes base returnType
  stop_lt : base ≠ returnType →
    ∀ param ∈ params, (spanIn nodes param).stop < (spanIn nodes returnType).stop

/-- What a form asks of the places of its parts.  They are apart, except that the type of a method
    may reach over its parameters; then what it is made of is apart from these. -/
def NodeKind.IsSpaced (nodes : Array Node) : NodeKind → Prop
  | .methodDeclaration annotations _ typeParams returnType _ params thrown body =>
    AreApart nodes (annotations ++ typeParams ++ returnType :: (thrown ++ body.toList))
      ∧ ∃ base, Overhangs nodes base returnType params
        ∧ AreApart nodes (annotations ++ typeParams ++ base :: (params ++ (thrown ++ body.toList)))
  | kind => AreApart nodes kind.children

/-- A place that parts a form from the annotations in front of it: it is past the start of the form
    and past the annotations, of which there are some, and none of the other children starts before
    it. -/
structure NodeKind.IsMarkedAt (source : Source) (nodes : Array Node) (kind : NodeKind) (span : Span)
    (offset : Nat) : Prop where
  boundary : source.IsBoundary offset
  annotated : kind.annotations ≠ []
  start_lt : span.start < offset
  lt_stop : offset < span.stop
  annotations_le : ∀ id ∈ kind.annotations,
    (spanIn nodes id).start < offset ∧ (spanIn nodes id).stop ≤ offset
  le_others : ∀ id ∈ kind.children, id ∉ kind.annotations → offset ≤ (spanIn nodes id).start

/-- What a form over a span asks of the place where the annotations in front of it end.  Without
    annotations there is no such place. -/
def NodeKind.IsMarked (source : Source) (nodes : Array Node) (kind : NodeKind) (span : Span) :
    Option Nat → Prop
  | none => kind.annotations = []
  | some offset => kind.IsMarkedAt source nodes span offset

/-- A node as a parse makes it: its span is one of the source and covers the spans of its children,
    which come before it in the sequence and start one after another.  The place where the
    annotations in front of it end is marked, and a leaf has the text that its span has in the
    source. -/
structure Node.IsSound (source : Source) (nodes : Array Node) (id : NodeId) (node : Node) :
    Prop where
  hasSpan : source.HasSpan node.span
  extent_eq : node.extent = source.extent node.span
  marked : ∃ mark, node.unannotatedBegin = mark.map source.position
    ∧ node.kind.IsMarked source nodes node.span mark
  comments_eq : node.comments = []
  children_lt : ∀ child ∈ node.kind.children, child < id
  children_inside : ∀ child ∈ node.kind.children, node.span.start ≤ (spanIn nodes child).start
    ∧ (spanIn nodes child).start < node.span.stop ∧ (spanIn nodes child).stop ≤ node.span.stop
  children_increasing : node.kind.children.Pairwise fun a b =>
    (spanIn nodes a).start < (spanIn nodes b).start
  formed : node.kind.IsFormed nodes node.span.stop
  spaced : node.kind.IsSpaced nodes
  spelled : node.kind.IsSpelled source node.span

/-- A sequence of sound nodes. -/
def IsArena (source : Source) (nodes : Array Node) : Prop :=
  ∀ (id : NodeId) (node : Node), nodes[id]? = some node → node.IsSound source nodes id

/-! ### Adding nodes -/

variable {source : Source} {nodes more : Array Node} {node : Node} {kind : NodeKind} {id : NodeId}

theorem spanIn_push_of_lt (h : id < nodes.size) :
    spanIn (nodes.push node) id = spanIn nodes id := by
  unfold spanIn
  rw [Array.getElem?_push, if_neg (Nat.ne_of_lt h)]

theorem spanIn_push_size (nodes : Array Node) (node : Node) :
    spanIn (nodes.push node) nodes.size = node.span := by
  unfold spanIn
  rw [Array.getElem?_push, if_pos rfl]
  rfl

/-- Nodes stay where they are while others are added. -/
theorem getElem?_stable (h : nodes.toList <+: more.toList) (hid : id < nodes.size) :
    more[id]? = nodes[id]? := by
  obtain ⟨rest, hrest⟩ := h
  rw [← Array.getElem?_toList, ← Array.getElem?_toList, ← hrest,
    List.getElem?_append_left (by simpa using hid)]

theorem spanIn_stable (h : nodes.toList <+: more.toList) (hid : id < nodes.size) :
    spanIn more id = spanIn nodes id := by
  unfold spanIn
  rw [getElem?_stable h hid]

/-- Where a form other than that of a blank is read there is a node, which keeps its form. -/
theorem kindIn_stable (h : nodes.toList <+: more.toList) (hkind : kindIn nodes id ≠ .emptyStmt) :
    kindIn more id = kindIn nodes id := by
  unfold kindIn at hkind ⊢
  by_cases hid : id < nodes.size
  · rw [getElem?_stable h hid]
  · rw [Array.getElem?_eq_none (Nat.not_lt.1 hid)] at hkind
    exact absurd rfl hkind

theorem kindIn_stable_eq (h : nodes.toList <+: more.toList) (hkind : kindIn nodes id = kind)
    (hne : kind ≠ .emptyStmt) : kindIn more id = kind := by
  rw [kindIn_stable h (hkind ▸ hne), hkind]

theorem kindIn_push_size (nodes : Array Node) (node : Node) :
    kindIn (nodes.push node) nodes.size = node.kind := by
  unfold kindIn
  rw [Array.getElem?_push, if_pos rfl]
  rfl

theorem keyIn_eq {key value : NodeId} (h : kindIn nodes id = .jsonEntry (some key) value) :
    keyIn nodes id = (kindIn nodes key).keyText? := by
  rw [keyIn, h]

theorem keyIn_stable (h : nodes.toList <+: more.toList) (hkey : keyIn nodes id ≠ none) :
    keyIn more id = keyIn nodes id := by
  unfold keyIn at hkey
  split at hkey
  · next key value hentry =>
    have hmore : kindIn more id = .jsonEntry (some key) value :=
      kindIn_stable_eq h hentry nofun
    rw [keyIn_eq hentry, keyIn_eq hmore, kindIn_stable h]
    -- a blank is no key
    intro hblank
    rw [hblank] at hkey
    exact hkey rfl
  · exact absurd rfl hkey

theorem NodeKind.isKeyed_of_children_eq_nil (h : kind.children = []) : kind.IsKeyed nodes := by
  unfold NodeKind.IsKeyed
  split
  · next entries =>
    cases (h : entries = [])
    exact ⟨nofun, List.nodup_nil⟩
  · next entries =>
    cases (h : entries = [])
    nofun
  · trivial

theorem NodeKind.IsKeyed.stable (h : kind.IsKeyed nodes) (hkept : nodes.toList <+: more.toList) :
    kind.IsKeyed more := by
  unfold NodeKind.IsKeyed at h ⊢
  split
  · next entries =>
    obtain ⟨hkeys, hnodup⟩ := h
    have hsame : ∀ entry ∈ entries, keyIn more entry = keyIn nodes entry :=
      fun entry hentry => keyIn_stable hkept (hkeys entry hentry)
    refine ⟨fun entry hentry => ?_, ?_⟩
    · rw [hsame entry hentry]
      exact hkeys entry hentry
    · rw [List.map_congr_left hsame]
      exact hnodup
  · intro entry hentry
    obtain ⟨value, hkind⟩ := h entry hentry
    exact ⟨value, kindIn_stable_eq hkept hkind nofun⟩
  · trivial

theorem ArePast.subset {stop : Nat} {ids fewer : List NodeId} (h : ArePast nodes stop ids)
    (hsub : fewer ⊆ ids) : ArePast nodes stop fewer :=
  fun id hid => h id (hsub hid)

theorem ArePast.mono {stop later : Nat} {ids : List NodeId} (h : ArePast nodes stop ids)
    (hkept : nodes.toList <+: more.toList) (hle : stop ≤ later) : ArePast more later ids := by
  have hsize : nodes.size ≤ more.size := by simpa using hkept.length_le
  intro id hid
  obtain ⟨hlt, hstop⟩ := h id hid
  rw [spanIn_stable hkept hlt]
  exact ⟨Nat.lt_of_lt_of_le hlt hsize, Nat.lt_of_lt_of_le hstop hle⟩

theorem NodeKind.IsFormed.mono {stop later : Nat} (h : kind.IsFormed nodes stop)
    (hkept : nodes.toList <+: more.toList) (hle : stop ≤ later) : kind.IsFormed more later := by
  cases kind with
  | json isArray entries => exact ⟨h.1.stable hkept, h.2.mono hkept hle⟩
  | unary op operand => exact fun htrailing => (h htrailing).mono hkept hle
  | _ => first | trivial | exact ArePast.mono h hkept hle

/-- A form all of whose parts are past. -/
theorem NodeKind.isFormed_of_arePast {stop : Nat} (h : ArePast nodes stop kind.children)
    (hkeyed : kind.IsKeyed nodes) : kind.IsFormed nodes stop := by
  cases kind with
  | json isArray entries => exact ⟨hkeyed, h⟩
  | unary op operand => exact fun _ => h
  | binary left op right => exact h.subset (by simp [children])
  | instanceOf expression type => exact h.subset (by simp [children])
  | cast type operand => exact h.subset (by simp [children])
  | arrayCreation type sizes unsized init => exact h.subset (by simp [children])
  | _ => trivial

theorem AreApart.stable {ids : List NodeId} (h : AreApart nodes ids)
    (hids : ∀ id ∈ ids, id < nodes.size) (hkept : nodes.toList <+: more.toList) :
    AreApart more ids := by
  refine List.Pairwise.imp_of_mem (fun ha hb hle => ?_) h
  rwa [spanIn_stable hkept (hids _ ha), spanIn_stable hkept (hids _ hb)]

/-- Nodes that stop before an offset, and others that start after it. -/
theorem AreApart.append {ids later : List NodeId} (mid : Nat) (h : AreApart nodes ids)
    (h' : AreApart nodes later) (hids : ∀ id ∈ ids, (spanIn nodes id).stop ≤ mid)
    (hlater : ∀ id ∈ later, mid ≤ (spanIn nodes id).start) : AreApart nodes (ids ++ later) :=
  List.pairwise_append.2 ⟨h, h', fun a ha b hb => Nat.le_trans (hids a ha) (hlater b hb)⟩

theorem Wrapped.stable {base : NodeId} (h : Wrapped nodes base id)
    (hkept : nodes.toList <+: more.toList) : Wrapped more base id := by
  induction h with
  | refl => exact .refl
  | dims _ hkind ih =>
    exact .dims ih (kindIn_stable_eq hkept hkind nofun)

theorem Overhangs.stable {base returnType : NodeId} {params : List NodeId}
    (h : Overhangs nodes base returnType params) (htype : returnType < nodes.size)
    (hparams : ∀ param ∈ params, param < nodes.size) (hkept : nodes.toList <+: more.toList) :
    Overhangs more base returnType params := by
  refine ⟨h.base_le, h.wrapped.stable hkept, fun hne param hparam => ?_⟩
  rw [spanIn_stable hkept (hparams param hparam), spanIn_stable hkept htype]
  exact h.stop_lt hne param hparam

theorem NodeKind.IsSpaced.stable (h : kind.IsSpaced nodes)
    (hchildren : ∀ child ∈ kind.children, child < nodes.size)
    (hkept : nodes.toList <+: more.toList) : kind.IsSpaced more := by
  cases kind with
  | methodDeclaration annotations words typeParams returnType name params thrown body =>
    obtain ⟨hothers, base, hover, hbase⟩ := h
    have htype : returnType < nodes.size := hchildren _ (by simp [children])
    refine ⟨hothers.stable (fun id hid => hchildren id ?_) hkept, base,
      hover.stable htype (fun id hid => hchildren id (by simp [children, hid])) hkept,
      hbase.stable (fun id hid => ?_) hkept⟩
    · simp only [children, List.mem_append, List.mem_cons] at hid ⊢
      grind
    -- what the type is made of was made before the type
    · have hor : id = base ∨ id ∈ (NodeKind.methodDeclaration annotations words typeParams
          returnType name params thrown body).children := by
        simp only [children, List.mem_append, List.mem_cons] at hid ⊢
        grind
      rcases hor with rfl | hid
      · exact Nat.lt_of_le_of_lt hover.base_le htype
      · exact hchildren id hid
  | _ => exact AreApart.stable h hchildren hkept

/-- Parts that are apart meet what any form asks of their places. -/
theorem NodeKind.isSpaced_of_areApart (h : AreApart nodes kind.children) : kind.IsSpaced nodes := by
  cases kind with
  | methodDeclaration annotations words typeParams returnType name params thrown body =>
    have hall : AreApart nodes
        (annotations ++ typeParams ++ returnType :: (params ++ (thrown ++ body.toList))) := by
      simpa [children] using h
    refine ⟨hall.sublist ?_, returnType, ⟨Nat.le_refl _, .refl, fun hne => absurd rfl hne⟩, hall⟩
    exact .append_left (.cons_cons _ (List.sublist_append_right _ _)) _
  | _ => exact h

theorem NodeKind.annotations_subset (kind : NodeKind) : kind.annotations ⊆ kind.children := by
  intro id hid
  cases kind <;> simp_all [annotations, children]

theorem NodeKind.annotations_of_children_eq_nil (h : kind.children = []) :
    kind.annotations = [] :=
  List.eq_nil_of_subset_nil (h ▸ kind.annotations_subset)

theorem NodeKind.isMarked_none {span : Span} (h : kind.annotations = []) :
    kind.IsMarked source nodes span none :=
  h

/-- The mark of a form stays where it is, as long as its children do. -/
theorem NodeKind.IsMarked.stable {span : Span} {mark : Option Nat}
    (h : kind.IsMarked source nodes span mark)
    (hspan : ∀ child ∈ kind.children, spanIn more child = spanIn nodes child) :
    kind.IsMarked source more span mark := by
  cases mark with
  | none => exact h
  | some offset =>
    have h : kind.IsMarkedAt source nodes span offset := h
    refine ⟨h.boundary, h.annotated, h.start_lt, h.lt_stop, fun id hid => ?_, fun id hid hnot => ?_⟩
    · rw [hspan id (kind.annotations_subset hid)]
      exact h.annotations_le id hid
    · rw [hspan id hid]
      exact h.le_others id hid hnot

/-- Without the annotations in front of it, a node begins no earlier. -/
theorem Node.IsSound.begin_le (h : node.IsSound source nodes id) :
    node.extent.first ≤ node.beginWithoutAnnotations := by
  obtain ⟨mark, hbegin, hmarked⟩ := h.marked
  rw [beginWithoutAnnotations, hbegin]
  cases mark with
  | none => exact Position.le_refl _
  | some offset =>
    have hmarked : node.kind.IsMarkedAt source nodes node.span offset := hmarked
    show node.extent.first ≤ source.position offset
    rw [h.extent_eq, Source.extent_first]
    exact source.position_le_position (Nat.le_of_lt hmarked.start_lt)

theorem childrenFrom_push {n : Nat} (h : n ≤ nodes.size) :
    childrenFrom (nodes.push node) n = childrenFrom nodes n ++ node.kind.children := by
  unfold childrenFrom
  rw [Array.toList_push, List.drop_append_of_le_length (by simpa using h), List.flatMap_append]
  simp

theorem childrenFrom_stable (h : nodes.toList <+: more.toList) {n : Nat}
    (hn : n ≤ nodes.size) :
    childrenFrom more n = childrenFrom nodes n ++ childrenFrom more nodes.size := by
  obtain ⟨rest, hrest⟩ := h
  unfold childrenFrom
  rw [← hrest, List.drop_append_of_le_length (by simpa using hn), List.flatMap_append]
  congr 2
  rw [show nodes.size = nodes.toList.length from rfl, List.drop_left]

theorem childrenFrom_size (nodes : Array Node) : childrenFrom nodes nodes.size = [] := by
  unfold childrenFrom
  rw [show nodes.size = nodes.toList.length from rfl, List.drop_length]
  rfl

theorem Node.IsSound.push {other : Node} (h : node.IsSound source nodes id)
    (hid : id ≤ nodes.size) : node.IsSound source (nodes.push other) id := by
  -- children come before the node, so their spans stay when another node is added
  have hspan : ∀ child ∈ node.kind.children, spanIn (nodes.push other) child = spanIn nodes child :=
    fun child hchild => spanIn_push_of_lt (Nat.lt_of_lt_of_le (h.children_lt child hchild) hid)
  have hkept : nodes.toList <+: (nodes.push other).toList := by
    rw [Array.toList_push]
    exact List.prefix_append _ _
  obtain ⟨mark, hbegin, hmarked⟩ := h.marked
  refine ⟨h.hasSpan, h.extent_eq, ⟨mark, hbegin, hmarked.stable hspan⟩, h.comments_eq,
    h.children_lt, ?_, ?_, h.formed.mono hkept (Nat.le_refl _),
    h.spaced.stable (fun child hchild => ?_) hkept, h.spelled⟩
  · intro child hchild
    rw [hspan child hchild]
    exact h.children_inside child hchild
  · refine h.children_increasing.imp_of_mem fun ha hb hlt => ?_
    rwa [hspan _ ha, hspan _ hb]
  · exact Nat.lt_of_lt_of_le (h.children_lt child hchild) hid

/-- The entries of a json container have keys or not, as it asks. -/
theorem Node.IsSound.keyed {isArray : Bool} {entries : List NodeId}
    (h : node.IsSound source nodes id) (hkind : node.kind = .json isArray entries) :
    (NodeKind.json isArray entries).IsKeyed nodes := by
  have hformed := h.formed
  rw [hkind] at hformed
  exact hformed.1

theorem IsArena.push (h : IsArena source nodes)
    (hnode : node.IsSound source nodes nodes.size) : IsArena source (nodes.push node) := by
  intro id other hget
  rw [Array.getElem?_push] at hget
  split at hget
  -- the new node, and any of the old ones
  · next hid =>
    cases hget
    subst hid
    exact hnode.push (Nat.le_refl _)
  · have hid : id < nodes.size := (Array.getElem?_eq_some_iff.1 hget).1
    exact (h id other hget).push (Nat.le_of_lt hid)

theorem IsArena.child_lt (h : IsArena source nodes) {n : Nat} {child : NodeId}
    (hchild : child ∈ childrenFrom nodes n) : child < nodes.size := by
  unfold childrenFrom at hchild
  obtain ⟨node, hnode, hchild⟩ := List.mem_flatMap.1 hchild
  obtain ⟨id, hid⟩ := List.getElem?_of_mem (List.mem_of_mem_drop hnode)
  rw [Array.getElem?_toList] at hid
  have hlt : id < nodes.size := (Array.getElem?_eq_some_iff.1 hid).1
  exact Nat.lt_trans ((h id node hid).children_lt child hchild) hlt

/-! ### Rows of trees -/

/-- Trees between two offsets, one after another, out of the nodes from index `n` on.  Each of these
    nodes is in the row or a child of one other node, and not both. -/
structure Row (nodes : Array Node) (n lo hi : Nat) (ids : List NodeId) : Prop where
  ids_lt : ∀ id ∈ ids, id < nodes.size
  ids_inside : ∀ id ∈ ids, lo ≤ (spanIn nodes id).start
    ∧ (spanIn nodes id).start < hi ∧ (spanIn nodes id).stop ≤ hi
  ids_increasing : ids.Pairwise fun a b => (spanIn nodes a).start < (spanIn nodes b).start
  unshared : (childrenFrom nodes n ++ ids).Nodup
  ids_new : ∀ id ∈ childrenFrom nodes n ++ ids, n ≤ id

namespace Row

variable {n lo hi mid lo' hi' : Nat} {ids later new : List NodeId}

theorem nil (nodes : Array Node) (lo hi : Nat) : Row nodes nodes.size lo hi [] := by
  refine ⟨nofun, nofun, .nil, ?_, ?_⟩
  · rw [childrenFrom_size]
    exact List.nodup_nil
  · rw [childrenFrom_size]
    nofun

theorem mono (h : Row nodes n lo hi ids) (hlo : lo' ≤ lo) (hhi : hi ≤ hi') :
    Row nodes n lo' hi' ids := by
  refine ⟨h.ids_lt, fun id hid => ?_, h.ids_increasing, h.unshared, h.ids_new⟩
  have := h.ids_inside id hid
  omega

/-- Trees may be left out of a row: nothing will be made of them. -/
theorem leaveOut (h : Row nodes n lo hi ids) (hsub : new.Sublist ids) : Row nodes n lo hi new :=
  ⟨fun id hid => h.ids_lt id (hsub.mem hid), fun id hid => h.ids_inside id (hsub.mem hid),
    h.ids_increasing.sublist hsub, h.unshared.sublist (List.Sublist.append_left hsub _),
    fun id hid => h.ids_new id ((List.Sublist.append_left hsub _).mem hid)⟩

/-- Without trees a row lies between any two offsets. -/
theorem empty (h : Row nodes n lo hi ids) (lo' hi' : Nat) : Row nodes n lo' hi' [] :=
  have h' := h.leaveOut (List.nil_sublist _)
  ⟨nofun, nofun, .nil, h'.unshared, h'.ids_new⟩

theorem lt_size (h : Row nodes n lo hi ids) (harena : IsArena source nodes) :
    ∀ id ∈ childrenFrom nodes n ++ ids, id < nodes.size := by
  intro id hid
  rcases List.mem_append.1 hid with hid | hid
  · exact harena.child_lt hid
  · exact h.ids_lt id hid

/-- **Rows add up.**  The second starts where the first has ended, and its nodes are new. -/
theorem append (harena : IsArena source nodes) (hkept : nodes.toList <+: more.toList)
    (hn : n ≤ nodes.size) (h : Row nodes n lo mid ids) (h' : Row more nodes.size lo' hi new)
    (hmid : mid ≤ lo') (hlo : lo ≤ lo') (hhi : mid ≤ hi) : Row more n lo hi (ids ++ new) := by
  have hspan : ∀ id ∈ ids, spanIn more id = spanIn nodes id :=
    fun id hid => spanIn_stable hkept (h.ids_lt id hid)
  have hsize : nodes.size ≤ more.size := by simpa using hkept.length_le
  -- the new nodes and their children, after the old ones
  have hperm : (childrenFrom more n ++ (ids ++ new)).Perm
      (childrenFrom nodes n ++ ids ++ (childrenFrom more nodes.size ++ new)) := by
    rw [childrenFrom_stable hkept hn]
    refine List.perm_iff_count.2 fun id => ?_
    simp only [List.count_append]
    omega
  refine ⟨?_, ?_, ?_, ?_, ?_⟩
  · intro id hid
    rcases List.mem_append.1 hid with hid | hid
    · exact Nat.lt_of_lt_of_le (h.ids_lt id hid) hsize
    · exact h'.ids_lt id hid
  · intro id hid
    rcases List.mem_append.1 hid with hid | hid
    · have := h.ids_inside id hid
      rw [hspan id hid]
      omega
    · have := h'.ids_inside id hid
      omega
  · refine List.pairwise_append.2 ⟨?_, h'.ids_increasing, ?_⟩
    · refine h.ids_increasing.imp_of_mem fun ha hb hlt => ?_
      rwa [hspan _ ha, hspan _ hb]
    -- a tree of the first row starts before `mid`, one of the second no earlier than there
    · intro a ha b hb
      have := h.ids_inside a ha
      have := h'.ids_inside b hb
      rw [hspan a ha]
      omega
  · rw [hperm.nodup_iff, List.nodup_append]
    -- old nodes stand below the size of the old sequence, new ones above
    refine ⟨h.unshared, h'.unshared, fun x hx y hy hxy => ?_⟩
    subst hxy
    exact Nat.not_lt.2 (h'.ids_new x hy) (h.lt_size harena x hx)
  · intro id hid
    rcases List.mem_append.1 (hperm.mem_iff.1 hid) with hid | hid
    · exact h.ids_new id hid
    · exact Nat.le_trans hn (h'.ids_new id hid)

/-- **A node takes the place of its children.**  It may reach over trees that stay beside it, as
    long as it starts before them. -/
theorem wrap (harena : IsArena source nodes) (hn : n ≤ nodes.size)
    (h : Row nodes n lo hi (ids ++ later)) (hchildren : node.kind.children = ids)
    (hstart : lo ≤ node.span.start) (hlt : node.span.start < hi') (hstop : node.span.stop ≤ hi')
    (hhi : hi ≤ hi') (hlater : ∀ id ∈ later, node.span.start < (spanIn nodes id).start) :
    Row (nodes.push node) n lo hi' (nodes.size :: later) := by
  have hmem : ∀ id ∈ later, id ∈ ids ++ later := fun id hid => List.mem_append_right _ hid
  have hspan : ∀ id ∈ later, spanIn (nodes.push node) id = spanIn nodes id :=
    fun id hid => spanIn_push_of_lt (h.ids_lt id (hmem id hid))
  -- the children of the new node leave the row, which is joined by the node itself
  have hperm : (childrenFrom (nodes.push node) n ++ nodes.size :: later).Perm
      (childrenFrom nodes n ++ (ids ++ later) ++ [nodes.size]) := by
    rw [childrenFrom_push hn, hchildren]
    refine List.perm_iff_count.2 fun id => ?_
    simp only [List.count_append, List.count_cons, List.count_nil]
    omega
  refine ⟨?_, ?_, List.pairwise_cons.2 ⟨?_, ?_⟩, ?_, ?_⟩
  · intro id hid
    rw [Array.size_push]
    rcases List.mem_cons.1 hid with rfl | hid
    · exact Nat.lt_succ_self _
    · exact Nat.lt_succ_of_lt (h.ids_lt id (hmem id hid))
  · intro id hid
    rcases List.mem_cons.1 hid with rfl | hid
    · rw [spanIn_push_size]
      exact ⟨hstart, hlt, hstop⟩
    · have := h.ids_inside id (hmem id hid)
      rw [hspan id hid]
      omega
  · intro id hid
    rw [spanIn_push_size, hspan id hid]
    exact hlater id hid
  · refine (List.pairwise_append.1 h.ids_increasing).2.1.imp_of_mem fun ha hb hlt => ?_
    rwa [hspan _ ha, hspan _ hb]
  · rw [hperm.nodup_iff, List.nodup_append]
    -- the number of the new node was not in use
    refine ⟨h.unshared, by simp, fun id hid last hlast heq => ?_⟩
    rw [List.mem_singleton] at hlast
    subst heq hlast
    exact Nat.lt_irrefl _ (h.lt_size harena _ hid)
  · intro id hid
    rcases List.mem_append.1 (hperm.mem_iff.1 hid) with hid | hid
    · exact h.ids_new id hid
    · exact List.mem_singleton.1 hid ▸ hn

end Row

/-! ### Nodes that are left out -/

/-- A node that a later one, `parent`, passes over although it was made out of its tokens. -/
inductive LeftOut (source : Source) (nodes : Array Node) (id : NodeId) : Prop where
  /-- The value after the word `default` in the declaration of a method, which has no body then. -/
  | default {parent : NodeId} {annotations typeParams params thrown : List NodeId}
      {keywords : List Keyword} {returnType : NodeId} {name : String} {word : Span}
      (hlt : id < parent)
      (hkind : kindIn nodes parent = .methodDeclaration annotations keywords typeParams returnType
        name params thrown none)
      (hword : source.HasText word Keyword.kwDefault.text.toList)
      (hchildren : ∀ child ∈ (kindIn nodes parent).children,
        (spanIn nodes child).start < word.start)
      (hafter : word.stop ≤ (spanIn nodes id).start)
      (hinside : (spanIn nodes id).stop ≤ (spanIn nodes parent).stop)
  /-- What stands in front of all the parts of the creation of an array. -/
  | scope {parent type : NodeId} {sizes : List NodeId} {unsized : Nat} {init : Option NodeId}
      (hlt : id < parent) (hkind : kindIn nodes parent = .arrayCreation type sizes unsized init)
      (hinside : (spanIn nodes parent).start ≤ (spanIn nodes id).start)
      (hbefore : ∀ child ∈ (kindIn nodes parent).children,
        (spanIn nodes id).start < (spanIn nodes child).start)

/-- Each node from index `n` on is in a row, is a child of another one or was left out. -/
def Accounts (source : Source) (nodes : Array Node) (n : Nat) (ids : List NodeId) : Prop :=
  ∀ id, n ≤ id → id < nodes.size → id ∈ childrenFrom nodes n ++ ids ∨ LeftOut source nodes id

theorem lt_size_of_kindIn (h : kindIn nodes id ≠ .emptyStmt) : id < nodes.size := by
  rcases Nat.lt_or_ge id nodes.size with hlt | hge
  · exact hlt
  · unfold kindIn at h
    rw [Array.getElem?_eq_none hge] at h
    exact absurd rfl h

theorem IsArena.child_lt_parent (h : IsArena source nodes) {child : NodeId}
    (hchild : child ∈ (kindIn nodes id).children) : child < id := by
  unfold kindIn at hchild
  cases hget : nodes[id]? with
  | none =>
    rw [hget] at hchild
    cases hchild
  | some node =>
    rw [hget] at hchild
    exact (h id node hget).children_lt child hchild

/-- What was left out stays so while nodes are added. -/
theorem LeftOut.stable (harena : IsArena source nodes) (hkept : nodes.toList <+: more.toList)
    (h : LeftOut source nodes id) : LeftOut source more id := by
  -- the parent and what it refers to keep their forms and spans
  have hparent : ∀ {parent}, kindIn nodes parent ≠ .emptyStmt →
      kindIn more parent = kindIn nodes parent ∧ spanIn more parent = spanIn nodes parent :=
    fun hkind => ⟨kindIn_stable hkept hkind, spanIn_stable hkept (lt_size_of_kindIn hkind)⟩
  have hspans : ∀ {parent other}, other < parent → kindIn nodes parent ≠ .emptyStmt →
      spanIn more other = spanIn nodes other :=
    fun hlt hkind => spanIn_stable hkept (Nat.lt_trans hlt (lt_size_of_kindIn hkind))
  cases h with
  | @default parent _ _ _ _ _ _ _ _ hlt hkind hword hchildren hafter hinside =>
    have hne : kindIn nodes parent ≠ .emptyStmt := by simp [hkind]
    obtain ⟨hkind', hspan⟩ := hparent hne
    refine .default hlt (hkind'.trans hkind) hword (fun child hchild => ?_) ?_ ?_
    · rw [hkind'] at hchild
      rw [hspans (harena.child_lt_parent hchild) hne]
      exact hchildren child hchild
    · rw [hspans hlt hne]
      exact hafter
    · rw [hspans hlt hne, hspan]
      exact hinside
  | @scope parent _ _ _ _ hlt hkind hinside hbefore =>
    have hne : kindIn nodes parent ≠ .emptyStmt := by simp [hkind]
    obtain ⟨hkind', hspan⟩ := hparent hne
    refine .scope hlt (hkind'.trans hkind) ?_ fun child hchild => ?_
    · rw [hspans hlt hne, hspan]
      exact hinside
    · rw [hkind'] at hchild
      rw [hspans hlt hne, hspans (harena.child_lt_parent hchild) hne]
      exact hbefore child hchild

namespace Accounts

variable {n : Nat} {ids later new : List NodeId}

theorem nil (nodes : Array Node) : Accounts source nodes nodes.size [] :=
  fun _ hle hlt => absurd hlt (Nat.not_lt.2 hle)

/-- What is accounted for stays so, and what comes later accounts for itself. -/
theorem append (harena : IsArena source nodes) (hkept : nodes.toList <+: more.toList)
    (hn : n ≤ nodes.size) (h : Accounts source nodes n ids)
    (h' : Accounts source more nodes.size new) : Accounts source more n (ids ++ new) := by
  intro id hle hlt
  rw [childrenFrom_stable hkept hn]
  simp only [List.mem_append]
  rcases Nat.lt_or_ge id nodes.size with hold | hnew
  · rcases h id hle hold with hmem | hout
    · rcases List.mem_append.1 hmem with hchild | hid
      · exact .inl (.inl (.inl hchild))
      · exact .inl (.inr (.inl hid))
    · exact .inr (hout.stable harena hkept)
  · rcases h' id hnew hlt with hmem | hout
    · rcases List.mem_append.1 hmem with hchild | hid
      · exact .inl (.inl (.inr hchild))
      · exact .inl (.inr (.inr hid))
    · exact .inr hout

/-- A new node has to take each tree of a row as its child, leave it in the row or pass it over. -/
theorem push (harena : IsArena source nodes) (hn : n ≤ nodes.size)
    (h : Accounts source nodes n ids)
    (hids : ∀ id ∈ ids, id ∈ node.kind.children ∨ id ∈ later
      ∨ LeftOut source (nodes.push node) id) :
    Accounts source (nodes.push node) n (nodes.size :: later) := by
  have hkept : nodes.toList <+: (nodes.push node).toList := by
    rw [Array.toList_push]
    exact List.prefix_append _ _
  intro id hle hlt
  rw [childrenFrom_push hn]
  simp only [List.mem_append, List.mem_cons]
  rw [Array.size_push] at hlt
  rcases Nat.lt_succ_iff_lt_or_eq.1 hlt with hold | rfl
  · rcases h id hle hold with hmem | hout
    · rcases List.mem_append.1 hmem with hchild | hid
      · exact .inl (.inl (.inl hchild))
      · rcases hids id hid with hchild | hlater | hout
        · exact .inl (.inl (.inr hchild))
        · exact .inl (.inr (.inr hlater))
        · exact .inr hout
    · exact .inr (hout.stable harena hkept)
  · exact .inl (.inr (.inl rfl))

end Accounts

/-! ### Trees of a stretch of tokens -/

variable {s t u : State} {ids later new : List NodeId}

/-- A state with its tokens in the source and its nodes in order. -/
structure State.IsSound (source : Source) (s : State) : Prop where
  valid : s.IsValid source
  arena : IsArena source s.nodes

/-- From `s` to `t` a parse made the trees `ids`, in this order: they are a row in the tokens
    taken, and no other tree was made and lost. -/
structure Reads (source : Source) (s : State) (ids : List NodeId) (t : State) : Prop
    extends Row t.nodes s.nodes.size s.start t.previousStop ids where
  origin : source.IsBoundary s.start
  sound : t.IsSound source
  leads : s.LeadsTo t
  start_le : s.start ≤ t.start
  previousStop_le : s.previousStop ≤ t.previousStop
  accounts : Accounts source t.nodes s.nodes.size ids

/-- From `s` to `t` a parse made the trees `ids`, each of which stops before the next one starts. -/
structure Yields (source : Source) (s : State) (ids : List NodeId) (t : State) : Prop
    extends Reads source s ids t where
  apart : AreApart t.nodes ids

/-- A stretch that takes a token. -/
structure Takes (source : Source) (s : State) (ids : List NodeId) (t : State) : Prop
    extends Yields source s ids t where
  taken : s.start < t.previousStop

/-- A stretch that ends with a token after all its trees. -/
structure Closes (source : Source) (s : State) (ids : List NodeId) (t : State) : Prop
    extends Takes source s ids t where
  past : ArePast t.nodes t.previousStop ids

/-- A stretch of at least one token that makes one node of all its tokens, which is the last one
    made. -/
structure Makes (source : Source) (s : State) (id : NodeId) (t : State) : Prop
    extends Takes source s [id] t where
  id_last : id + 1 = t.nodes.size
  span_eq : spanIn t.nodes id = ⟨s.start, t.previousStop⟩

theorem Takes.start_lt (h : Takes source s ids t) : s.start < t.start :=
  Nat.lt_of_lt_of_le h.taken h.sound.valid.previousStop_le_start

/-- A stretch that moves on leaves fewer tokens. -/
theorem State.LeadsTo.length_lt (h : s.LeadsTo t) (hlt : s.start < t.start) :
    t.rest.length < s.rest.length := by
  rcases Nat.lt_or_ge t.rest.length s.rest.length with hlen | hlen
  · exact hlen
  -- with as many tokens left, the next one would be the same
  · have hrest : t.rest = s.rest := h.rest_suffix.eq_of_length_le hlen
    unfold State.start State.current at hlt
    rw [hrest, h.stop_eq] at hlt
    exact absurd hlt (Nat.lt_irrefl _)

theorem Yields.refl (hs : s.IsSound source) : Yields source s [] s :=
  ⟨⟨.nil _ _ _, hs.valid.start_boundary, hs, .refl s, Nat.le_refl _, Nat.le_refl _, .nil _⟩, .nil⟩

/-- **Stretches add up.**  The trees of the second come after those of the first. -/
theorem Reads.trans (h : Reads source s ids t) (h' : Reads source t new u) :
    Reads source s (ids ++ new) u := by
  refine ⟨?_, h.origin, h'.sound, h.leads.trans h'.leads, Nat.le_trans h.start_le h'.start_le,
    Nat.le_trans h.previousStop_le h'.previousStop_le, ?_⟩
  · exact .append h.sound.arena h'.leads.nodes_kept h.leads.size_le h.toRow h'.toRow
      h.sound.valid.previousStop_le_start h.start_le h'.previousStop_le
  · exact .append h.sound.arena h'.leads.nodes_kept h.leads.size_le h.accounts h'.accounts

/-- Trees that are apart stay so when others are read after them. -/
theorem Reads.apart_append {before : List NodeId} (h : Reads source s ids t)
    (h' : Yields source t new u) (hbefore : AreApart t.nodes before)
    (hlt : ∀ id ∈ before, id < t.nodes.size ∧ (spanIn t.nodes id).stop ≤ t.previousStop) :
    AreApart u.nodes (before ++ new) := by
  have hkept := h'.leads.nodes_kept
  refine .append t.start (hbefore.stable (fun id hid => (hlt id hid).1) hkept) h'.apart
    (fun id hid => ?_) fun id hid => (h'.ids_inside id hid).1
  rw [spanIn_stable hkept (hlt id hid).1]
  exact Nat.le_trans (hlt id hid).2 h.sound.valid.previousStop_le_start

/-- The same for trees between others, read from `t` to `u`. -/
theorem Yields.apart_around {v : State} {between rest : List NodeId} (h : Yields source s ids t)
    (hmiddle : Reads source t new u) (hrest : Yields source u rest v)
    (hbetween : AreApart u.nodes between)
    (hinside : ∀ id ∈ between, id < u.nodes.size ∧ t.start ≤ (spanIn u.nodes id).start
      ∧ (spanIn u.nodes id).stop ≤ u.previousStop) :
    AreApart v.nodes (ids ++ (between ++ rest)) := by
  have hkept := hmiddle.leads.trans hrest.leads
  refine .append t.start (h.apart.stable h.ids_lt hkept.nodes_kept)
    (hmiddle.apart_append hrest hbetween fun id hid =>
      ⟨(hinside id hid).1, (hinside id hid).2.2⟩) (fun id hid => ?_) fun id hid => ?_
  · rw [spanIn_stable hkept.nodes_kept (h.ids_lt id hid)]
    exact Nat.le_trans (h.ids_inside id hid).2.2 h.sound.valid.previousStop_le_start
  · rcases List.mem_append.1 hid with hid | hid
    · rw [spanIn_stable hrest.leads.nodes_kept (hinside id hid).1]
      exact (hinside id hid).2.1
    · exact Nat.le_trans hmiddle.start_le (hrest.ids_inside id hid).1

theorem Yields.trans (h : Yields source s ids t) (h' : Yields source t new u) :
    Yields source s (ids ++ new) u :=
  ⟨h.toReads.trans h'.toReads, h.toReads.apart_append h' h.apart fun id hid =>
    ⟨h.ids_lt id hid, (h.ids_inside id hid).2.2⟩⟩

theorem Takes.trans (h : Takes source s ids t) (h' : Yields source t new u) :
    Takes source s (ids ++ new) u :=
  ⟨h.toYields.trans h', Nat.lt_of_lt_of_le h.taken h'.previousStop_le⟩

theorem Yields.trans_takes (h : Yields source s ids t)
    (h' : Takes source t new u) : Takes source s (ids ++ new) u :=
  ⟨h.trans h'.toYields, Nat.lt_of_le_of_lt h.start_le h'.taken⟩

/-- Once another token is taken, all trees read so far are past. -/
theorem Reads.arePast (h : Reads source s ids t) (h' : Takes source t new u) :
    ArePast u.nodes u.previousStop ids := by
  have hstop : ∀ id ∈ ids, id < t.nodes.size ∧ (spanIn t.nodes id).stop < u.previousStop := by
    intro id hid
    refine ⟨h.ids_lt id hid, ?_⟩
    calc (spanIn t.nodes id).stop ≤ t.previousStop := (h.ids_inside id hid).2.2
      _ ≤ t.start := h.sound.valid.previousStop_le_start
      _ < u.previousStop := h'.taken
  exact ArePast.mono hstop h'.leads.nodes_kept (Nat.le_refl _)

theorem Yields.trans_closes (h : Yields source s ids t) (h' : Closes source t new u) :
    Closes source s (ids ++ new) u := by
  refine ⟨h.trans_takes h'.toTakes, fun id hid => ?_⟩
  rcases List.mem_append.1 hid with hid | hid
  · exact h.arePast h'.toTakes id hid
  · exact h'.past id hid

/-- Without trees nothing is left to be passed. -/
theorem Takes.closes (h : Takes source s [] t) : Closes source s [] t :=
  ⟨h, nofun⟩

/-! ### Making a node -/

/-- The node that `Parser.push` adds. -/
def nodeOf (source : Source) (kind : NodeKind) (span : Span) (unannotatedStart : Option Nat) :
    Node :=
  { kind := kind, span := span, extent := source.extent span,
    unannotatedBegin := unannotatedStart.map source.position }

/-- The state after a node has been added. -/
def State.add (s : State) (node : Node) : State :=
  { s with nodes := s.nodes.push node }

theorem State.leadsTo_add (s : State) (node : Node) : s.LeadsTo (s.add node) :=
  ⟨⟨[], rfl, rfl⟩, rfl, rfl, ⟨[node], by simp [State.add]⟩⟩

/-- The span from where a stretch starts to the last token taken in it. -/
theorem Reads.hasSpan (h : Reads source s ids t) : source.HasSpan (t.spanFrom s.start) := by
  refine ⟨Nat.le_max_right _ _, h.origin, ?_⟩
  show source.IsBoundary (max t.previousStop s.start)
  -- without a token the span is empty, and stands where the stretch starts
  rcases Nat.le_total t.previousStop s.start with hle | hle
  · rw [Nat.max_eq_right hle]
    exact h.origin
  · rw [Nat.max_eq_left hle]
    exact h.sound.valid.previousStop_boundary

/-- A node over the span of a row, with the first trees of the row as its children, is sound. -/
theorem Row.nodeOf_isSound {n lo hi : Nat} {span : Span} {unannotatedStart : Option Nat}
    (h : Row nodes n lo hi (ids ++ later)) (hkind : kind.children = ids)
    (hspan : source.HasSpan span) (hlo : span.start ≤ lo) (hhi : hi ≤ span.stop)
    (hmarked : kind.IsMarked source nodes span unannotatedStart)
    (hformed : kind.IsFormed nodes hi) (hspaced : kind.IsSpaced nodes)
    (hspelled : kind.IsSpelled source span) :
    (nodeOf source kind span unannotatedStart).IsSound source nodes nodes.size := by
  have hids : ∀ child ∈ kind.children, child ∈ ids ++ later :=
    fun child hchild => List.mem_append_left _ (hkind ▸ hchild)
  refine ⟨hspan, rfl, ⟨unannotatedStart, rfl, hmarked⟩, rfl, ?_, ?_, ?_,
    hformed.mono (List.prefix_refl _) hhi, hspaced, hspelled⟩
  · intro child hchild
    exact h.ids_lt child (hids child hchild)
  · intro child hchild
    have hinside := h.ids_inside child (hids child hchild)
    show span.start ≤ _ ∧ _ < span.stop ∧ _ ≤ span.stop
    omega
  · show kind.children.Pairwise _
    rw [hkind]
    exact (List.pairwise_append.1 h.ids_increasing).1

/-- A stretch, possibly empty, with one node over it, which is the last one made.  The node is a row
    of its own as soon as a token has been taken in the stretch or after it. -/
structure Wraps (source : Source) (s : State) (id : NodeId) (t : State) : Prop where
  origin : source.IsBoundary s.start
  sound : t.IsSound source
  leads : s.LeadsTo t
  start_le : s.start ≤ t.start
  previousStop_le : s.previousStop ≤ t.previousStop
  id_last : id + 1 = t.nodes.size
  span_eq : spanIn t.nodes id = t.spanFrom s.start
  row : ∀ hi, s.start < hi → t.previousStop ≤ hi → Row t.nodes s.nodes.size s.start hi [id]
  accounts : Accounts source t.nodes s.nodes.size [id]

/-- A node over a stretch with the first trees of a row in it as its children. -/
theorem Reads.isSound_add (h : Reads source s ids t)
    (hrow : Row t.nodes s.nodes.size s.start t.previousStop (kind.children ++ later))
    {unannotatedStart : Option Nat}
    (hmarked : kind.IsMarked source t.nodes (t.spanFrom s.start) unannotatedStart)
    (hformed : kind.IsFormed t.nodes t.previousStop) (hspaced : kind.IsSpaced t.nodes)
    (hspelled : kind.IsSpelled source (t.spanFrom s.start)) :
    (t.add (nodeOf source kind (t.spanFrom s.start) unannotatedStart)).IsSound source := by
  refine ⟨h.sound.valid.withNodes _, h.sound.arena.push ?_⟩
  exact hrow.nodeOf_isSound rfl h.hasSpan (Nat.le_refl _) (Nat.le_max_left _ _) hmarked hformed
    hspaced hspelled

/-- A node over a stretch.  Trees that it does not take as its children have to be such as may be
    left out. -/
theorem Reads.wrapsLeaving (h : Reads source s ids t) (hsub : kind.children.Sublist ids)
    {unannotatedStart : Option Nat}
    (hmarked : kind.IsMarked source t.nodes (t.spanFrom s.start) unannotatedStart)
    (hformed : kind.IsFormed t.nodes t.previousStop) (hspaced : kind.IsSpaced t.nodes)
    (hspelled : kind.IsSpelled source (t.spanFrom s.start))
    (hleft : ∀ id ∈ ids, id ∈ kind.children ∨ LeftOut source
      (t.add (nodeOf source kind (t.spanFrom s.start) unannotatedStart)).nodes id) :
    Wraps source s t.nodes.size
      (t.add (nodeOf source kind (t.spanFrom s.start) unannotatedStart)) := by
  have hchildren : Row t.nodes s.nodes.size s.start t.previousStop (kind.children ++ []) := by
    rw [List.append_nil]
    exact h.toRow.leaveOut hsub
  refine ⟨h.origin, h.isSound_add hchildren hmarked hformed hspaced hspelled,
    h.leads.trans (t.leadsTo_add _), h.start_le, h.previousStop_le, by simp [State.add],
    spanIn_push_size _ _, fun hi hlt hle => ?_, ?_⟩
  · exact .wrap h.sound.arena h.leads.size_le hchildren rfl (Nat.le_refl _) hlt
      (Nat.max_le.2 ⟨hle, Nat.le_of_lt hlt⟩) hle nofun
  · refine h.accounts.push h.sound.arena h.leads.size_le fun id hid => ?_
    exact (hleft id hid).imp_right .inr

theorem Yields.wraps (h : Yields source s ids t) (hkind : kind.children = ids)
    {unannotatedStart : Option Nat}
    (hmarked : kind.IsMarked source t.nodes (t.spanFrom s.start) unannotatedStart)
    (hformed : kind.IsFormed t.nodes t.previousStop)
    (hspelled : kind.IsSpelled source (t.spanFrom s.start)) :
    Wraps source s t.nodes.size
      (t.add (nodeOf source kind (t.spanFrom s.start) unannotatedStart)) :=
  h.toReads.wrapsLeaving (hkind ▸ List.Sublist.refl _) hmarked hformed
    (NodeKind.isSpaced_of_areApart (hkind ▸ h.apart)) hspelled fun _ hid => .inl (hkind ▸ hid)

theorem Wraps.takes (h : Wraps source s id t) (h' : Yields source t [] u)
    (hstart : s.start < u.previousStop) : Takes source s [id] u := by
  refine ⟨⟨⟨?_, h.origin, h'.sound, h.leads.trans h'.leads, Nat.le_trans h.start_le h'.start_le,
    Nat.le_trans h.previousStop_le h'.previousStop_le, ?_⟩, List.pairwise_singleton _ _⟩, hstart⟩
  -- the second stretch has no trees, so that it may stand anywhere
  · exact .append h.sound.arena h'.leads.nodes_kept h.leads.size_le
      (h.row _ hstart h'.previousStop_le) (h'.toRow.empty u.previousStop u.previousStop)
      (Nat.le_refl _) (Nat.le_of_lt hstart) (Nat.le_refl _)
  · exact .append h.sound.arena h'.leads.nodes_kept h.leads.size_le h.accounts h'.accounts

theorem Wraps.makes (h : Wraps source s id t) (htaken : s.start < t.previousStop) :
    Makes source s id t := by
  refine ⟨h.takes (.refl h.sound) htaken, h.id_last, ?_⟩
  rw [h.span_eq, State.spanFrom, Nat.max_eq_left (Nat.le_of_lt htaken)]

/-- A node over the whole stretch that takes only the first tree as its child: the others lie inside
    it but stay beside it in the row. -/
theorem Reads.wrapFirst (h : Reads source s (id :: later) t) (htaken : s.start < t.previousStop)
    (hkind : kind.children = [id]) (hbare : kind.annotations = [])
    (hformed : kind.IsFormed t.nodes t.previousStop)
    (hspelled : kind.IsSpelled source (t.spanFrom s.start)) :
    Reads source s (t.nodes.size :: later)
      (t.add (nodeOf source kind (t.spanFrom s.start) none)) := by
  have hrow : Row t.nodes s.nodes.size s.start t.previousStop (kind.children ++ later) :=
    hkind.symm ▸ h.toRow
  have hmax : max t.previousStop s.start = t.previousStop := Nat.max_eq_left (Nat.le_of_lt htaken)
  have hspaced : kind.IsSpaced t.nodes :=
    NodeKind.isSpaced_of_areApart (hkind.symm ▸ List.pairwise_singleton _ _)
  refine ⟨?_, h.origin, h.isSound_add hrow (NodeKind.isMarked_none hbare) hformed hspaced hspelled,
    h.leads.trans (t.leadsTo_add _), h.start_le, h.previousStop_le, ?_⟩
  · refine .wrap h.sound.arena h.leads.size_le hrow rfl (Nat.le_refl _) htaken
      (Nat.le_of_eq hmax) (Nat.le_refl _) fun x hx => ?_
    -- the others start after the first tree, which the node takes, and so after the node
    have hfirst := (h.ids_inside id (List.mem_cons_self ..)).1
    exact Nat.lt_of_le_of_lt hfirst ((List.pairwise_cons.1 h.ids_increasing).1 x hx)
  · refine h.accounts.push h.sound.arena h.leads.size_le fun x hx => ?_
    rcases List.mem_cons.1 hx with rfl | hx
    · exact .inl (hkind ▸ List.mem_singleton_self _)
    · exact .inr (.inl hx)

end CodeMarkup
