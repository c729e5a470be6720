import CodeMarkup.Proofs.Parsing.Derivation

namespace CodeMarkup

/-!
# Spans of a syntax tree

What the spans of the nodes of a parsed tree say about each other and about the source.

* `Source.parse_spans_nest`: spans are spans of the source; a node contains its children, which
  start one after another; and the root covers all tokens.
* `Source.parse_leaf_text`: names, literals, templates and words of the grammar have the text that
  the source has at their spans.
-/

variable {source : Source} {tree : Tree}

/-! ### Nodes of a parsed tree -/

theorem Tree.node?_eq_some {id : NodeId} (h : id < tree.size) :
    tree.nodes[id]? = some (tree.node id) := by
  obtain ⟨node, hnode⟩ : ∃ node, tree.nodes[id]? = some node :=
    ⟨_, Array.getElem?_eq_some_iff.2 ⟨h, rfl⟩⟩
  rw [Tree.node, Tree.node?, hnode]
  rfl

/-- The nodes of a tree are those at the numbers below its size. -/
theorem Tree.nodes_toList_eq (tree : Tree) :
    tree.nodes.toList = (List.range tree.size).map tree.node := by
  refine List.ext_getElem? fun i => ?_
  rw [List.getElem?_map, Array.getElem?_toList]
  by_cases hi : i < tree.size
  · rw [List.getElem?_range hi, tree.node?_eq_some hi]
    rfl
  · rw [List.getElem?_eq_none (by simpa using hi), Array.getElem?_eq_none (Nat.not_lt.1 hi)]
    rfl

/-- Every node of a parsed tree is sound. -/
theorem Tree.IsParsed.isSound {body : List Token} (h : tree.IsParsed source body) {id : NodeId}
    (hid : id < tree.size) : (tree.node id).IsSound source tree.nodes id :=
  h.arena id (tree.node id) (Tree.node?_eq_some hid)

theorem Tree.IsParsed.child_lt_size {body : List Token} (h : tree.IsParsed source body)
    {id child : NodeId} (hid : id < tree.size) (hchild : child ∈ tree.children id) :
    child < tree.size :=
  Nat.lt_trans ((h.isSound hid).children_lt child hchild) hid

/-- A parse that succeeds makes a tree of the tokens of the source. -/
theorem Source.parse_eq_ok {entry : EntryPoint} (h : source.parse entry = .ok tree) :
    ∃ body, source.tokens = .ok (body ++ [⟨.eof, .point source.size⟩])
      ∧ InOrder source 0 body source.size ∧ tree.IsParsed source body := by
  have hparsed := source.parse_isParsed entry
  rwa [h] at hparsed

/-- Only the last token of a source is its mark. -/
theorem InOrder.filter_ne_eof {lo hi : Nat} {body : List Token} (h : InOrder source lo body hi)
    (span : Span) : (body ++ [(⟨.eof, span⟩ : Token)]).filter (·.kind != .eof) = body := by
  induction h with
  | nil => rfl
  | cons _ htoken _ ih =>
    have hkind := bne_iff_ne.2 htoken.kind_ne
    rw [List.cons_append, List.filter_cons, if_pos hkind, ih]

/-! ### Containment -/

/-- **Spans nest and follow the source.**  In the tree of every parse that succeeds, every span is a
    span of the source; the span and the extent of a node contain those of its children; the
    children start one after another; and the root reaches from the first token to the last. -/
theorem Source.parse_spans_nest (source : Source) (entry : EntryPoint) (tree : Tree)
    (h : source.parse entry = .ok tree) :
    (∀ id < tree.size, (tree.span id).start ≤ (tree.span id).stop
      ∧ (tree.span id).stop ≤ source.size
      ∧ source.IsBoundary (tree.span id).start ∧ source.IsBoundary (tree.span id).stop)
    ∧ (∀ id < tree.size, ∀ child ∈ tree.children id, child < tree.size
      ∧ (tree.span id).contains (tree.span child) = true
      ∧ (tree.node id).extent.contains (tree.node child).extent = true)
    ∧ (∀ id < tree.size, (tree.children id).Pairwise fun a b =>
      (tree.span a).start < (tree.span b).start)
    ∧ ∀ tokens first last, source.tokens = .ok tokens →
      (tokens.filter (·.kind != .eof)).head? = some first →
      (tokens.filter (·.kind != .eof)).getLast? = some last →
      tree.span tree.root = ⟨first.span.start, last.span.stop⟩ := by
  obtain ⟨body, htokens, hbody, hparsed⟩ := Source.parse_eq_ok h
  refine ⟨fun id hid => ?_, fun id hid child hchild => ?_, fun id hid => ?_, ?_⟩
  · have hspan := (hparsed.isSound hid).hasSpan
    exact ⟨hspan.start_le, hspan.stop_boundary.le_size, hspan.start_boundary, hspan.stop_boundary⟩
  · have hnode := hparsed.isSound hid
    have hlt := hparsed.child_lt_size hid hchild
    have hinner := hparsed.isSound hlt
    obtain ⟨hstart, hbefore, hstop⟩ := hnode.children_inside child hchild
    refine ⟨hlt, ?_, ?_⟩
    · rw [Span.contains, Bool.and_eq_true, decide_eq_true_eq, decide_eq_true_eq]
      exact ⟨hstart, hstop⟩
    -- positions follow offsets, if the child starts before the end of the node
    · rw [hnode.extent_eq, hinner.extent_eq]
      exact Source.extent_contains hnode.hasSpan hinner.hasSpan hstart hbefore hstop
  · exact (hparsed.isSound hid).children_increasing
  · intro tokens first last htokens' hfirst hlast
    rw [htokens] at htokens'
    cases htokens'
    -- without its mark the list holds the tokens that the root was made of
    rw [hbody.filter_ne_eof] at hfirst hlast
    refine hparsed.root_span _ ?_
    rw [spanOfTokens?, hfirst, hlast]
    rfl

/-- The tree of a call covers the whole text. -/
theorem parse_spans_nest_call :
    ∃ tree, (Source.ofText "f(x)").parse .expression = .ok tree
      ∧ tree.span tree.root = ⟨0, 4⟩ := by
  have htokens : (Source.ofText "f(x)").tokens = .ok
      [⟨.identifier "f", ⟨0, 1⟩⟩, ⟨.leftParen, ⟨1, 2⟩⟩, ⟨.identifier "x", ⟨2, 3⟩⟩,
        ⟨.rightParen, ⟨3, 4⟩⟩, ⟨.eof, ⟨4, 4⟩⟩] := Source.tokens_eq_ok (by decide +kernel)
  obtain ⟨tree, h⟩ : ∃ tree, (Source.ofText "f(x)").parse .expression = .ok tree :=
    Source.exists_eq_ok (by decide +kernel)
  exact ⟨tree, h, (Source.parse_spans_nest _ _ tree h).2.2.2 _ _ _ htokens rfl rfl⟩

/-! ### Leaves -/

/-- **Leaves reproduce their source.**  In the tree of every parse that succeeds, wherever its
    tokens came from, a node that holds its own spelling spans exactly this text. -/
theorem Source.parse_leaf_text (source : Source) (entry : EntryPoint) (tree : Tree)
    (h : source.parse entry = .ok tree) :
    ∀ id < tree.size, ∀ text, (tree.kind id).spelling? = some text →
      tree.textOf id = text ∧ source.slice? (tree.span id) = some text.toList := by
  obtain ⟨body, -, -, hparsed⟩ := Source.parse_eq_ok h
  intro id hid text htext
  have hslice : source.slice? (tree.span id) = some text.toList :=
    Source.slice?_eq_some ((hparsed.isSound hid).spelled text htext)
  refine ⟨?_, hslice⟩
  rw [Tree.textOf, hparsed.source_eq, Source.textOf, hslice, Option.getD_some,
    String.ofList_toList]

/-- A key with a dash, the word inside a template, which is read by a parse of its own, and the
    template. -/
theorem parse_leaf_text_json :
    ∃ tree, (Source.ofText "\x7bé-if: `$\x7b this \x7d`\x7d").parse .json = .ok tree
      ∧ tree.textOf 0 = "é-if" ∧ tree.textOf 1 = "this"
      ∧ tree.textOf 2 = "`$\x7b this \x7d`" := by
  obtain ⟨tree, h, hsize, hkey, hword, htemplate⟩ : ∃ tree,
      (Source.ofText "\x7bé-if: `$\x7b this \x7d`\x7d").parse .json = .ok tree
        ∧ 2 < tree.size ∧ (tree.kind 0).spelling? = some "é-if"
        ∧ (tree.kind 1).spelling? = some "this"
        ∧ (tree.kind 2).spelling? = some "`$\x7b this \x7d`" :=
    Source.exists_eq_ok_and (by decide +kernel)
  have htext := Source.parse_leaf_text _ _ tree h
  exact ⟨tree, h, (htext 0 (by omega) _ hkey).1, (htext 1 (by omega) _ hword).1,
    (htext 2 hsize _ htemplate).1⟩

end CodeMarkup
