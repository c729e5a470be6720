import CodeMarkup.Proofs.Attribution.Merge
import CodeMarkup.Proofs.Safety.Cursor
import CodeMarkup.Proofs.Safety.Scans
import CodeMarkup.Proofs.Safety.Slices
import Mathlib.Algebra.Group.Nat.Defs

namespace CodeMarkup

/-!
# The front end is safe

Reading a source cuts texts out of it, subtracts, and takes tokens and nodes by their index.  For
every source, entry point and choice of options, none of these operations fails.

* `Source.IsCutSafely`: texts are cut out at offsets in range and between characters.
* `CountsAreSafe`: no count of open brackets goes below zero.
* `Source.CursorIsSafe`: tokens are taken at an index in range.
* `Tree.IsInRange`: nodes are taken at an index in range.
* `Source.parseWithComments_isSafe`: the front end as a whole.
-/

/-- That every text that is read off a source can be cut out of it. -/
structure Source.IsCutSafely (source : Source) : Prop where
  /-- The source itself is a range of it. -/
  whole : source.HasSpan ⟨0, source.size⟩
  /-- A range can be cut out if it is in order and its ends fall between characters. -/
  range : ∀ range, source.HasSpan range → (source.slice? range).isSome = true
  /-- While a range is read, so can what is left of it at each token, the text of the token, and the
      content of the token. -/
  tokens : ∀ range, source.HasSpan range →
    Checked.tokensIn source range = source.tokensIn? range
  /-- The expressions in a template stand at ranges again. -/
  interpolation : ∀ range tokens, source.HasSpan range →
    source.tokensIn? range = some (.ok tokens) → ∀ token ∈ tokens, ∀ raw,
      token.kind = .template raw → ∀ inner, some inner ∈ interpolations raw.toList →
        source.HasSpan (inner.shift (token.span.start + 1))
  /-- The contents of comments can be cut out. -/
  comments : Checked.comments source = some source.comments
  /-- The line of an offset is found, and can be cut out from its start on. -/
  position : ∀ offset, Checked.position source offset = some (source.position offset)

/-- That no count of open brackets goes below zero. -/
structure CountsAreSafe : Prop where
  /-- While the end of a template is looked for. -/
  template : ∀ depth text, Checked.spanTemplate depth text = some (spanTemplate depth text)
  /-- While the expressions in the bytes of a template are looked for. -/
  interpolation : ∀ raw, Checked.interpolations raw = some (interpolations raw)
  /-- While the parenthesis is looked for that closes an annotation. -/
  annotation : ∀ tokens, Checked.afterAnnotation tokens = some (afterAnnotation? tokens)
  /-- While the parenthesis is looked for that closes the parameters of a lambda. -/
  lambda : ∀ tokens, Checked.startsLambda tokens = some (startsLambda tokens)

/-- That the tokens of a source are taken at an index in range. -/
structure Source.CursorIsSafe (source : Source) : Prop where
  /-- The tokens of a range are read from the first one on. -/
  start : ∀ range tokens, source.HasSpan range → source.tokensIn? range = some (.ok tokens) →
    (State.ofTokens tokens).IsValid source ∧ (State.ofTokens tokens).cursor = ⟨tokens, 0⟩
  /-- Taking a token moves the index. -/
  advance : ∀ s : State, s.IsValid source →
    s.advance.IsValid source ∧ s.cursor.advance = some s.advance.cursor
  /-- Whatever has been taken, the accesses are in range. -/
  isInRange : ∀ s : State, s.IsInRange

/-- That the nodes of a tree are taken at an index in range, also while comments are given to them,
    of which there are `total`. -/
structure Tree.IsInRange (source : Source) (total : Nat) (tree : Tree) : Prop where
  root_lt : tree.root < tree.size
  child_lt : ∀ id < tree.size, ∀ child ∈ tree.children id, child < tree.size
  hasSpan : ∀ id < tree.size, source.HasSpan (tree.span id)
  /-- The number of comments that are left over is not negative. -/
  attached_le : tree.nodes.toList.countP (·.comment.isSome) ≤ total

variable {source : Source} {tree : Tree} {body : List Token}

/-! ### Texts -/

theorem Source.HasSpan.isTokenStream {range : Span} {result : Except ParseError (List Token)}
    (h : source.HasSpan range) (hresult : source.tokensIn? range = some result) :
    IsTokenStream source range result := by
  obtain ⟨text, htext⟩ := h.exists_hasText
  rw [tokensIn?, slice?_eq_some htext] at hresult
  obtain rfl : tokensFrom range.start text = result := Option.some.inj hresult
  exact htext.isTokenStream

/-- The expressions in a text lie inside it. -/
theorem Source.HasText.interpolation_hasSpan {span : Span} {raw : List Char} {inner : Span}
    (h : source.HasText span raw) (hinner : some inner ∈ interpolations raw) :
    source.HasSpan (inner.shift span.start) := by
  obtain ⟨front, middle, back, rfl, hstart, hstop⟩ :=
    (interpolations_located raw).exists_part hinner
  have hpart := (h.part front middle back).hasSpan
  rw [hstart, hstop, Nat.add_comm, Nat.add_comm span.start] at hpart
  exact hpart

theorem Source.isCutSafely (source : Source) : source.IsCutSafely where
  whole := source.hasText_chars.hasSpan
  range range h := by
    obtain ⟨text, htext⟩ := h.exists_hasText
    rw [slice?_eq_some htext]
    rfl
  tokens range h := by
    obtain ⟨text, htext⟩ := h.exists_hasText
    exact Checked.tokensIn_eq htext
  interpolation range tokens h htokens token hmem raw hkind inner hinner := by
    obtain ⟨body, rfl, hbody⟩ := h.isTokenStream htokens
    rcases List.mem_append.1 hmem with hmem | hmem
    · -- the text of the template stands between two quotes of one byte each
      have htext := (hbody.mem token hmem).2.2.hasText
      have hspelling : token.kind.spelling.toList = ['`'] ++ raw.toList ++ ['`'] := by
        simp [hkind, TokenKind.spelling]
      rw [hspelling] at htext
      exact (htext.part ['`'] raw.toList ['`']).interpolation_hasSpan hinner
    · rw [List.mem_singleton.1 hmem] at hkind
      cases hkind
  comments := Checked.comments_eq source
  position := Checked.position_eq source

theorem countsAreSafe : CountsAreSafe where
  template := Checked.spanTemplate_eq
  interpolation := Checked.interpolations_eq
  annotation := Checked.afterAnnotation_eq
  lambda := Checked.startsLambda_eq

/-! ### Indices -/

theorem Source.cursorIsSafe (source : Source) : source.CursorIsSafe where
  start _ _ h htokens := State.cursor_ofTokens h (h.isTokenStream htokens)
  advance _ h := h.cursor_advance
  isInRange s := s.cursor_isInRange

/-- No node has more than one comment attached. -/
theorem countP_isSome_le (nodes : List Node) :
    nodes.countP (·.comment.isSome) ≤ (nodes.flatMap Node.comments).length := by
  induction nodes with
  | nil => exact Nat.le_refl 0
  | cons node nodes ih =>
    have hnode : (if node.comment.isSome then 1 else 0) ≤ node.comments.length := by
      cases hcomment : node.comment with
      | none => simp
      | some comment => simp [Node.comments, hcomment]
    rw [List.countP_cons, List.flatMap_cons, List.length_append, Nat.add_comm]
    exact Nat.add_le_add hnode ih

theorem Tree.IsParsed.isInRange (h : tree.IsParsed source body) (options : MergeOptions)
    (comments : List Comment) :
    (tree.attributeComments options comments).IsInRange source comments.length := by
  have hconserves :=
    attributeComments_conserves h.isBottomUp h.root_lt h.comments_eq_nil options comments
  have hperm := attributeComments_perm h.isBottomUp h.root_lt h.comments_eq_nil options comments
  have hsize := hconserves.size_eq
  refine ⟨?_, ?_, ?_, ?_⟩
  · rw [hconserves.root_eq, hsize]
    exact h.root_lt
  · intro id hid child hchild
    rw [Tree.children, hconserves.kind_eq] at hchild
    rw [hsize] at hid ⊢
    exact h.child_lt_size hid hchild
  · intro id hid
    rw [hconserves.span_eq]
    exact (h.isSound (hsize ▸ hid)).hasSpan
  · rw [← hperm.length_eq]
    exact countP_isSome_le _

/-! ### The front end -/

/-- **The front end is safe.**  It returns a tree or an error of the text for every source shorter
    than 2³² bytes, every entry point and all options.  Every text that it cuts out is in range and
    between characters, and its offsets fit in 32 bits; every token and every node that it takes is
    in range; no subtraction goes below zero. -/
theorem Source.parseWithComments_isSafe (source : Source) (hsize : source.size < 2 ^ 32)
    (entry : EntryPoint) (options : MergeOptions) :
    source.IsCutSafely ∧ CountsAreSafe ∧ source.CursorIsSafe
      ∧ (∀ span, source.HasSpan span → span.start < 2 ^ 32 ∧ span.stop < 2 ^ 32)
      ∧ match source.parseWithComments entry options with
        | .ok tree => tree.IsInRange source source.comments.length
        | .error error => error.IsSound source := by
  refine ⟨source.isCutSafely, countsAreSafe, source.cursorIsSafe, ?_, ?_⟩
  · intro span hspan
    have hstart := hspan.start_le
    have hstop := hspan.stop_boundary.le_size
    omega
  · have hparsed := source.parse_isParsed entry
    unfold parseWithComments
    cases hparse : source.parse entry with
    | error error =>
      rw [hparse] at hparsed
      exact hparsed
    | ok tree =>
      rw [hparse] at hparsed
      obtain ⟨body, -, -, htree⟩ := hparsed
      exact htree.isInRange options source.comments

/-- A lambda and a comment with characters of two bytes, one of them after a backslash. -/
def Source.accented : Source :=
  .ofText "(é) -> `ü\\ö$\x7bf(é)\x7d` // ß"

theorem Source.parseWithComments_isSafe_accented :
    accented.size < 2 ^ 32
      ∧ ∃ tree, accented.parseWithComments .expression {} = .ok tree
        ∧ tree.IsInRange accented 1 := by
  have hsize : accented.size < 2 ^ 32 := by decide +kernel
  have hcomments : accented.comments.length = 1 := by decide +kernel
  have hok : (accented.parseWithComments .expression {}).isOk = true := by decide +kernel
  obtain ⟨tree, htree⟩ := exists_eq_ok hok
  have hsafe := (parseWithComments_isSafe accented hsize .expression {}).2.2.2.2
  rw [htree, hcomments] at hsafe
  exact ⟨hsize, tree, htree, hsafe⟩

end CodeMarkup
