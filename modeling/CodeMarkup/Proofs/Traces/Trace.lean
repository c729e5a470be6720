import CodeMarkup.Grammar.Expressions
import CodeMarkup.Proofs.Parsing.Forest

namespace CodeMarkup

/-!
# Traces of a parse

All that productions which succeed do, in single steps: they take tokens and make nodes.  What holds
of every trace holds of every production, so it need not be proved for one after the other.

* `NodeKind.isPlain`, `NodeKind.isOperand`: the forms of operands.
* `NodeKind.IsGrouped`: operands that bind as tightly as the operation that they are part of needs
  it.
* `Trace`: the steps of a run, with the number of parentheses that it closes beyond those it opens.
* `Trace.nodes_kept`, `Trace.afterParens?_eq`, `Trace.grouped`: nodes are only added, what is
  opened is closed, and all operations are grouped.
-/

/-! ### Forms of operands -/

/-- Whether a form is a type. -/
def NodeKind.isType : NodeKind → Bool
  | .primitiveType _ | .classType _ _ _ | .arrayType _ => true
  | _ => false

/-- Whether a form is a list of values in braces. -/
def NodeKind.isArrayInitializer : NodeKind → Bool
  | .arrayInitializer _ => true
  | _ => false

/-- Whether a form is an operand without operators between its parts.  Types are such operands
    before `::`. -/
def NodeKind.isPlain : NodeKind → Bool
  | .simpleName _ | .literal _ | .thisExpr _ | .superExpr _ | .template _ _ | .classLiteral _
  | .objectCreation _ _ _ _ | .arrayCreation _ _ _ _ | .enclosed _ | .json _ _ | .tag _ _ _
  | .fieldAccess _ _ | .methodCall _ _ _ _ | .arrayAccess _ _ | .methodReference _ _
  | .unary _ _ | .cast _ _ => true
  | kind => kind.isType

/-- Whether a form is a json container. -/
def NodeKind.isJson : NodeKind → Bool
  | .json _ _ => true
  | _ => false

/-- Whether a form is a tag or a json container. -/
def NodeKind.isMarkup (kind : NodeKind) : Bool :=
  Grammar.isTag kind || kind.isJson

/-- Whether a form is an operand without operators between its parts, and no markup. -/
def NodeKind.isBare (kind : NodeKind) : Bool :=
  kind.isPlain && !kind.isMarkup

/-- Whether a form is an operation with an operand on its left and an operator after it. -/
def NodeKind.isOperation : NodeKind → Bool
  | .binary _ _ _ | .instanceOf _ _ => true
  | _ => false

/-- Whether a form may stand to the left of an operator. -/
def NodeKind.isOperand (kind : NodeKind) : Bool :=
  kind.isPlain || kind.isOperation

/-- Whether a form asks something of the forms of its parts. -/
def NodeKind.isCompound : NodeKind → Bool
  | .arrayCreation _ _ _ _ | .cast _ _ => true
  | .unary op _ => !op.isTrailing
  | kind => kind.isOperation

/-- Whether a form is a type test. -/
def NodeKind.isInstanceOf : NodeKind → Bool
  | .instanceOf _ _ => true
  | _ => false

/-! ### How tightly forms bind -/

/-- A form that binds at least as tightly as `power`.  An operation binds as its operator does, and
    every other form binds tighter than any operator. -/
def NodeKind.BindsAtLeast (power : Nat) : NodeKind → Prop
  | .binary _ op _ => power ≤ op.power
  | .instanceOf _ _ => power ≤ Grammar.instanceOfPower
  | _ => True

/-- A binary operation whose right operand is a tag. -/
def NodeKind.EndsInTag (nodes : Array Node) : NodeKind → Prop
  | .binary _ _ right => Grammar.isTag (kindIn nodes right) = true
  | _ => False

/-- What an operator may stand after: an operand, which for `<` is not a tag. -/
def BinaryOp.MayFollow (nodes : Array Node) (op : BinaryOp) (left : NodeId) : Prop :=
  left < nodes.size ∧ (kindIn nodes left).isOperand = true
    ∧ (op = .less → Grammar.isTag (kindIn nodes left) = false)

/-- A form with operands that it can have.  The right operand of an operator binds tighter than it,
    and the left one no looser; but for a type test on the left, which every operator may follow,
    and for an operation that ends in a tag, where an operator may have been taken for markup.  An
    operator before its operand and a cast apply to operands without operators between their parts.
    A type test names a type; so does the creation of an array, which may end with its values. -/
def NodeKind.IsGrouped (nodes : Array Node) : NodeKind → Prop
  | .binary left op right =>
    op.MayFollow nodes left ∧ (right < nodes.size ∧ (kindIn nodes right).isOperand = true)
      ∧ (kindIn nodes right).BindsAtLeast (op.power + 1)
      ∧ ((kindIn nodes left).BindsAtLeast op.power ∨ (kindIn nodes left).isInstanceOf = true
        ∨ (kindIn nodes left).EndsInTag nodes)
  | .instanceOf expression type =>
    (expression < nodes.size ∧ (kindIn nodes type).isType = true)
      ∧ (kindIn nodes expression).BindsAtLeast Grammar.instanceOfPower
  | .unary op operand => op.isTrailing = false → (kindIn nodes operand).isPlain = true
  | .cast _ operand => (kindIn nodes operand).isPlain = true
  | .arrayCreation type _ _ init => (kindIn nodes type).isType = true
      ∧ ∀ values ∈ init, (kindIn nodes values).isArrayInitializer = true
  | _ => True

/-- Nodes with operands that they can have. -/
def IsGroupedArena (nodes : Array Node) : Prop :=
  ∀ id < nodes.size, (kindIn nodes id).IsGrouped nodes

section

variable {nodes more : Array Node} {kind : NodeKind} {id : NodeId}

theorem NodeKind.bindsAtLeast_of_not_isOperation (h : kind.isOperation = false) (power : Nat) :
    kind.BindsAtLeast power := by
  cases kind <;> trivial

theorem NodeKind.isGrouped_of_not_isCompound (h : kind.isCompound = false) (nodes : Array Node) :
    kind.IsGrouped nodes := by
  cases kind with
  | unary op operand =>
    intro htrailing
    rw [isCompound, htrailing] at h
    cases h
  | _ => trivial

theorem NodeKind.not_isOperation_of_isPlain (h : kind.isPlain = true) :
    kind.isOperation = false := by
  cases kind <;> first | rfl | cases h

theorem NodeKind.isBare_of_isType (h : kind.isType = true) : kind.isBare = true := by
  cases kind <;> first | rfl | cases h

theorem NodeKind.isPlain_of_isMarkup (h : kind.isMarkup = true) : kind.isPlain = true := by
  cases kind <;> first | rfl | cases h

theorem NodeKind.isMarkup_of_isTag (h : Grammar.isTag kind = true) : kind.isMarkup = true :=
  Bool.or_eq_true_iff.2 (.inl h)

theorem NodeKind.isMarkup_of_isJson (h : kind.isJson = true) : kind.isMarkup = true :=
  Bool.or_eq_true_iff.2 (.inr h)

theorem NodeKind.isPlain_of_isBare (h : kind.isBare = true) : kind.isPlain = true :=
  (Bool.and_eq_true_iff.1 h).1

theorem kindIn_eq_of_lt (hkept : nodes.toList <+: more.toList) (hid : id < nodes.size) :
    kindIn more id = kindIn nodes id := by
  unfold kindIn
  rw [getElem?_stable hkept hid]

/-- A node whose form passes a test, as that of a blank does not, passes it still. -/
theorem kindIn_test_stable {f : NodeKind → Bool} (hblank : f .emptyStmt = false)
    (h : f (kindIn nodes id) = true) (hkept : nodes.toList <+: more.toList) :
    f (kindIn more id) = true := by
  rw [kindIn_stable hkept]
  · exact h
  · intro hempty
    rw [hempty, hblank] at h
    cases h

theorem BinaryOp.MayFollow.stable {op : BinaryOp} (h : op.MayFollow nodes id)
    (hkept : nodes.toList <+: more.toList) : op.MayFollow more id := by
  obtain ⟨hlt, hoperand, hless⟩ := h
  have hsize : nodes.size ≤ more.size := by simpa using hkept.length_le
  refine ⟨Nat.lt_of_lt_of_le hlt hsize, kindIn_test_stable rfl hoperand hkept, fun hop => ?_⟩
  rw [kindIn_eq_of_lt hkept hlt]
  exact hless hop

theorem NodeKind.EndsInTag.stable (h : kind.EndsInTag nodes)
    (hkept : nodes.toList <+: more.toList) : kind.EndsInTag more := by
  cases kind with
  | binary left op right => exact kindIn_test_stable (f := Grammar.isTag) rfl h hkept
  | _ => exact h

theorem NodeKind.IsGrouped.stable (h : kind.IsGrouped nodes)
    (hkept : nodes.toList <+: more.toList) : kind.IsGrouped more := by
  have hsize : nodes.size ≤ more.size := by simpa using hkept.length_le
  cases kind with
  | binary left op right =>
    obtain ⟨hleft, ⟨hright, hoperand⟩, htighter, hlooser⟩ := h
    refine ⟨hleft.stable hkept, ⟨Nat.lt_of_lt_of_le hright hsize,
      kindIn_test_stable rfl hoperand hkept⟩, ?_, ?_⟩
    · rw [kindIn_eq_of_lt hkept hright]
      exact htighter
    · rw [kindIn_eq_of_lt hkept hleft.1]
      exact hlooser.imp_right (Or.imp_right fun htag => htag.stable hkept)
  | instanceOf expression type =>
    obtain ⟨⟨hexpression, htype⟩, hbinds⟩ := h
    refine ⟨⟨Nat.lt_of_lt_of_le hexpression hsize, kindIn_test_stable rfl htype hkept⟩, ?_⟩
    rw [kindIn_eq_of_lt hkept hexpression]
    exact hbinds
  | unary op operand => exact fun htrailing => kindIn_test_stable rfl (h htrailing) hkept
  | cast type operand => exact kindIn_test_stable (f := NodeKind.isPlain) rfl h hkept
  | arrayCreation type sizes unsized init =>
    obtain ⟨htype, hvalues⟩ := h
    refine ⟨kindIn_test_stable rfl htype hkept, fun values hinit => ?_⟩
    exact kindIn_test_stable rfl (hvalues values hinit) hkept
  | _ => exact h

/-- A node whose operands are there already may be added. -/
theorem IsGroupedArena.push {node : Node} (h : IsGroupedArena nodes)
    (hnode : node.kind.IsGrouped nodes) : IsGroupedArena (nodes.push node) := by
  have hkept : nodes.toList <+: (nodes.push node).toList := by simp
  intro id hid
  rw [Array.size_push] at hid
  rcases Nat.lt_or_eq_of_le (Nat.le_of_lt_succ hid) with hold | rfl
  · rw [kindIn_eq_of_lt hkept hold]
    exact (h id hold).stable hkept
  · rw [kindIn_push_size]
    exact hnode.stable hkept

end

/-! ### Traces -/

/-- Whether a kind of token is a parenthesis. -/
def TokenKind.isParen : TokenKind → Bool
  | .leftParen | .rightParen => true
  | _ => false

/-- `Trace d tokens nodes rest made`: what a run does that starts at `tokens` with `nodes` and ends
    at `rest` with the nodes `made`.  It closes `d` parentheses more than it opens. -/
inductive Trace : Nat → List Token → Array Node → List Token → Array Node → Prop where
  | done (tokens : List Token) (nodes : Array Node) : Trace 0 tokens nodes tokens nodes
  | token {d : Nat} {token : Token} {tokens rest : List Token} {nodes made : Array Node}
      (hkind : token.kind.isParen = false) (h : Trace d tokens nodes rest made) :
      Trace d (token :: tokens) nodes rest made
  | opening {d : Nat} {token : Token} {tokens rest : List Token} {nodes made : Array Node}
      (hkind : token.kind = .leftParen) (h : Trace (d + 1) tokens nodes rest made) :
      Trace d (token :: tokens) nodes rest made
  | closing {d : Nat} {token : Token} {tokens rest : List Token} {nodes made : Array Node}
      (hkind : token.kind = .rightParen) (h : Trace d tokens nodes rest made) :
      Trace (d + 1) (token :: tokens) nodes rest made
  /-- A node is made. -/
  | node {d : Nat} {node : Node} {tokens rest : List Token} {nodes made : Array Node}
      (hnode : node.kind.IsGrouped nodes) (h : Trace d tokens (nodes.push node) rest made) :
      Trace d tokens nodes rest made
  /-- Other tokens are read in between. -/
  | inner {d : Nat} {inside left tokens rest : List Token} {nodes between made : Array Node}
      (hinside : Trace 0 inside nodes left between) (h : Trace d tokens between rest made) :
      Trace d tokens nodes rest made

namespace Trace

variable {c d : Nat} {tokens rest last : List Token} {nodes made all : Array Node}

theorem trans (h : Trace c tokens nodes rest made) (h' : Trace d rest made last all) :
    Trace (c + d) tokens nodes last all := by
  induction h with
  | done => rwa [Nat.zero_add]
  | token hkind _ ih => exact .token hkind (ih h')
  | opening hkind _ ih =>
    refine .opening hkind ?_
    rw [Nat.add_right_comm]
    exact ih h'
  | closing hkind _ ih =>
    rw [Nat.add_right_comm]
    exact .closing hkind (ih h')
  | node hnode _ ih => exact .node hnode (ih h')
  | inner hinside _ _ ih => exact .inner hinside (ih h')

/-- Nodes are only added. -/
theorem nodes_kept (h : Trace d tokens nodes rest made) : nodes.toList <+: made.toList := by
  induction h with
  | done => exact List.prefix_refl _
  | token _ _ ih => exact ih
  | opening _ _ ih => exact ih
  | closing _ _ ih => exact ih
  | node _ _ ih => exact List.IsPrefix.trans (by simp) ih
  | inner _ _ ih ih' => exact ih.trans ih'

theorem size_le (h : Trace d tokens nodes rest made) : nodes.size ≤ made.size := by
  simpa using h.nodes_kept.length_le

/-- Tokens are only taken. -/
theorem rest_suffix (h : Trace d tokens nodes rest made) : rest <:+ tokens := by
  induction h with
  | done => exact List.suffix_refl _
  | token _ _ ih => exact ih.trans (List.suffix_cons _ _)
  | opening _ _ ih => exact ih.trans (List.suffix_cons _ _)
  | closing _ _ ih => exact ih.trans (List.suffix_cons _ _)
  | node _ _ ih => exact ih
  | inner _ _ _ ih => exact ih

/-- **Parentheses are balanced.**  A search for the parenthesis that closes one around the run finds
    it after the run. -/
theorem afterParens?_eq (h : Trace d tokens nodes rest made) {n : Nat} (hn : 0 < n) :
    afterParens? (n + d) tokens = afterParens? n rest := by
  induction h with
  | done => rfl
  | token hkind _ ih =>
    rw [← ih, afterParens?]
    split
    · next heq =>
      rw [heq] at hkind
      cases hkind
    · next heq =>
      rw [heq] at hkind
      cases hkind
    · rfl
  | opening hkind _ ih =>
    rw [afterParens?, hkind]
    exact ih
  | closing hkind _ ih =>
    rw [afterParens?, hkind]
    dsimp only
    rw [if_neg (by omega)]
    exact ih
  | node _ _ ih => exact ih
  | inner _ _ _ ih => exact ih

/-- **Operations are grouped.** -/
theorem grouped (h : Trace d tokens nodes rest made) (hnodes : IsGroupedArena nodes) :
    IsGroupedArena made := by
  induction h with
  | done => exact hnodes
  | token _ _ ih => exact ih hnodes
  | opening _ _ ih => exact ih hnodes
  | closing _ _ ih => exact ih hnodes
  | node hnode _ ih => exact ih (hnodes.push hnode)
  | inner _ _ ih ih' => exact ih' (ih hnodes)

end Trace

end CodeMarkup
