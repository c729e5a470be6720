import CodeMarkup.Proofs.Precedence
import CodeMarkup.Proofs.Reachability
import Mathlib.Logic.Relation

namespace CodeMarkup

/-!
# Tags before `<`

After a tag the sign `<` opens markup.  The loop over binary operations looks at the form of its
left operand only, so the sign is a comparison after an operand that ends in a tag and is none
itself: the loop that has read the tag leaves the sign to the loop around it, which takes it.

* `NodeKind.part_cases`: the parts that an operand may end with.
* `Tree.EndsWith`: a node at the end of another one.
* `Tree.IsParsed.operand_endsWith`: what an operand ends with, one step down.
* `Tree.IsParsed.exists_last_tag`: a tag at the end of an operand is reached through last operands.
* `Source.parse_less_operand`: the left operand of `<` is no tag, and ends with one only through its
  last operands.
-/

/-! ### Parts at the end of a form -/

namespace NodeKind

variable {nodes : Array Node} {stop : Nat} {kind : NodeKind} {child last : NodeId}

/-- The operand that an operation ends with. -/
def lastOperand? : NodeKind → Option NodeId
  | .binary _ _ right => some right
  | .unary op operand => if op.isTrailing then none else some operand
  | .cast _ operand => some operand
  | _ => none

/-- Whether a form is a type or a list of values in braces.  These end with a token of their own. -/
def isClosed (kind : NodeKind) : Bool :=
  kind.isType || kind.isArrayInitializer

theorem arePast_of_isClosed (hclosed : kind.isClosed = true) (hformed : kind.IsFormed nodes stop) :
    ArePast nodes stop kind.children := by
  cases kind with
  | primitiveType word => exact nofun
  | classType scope name arguments => exact hformed
  | arrayType component => exact hformed
  | arrayInitializer values => exact hformed
  | _ => cases hclosed

theorem not_isTag_of_isClosed (hclosed : kind.isClosed = true) : Grammar.isTag kind = false := by
  cases kind with
  | tag name attributes body => cases hclosed
  | _ => rfl

/-- The last operand of an operation is an operand. -/
theorem isOperand_of_lastOperand? (hgrouped : kind.IsGrouped nodes)
    (hlast : kind.lastOperand? = some last) : (kindIn nodes last).isOperand = true := by
  have hplain : (kindIn nodes last).isPlain = true → (kindIn nodes last).isOperand = true :=
    fun hplain => Bool.or_eq_true_iff.2 (.inl hplain)
  cases kind with
  | binary left op right =>
    cases hlast
    exact hgrouped.2.1.2
  | unary op operand =>
    rw [lastOperand?] at hlast
    split at hlast
    · cases hlast
    · next hleading =>
      cases hlast
      exact hplain (hgrouped (Bool.eq_false_iff.2 hleading))
  | cast type operand =>
    cases hlast
    exact hplain hgrouped
  | _ => cases hlast

/-- **Parts at the end of an operand.**  A part of an operand that is no tag, after which no token
    of the operand follows, is its last operand, a type or a list of values. -/
theorem part_cases (hoperand : kind.isOperand = true) (htag : Grammar.isTag kind = false)
    (hgrouped : kind.IsGrouped nodes) (hformed : kind.IsFormed nodes stop)
    (hchild : child ∈ kind.children) (hend : ¬ArePast nodes stop [child]) :
    kind.lastOperand? = some child ∨ (kindIn nodes child).isClosed = true := by
  have hpast : ∀ {ids}, ArePast nodes stop ids → child ∉ ids :=
    fun hpast hmem => hend (hpast.subset (List.cons_subset.2 ⟨hmem, List.nil_subset _⟩))
  cases kind with
  | binary left op right =>
    rcases List.mem_cons.1 hchild with rfl | hright
    · exact absurd hformed hend
    · rw [List.mem_singleton.1 hright]
      exact .inl rfl
  | instanceOf expression type =>
    rcases List.mem_cons.1 hchild with rfl | htype
    · exact absurd hformed hend
    · rw [List.mem_singleton.1 htype]
      exact .inr (Bool.or_eq_true_iff.2 (.inl hgrouped.1.2))
  | unary op operand =>
    rw [List.mem_singleton.1 hchild] at hend ⊢
    rw [lastOperand?]
    split
    · next htrailing => exact absurd (hformed htrailing) hend
    · exact .inl rfl
  | cast type operand =>
    rcases List.mem_cons.1 hchild with rfl | hoperand
    · exact absurd hformed hend
    · rw [List.mem_singleton.1 hoperand]
      exact .inl rfl
  | arrayCreation type sizes unsized init =>
    obtain ⟨htype, hinit⟩ := hgrouped
    rcases List.mem_append.1 hchild with hchild | hvalues
    · rcases List.mem_cons.1 hchild with rfl | hsize
      · exact .inr (Bool.or_eq_true_iff.2 (.inl htype))
      · exact absurd hsize (hpast hformed)
    · exact .inr (Bool.or_eq_true_iff.2 (.inr (hinit child (Option.mem_toList.1 hvalues))))
  | json isArray entries => exact absurd hchild (hpast hformed.2)
  | tag name attributes body => cases htag
  | _ =>
    -- all other operands end with a token of their own, or have no parts
    first | exact absurd hchild (hpast hformed) | (cases hchild; done) | cases hoperand

end NodeKind

/-! ### Nodes at the end of a node -/

namespace Tree

variable {source : Source} {body : List Token} {tree : Tree} {id child last target : NodeId}

/-- A node at the end of another one: it lies in it and stops where it stops. -/
def EndsWith (tree : Tree) (id target : NodeId) : Prop :=
  tree.Reaches id target ∧ (tree.span target).stop = (tree.span id).stop

/-- One node is the last operand of another one. -/
def IsLastOperand (tree : Tree) (id last : NodeId) : Prop :=
  (tree.kind id).lastOperand? = some last

namespace IsParsed

/-- What lies in a node stops no later. -/
theorem stop_le (h : tree.IsParsed source body) (hid : id < tree.size)
    (hreaches : tree.Reaches id target) : (tree.span target).stop ≤ (tree.span id).stop := by
  induction hreaches with
  | refl => exact Nat.le_refl _
  | @child parent target hparent hchild ih =>
    have hlt : parent < tree.size := Nat.lt_of_le_of_lt (hparent.le h.isBottomUp) hid
    exact Nat.le_trans ((h.isSound hlt).children_inside target hchild).2.2 ih

/-- What a node ends with is the node itself, or lies at the end of a child after which no token of
    the node follows. -/
theorem eq_or_child_endsWith (h : tree.IsParsed source body) (hid : id < tree.size)
    (hends : tree.EndsWith id target) :
    target = id ∨ ∃ child ∈ tree.children id, tree.EndsWith child target
      ∧ ¬ArePast tree.nodes (tree.span id).stop [child] := by
  obtain ⟨hreaches, hstop⟩ := hends
  rcases hreaches.child_or_eq with ⟨child, hchild, hreaches⟩ | rfl
  · have hinner := h.stop_le (h.child_lt_size hid hchild) hreaches
    have houter : (tree.span child).stop ≤ (tree.span id).stop :=
      ((h.isSound hid).children_inside child hchild).2.2
    refine .inr ⟨child, hchild, ⟨hreaches, by omega⟩, fun hpast => ?_⟩
    have hbefore : (tree.span child).stop < (tree.span id).stop :=
      (hpast child (List.mem_singleton_self _)).2
    omega
  · exact .inl rfl

/-- Types and values in braces end with no tag. -/
theorem not_isTag_of_endsWith (h : tree.IsParsed source body) (hid : id < tree.size)
    (hclosed : (tree.kind id).isClosed = true) (hends : tree.EndsWith id target) :
    Grammar.isTag (tree.kind target) = false := by
  rcases h.eq_or_child_endsWith hid hends with rfl | ⟨child, hchild, -, hend⟩
  · exact NodeKind.not_isTag_of_isClosed hclosed
  · have hpast := NodeKind.arePast_of_isClosed hclosed (h.isSound hid).formed
    exact absurd (hpast.subset (List.cons_subset.2 ⟨hchild, List.nil_subset _⟩)) hend

/-- **One step down.**  An operand that ends with a tag is a tag itself, or its last operand ends
    with that tag. -/
theorem operand_endsWith (h : tree.IsParsed source body) (hgrouped : IsGroupedArena tree.nodes)
    (hid : id < tree.size) (hoperand : (tree.kind id).isOperand = true)
    (htag : Grammar.isTag (tree.kind target) = true) (hends : tree.EndsWith id target) :
    Grammar.isTag (tree.kind id) = true
      ∨ ∃ last ∈ tree.children id, tree.IsLastOperand id last ∧ tree.EndsWith last target := by
  cases hself : Grammar.isTag (tree.kind id) with
  | true => exact .inl rfl
  | false =>
    right
    rcases h.eq_or_child_endsWith hid hends with rfl | ⟨child, hchild, hinner, hend⟩
    · rw [htag] at hself
      cases hself
    · rcases NodeKind.part_cases hoperand hself (hgrouped id hid) (h.isSound hid).formed hchild hend
        with hlast | hclosed
      · exact ⟨child, hchild, hlast, hinner⟩
      · have hlt := h.child_lt_size hid hchild
        rw [h.not_isTag_of_endsWith hlt hclosed hinner] at htag
        cases htag

/-- **All the way down.**  A tag at the end of an operand lies in a tag that is reached from the
    operand through last operands. -/
theorem exists_last_tag (h : tree.IsParsed source body) (hgrouped : IsGroupedArena tree.nodes)
    (hid : id < tree.size) (hoperand : (tree.kind id).isOperand = true)
    (htag : Grammar.isTag (tree.kind target) = true) (hends : tree.EndsWith id target) :
    ∃ last, Relation.ReflTransGen tree.IsLastOperand id last
      ∧ Grammar.isTag (tree.kind last) = true ∧ tree.EndsWith last target := by
  -- operands come before their operations, so the way down ends
  induction id using Nat.strongRecOn with
  | ind id ih =>
    rcases h.operand_endsWith hgrouped hid hoperand htag hends with
      hself | ⟨next, hchild, hnext, hinner⟩
    · exact ⟨id, .refl, hself, hends⟩
    · have hoperand' := NodeKind.isOperand_of_lastOperand? (hgrouped id hid) hnext
      obtain ⟨last, hchain, hlast⟩ := ih next (h.isBottomUp id next hchild)
        (h.child_lt_size hid hchild) hoperand' hinner
      exact ⟨last, .head hnext hchain, hlast⟩

end IsParsed

end Tree

/-! ### Trees of a parse -/

namespace Source

variable {source : Source} {entry : EntryPoint} {tree : Tree}

/-- **No tag right before `<`.**  In every tree of a parse the left operand of `<` is no tag.  If a
    tag stands at the end of that operand all the same, it lies in a tag that is the last operand of
    the operand, or of its last operand, and so on down: the operand is a binary operation, an
    operator before its operand or a cast. -/
theorem parse_less_operand (hparse : source.parse entry = .ok tree) {id left right : NodeId}
    (hless : tree.kind id = .binary left .less right) :
    Grammar.isTag (tree.kind left) = false
      ∧ ∀ tag, Grammar.isTag (tree.kind tag) = true → tree.EndsWith left tag →
        ∃ last, Relation.TransGen tree.IsLastOperand left last
          ∧ Grammar.isTag (tree.kind last) = true ∧ tree.EndsWith last tag := by
  obtain ⟨body, -, -, hparsed⟩ := parse_eq_ok hparse
  have hgrouped := parse_isGroupedArena hparse
  have hid : id < tree.size := by
    apply lt_size_of_kindIn
    intro hblank
    cases hless.symm.trans hblank
  have hnode : (tree.kind id).IsGrouped tree.nodes := hgrouped id hid
  rw [hless] at hnode
  obtain ⟨hleft, hoperand, hnottag⟩ := hnode.1
  refine ⟨hnottag rfl, fun tag htag hends => ?_⟩
  obtain ⟨last, hchain, hlast⟩ := hparsed.exists_last_tag hgrouped hleft hoperand htag hends
  -- the operand is no tag, so there is at least one step down
  rcases Relation.reflTransGen_iff_eq_or_transGen.1 hchain with rfl | hsteps
  · cases (hnottag rfl).symm.trans hlast.1
  · exact ⟨last, hsteps, hlast⟩

/-- A sum that ends in a tag, and a comparison with it. -/
def comparedTag : Source :=
  .ofText "a + <b/> < c"

/-- The tag is the last operand of the sum, which is the left operand of the comparison. -/
theorem parse_less_operand_sum :
    ∃ tree, comparedTag.parse .expression = .ok tree
      ∧ tree.kind 4 = .binary 2 .less 3 ∧ tree.kind 2 = .binary 0 .plus 1
      ∧ Grammar.isTag (tree.kind 1) = true ∧ tree.EndsWith 2 1
      ∧ Grammar.isTag (tree.kind 2) = false
      ∧ ∃ last, Relation.TransGen tree.IsLastOperand 2 last
        ∧ Grammar.isTag (tree.kind last) = true ∧ tree.EndsWith last 1 := by
  obtain ⟨tree, hparse, hless, hsum, htag, hstop⟩ :
      ∃ tree, comparedTag.parse .expression = .ok tree
        ∧ (tree.kind 4).sides? = some (2, some .less, 3)
        ∧ (tree.kind 2).sides? = some (0, some .plus, 1)
        ∧ Grammar.isTag (tree.kind 1) = true
        ∧ (tree.span 1).stop = (tree.span 2).stop :=
    exists_eq_ok_and (by decide +kernel)
  replace hless := NodeKind.eq_binary hless
  replace hsum := NodeKind.eq_binary hsum
  have hchild : 1 ∈ tree.children 2 := by
    rw [Tree.children, hsum]
    simp [NodeKind.children]
  have hends : tree.EndsWith 2 1 := ⟨.child .refl hchild, hstop⟩
  obtain ⟨hnottag, hlast⟩ := parse_less_operand hparse hless
  exact ⟨tree, hparse, hless, hsum, htag, hends, hnottag, hlast 1 htag hends⟩

-- without the sum the sign is left over
example : ((Source.ofText "<b/> < c").parse .expression).isOk = false := by decide +kernel

end Source

end CodeMarkup
