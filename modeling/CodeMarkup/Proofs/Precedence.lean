import CodeMarkup.Proofs.Parsing.Derivation
import CodeMarkup.Proofs.Traces.Statements

namespace CodeMarkup

/-!
# Precedence of operators

How the operations of a tree are grouped.

* `Source.parse_isGroupedArena`: all operations of a tree have operands that they can have.
* `Source.parse_grouped`: a right operand binds tighter than the operator before it, and a left one
  no looser than the operator after it, but for two kinds of left operand.
-/

open Parser

/-! ### Reading operations -/

namespace NodeKind

variable {kind : NodeKind} {left right : NodeId} {op : BinaryOp}

/-- What stands on the two sides of an operation, with its operator; a type test has none. -/
def sides? : NodeKind → Option (NodeId × Option BinaryOp × NodeId)
  | .binary left op right => some (left, some op, right)
  | .instanceOf expression type => some (expression, none, type)
  | _ => none

theorem eq_binary (h : kind.sides? = some (left, some op, right)) :
    kind = .binary left op right := by
  cases kind <;> cases h
  rfl

theorem eq_instanceOf (h : kind.sides? = some (left, none, right)) :
    kind = .instanceOf left right := by
  cases kind <;> cases h
  rfl

end NodeKind

/-! ### Trees of a parse -/

namespace Source

variable {source : Source} {entry : EntryPoint} {tree : Tree}

/-- A parse starts without nodes and leaves a trace. -/
theorem parse_isGroupedArena (hparse : source.parse entry = .ok tree) :
    IsGroupedArena tree.nodes := by
  obtain ⟨tokens, htokens⟩ : ∃ tokens, source.tokens = .ok tokens := by
    cases htokens : source.tokens with
    | error error =>
      rw [parse, htokens] at hparse
      cases hparse
    | ok tokens => exact ⟨tokens, rfl⟩
  have hstream := source.tokens_isTokenStream
  rw [htokens] at hstream
  obtain ⟨body, rfl, -⟩ := hstream
  obtain ⟨t, hrun, -, htree⟩ := (parse_eq_ok_iff_run htokens).1 hparse
  have htrace := entry.production_traced (Grammar.derive_traced _) source _ _ _ hrun
  rw [htree]
  exact htrace.grouped fun id hid => absurd hid (Nat.not_lt_zero id)

/-- **Operators group by their powers.**  In every tree of a parse the right operand of a binary
    operation binds tighter than its operator, so operators of one power group from the left.  The
    left operand binds no looser than the operator, unless it is a type test or ends in a tag.  What
    a type test is made of binds no looser than that test. -/
theorem parse_grouped (hparse : source.parse entry = .ok tree) :
    (∀ id left op right, tree.kind id = .binary left op right →
      (tree.kind right).BindsAtLeast (op.power + 1)
        ∧ ((tree.kind left).BindsAtLeast op.power ∨ (tree.kind left).isInstanceOf = true
          ∨ (tree.kind left).EndsInTag tree.nodes))
      ∧ ∀ id expression type, tree.kind id = .instanceOf expression type →
        (tree.kind expression).BindsAtLeast Grammar.instanceOfPower := by
  have hgrouped := parse_isGroupedArena hparse
  -- what is no node of the tree reads as a blank, which is no operation
  have hnode : ∀ id, (tree.kind id).IsGrouped tree.nodes := by
    intro id
    rcases Nat.lt_or_ge id tree.nodes.size with hlt | hge
    · exact hgrouped id hlt
    · have hblank : tree.kind id = .emptyStmt := by
        simp [Tree.kind, Tree.node, Tree.node?, Node.blank, hge]
      rw [hblank]
      trivial
  refine ⟨fun id left op right hkind => ?_, fun id expression type hkind => ?_⟩
  · have hbinary := hnode id
    rw [hkind] at hbinary
    obtain ⟨-, -, hright, hleft⟩ := hbinary
    exact ⟨hright, hleft⟩
  · have htest := hnode id
    rw [hkind] at htest
    exact htest.2

/-- A type test and an operator that binds tighter than it. -/
def testedSummand : Source :=
  .ofText "a instanceof B + c"

/-- Its left operand is the type test, though the operator binds tighter. -/
theorem parse_grouped_instanceOf :
    ∃ tree, testedSummand.parse .expression = .ok tree
      ∧ tree.kind 4 = .binary 2 .plus 3 ∧ tree.kind 2 = .instanceOf 0 1
      ∧ Grammar.instanceOfPower < BinaryOp.plus.power
      ∧ (tree.kind 3).BindsAtLeast (BinaryOp.plus.power + 1)
      ∧ (tree.kind 0).BindsAtLeast Grammar.instanceOfPower := by
  obtain ⟨tree, hparse, hsum, htest⟩ : ∃ tree, testedSummand.parse .expression = .ok tree
      ∧ (tree.kind 4).sides? = some (2, some .plus, 3)
      ∧ (tree.kind 2).sides? = some (0, none, 1) :=
    exists_eq_ok_and (by decide +kernel)
  replace hsum := NodeKind.eq_binary hsum
  replace htest := NodeKind.eq_instanceOf htest
  obtain ⟨hbinary, hinstanceOf⟩ := parse_grouped hparse
  exact ⟨tree, hparse, hsum, htest, by decide, (hbinary 4 2 .plus 3 hsum).1,
    hinstanceOf 2 0 1 htest⟩

end Source

end CodeMarkup
