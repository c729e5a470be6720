import CodeMarkup.Proofs.Parsing.Expressions
import CodeMarkup.Proofs.Progress.Markup
import CodeMarkup.Proofs.Progress.Types

namespace CodeMarkup.Grammar

open CodeMarkup.Parser

/-!
# Progress of expressions

An expression may turn out to be the left part of a larger one.  The loops over operators are given
the state `s` where the whole starts; each round takes an operator, and the node at hand is one that
was made since `s`.
-/

variable {full : Prop} {p : Productions} {source : Source} {s t : State} {id : NodeId}

/-! ### Parts of blocks and bodies -/

/-- Items up to a closing token, which has to be there. -/
theorem itemsUntil_moves {α : Type} {more : Parser Bool} {item : Parser α} {expected : String}
    (hmore : ∀ t, ∃ yes, more source t = .ok yes t)
    (hitem : ∀ t, s.Grows t → Moves full source t item fun _ => t.Took) :
    Moves full source s (many more do if ← atEnd then unexpected expected else item)
      fun _ _ => True := by
  refine many_moves fun t ht => ?_
  obtain ⟨yes, hyes⟩ := hmore t
  refine reading_guards hyes fun _ => .ask rfl ?_
  split
  · exact moves_unexpected
  · exact hitem t ht

theorem block_builds (hp : Supplies full p source s 0) :
    Moves full source s (block p) (Builds s) := by
  refine .ask rfl ((expect_took (by nofun)).bind fun _ t _ h => ?_)
  refine h.andThen (itemsUntil_moves (fun t => ⟨_, rfl⟩) fun u hu => ?_) fun statements u h _ => ?_
  · exact (hp.buildsAfter (h.trans_grows hu)).took
  · exact h.andThen advance_moves fun _ _ h _ => pushFrom_builds h

/-- Members may be missing; a round takes a semicolon or a member. -/
theorem members_moves (hp : Supplies full p source s 2) :
    Moves full source s (members p) fun _ _ => True := by
  refine .bind (itemsUntil_moves (fun t => ⟨_, rfl⟩) fun t ht => ?_) fun _ _ _ _ => .pure trivial
  refine (State.Grows.refl t).andAccept (by nofun) (fun u h => .pure h) ?_
  exact .bind ((hp.next ht).took (by decide)) fun _ _ _ h => .pure h

theorem classBody_took (hp : Supplies full p source s 0) :
    Moves full source s (classBody p) fun _ => s.Took := by
  refine (expect_took (by nofun)).bind fun _ t _ h => ?_
  refine h.andThen (members_moves (hp.after h)) fun found u h _ => ?_
  exact h.andThen (expect_took (by nofun)) fun _ _ h _ => .pure h

theorem arguments_took (hp : Supplies full p source s 0) :
    Moves full source s (arguments p) fun _ => s.Took := by
  refine (expect_took (by nofun)).bind fun _ t _ h => ?_
  refine h.toGrows.andAccept (by nofun) (fun u h => .pure h) ?_
  refine h.andThen (commaSeparated_took fun u hu => ?_) fun found u h _ => ?_
  · exact (hp.buildsAfter (h.trans_grows hu)).took
  · exact h.andThen (expect_took (by nofun)) fun _ _ h _ => .pure h

/-! ### Lambdas -/

theorem lambdaParameter_builds (hp : Supplies full p source s 1) :
    Moves full source s (lambdaParameter p) (Builds s) := by
  refine .ask rfl (.ask rfl ?_)
  split
  · exact .ask rfl (identifier_took.bind fun name t _ h => pushFrom_builds h)
  · exact parameter_builds hp

theorem lambda_builds (hp : Supplies full p source s 1) :
    Moves full source s (lambda p) (Builds s) := by
  -- from the arrow on, both forms are alike
  have hrest : ∀ parenthesized found t, s.Took t → Moves full source t (do
      expect .arrow
      let body ← if ← check .leftBrace then block p else p .expression
      pushFrom s.start (.lambda found body parenthesized)) (Builds s) := by
    intro parenthesized found t h
    refine h.andThen (expect_took (by nofun)) fun _ u h _ => .ask rfl ?_
    split
    · exact h.andThen (block_builds (hp.after h)) fun body v h _ => pushFrom_builds h
    · exact h.andThen (hp.buildsAfter h) fun body v h _ => pushFrom_builds h
  refine .ask rfl ((State.Grows.refl s).andAccept (by nofun) (fun t h => ?_) ?_)
  · dsimp only
    rw [if_pos rfl]
    refine h.andThen (listUntil_moves (by nofun) fun u hu => ?_) fun found u h _ => ?_
    · exact (lambdaParameter_builds (hp.after (h.trans_grows hu))).any
    · exact h.andThen (expect_took (by nofun)) fun _ v h _ => hrest true found v h
  · dsimp only
    rw [if_neg Bool.false_ne_true]
    exact (lambdaParameter_builds hp).bind fun only t _ h => hrest false [only] t h.toTook

/-! ### Creation -/

/-- The dimensions of an array; a round takes a bracket. -/
theorem creationDims_moves (hp : Supplies full p source s 0) :
    Moves full source s (creationDims p) fun _ _ => True := by
  refine extend_moves (fun _ _ _ _ _ => trivial) (fun ⟨sizes, unsized⟩ t ht _ => ?_) trivial
  refine (State.Grows.refl t).andAccept (by nofun) (fun u h => ?_) (.pure trivial)
  refine h.toGrows.andAccept (by nofun) (fun v h => .pure ⟨h, trivial⟩) ?_
  rw [if_neg Bool.false_ne_true]
  split
  · exact moves_unexpected
  · refine h.andThen (hp.buildsAfter (ht.trans_took h)) fun size v h _ => ?_
    exact h.andThen (expect_took (by nofun)) fun _ w h _ => .pure ⟨h, trivial⟩

/-- `new` with what it creates, after its scope. -/
theorem creation_builds {scope : Option NodeId} {origin : Nat} (hp : Supplies full p source s 0)
    (h : s.Grows t) : Moves full source t (creation p scope origin) (Builds s) := by
  refine h.andTake (expect_took (by nofun)) fun _ u h => ?_
  refine h.andThen (nonArrayType_builds (hp.after h)) fun type v h _ => .ask rfl ?_
  split
  · refine h.andThen (creationDims_moves (hp.after h)) fun ⟨sizes, unsized⟩ w h _ => ?_
    refine h.andThen (optional_moves (check_guards (hp.buildsAfter h).any)) fun init x h _ => ?_
    split
    · exact moves_unexpected
    · exact pushFrom_builds h
  · refine h.andThen (arguments_took (hp.after h)) fun found w h _ => ?_
    exact h.andThen (optional_moves (check_guards (classBody_took (hp.after h)).any))
      fun body x h _ => pushFrom_builds h

/-! ### Primary expressions -/

theorem classLiteral_builds {type : Parser NodeId} (htype : Moves full source s type (Builds s)) :
    Moves full source s (classLiteral type) (Builds s) := by
  refine .ask rfl (htype.bind fun found t _ h => ?_)
  refine h.toTook.andThen (expect_took (by nofun)) fun _ u h _ => ?_
  exact h.andThen (expect_took (by nofun)) fun _ v h _ => pushFrom_builds h

theorem namePrimary_builds {name : String} (hp : Supplies full p source s 1)
    (hkind : kindAt s.rest 0 = .identifier name) :
    Moves full source s (namePrimary p name) (Builds s) := by
  have hrest := State.rest_ne_nil_of_kindAt (by simp) hkind
  have htype : Moves full source s (p .type) (Builds s) := hp.builds Nat.zero_lt_one
  refine .ask rfl (.ask rfl ?_)
  dsimp only
  split
  · exact classLiteral_builds htype
  · split
    · exact htype
    · refine (advance_took hrest).bind fun _ t _ h => .ask rfl ?_
      split
      · exact h.andThen (arguments_took (hp.after h)) fun found u h _ => pushFrom_builds h
      · exact pushFrom_builds h

theorem primitivePrimary_builds {word : Keyword} (hp : Supplies full p source s 1)
    (hkind : kindAt s.rest 0 = .keyword word) :
    Moves full source s (primitivePrimary p word) (Builds s) := by
  have hrest := State.rest_ne_nil_of_kindAt (by simp) hkind
  have htype : Moves full source s (p .type) (Builds s) := hp.builds Nat.zero_lt_one
  refine .ask rfl (.ask rfl ?_)
  dsimp only
  split
  · exact classLiteral_builds htype
  · split
    · exact htype
    · exact (advance_took hrest).bind fun _ t _ h => pushFrom_builds h

theorem primary_builds (hp : Supplies full p source s 1) :
    Moves full source s (primary p) (Builds s) := by
  refine .ask rfl (.ask rfl ?_)
  split
  · next form hform =>
    have hrest := State.rest_ne_nil_of_read rfl hform
    exact (advance_took hrest).bind fun _ t _ h => pushFrom_builds h
  · split
    · next raw hkind =>
      exact template_builds hp (s.kindAt_rest_zero ▸ hkind)
    · exact creation_builds hp.low (.refl s)
    · exact classLiteral_builds (typeOrVoid_builds hp)
    · next word hword _ _ hkind =>
      split
      · exact primitivePrimary_builds hp hkind
      · exact moves_unexpected
    · next name hkind =>
      exact namePrimary_builds hp hkind
    · next hkind =>
      have hrest := State.rest_ne_nil_of_kindAt (by decide) hkind
      refine (advance_took hrest).bind fun _ t _ h => ?_
      refine h.andThen (hp.buildsAfter h) fun inner u h _ => ?_
      exact h.andThen (expect_took (by nofun)) fun _ v h _ => pushFrom_builds h
    · exact jsonObject_builds hp.low
    · exact jsonArray_builds hp.low
    · exact tag_builds hp.low
    · exact moves_unexpected

/-! ### Operators after an expression -/

/-- A member, after its scope and the point. -/
theorem member_builds {scope : NodeId} {origin : Nat} (hp : Supplies full p source s 0)
    (h : s.Took t) : Moves full source t (member p scope origin) (Builds s) := by
  -- a member that is a single word
  have hword : ∀ form : NodeKind,
      Moves full source t (do advance; pushFrom origin form) (Builds s) :=
    fun form => h.andThen advance_moves fun _ _ h _ => pushFrom_builds h
  refine .ask rfl ?_
  split
  · refine h.andThen (typeArguments_took (hp.after h)) fun types u h _ => ?_
    refine h.andThen identifier_took fun name v h _ => ?_
    exact h.andThen (arguments_took (hp.after h)) fun found w h _ => pushFrom_builds h
  · refine h.andThen advance_moves fun _ u h _ => .ask rfl ?_
    split
    · exact h.andThen (arguments_took (hp.after h)) fun found v h _ => pushFrom_builds h
    · exact pushFrom_builds h
  · exact hword _
  · exact hword _
  · exact creation_builds hp h.toGrows
  · exact moves_unexpected

theorem referenceName_took : Moves full source s referenceName fun _ => s.Took :=
  (State.Grows.refl s).andAccept (by nofun) (fun _ h => .pure h) identifier_took

/-- An operator after an expression makes a larger one of it. -/
theorem suffix_continues {origin : Nat} {expression : NodeId} (hp : Supplies full p source s 0)
    (h : s.Took t) :
    Moves full source t (suffix p origin expression) (Continues (Builds s) t) := by
  have hadvance : ∀ {kind : TokenKind}, kind ≠ .eof → kindAt t.rest 0 = kind →
      Moves full source t advance fun _ => t.Took :=
    fun hkind hat => advance_took (State.rest_ne_nil_of_kindAt hkind hat)
  -- an operator without an operand of its own
  have hstep : ∀ {kind : TokenKind} {form : NodeKind}, kind ≠ .eof → kindAt t.rest 0 = kind →
      Moves full source t (do advance; some <$> pushFrom origin form)
        (Continues (Builds s) t) :=
    fun hkind hat => (hadvance hkind hat).bind fun _ u hgrows hu =>
      hu.some (pushFrom_builds (h.trans_grows hgrows))
  refine .ask rfl ?_
  split
  · next hkind =>
    refine (hadvance (by decide) hkind).bind fun _ u hgrows hu => ?_
    exact hu.some (member_builds hp (h.trans_grows hgrows))
  · next hkind =>
    refine (hadvance (by decide) hkind).bind fun _ u hgrows hu => ?_
    refine hu.andThen (hp.buildsAfter (h.trans_grows hgrows)) fun index v hv _ => ?_
    refine hv.andThen (expect_took (by nofun)) fun _ w hw _ => ?_
    exact hw.some (pushFrom_builds (h.trans_grows hw.toGrows))
  · next hkind =>
    refine (hadvance (by decide) hkind).bind fun _ u _ hu => ?_
    refine hu.andThen referenceName_took fun name v hv _ => ?_
    exact hv.some (pushFrom_builds (h.trans_grows hv.toGrows))
  · next hkind => exact hstep (by decide) hkind
  · next hkind => exact hstep (by decide) hkind
  · exact .pure trivial

theorem suffixed_builds (hp : Supplies full p source s 1) :
    Moves full source s (suffixed p) (Builds s) := by
  refine .ask rfl ((primary_builds hp).bind fun first t _ h => ?_)
  exact extend_builds (fun _ _ h => suffix_continues hp.low h.toTook) h

/-! ### Operators before and between expressions -/

theorem unary_builds (hp : Supplies full p source s 1) :
    Moves full source s (unary p) (Builds s) := by
  refine .ask rfl (.ask rfl ?_)
  split
  · next op hop =>
    refine (advance_took (State.rest_ne_nil_of_read rfl hop)).bind fun _ t _ h => ?_
    exact h.andThen (hp.nestedAfter h) fun operand u h _ => pushFrom_builds h
  · refine .ask rfl ?_
    split
    · next hcast =>
      refine (advance_took (State.rest_ne_nil_of_test rfl hcast)).bind fun _ t _ h => ?_
      refine h.andThen (hp.buildsAfter h) fun type u h _ => ?_
      refine h.andThen (expect_took (by nofun)) fun _ v h _ => ?_
      exact h.andThen (hp.nestedAfter h) fun operand w h _ => pushFrom_builds h
    · exact suffixed_builds hp

theorem advanceBy_moves (count : Nat) :
    Moves full source s (advanceBy count) fun _ _ => True := by
  induction count generalizing s with
  | zero => exact .pure trivial
  | succ count ih => exact advance_moves.bind fun _ _ _ _ => ih

/-- The tokens of an operator; there is at least one. -/
theorem advanceBy_took {symbol : String} {count : Nat}
    (h : operatorAhead? s.rest = some (symbol, count)) :
    Moves full source s (advanceBy count) fun _ => s.Took := by
  obtain ⟨hrest, hpos⟩ := operatorAhead?_pos h
  obtain ⟨more, rfl⟩ : ∃ more, count = more + 1 := ⟨count - 1, by omega⟩
  exact (advance_took hrest).bind fun _ t _ ht => ht.keeps (advanceBy_moves more)

/-- An operation makes a larger expression of its left operand, whose form is looked up. -/
theorem operation_continues {power origin : Nat} {left : NodeId}
    (hp : Supplies full p source s 0) (h : Builds s left t) :
    Moves full source t (operation p power origin left) (Continues (Builds s) t) := by
  refine .ask rfl ?_
  split
  · next hkind =>
    split
    · exact .pure trivial
    · have hrest := State.rest_ne_nil_of_kindAt (by decide) (eq_of_beq hkind)
      refine (advance_took hrest).bind fun _ u hgrows hu => ?_
      refine hu.andThen (hp.buildsAfter (h.toTook.trans_grows hgrows)) fun type v hv _ => ?_
      exact hv.some (pushFrom_builds (h.toTook.trans_grows hv.toGrows))
  · split
    · exact .pure trivial
    · next symbol count hoperator =>
      refine .assoc (moves_lookup h.id_lt fun node => .ask rfl ?_)
      split
      · exact .pure trivial
      · split
        · exact .pure trivial
        · split
          · exact .pure trivial
          -- an operator that binds: all its signs are taken, then the right operand
          · refine (advanceBy_took hoperator).bind fun _ u hgrows hu => ?_
            refine hu.andThen (hp.buildsAfter (h.toTook.trans_grows hgrows)) fun right v hv _ => ?_
            exact hv.some (pushFrom_builds (h.toTook.trans_grows hv.toGrows))

theorem binary_builds {power : Nat} (hp : Supplies full p source s 2) :
    Moves full source s (binary p power) (Builds s) := by
  refine .ask rfl (.bind (hp.builds (by decide)) fun first t _ h => ?_)
  exact extend_builds (fun _ _ h => operation_continues hp.low h) h

theorem conditional_builds (hp : Supplies full p source s 3) :
    Moves full source s (conditional p) (Builds s) := by
  refine .ask rfl (.bind (hp.builds (by decide)) fun condition t _ h => ?_)
  refine h.toGrows.andAccept (by nofun) (fun u h => ?_) (.pure h)
  refine h.andThen (hp.buildsAfter h) fun yes v h _ => ?_
  refine h.andThen (expect_took (by nofun)) fun _ w h _ => .ask rfl ?_
  split
  · exact h.andThen (lambda_builds (hp.after h)) fun no x h _ => pushFrom_builds h
  · exact h.andThen (hp.nestedAfter h) fun no x h _ => pushFrom_builds h

theorem expression_builds (hp : Supplies full p source s 4) :
    Moves full source s (expression p) (Builds s) := by
  refine nested_builds fun levels => .ask rfl ?_
  have hp := hp.withLevels levels
  split
  · exact lambda_builds (hp.mono (by decide))
  · refine .ask rfl (.bind (hp.builds (by decide)) fun target t _ h => .ask rfl ?_)
    split
    · next op count hassign =>
      refine h.toTook.andThen (advanceBy_moves count) fun _ u h _ => ?_
      exact h.andThen (hp.buildsAfter h) fun value v h _ => pushFrom_builds h
    · exact .pure h

end CodeMarkup.Grammar
