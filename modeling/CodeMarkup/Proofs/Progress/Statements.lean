import CodeMarkup.Grammar.Statements
import CodeMarkup.Proofs.Progress.Declarations

namespace CodeMarkup.Grammar

open CodeMarkup.Parser

/-!
# Progress of statements

The production of a statement that a keyword introduces returns a form and makes no node of it; it
takes the keyword.
-/

variable {full : Prop} {p : Productions} {source : Source} {s t : State}

theorem parenthesized_took (hp : Supplies full p source s 0) :
    Moves full source s (parenthesized p) fun _ => s.Took := by
  refine (expect_took (by nofun)).bind fun _ t _ h => ?_
  refine h.andThen (hp.buildsAfter h) fun inner u h _ => ?_
  exact h.andThen (expect_took (by nofun)) fun _ _ h _ => .pure h

theorem variablesOrExpression_builds (hp : Supplies full p source s 5) :
    Moves full source s (variablesOrExpression p) (Builds s) := by
  refine .ask rfl ?_
  split
  · exact localVariables_builds (hp.mono (by decide))
  · exact hp.builds (by decide)

/-- An expression that is there unless a closing token is. -/
theorem optionalExpression_moves {close : TokenKind} (hp : Supplies full p source s 5) :
    Moves full source s (optional (return !(← check close)) (p .expression)) fun _ _ => True :=
  optional_moves (reading_guards rfl fun _ => (hp.took (by decide)).any)

theorem optionalExpressions_moves {close : TokenKind} (hp : Supplies full p source s 5) :
    Moves full source s (optionalList (return !(← check close)) (expressionList p))
      fun _ _ => True :=
  optionalList_moves (reading_guards rfl fun _ =>
    (commaSeparated_took fun _ ht => (hp.next ht).took (by decide)).any)

/-- An expression or a statement after a sign, which may be missing. -/
theorem partAfter_moves {kind : TokenKind} {construct : Nonterminal} (hkind : kind ≠ .eof)
    (hp : Supplies full p source s 0) :
    Moves full source s (optional (accept kind) (p construct)) fun _ _ => True :=
  optional_moves (accept_guards hkind fun _ ht => (hp.buildsAfter ht).any)

/-! ### Loops and branches -/

theorem ifStmt_took (hp : Supplies full p source s 0) :
    Moves full source s (ifStmt p) fun _ => s.Took := by
  refine (expect_took (by nofun)).bind fun _ t _ h => ?_
  refine h.andThen (parenthesized_took (hp.after h)) fun condition t h _ => ?_
  refine h.andThen (hp.buildsAfter h) fun yes t h _ => ?_
  exact h.andThen (partAfter_moves (by nofun) (hp.after h)) fun no t h _ => .pure h

theorem whileStmt_took (hp : Supplies full p source s 0) (hrest : s.rest ≠ []) :
    Moves full source s (whileStmt p) fun _ => s.Took := by
  refine (advance_took hrest).bind fun _ t _ h => ?_
  refine h.andThen (parenthesized_took (hp.after h)) fun condition t h _ => ?_
  exact h.andThen (hp.buildsAfter h) fun body t h _ => .pure h

theorem doStmt_took (hp : Supplies full p source s 0) (hrest : s.rest ≠ []) :
    Moves full source s (doStmt p) fun _ => s.Took := by
  refine (advance_took hrest).bind fun _ t _ h => ?_
  refine h.andThen (hp.buildsAfter h) fun body t h _ => ?_
  refine h.andThen (expect_took (by nofun)) fun _ t h _ => ?_
  refine h.andThen (parenthesized_took (hp.after h)) fun condition t h _ => ?_
  exact h.andThen (expect_took (by nofun)) fun _ t h _ => .pure h

/-- A counting loop, after the word and what initializes it. -/
theorem forRest_took {init : List NodeId} (hp : Supplies full p source s 0) (h : s.Took t) :
    Moves full source t (forRest p init) fun _ => s.Took := by
  refine h.andThen (expect_took (by nofun)) fun _ t h _ => ?_
  refine h.andThen (optionalExpression_moves (hp.after h)) fun compare t h _ => ?_
  refine h.andThen (expect_took (by nofun)) fun _ t h _ => ?_
  refine h.andThen (optionalExpressions_moves (hp.after h)) fun update t h _ => ?_
  refine h.andThen (expect_took (by nofun)) fun _ t h _ => ?_
  exact h.andThen (hp.buildsAfter h) fun body t h _ => .pure h

theorem forStmt_took (hp : Supplies full p source s 0) :
    Moves full source s (forStmt p) fun _ => s.Took := by
  refine (expect_took (by nofun)).bind fun _ t _ h => ?_
  refine h.andThen (expect_took (by nofun)) fun _ t h _ => .ask rfl ?_
  split
  · refine h.andThen (localVariables_builds (hp.after h)) fun declared t h _ => ?_
    refine h.toGrows.andAccept (by nofun) (fun u h => ?_) (forRest_took hp h)
    refine h.andThen (hp.buildsAfter h) fun iterable v h _ => ?_
    refine h.andThen (expect_took (by nofun)) fun _ v h _ => ?_
    exact h.andThen (hp.buildsAfter h) fun body v h _ => .pure h
  · exact h.andThen (optionalExpressions_moves (hp.after h)) fun init t h _ => forRest_took hp h

/-! ### Transfers -/

theorem returnStmt_took (hp : Supplies full p source s 0) (hrest : s.rest ≠ []) :
    Moves full source s (returnStmt p) fun _ => s.Took := by
  refine (advance_took hrest).bind fun _ t _ h => ?_
  refine h.andThen (optionalExpression_moves (hp.after h)) fun expression t h _ => ?_
  exact h.andThen (expect_took (by nofun)) fun _ t h _ => .pure h

theorem jumpLabel_took : Moves full source s jumpLabel fun _ => s.Took := by
  refine advance_moves.bind fun _ t h _ => ?_
  refine h.andThen (optional_moves (reading_guards rfl fun _ => identifier_took.any))
    fun label t h _ => ?_
  exact h.andTake (expect_took (by nofun)) fun _ t h => .pure h

theorem throwStmt_took (hp : Supplies full p source s 0) (hrest : s.rest ≠ []) :
    Moves full source s (throwStmt p) fun _ => s.Took := by
  refine (advance_took hrest).bind fun _ t _ h => ?_
  refine h.andThen (hp.buildsAfter h) fun expression t h _ => ?_
  exact h.andThen (expect_took (by nofun)) fun _ t h _ => .pure h

/-! ### Handlers, switches and locks -/

theorem catchParameter_builds (hp : Supplies full p source s 1) :
    Moves full source s (catchParameter p) (Builds s) := by
  refine (modifiers_moves hp.low).bind fun front t ht _ => .ask rfl ?_
  -- the name comes after one type, or after the union made of several
  have hname : ∀ type u, s.Took u → Moves full source u (do
      let name ← identifier "parameter name"
      pushModified front (.parameterDecl front.annotations front.keywords (some type) false name))
      (Builds s) :=
    fun type u h => h.andThen identifier_took fun name v h _ => pushModified_builds h
  refine ht.andTake ((hp.next ht).took Nat.zero_lt_one) fun first u h => ?_
  refine h.andThen (manyAccept_moves (by nofun) fun v hv =>
    (hp.buildsAfter (h.trans_grows hv.toGrows)).any) fun others v h _ => ?_
  split
  · exact hname first v h
  · exact h.andThen pushFrom_moves fun type w h _ => hname type w h

theorem catchClause_builds (hp : Supplies full p source s 0) :
    Moves full source s (catchClause p) (Builds s) := by
  refine .ask rfl (advance_moves.bind fun _ t h _ => ?_)
  refine h.andTake (expect_took (by nofun)) fun _ t h => ?_
  refine h.andThen (catchParameter_builds (hp.after h)) fun parameter t h _ => ?_
  refine h.andThen (expect_took (by nofun)) fun _ t h _ => ?_
  exact h.andThen (block_builds (hp.after h)) fun body t h _ => pushFrom_builds h

theorem resources_took (hp : Supplies full p source s 5) :
    Moves full source s (resources p) fun _ => s.Took := by
  refine .bind (listUntil_moves (by nofun) fun t ht => ?_) fun found t h _ => ?_
  · exact (variablesOrExpression_builds (hp.next ht)).any
  · exact h.andTake (expect_took (by nofun)) fun _ u h => .pure h

theorem tryStmt_took (hp : Supplies full p source s 0) :
    Moves full source s (tryStmt p) fun _ => s.Took := by
  refine (expect_took (by nofun)).bind fun _ t _ h => ?_
  refine h.andThen (optionalList_moves (accept_guards (by nofun) fun u hu =>
    (resources_took (hp.after (h.trans_grows hu.toGrows))).any)) fun found t h _ => ?_
  refine h.andThen (block_builds (hp.after h)) fun tryBlock t h _ => ?_
  refine h.andThen (many_moves fun u hu => check_guards
    (catchClause_builds (hp.after (h.trans_grows hu))).took) fun clauses t h _ => ?_
  refine h.andThen (optional_moves (accept_guards (by nofun) fun u hu =>
    (block_builds (hp.after (h.trans_grows hu.toGrows))).any)) fun finallyBlock t h _ => ?_
  split
  · exact moves_unexpected
  · exact .pure h

theorem switchLabel_took (hp : Supplies full p source s 0) :
    Moves full source s (switchLabel p) fun _ => s.Took := by
  refine (State.Grows.refl s).andAccept (by nofun) (fun t h => ?_) ?_
  · exact .map (h.keeps (hp.buildsAfter h))
  · exact (State.Grows.refl s).andAccept (by nofun) (fun t h => .pure h) moves_unexpected

theorem switchEntry_builds (hp : Supplies full p source s 0) :
    Moves full source s (switchEntry p) (Builds s) := by
  refine .ask rfl ((switchLabel_took hp).bind fun label t _ h => ?_)
  refine h.andThen (expect_took (by nofun)) fun _ t h _ => ?_
  refine h.andThen (itemsUntil_moves (fun t => ⟨_, rfl⟩) fun u hu => ?_) fun statements u h _ => ?_
  · exact (hp.buildsAfter (h.trans_grows hu)).took
  · exact pushFrom_builds h

theorem switchStmt_took (hp : Supplies full p source s 0) :
    Moves full source s (switchStmt p) fun _ => s.Took := by
  refine (expect_took (by nofun)).bind fun _ t _ h => ?_
  refine h.andThen (parenthesized_took (hp.after h)) fun selector t h _ => ?_
  refine h.andThen (expect_took (by nofun)) fun _ t h _ => ?_
  refine h.andThen (many_moves fun u hu => reading_guards rfl fun _ =>
    (switchEntry_builds (hp.after (h.trans_grows hu))).took) fun entries t h _ => ?_
  exact h.andThen (expect_took (by nofun)) fun _ t h _ => .pure h

theorem synchronizedStmt_took (hp : Supplies full p source s 0) (hrest : s.rest ≠ []) :
    Moves full source s (synchronizedStmt p) fun _ => s.Took := by
  refine (advance_took hrest).bind fun _ t _ h => ?_
  refine h.andThen (parenthesized_took (hp.after h)) fun lock t h _ => ?_
  exact h.andThen (block_builds (hp.after h)) fun body t h _ => .pure h

theorem assertStmt_took (hp : Supplies full p source s 0) (hrest : s.rest ≠ []) :
    Moves full source s (assertStmt p) fun _ => s.Took := by
  refine (advance_took hrest).bind fun _ t _ h => ?_
  refine h.andThen (hp.buildsAfter h) fun condition t h _ => ?_
  refine h.andThen (partAfter_moves (by nofun) (hp.after h)) fun message t h _ => ?_
  exact h.andThen (expect_took (by nofun)) fun _ t h _ => .pure h

theorem constructorCall_took {isThis : Bool} (hp : Supplies full p source s 0)
    (hrest : s.rest ≠ []) : Moves full source s (constructorCall p isThis) fun _ => s.Took := by
  refine (advance_took hrest).bind fun _ t _ h => ?_
  refine h.andThen (arguments_took (hp.after h)) fun found t h _ => ?_
  exact h.andThen (expect_took (by nofun)) fun _ t h _ => .pure h

/-! ### All statements -/

theorem keywordStmt?_took {word : Keyword} {next : TokenKind} {body : Parser NodeKind}
    (hp : Supplies full p source s 0) (hrest : s.rest ≠ [])
    (h : keywordStmt? p word next = some body) : Moves full source s body fun _ => s.Took := by
  unfold keywordStmt? at h
  split at h
  · cases h
    exact ifStmt_took hp
  · cases h
    exact whileStmt_took hp hrest
  · cases h
    exact doStmt_took hp hrest
  · cases h
    exact forStmt_took hp
  · cases h
    exact returnStmt_took hp hrest
  · cases h
    exact .map jumpLabel_took
  · cases h
    exact .map jumpLabel_took
  · cases h
    exact throwStmt_took hp hrest
  · cases h
    exact tryStmt_took hp
  · cases h
    exact switchStmt_took hp
  · split at h
    · cases h
      exact synchronizedStmt_took hp hrest
    · cases h
  · cases h
    exact assertStmt_took hp hrest
  · split at h
    · cases h
      exact constructorCall_took hp hrest
    · cases h
  · split at h
    · cases h
      exact constructorCall_took hp hrest
    · cases h
  · cases h

theorem plainStmt_builds {origin : Nat} (hp : Supplies full p source s 5) :
    Moves full source s (plainStmt p origin) (Builds s) := by
  refine .ask rfl ?_
  split
  · refine (modifiers_moves hp.low).bind fun front t h _ => ?_
    exact h.andTake (typeDeclaration_builds (hp.next h).low).took fun declaration u h =>
      pushFrom_builds h
  · refine (variablesOrExpression_builds hp).bind fun expression t _ h => ?_
    exact h.toTook.andThen (expect_took (by nofun)) fun _ u h _ => pushFrom_builds h

theorem statement_builds (hp : Supplies full p source s 5) :
    Moves full source s (statement p) (Builds s) := by
  refine nested_builds fun levels => .ask rfl (.ask rfl (.ask rfl ?_))
  have hp := hp.withLevels levels
  split
  · exact block_builds hp.low
  · next hkind =>
    have hrest := State.rest_ne_nil_of_kindAt (by decide) hkind
    exact (advance_took hrest).bind fun _ t _ h => pushFrom_builds h
  -- a name may be a label, if a colon follows, or the start of an expression
  · next label hkind =>
    have hrest := State.rest_ne_nil_of_kindAt (by simp) hkind
    split
    · refine (advanceTwo_took hrest).bind fun _ t _ h => ?_
      exact h.andThen (hp.buildsAfter h) fun inner u h _ => pushFrom_builds h
    · exact plainStmt_builds hp
  · next word hkind =>
    have hrest := State.rest_ne_nil_of_kindAt (by simp) hkind
    split
    · next body hbody =>
      exact (keywordStmt?_took hp.low hrest hbody).bind fun kind t _ h => pushFrom_builds h
    · exact plainStmt_builds hp
  · exact plainStmt_builds hp

end CodeMarkup.Grammar
