import CodeMarkup.Grammar.Statements
import CodeMarkup.Proofs.Parsing.Declarations

namespace CodeMarkup.Grammar

open CodeMarkup.Parser

/-!
# Statements build forests

The production of a statement returns the form of the node that is made of it.  It takes the tokens
of the statement, and the trees it yields are the children of that form (`Forms`).
-/

variable {p : Productions} {source : Source} {s t : State} {rank : Nat}

theorem parenthesized_yields (hr : Ready p source s 0) :
    Ensures source s (parenthesized p) fun inner t => Yields source s [inner] t := by
  unfold parenthesized
  refine (expect_takes hr.sound (by decide)).bind fun _ t h => ?_
  refine h.toYields.thenNode (hr.makesAfter h) fun inner u h => ?_
  exact h.toYields.thenToken (expect_takes h.sound (by decide)) fun _ v h => .pure h.toYields

theorem variablesOrExpression_makes (hr : Ready p source s 5) :
    Ensures source s (variablesOrExpression p) (Makes source s) := by
  unfold variablesOrExpression
  rw [ensures_ahead]
  split
  · exact localVariables_makes (hr.mono (by decide))
  · exact hr.makes (by decide)

theorem expressionList_takes (hr : Ready p source s 5) :
    Ensures source s (expressionList p) (Takes source s) :=
  commaSeparated_takes hr.sound fun _ _ ht => (hr.next ht).makes (by decide)

/-- An expression that is there unless a closing token is. -/
theorem optionalExpression_yields {close : TokenKind} (hr : Ready p source s 5) :
    Ensures source s (optional (return !(← check close)) (p .expression)) fun found t =>
      Yields source s found.toList t := by
  have hexpression : Ensures source s (p .expression) (Makes source s) := hr.makes (by decide)
  exact optional_yields rfl (guards_reading hr.sound rfl fun _ => hexpression.yieldsNode)

theorem optionalExpressions_yields {close : TokenKind} (hr : Ready p source s 5) :
    Ensures source s (optionalList (return !(← check close)) (expressionList p))
      (Yields source s) :=
  optionalList_yields (guards_reading hr.sound rfl fun _ => (expressionList_takes hr).yields)

/-- A stretch out of which a statement of some form may be made: its trees are the children of the
    form, which is no leaf and has no annotations in front. -/
structure Forms (source : Source) (s : State) (kind : NodeKind) (t : State) : Prop
    extends Takes source s kind.children t where
  formed : kind.IsFormed t.nodes t.previousStop
  spelling : kind.spelling? = none
  bare : kind.annotations = []

/-! ### Loops and branches -/

theorem ifStmt_forms (hr : Ready p source s 0) :
    Ensures source s (ifStmt p) (Forms source s) := by
  unfold ifStmt
  refine (expect_takes hr.sound (by decide)).bind fun _ t h => ?_
  refine h.thenNodes (parenthesized_yields (hr.after h)) fun condition t h => ?_
  refine h.toYields.thenNode (hr.makesAfter h) fun yes t h => ?_
  refine h.thenNodes (optional_yields (g := Option.toList) rfl
    (guards_accept h.sound (by decide) fun u hu =>
      (hr.makesAfter (h.trans hu.toYields)).yieldsNode)) fun no t h => ?_
  exact .pure ⟨h, trivial, rfl, rfl⟩

theorem whileStmt_forms (hr : Ready p source s 0) (hrest : s.rest ≠ []) :
    Ensures source s (whileStmt p) (Forms source s) := by
  unfold whileStmt
  refine (advance_takes hr.sound hrest).bind fun _ t h => ?_
  refine h.thenNodes (parenthesized_yields (hr.after h)) fun condition t h => ?_
  exact h.toYields.thenNode (hr.makesAfter h) fun body t h => .pure ⟨h, trivial, rfl, rfl⟩

theorem doStmt_forms (hr : Ready p source s 0) (hrest : s.rest ≠ []) :
    Ensures source s (doStmt p) (Forms source s) := by
  unfold doStmt
  refine (advance_takes hr.sound hrest).bind fun _ t h => ?_
  refine h.toYields.thenNode (hr.makesAfter h) fun body t h => ?_
  refine h.toYields.thenToken (expect_takes h.sound (by decide)) fun _ t h => ?_
  refine h.thenNodes (parenthesized_yields (hr.after h)) fun condition t h => ?_
  exact h.toYields.thenToken (expect_takes h.sound (by decide)) fun _ t h =>
    .pure ⟨h, trivial, rfl, rfl⟩

theorem forRest_forms {init : List NodeId} (hr : Ready p source s 0) (h : Takes source s init t) :
    Ensures source t (forRest p init) (Forms source s) := by
  unfold forRest
  refine h.toYields.thenToken (expect_takes h.sound (by decide)) fun _ t h => ?_
  refine h.thenNodes (optionalExpression_yields (hr.after h)) fun compare t h => ?_
  refine h.toYields.thenToken (expect_takes h.sound (by decide)) fun _ t h => ?_
  refine h.thenNodes (optionalExpressions_yields (hr.after h)) fun update t h => ?_
  refine h.toYields.thenToken (expect_takes h.sound (by decide)) fun _ t h => ?_
  exact h.toYields.thenNode (hr.makesAfter h) fun body t h => .pure ⟨h, trivial, rfl, rfl⟩

theorem forStmt_forms (hr : Ready p source s 0) :
    Ensures source s (forStmt p) (Forms source s) := by
  unfold forStmt
  refine (expect_takes hr.sound (by decide)).bind fun _ t h => ?_
  refine h.toYields.thenToken (expect_takes h.sound (by decide)) fun _ t h => ?_
  rw [ensures_ahead]
  split
  · refine h.toYields.thenNode (localVariables_makes (hr.after h)) fun declared t h => ?_
    refine h.toYields.thenAccept (by decide) (fun u h => ?_) (forRest_forms hr h)
    refine h.toYields.thenNode (hr.makesAfter h) fun iterable v h => ?_
    refine h.toYields.thenToken (expect_takes h.sound (by decide)) fun _ v h => ?_
    exact h.toYields.thenNode (hr.makesAfter h) fun body v h => .pure ⟨h, trivial, rfl, rfl⟩
  · refine h.thenNodes (optionalExpressions_yields (hr.after h)) fun init t h => ?_
    exact forRest_forms hr h

/-! ### Transfers -/

theorem returnStmt_forms (hr : Ready p source s 0) (hrest : s.rest ≠ []) :
    Ensures source s (returnStmt p) (Forms source s) := by
  unfold returnStmt
  refine (advance_takes hr.sound hrest).bind fun _ t h => ?_
  refine h.thenNodes (optionalExpression_yields (hr.after h)) fun expression t h => ?_
  exact h.toYields.thenToken (expect_takes h.sound (by decide)) fun _ t h =>
    .pure ⟨h, trivial, rfl, rfl⟩

theorem jumpLabel_takes (hs : s.IsSound source) (hrest : s.rest ≠ []) :
    Ensures source s jumpLabel fun _ t => Takes source s [] t := by
  unfold jumpLabel
  refine (advance_takes hs hrest).bind fun _ t h => ?_
  refine h.thenNodes (optional_yields (g := fun _ => []) rfl (guards_reading h.sound rfl fun _ =>
    (identifier_takes h.sound).mono fun _ _ h => h.toYields)) fun label t h => ?_
  exact h.toYields.thenToken (expect_takes h.sound (by decide)) fun _ t h => .pure h

theorem throwStmt_forms (hr : Ready p source s 0) (hrest : s.rest ≠ []) :
    Ensures source s (throwStmt p) (Forms source s) := by
  unfold throwStmt
  refine (advance_takes hr.sound hrest).bind fun _ t h => ?_
  refine h.toYields.thenNode (hr.makesAfter h) fun expression t h => ?_
  exact h.toYields.thenToken (expect_takes h.sound (by decide)) fun _ t h =>
    .pure ⟨h, trivial, rfl, rfl⟩

/-! ### Handlers, switches and locks -/

theorem catchParameter_makes (hr : Ready p source s 1) :
    Ensures source s (catchParameter p) (Makes source s) := by
  unfold catchParameter
  refine (modifiers_opens hr).bind fun front t hfront => ?_
  rw [ensures_start]
  have hr' := hr.next hfront.toYields
  have htype : ∀ ids u, Yields source t ids u → Ensures source u (p .type) (Makes source u) :=
    fun ids u hu => (hr'.next hu).makes Nat.zero_lt_one
  -- the name comes after one type, or after the union made of several
  have hname : ∀ type u, Takes source t [type] u → Ensures source u (do
      let name ← identifier "parameter name"
      pushModified front (.parameterDecl front.annotations front.keywords (some type) false name))
      (Makes source s) := by
    intro type u h
    refine h.toYields.thenToken (identifier_takes h.sound) fun name v h => ?_
    exact pushModified_makes hfront h rfl rfl trivial (.none rfl)
  refine (htype [] t (.refl hfront.sound)).bind fun first u h => ?_
  refine h.toTakes.thenNodes (many_nodes h.sound fun ids v hv =>
    guards_accept hv.sound (by decide) fun w hw =>
      htype _ w (h.toYields.trans (hv.trans hw.toYields))) fun others v h => ?_
  split
  · next hnone =>
    rw [List.isEmpty_iff.1 hnone] at h
    exact hname first v h
  · refine Ensures.bind (pushFrom_makes h rfl rfl trivial (.none rfl)) fun type w h => ?_
    exact hname type w h.toTakes

theorem catchClause_makes (hr : Ready p source s 0) (hrest : s.rest ≠ []) :
    Ensures source s (catchClause p) (Makes source s) := by
  unfold catchClause
  rw [ensures_start]
  refine (advance_takes hr.sound hrest).bind fun _ t h => ?_
  refine h.toYields.thenToken (expect_takes h.sound (by decide)) fun _ t h => ?_
  refine h.toYields.thenNode (catchParameter_makes (hr.after h)) fun parameter t h => ?_
  refine h.toYields.thenToken (expect_takes h.sound (by decide)) fun _ t h => ?_
  refine h.toYields.thenNode (block_makes (hr.after h)) fun body t h => ?_
  exact pushFrom_makes h rfl rfl trivial (.none rfl)

theorem resources_yields (hr : Ready p source s 5) :
    Ensures source s (resources p) (Yields source s) := by
  unfold resources
  refine (listUntil_yields hr.sound (by decide) fun ids t ht =>
    variablesOrExpression_makes (hr.next ht)).bind fun found t h => ?_
  exact h.thenToken (expect_takes h.sound (by decide)) fun _ u h => .pure h.toYields

theorem tryStmt_forms (hr : Ready p source s 0) :
    Ensures source s (tryStmt p) (Forms source s) := by
  unfold tryStmt
  refine (expect_takes hr.sound (by decide)).bind fun _ t h => ?_
  refine h.thenNodes (optionalList_yields (guards_accept h.sound (by decide) fun u hu =>
    resources_yields (hr.after (h.trans hu.toYields)))) fun found t h => ?_
  refine h.toYields.thenNode (block_makes (hr.after h)) fun tryBlock t h => ?_
  refine h.thenNodes (many_nodes h.sound fun ids u hu => guards_check hu.sound fun hkind =>
    catchClause_makes (hr.after (h.trans hu)) (State.rest_ne_nil_of_kind (by decide) hkind))
    fun clauses t h => ?_
  refine h.thenNodes (optional_yields (g := Option.toList) rfl
    (guards_accept h.sound (by decide) fun u hu =>
      (block_makes (hr.after (h.trans hu.toYields))).yieldsNode)) fun finallyBlock t h => ?_
  split
  · exact ensures_unexpected h.sound.valid
  · refine .pure ⟨?_, trivial, rfl, rfl⟩
    show Takes source s (found ++ tryBlock :: clauses ++ finallyBlock.toList) t
    simpa using h

/-- The label of a switch entry. -/
theorem switchLabel_takes (hr : Ready p source s 0) :
    Ensures source s (switchLabel p) fun label t => Takes source s label.toList t := by
  unfold switchLabel
  refine (Yields.refl hr.sound).thenAccept (by decide) (fun t h => ?_) ?_
  · exact Ensures.map (Ensures.mono (hr.makesAfter h) fun label u hu => h.trans hu.toYields)
  · exact (Yields.refl hr.sound).thenAccept (by decide) (fun t h => .pure h)
      (ensures_unexpected hr.sound.valid)

theorem switchEntry_makes (hr : Ready p source s 0) :
    Ensures source s (switchEntry p) (Makes source s) := by
  unfold switchEntry
  rw [ensures_start]
  refine (switchLabel_takes hr).bind fun label t h => ?_
  refine h.toYields.thenToken (expect_takes h.sound (by decide)) fun _ t h => ?_
  refine h.thenNodes (itemsUntil_yields (g := ([·])) h.sound (fun t => ⟨_, rfl⟩) fun ids u hu => ?_)
    fun statements u h => ?_
  · exact Ensures.mono (hr.makesAfter (h.trans hu)) fun _ _ hv => ⟨hv.toYields, hv.start_lt⟩
  · refine pushFrom_makes h ?_ rfl trivial (.none rfl)
    show label.toList ++ statements = _
    simp

theorem switchStmt_forms (hr : Ready p source s 0) :
    Ensures source s (switchStmt p) (Forms source s) := by
  unfold switchStmt
  refine (expect_takes hr.sound (by decide)).bind fun _ t h => ?_
  refine h.thenNodes (parenthesized_yields (hr.after h)) fun selector t h => ?_
  refine h.toYields.thenToken (expect_takes h.sound (by decide)) fun _ t h => ?_
  refine h.thenNodes (many_nodes h.sound fun ids u hu => guards_reading hu.sound rfl fun _ =>
    switchEntry_makes (hr.after (h.trans hu))) fun entries t h => ?_
  exact h.toYields.thenToken (expect_takes h.sound (by decide)) fun _ t h =>
    .pure ⟨h, trivial, rfl, rfl⟩

theorem synchronizedStmt_forms (hr : Ready p source s 0) (hrest : s.rest ≠ []) :
    Ensures source s (synchronizedStmt p) (Forms source s) := by
  unfold synchronizedStmt
  refine (advance_takes hr.sound hrest).bind fun _ t h => ?_
  refine h.thenNodes (parenthesized_yields (hr.after h)) fun lock t h => ?_
  exact h.toYields.thenNode (block_makes (hr.after h)) fun body t h => .pure ⟨h, trivial, rfl, rfl⟩

theorem assertStmt_forms (hr : Ready p source s 0) (hrest : s.rest ≠ []) :
    Ensures source s (assertStmt p) (Forms source s) := by
  unfold assertStmt
  refine (advance_takes hr.sound hrest).bind fun _ t h => ?_
  refine h.toYields.thenNode (hr.makesAfter h) fun condition t h => ?_
  refine h.thenNodes (optional_yields (g := Option.toList) rfl
    (guards_accept h.sound (by decide) fun u hu =>
      (hr.makesAfter (h.trans hu.toYields)).yieldsNode)) fun message t h => ?_
  exact h.toYields.thenToken (expect_takes h.sound (by decide)) fun _ t h =>
    .pure ⟨h, trivial, rfl, rfl⟩

theorem constructorCall_forms {isThis : Bool} (hr : Ready p source s 0) (hrest : s.rest ≠ []) :
    Ensures source s (constructorCall p isThis) (Forms source s) := by
  unfold constructorCall
  refine (advance_takes hr.sound hrest).bind fun _ t h => ?_
  refine h.toYields.thenTaken (arguments_closes (hr.after h)).takes fun found t h => ?_
  exact h.toYields.thenToken (expect_takes h.sound (by decide)) fun _ t h =>
    .pure ⟨h, trivial, rfl, rfl⟩

/-! ### All statements -/

theorem keywordStmt?_forms {word : Keyword} {next : TokenKind} {body : Parser NodeKind}
    (hr : Ready p source s 0) (hrest : s.rest ≠ []) (h : keywordStmt? p word next = some body) :
    Ensures source s body (Forms source s) := by
  unfold keywordStmt? at h
  split at h
  · cases h
    exact ifStmt_forms hr
  · cases h
    exact whileStmt_forms hr hrest
  · cases h
    exact doStmt_forms hr hrest
  · cases h
    exact forStmt_forms hr
  · cases h
    exact returnStmt_forms hr hrest
  · cases h
    exact Ensures.map (R := Forms source s)
      ((jumpLabel_takes hr.sound hrest).mono fun _ _ h => ⟨h, trivial, rfl, rfl⟩)
  · cases h
    exact Ensures.map (R := Forms source s)
      ((jumpLabel_takes hr.sound hrest).mono fun _ _ h => ⟨h, trivial, rfl, rfl⟩)
  · cases h
    exact throwStmt_forms hr hrest
  · cases h
    exact tryStmt_forms hr
  · cases h
    exact switchStmt_forms hr
  · split at h
    · cases h
      exact synchronizedStmt_forms hr hrest
    · cases h
  · cases h
    exact assertStmt_forms hr hrest
  · split at h
    · cases h
      exact constructorCall_forms hr hrest
    · cases h
  · split at h
    · cases h
      exact constructorCall_forms hr hrest
    · cases h
  · cases h

theorem plainStmt_makes (hr : Ready p source s 5) :
    Ensures source s (plainStmt p s.start) (Makes source s) := by
  unfold plainStmt
  rw [ensures_ahead]
  split
  · refine (modifiers_opens hr).bind fun front t hfront => ?_
    have hr' := (hr.next hfront.toYields).mono (Nat.zero_le _)
    refine (typeDeclaration_makes hr' hfront).bind fun declaration u h => ?_
    exact pushFrom_makes h.toTakes rfl rfl trivial (.none rfl)
  · refine (variablesOrExpression_makes hr).bind fun expression t h => ?_
    refine h.toYields.thenToken (expect_takes h.sound (by decide)) fun _ u h => ?_
    exact pushFrom_makes h rfl rfl trivial (.none rfl)

theorem statement_makes (hr : Ready p source s 5) :
    Ensures source s (statement p) (Makes source s) := by
  refine hr.nested fun levels hr => ?_
  have hlow := hr.mono (Nat.zero_le 5)
  rw [ensures_start, ensures_peek, ensures_peek]
  split
  · exact block_makes hlow
  · next hkind =>
    have hrest := State.rest_ne_nil_of_kindAt (by decide) hkind
    exact (advance_takes hr.sound hrest).bind fun _ t h =>
      pushFrom_makes h rfl rfl trivial (.none rfl)
  -- a name may be a label, if a colon follows, or the start of an expression
  · next label hkind =>
    have hrest := State.rest_ne_nil_of_kindAt (by simp) hkind
    split
    · refine (advanceTwo_takes hr.sound hrest).bind fun _ t h => ?_
      refine h.toYields.thenNode (hr.makesAfter h) fun inner u h => ?_
      exact pushFrom_makes h rfl rfl trivial (.none rfl)
    · exact plainStmt_makes hr
  · next word hkind =>
    have hrest := State.rest_ne_nil_of_kindAt (by simp) hkind
    split
    · next body hbody =>
      refine (keywordStmt?_forms hlow hrest hbody).bind fun kind t h => ?_
      exact pushFrom_makes h.toTakes rfl h.bare h.formed (.none h.spelling)
    · exact plainStmt_makes hr
  · exact plainStmt_makes hr

end CodeMarkup.Grammar
