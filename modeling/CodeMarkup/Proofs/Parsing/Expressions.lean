import CodeMarkup.Grammar.Expressions
import CodeMarkup.Proofs.Parsing.Markup
import CodeMarkup.Proofs.Parsing.Types

namespace CodeMarkup.Grammar

open CodeMarkup.Parser

/-!
# Expressions build forests

An expression may turn out to be the left part of a larger one, which starts where it starts.  Such
a production is given the state `s` where the whole starts, and what has been read since.
-/

variable {p : Productions} {source : Source} {s t u : State} {ids : List NodeId} {rank : Nat}

/-! ### Parts of blocks and bodies -/

/-- Items up to a closing token, which has to be there. -/
theorem itemsUntil_yields {α : Type} {more : Parser Bool} {item : Parser α}
    {g : α → List NodeId} {expected : String} (hs : s.IsSound source)
    (hmore : ∀ t, ∃ yes, more source t = .ok yes t)
    (hitem : ∀ ids t, Yields source s ids t →
      Ensures source t item fun a u => Yields source t (g a) u ∧ t.start < u.start) :
    Ensures source s (many more do if ← atEnd then unexpected expected else item) fun found t =>
      Yields source s (found.flatMap g) t := by
  refine many_yields hs fun ids t ht => ?_
  obtain ⟨yes, hyes⟩ := hmore t
  refine guards_reading ht.sound hyes fun _ => ?_
  rw [ensures_atEnd]
  split
  · exact ensures_unexpected ht.sound.valid
  · exact hitem ids t ht

theorem block_makes (hr : Ready p source s 0) :
    Ensures source s (block p) (Makes source s) := by
  unfold block
  rw [ensures_start]
  refine (expect_takes hr.sound (by decide)).bind fun _ t h => ?_
  refine h.thenNodes (itemsUntil_yields (g := ([·])) h.sound (fun t => ⟨_, rfl⟩) fun ids u hu => ?_)
    fun statements u h => ?_
  · exact Ensures.mono (hr.makesAfter (h.trans hu)) fun _ _ hv => ⟨hv.toYields, hv.start_lt⟩
  · refine h.thenNodes (g := fun _ => []) (advance_yields h.sound) fun _ v h => ?_
    refine pushFrom_makes h ?_ rfl trivial (.none rfl)
    show statements = _
    simp

theorem filterMap_id_eq_flatMap (items : List (Option NodeId)) :
    items.filterMap id = items.flatMap Option.toList := by
  induction items with
  | nil => rfl
  | cons item items ih =>
    rw [List.flatMap_cons, ← ih]
    cases item <;> rfl

theorem members_yields (hr : Ready p source s 2) :
    Ensures source s (members p) (Yields source s) := by
  unfold members
  refine (itemsUntil_yields (g := Option.toList) hr.sound (fun t => ⟨_, rfl⟩)
    fun ids t ht => ?_).bind fun items t h => ?_
  -- a lone semicolon between members makes no node
  · refine (Yields.refl ht.sound).thenAccept (by decide) (fun u h => ?_) ?_
    · exact .pure ⟨h.toYields, h.start_lt⟩
    · have hmember : Ensures source t (p .bodyDeclaration) (Makes source t) :=
        (hr.next ht).makes (by decide)
      exact hmember.bind fun member u h => .pure ⟨h.toYields, h.start_lt⟩
  · rw [filterMap_id_eq_flatMap]
    exact .pure h

theorem classBody_closes (hr : Ready p source s 0) :
    Ensures source s (classBody p) (Closes source s) := by
  unfold classBody
  refine (expect_takes hr.sound (by decide)).bind fun _ t h => ?_
  refine h.thenNodes (members_yields (hr.after h)) fun found u h => ?_
  exact h.toYields.thenLast (expect_takes h.sound (by decide)) fun _ v h => .pure h

theorem arguments_closes (hr : Ready p source s 0) :
    Ensures source s (arguments p) (Closes source s) := by
  unfold arguments
  refine (expect_takes hr.sound (by decide)).bind fun _ t h => ?_
  refine h.toYields.thenAccept (by decide) (fun u h => .pure h.closes) ?_
  refine h.toYields.thenTaken (commaSeparated_takes h.sound fun ids u hu =>
    hr.makesAfter (h.trans hu)) fun found u h => ?_
  exact h.toYields.thenLast (expect_takes h.sound (by decide)) fun _ v h => .pure h

/-! ### Lambdas -/

theorem lambdaParameter_makes (hr : Ready p source s 1) :
    Ensures source s (lambdaParameter p) (Makes source s) := by
  unfold lambdaParameter
  rw [ensures_peek, ensures_peek]
  split
  · rw [ensures_start]
    exact (identifier_takes hr.sound).bind fun name t h =>
      pushFrom_makes h rfl rfl trivial (.none rfl)
  · exact parameter_makes hr

theorem lambda_makes (hr : Ready p source s 1) :
    Ensures source s (lambda p) (Makes source s) := by
  unfold lambda
  rw [ensures_start]
  -- from the arrow on, both forms are alike
  have hrest : ∀ parenthesized found t, Takes source s found t → Ensures source t (do
      expect .arrow
      let body ← if ← check .leftBrace then block p else p .expression
      pushFrom s.start (.lambda found body parenthesized)) (Makes source s) := by
    intro parenthesized found t h
    refine h.toYields.thenToken (expect_takes h.sound (by decide)) fun _ u h => ?_
    rw [ensures_check]
    split
    · refine h.toYields.thenNode (block_makes (hr.after h)) fun body v h => ?_
      exact pushFrom_makes h rfl rfl trivial (.none rfl)
    · refine h.toYields.thenNode (hr.makesAfter h) fun body v h => ?_
      exact pushFrom_makes h rfl rfl trivial (.none rfl)
  refine (Yields.refl hr.sound).thenAccept (by decide) (fun t h => ?_) ?_
  · dsimp only
    rw [if_pos rfl]
    refine h.thenNodes (listUntil_yields h.sound (by decide) fun ids u hu =>
      lambdaParameter_makes (hr.next (h.toYields.trans hu))) fun found u h => ?_
    exact h.toYields.thenToken (expect_takes h.sound (by decide)) fun _ v h => hrest true found v h
  · dsimp only
    rw [if_neg Bool.false_ne_true]
    exact (lambdaParameter_makes hr).bind fun only t h => hrest false [only] t h.toTakes

/-! ### Creation -/

/-- The dimensions of an array, given the trees of their sizes, which stand between brackets. -/
theorem creationDims_yields (hr : Ready p source s 0) :
    Ensures source s (creationDims p) fun found t =>
      Yields source s found.1 t ∧ ArePast t.nodes t.previousStop found.1 := by
  unfold creationDims
  have hnone : Yields source s ([], 0).1 s ∧ ArePast s.nodes s.previousStop ([], 0).1 :=
    ⟨.refl hr.sound, nofun⟩
  -- between the rounds the sizes read so far are the row
  refine extend_ensures (I := fun (found : List NodeId × Nat) t =>
    Yields source s found.1 t ∧ ArePast t.nodes t.previousStop found.1)
    (fun ⟨sizes, unsized⟩ t ⟨h, hpast⟩ => ?_) hnone
  refine (Yields.refl h.sound).thenAccept (by decide) (fun u hu => ?_) (.pure ⟨h, hpast⟩)
  refine hu.toYields.thenAccept (by decide) (fun v hv => ?_) ?_
  · have hyields := h.trans hv.toYields
    rw [List.append_nil] at hyields
    exact .pure ⟨⟨hyields, h.arePast hv⟩, hv.leads.length_lt hv.start_lt⟩
  · rw [if_neg Bool.false_ne_true]
    split
    · exact ensures_unexpected hu.sound.valid
    · refine hu.toYields.thenNode (hr.makesAfter (h.trans_takes hu)) fun size v hv => ?_
      refine hv.toYields.thenLast (expect_takes hv.sound (by decide)) fun _ w hw => ?_
      exact .pure ⟨⟨h.trans hw.toYields, (h.trans_closes hw).past⟩, hw.leads.length_lt hw.start_lt⟩

/-- What stands before the type of an array in its creation is left out of it. -/
theorem arrayCreation_leavesOut {scope sizes : List NodeId} {type id : NodeId} {unsized : Nat}
    {init : Option NodeId} (h : Takes source s (scope ++ (type :: sizes ++ init.toList)) t)
    (hid : id ∈ scope) :
    LeftOut source (t.nodes.push (nodeOf source (.arrayCreation type sizes unsized init)
      (t.spanFrom s.start) none)) id := by
  have hlt := h.ids_lt id (List.mem_append_left _ hid)
  refine .scope hlt (kindIn_push_size _ _) ?_ fun child hchild => ?_
  · rw [spanIn_push_of_lt hlt, spanIn_push_size]
    exact (h.ids_inside id (List.mem_append_left _ hid)).1
  · rw [kindIn_push_size] at hchild
    rw [spanIn_push_of_lt hlt, spanIn_push_of_lt (h.ids_lt child (List.mem_append_right _ hchild))]
    exact (List.pairwise_append.1 h.ids_increasing).2.2 id hid child hchild

/-- `new` with what it creates, after its scope. -/
theorem creation_makes {scope : Option NodeId} (hr : Ready p source s 0)
    (h : Yields source s scope.toList t) :
    Ensures source t (creation p scope s.start) (Makes source s) := by
  unfold creation
  refine h.thenToken (expect_takes h.sound (by decide)) fun _ u h => ?_
  refine h.toYields.thenNode (nonArrayType_makes (hr.after h)) fun type v h => ?_
  rw [ensures_check]
  split
  · refine (creationDims_yields (hr.after h)).bind fun ⟨sizes, unsized⟩ w ⟨hw, hpast⟩ => ?_
    replace h := h.trans hw
    refine (optional_yields (g := Option.toList) rfl (guards_check h.sound fun _ =>
      (hr.makesAfter h).yieldsNode)).bind fun init x hx => ?_
    replace h := h.trans hx
    replace hpast := hpast.mono hx.leads.nodes_kept hx.previousStop_le
    split
    · exact ensures_unexpected h.sound.valid
    · -- the scope has no place in the creation of an array
      refine push_makesLeaving h ?_ (NodeKind.isMarked_none rfl) hpast (.none rfl) fun id hid => ?_
      · show (type :: sizes ++ init.toList).Sublist _
        simp only [List.append_assoc]
        exact List.sublist_append_right _ _
      · simp only [List.append_assoc, List.mem_append] at hid
        rcases hid with hscope | hid
        · exact .inr (arrayCreation_leavesOut (by simpa using h) hscope)
        · refine .inl ?_
          show id ∈ type :: sizes ++ init.toList
          simpa using hid
  · refine h.toYields.thenClosed (arguments_closes (hr.after h)) fun found w h => ?_
    refine h.thenOptional (g := (·.getD [])) rfl (guards_check h.sound fun _ =>
      classBody_closes (hr.after h.toTakes)) fun body x h => ?_
    refine pushFrom_closes h ?_ rfl trivial (.none rfl)
    show scope.toList ++ type :: found ++ body.getD [] = _
    simp

/-! ### Primary expressions -/

theorem classLiteral_makes {type : Parser NodeId} (htype : Ensures source s type (Makes source s)) :
    Ensures source s (classLiteral type) (Makes source s) := by
  unfold classLiteral
  rw [ensures_start]
  refine htype.bind fun found t h => ?_
  refine h.toYields.thenToken (expect_takes h.sound (by decide)) fun _ u h => ?_
  refine h.toYields.thenLast (expect_takes h.sound (by decide)) fun _ v h => ?_
  exact pushFrom_closes h rfl rfl trivial (.none rfl)

theorem namePrimary_makes {name : String} (hr : Ready p source s 1)
    (hkind : kindAt s.rest 0 = .identifier name) :
    Ensures source s (namePrimary p name) (Makes source s) := by
  have hrest := State.rest_ne_nil_of_kindAt (by simp) hkind
  have htype : Ensures source s (p .type) (Makes source s) := hr.makes Nat.zero_lt_one
  unfold namePrimary
  rw [ensures_start, ensures_ahead]
  dsimp only
  -- three readings of a name: as a type before `.class`, before `::`, or as a name
  split
  · exact classLiteral_makes htype
  · split
    · exact htype
    · refine (advance_spells hr.sound hrest).bind fun _ t ⟨h, hspelled⟩ => ?_
      rw [ensures_check]
      split
      · refine h.toYields.thenClosed (arguments_closes (hr.after h)) fun found u h => ?_
        exact pushFrom_closes h rfl rfl trivial (.none rfl)
      · exact pushFrom_makes h rfl rfl trivial (hspelled (s.current_spells hkind rfl))

theorem primitivePrimary_makes {word : Keyword} (hr : Ready p source s 1)
    (hkind : kindAt s.rest 0 = .keyword word) :
    Ensures source s (primitivePrimary p word) (Makes source s) := by
  have hrest := State.rest_ne_nil_of_kindAt (by simp) hkind
  have htype : Ensures source s (p .type) (Makes source s) := hr.makes Nat.zero_lt_one
  unfold primitivePrimary
  rw [ensures_start, ensures_ahead]
  dsimp only
  split
  · exact classLiteral_makes htype
  · split
    · exact htype
    · refine (advance_spells hr.sound hrest).bind fun _ t ⟨h, hspelled⟩ => ?_
      exact pushFrom_makes h rfl rfl trivial (hspelled (s.current_spells hkind rfl))

theorem literal?_spelling {kind : TokenKind} {literal : Literal}
    (h : literal? kind = some literal) : literal.spelling = kind.spelling := by
  unfold literal? at h
  split at h <;> cases h <;> rfl

/-- A form that a single token makes has no children, and the spelling of the token. -/
theorem singleton?_leaf {kind : TokenKind} {form : NodeKind} (h : singleton? kind = some form) :
    form.children = [] ∧ kind.Spells form := by
  unfold singleton? at h
  split at h
  · cases h
    exact ⟨rfl, rfl⟩
  · cases h
    exact ⟨rfl, rfl⟩
  · obtain ⟨literal, hliteral, rfl⟩ := Option.map_eq_some_iff.1 h
    exact ⟨rfl, congrArg some (literal?_spelling hliteral)⟩

theorem primary_makes (hr : Ready p source s 1) :
    Ensures source s (primary p) (Makes source s) := by
  have hlow : Ready p source s 0 := hr.mono (Nat.zero_le _)
  unfold primary
  rw [ensures_start, ensures_peek]
  split
  · next form hform =>
    have hrest := State.rest_ne_nil_of_read rfl hform
    refine (advance_spells hr.sound hrest).bind fun _ t ⟨h, hspelled⟩ => ?_
    obtain ⟨hchildren, hspells⟩ := singleton?_leaf hform
    exact pushFrom_closes h.closes hchildren (NodeKind.annotations_of_children_eq_nil hchildren)
      (NodeKind.isKeyed_of_children_eq_nil hchildren) (hspelled (s.current_spells rfl hspells))
  · split
    · next raw hkind =>
      exact template_makes hr (s.kindAt_rest_zero ▸ hkind)
    · exact creation_makes hlow (.refl hr.sound)
    · exact classLiteral_makes (typeOrVoid_makes hr)
    · next word hword _ _ hkind =>
      split
      · exact primitivePrimary_makes hr hkind
      · exact ensures_unexpected hr.sound.valid
    · next name hkind =>
      exact namePrimary_makes hr hkind
    · next hkind =>
      have hrest := State.rest_ne_nil_of_kindAt (by decide) hkind
      refine (advance_takes hr.sound hrest).bind fun _ t h => ?_
      refine h.toYields.thenNode (hr.makesAfter h) fun inner u h => ?_
      refine h.toYields.thenLast (expect_takes h.sound (by decide)) fun _ v h => ?_
      exact pushFrom_closes h rfl rfl trivial (.none rfl)
    · exact jsonObject_makes hlow
    · exact jsonArray_makes hlow
    · exact tag_makes hlow
    · exact ensures_unexpected hr.sound.valid

/-! ### Operators after an expression -/

/-- A member, after its scope and the point. -/
theorem member_makes {scope : NodeId} (hr : Ready p source s 0) (h : Takes source s [scope] t) :
    Ensures source t (member p scope s.start) (Makes source s) := by
  -- a member that is a single word
  have hword : ∀ {kind : TokenKind} {form : NodeKind}, kind ≠ .eof → kindAt t.rest 0 = kind →
      form.children = [scope] → (∀ nodes, form.IsKeyed nodes) → form.spelling? = none →
      form.annotations = [] →
      Ensures source t (do advance; pushFrom s.start form) (Makes source s) := by
    intro kind form hkind hat hform hkeyed hspelling hbare
    have hrest := State.rest_ne_nil_of_kindAt hkind hat
    refine h.toYields.thenLast (advance_takes h.sound hrest) fun _ u h => ?_
    exact pushFrom_closes h hform hbare (hkeyed u.nodes) (.none hspelling)
  unfold member
  rw [ensures_peek]
  split
  · refine h.toYields.thenTaken (typeArguments_closes (hr.after h)).takes fun types u h => ?_
    refine h.toYields.thenToken (identifier_takes h.sound) fun name v h => ?_
    refine h.toYields.thenClosed (arguments_closes (hr.after h)) fun found w h => ?_
    exact pushFrom_closes h rfl rfl trivial (.none rfl)
  · next name hkind =>
    have hrest := State.rest_ne_nil_of_kindAt (by simp) hkind
    refine h.toYields.thenLast (advance_takes h.sound hrest) fun _ u h => ?_
    rw [ensures_check]
    split
    · refine h.toYields.thenClosed (arguments_closes (hr.after h.toTakes)) fun found v h => ?_
      exact pushFrom_closes h rfl rfl trivial (.none rfl)
    · exact pushFrom_closes h rfl rfl trivial (.none rfl)
  · next hkind => exact hword (by decide) hkind rfl (fun _ => trivial) rfl rfl
  · next hkind => exact hword (by decide) hkind rfl (fun _ => trivial) rfl rfl
  · exact creation_makes hr h.toYields
  · exact ensures_unexpected h.sound.valid

theorem referenceName_takes (hs : s.IsSound source) :
    Ensures source s referenceName (fun _ t => Takes source s [] t) := by
  unfold referenceName
  exact (Yields.refl hs).thenAccept (by decide) (fun t h => .pure h) (identifier_takes hs)

/-- An operator after an expression makes a larger one of it. -/
theorem suffix_extends (hr : Ready p source s 0) {expression : NodeId}
    (h : Makes source s expression t) :
    Ensures source t (suffix p s.start expression)
      (Extends t (Makes source s) (Makes source s) expression) := by
  have hadvance : ∀ {kind : TokenKind}, kind ≠ .eof → kindAt t.rest 0 = kind →
      Ensures source t advance (fun _ u => Takes source t [] u) :=
    fun hkind hat => advance_takes h.sound (State.rest_ne_nil_of_kindAt hkind hat)
  -- an operator without an operand of its own
  have hstep : ∀ {kind : TokenKind} {form : NodeKind}, kind ≠ .eof → kindAt t.rest 0 = kind →
      form.children = [expression] → (∀ nodes, form.IsKeyed nodes) → form.spelling? = none →
      form.annotations = [] →
      Ensures source t (do advance; some <$> pushFrom s.start form)
        (Extends t (Makes source s) (Makes source s) expression) := by
    intro kind form hkind hat hform hkeyed hspelling hbare
    refine (hadvance hkind hat).bind fun _ u hu => ?_
    exact hu.thenSome (pushFrom_closes (h.toYields.trans_closes hu.closes) hform hbare
      (hkeyed u.nodes) (.none hspelling))
  unfold suffix
  rw [ensures_peek]
  split
  · next hkind =>
    refine (hadvance (by decide) hkind).bind fun _ u hu => ?_
    exact hu.thenSome (member_makes hr (h.toTakes.trans hu.toYields))
  · next hkind =>
    refine (hadvance (by decide) hkind).bind fun _ u hu => ?_
    refine hu.toYields.thenNode (hr.makesAfter (h.toTakes.trans hu.toYields)) fun index v hv => ?_
    refine hv.toYields.thenLast (expect_takes hv.sound (by decide)) fun _ w hw => ?_
    refine hw.thenSome (pushFrom_closes (h.toYields.trans_closes hw) rfl rfl ?_ (.none rfl))
    trivial
  · next hkind =>
    refine (hadvance (by decide) hkind).bind fun _ u hu => ?_
    refine hu.toYields.thenLast (referenceName_takes hu.sound) fun name v hv => ?_
    refine hv.thenSome (pushFrom_closes (h.toYields.trans_closes hv) rfl rfl ?_ (.none rfl))
    trivial
  · next hkind => exact hstep (by decide) hkind rfl (fun _ => trivial) rfl rfl
  · next hkind => exact hstep (by decide) hkind rfl (fun _ => trivial) rfl rfl
  · exact .pure h

theorem suffixed_makes (hr : Ready p source s 1) :
    Ensures source s (suffixed p) (Makes source s) := by
  unfold suffixed
  rw [ensures_start]
  refine (primary_makes hr).bind fun first t h => ?_
  exact extend_ensures (fun _ _ h => suffix_extends (hr.mono (Nat.zero_le _)) h) h

/-! ### Operators before and between expressions -/

theorem leadingOp?_isTrailing {kind : TokenKind} {op : UnaryOp} (h : leadingOp? kind = some op) :
    op.isTrailing = false := by
  have hleading : ∀ op ∈ UnaryOp.leading, op.isTrailing = false := by decide
  unfold leadingOp? at h
  split at h
  · exact hleading op (List.mem_of_find?_eq_some h)
  · cases h

theorem unary_makes (hr : Ready p source s 1) :
    Ensures source s (unary p) (Makes source s) := by
  unfold unary
  rw [ensures_start, ensures_peek]
  split
  · next op hop =>
    have hrest := State.rest_ne_nil_of_read rfl hop
    refine (advance_takes hr.sound hrest).bind fun _ t h => ?_
    refine h.toYields.thenNode (hr.nestedAfter h) fun operand u h => ?_
    refine pushFrom_makes h rfl rfl (fun htrailing => ?_) (.none rfl)
    rw [leadingOp?_isTrailing hop] at htrailing
    cases htrailing
  · rw [ensures_ahead]
    split
    · next hcast =>
      have hrest := State.rest_ne_nil_of_test rfl hcast
      refine (advance_takes hr.sound hrest).bind fun _ t h => ?_
      refine h.toYields.thenNode (hr.makesAfter h) fun type u h => ?_
      refine h.toYields.thenLast (expect_takes h.sound (by decide)) fun _ v h => ?_
      refine (hr.nestedAfter h.toTakes).bind fun operand w hw => ?_
      have hpast := h.past.mono hw.leads.nodes_kept hw.previousStop_le
      exact pushFrom_makes (h.toTakes.trans hw.toYields) rfl rfl hpast (.none rfl)
    · exact suffixed_makes hr

theorem advanceBy_yields (count : Nat) (hs : s.IsSound source) :
    Ensures source s (advanceBy count) (fun _ t => Yields source s [] t) := by
  induction count generalizing s with
  | zero => exact .pure (.refl hs)
  | succ count ih =>
    refine (advance_yields hs).bind fun _ t ht => ?_
    exact (ih ht.sound).mono fun _ u hu => ht.trans hu

theorem operatorAhead?_pos {tokens : List Token} {symbol : String} {count : Nat}
    (h : operatorAhead? tokens = some (symbol, count)) : tokens ≠ [] ∧ 0 < count := by
  unfold operatorAhead? at h
  split at h
  · refine ⟨List.cons_ne_nil _ _, ?_⟩
    split at h
    · cases h
      exact Nat.succ_pos _
    · cases h
      exact Nat.one_pos
    · cases h
  · cases h

/-- The tokens of an operator; there is at least one. -/
theorem advanceBy_takes {symbol : String} {count : Nat} (hs : s.IsSound source)
    (h : operatorAhead? s.rest = some (symbol, count)) :
    Ensures source s (advanceBy count) (fun _ t => Takes source s [] t) := by
  obtain ⟨hrest, hpos⟩ := operatorAhead?_pos h
  obtain ⟨more, rfl⟩ : ∃ more, count = more + 1 := ⟨count - 1, by omega⟩
  refine (advance_takes hs hrest).bind fun _ t ht => ?_
  exact (advanceBy_yields more ht.sound).mono fun _ u hu => ht.trans hu

/-- An operation makes a larger expression of its left operand. -/
theorem operation_extends {power : Nat} {left : NodeId} (hr : Ready p source s 0)
    (h : Makes source s left t) :
    Ensures source t (operation p power s.start left)
      (Extends t (Makes source s) (Makes source s) left) := by
  unfold operation
  rw [ensures_ahead]
  split
  · next hkind =>
    split
    · exact .pure h
    · have hrest := State.rest_ne_nil_of_kindAt (by decide) (eq_of_beq hkind)
      refine (advance_takes h.sound hrest).bind fun _ u hu => ?_
      refine hu.toYields.thenNode (hr.makesAfter (h.toTakes.trans hu.toYields)) fun type v hv => ?_
      exact hv.thenSome (pushFrom_makes (h.toTakes.trans hv.toYields) rfl rfl
        (h.toYields.arePast hv) (.none rfl))
  · split
    · exact .pure h
    · next symbol count hoperator =>
      rw [ensures_kindOf (h.ids_lt _ (List.mem_singleton_self _))]
      split
      · exact .pure h
      · split
        · exact .pure h
        · split
          · exact .pure h
          -- an operator that binds: all its signs are taken, then the right operand
          · refine (advanceBy_takes h.sound hoperator).bind fun _ u hu => ?_
            refine hu.toYields.thenNode (hr.makesAfter (h.toTakes.trans hu.toYields))
              fun right v hv => ?_
            exact hv.thenSome (pushFrom_makes (h.toTakes.trans hv.toYields) rfl rfl
              (h.toYields.arePast hv) (.none rfl))

theorem binary_makes {power : Nat} (hr : Ready p source s 2) :
    Ensures source s (binary p power) (Makes source s) := by
  unfold binary
  rw [ensures_start]
  have hfirst : Ensures source s (p .unary) (Makes source s) := hr.makes (by decide)
  refine hfirst.bind fun first t h => ?_
  exact extend_ensures (fun _ _ h => operation_extends (hr.mono (Nat.zero_le _)) h) h

theorem conditional_makes (hr : Ready p source s 3) :
    Ensures source s (conditional p) (Makes source s) := by
  unfold conditional
  rw [ensures_start]
  have hcondition : Ensures source s (p (.binary 0)) (Makes source s) := hr.makes (by decide)
  refine hcondition.bind fun condition t hmakes => ?_
  refine hmakes.toYields.thenAccept (by decide) (fun u h => ?_) (.pure hmakes)
  refine h.toYields.thenNode (hr.makesAfter h) fun yes v h => ?_
  refine h.toYields.thenToken (expect_takes h.sound (by decide)) fun _ w h => ?_
  rw [ensures_ahead]
  split
  · refine h.toYields.thenNode (lambda_makes (hr.after h)) fun no x h => ?_
    exact pushFrom_makes h rfl rfl trivial (.none rfl)
  · refine h.toYields.thenNode (hr.nestedAfter h) fun no x h => ?_
    exact pushFrom_makes h rfl rfl trivial (.none rfl)

theorem expression_makes (hr : Ready p source s 4) :
    Ensures source s (expression p) (Makes source s) := by
  refine hr.nested fun levels hr => ?_
  rw [ensures_ahead]
  split
  · exact lambda_makes (hr.mono (by decide))
  · rw [ensures_start]
    have htarget : Ensures source _ (p .conditional) (Makes source _) := hr.makes (by decide)
    refine htarget.bind fun target t h => ?_
    rw [ensures_ahead]
    split
    · next op count hassign =>
      -- an assignment is an operator ahead, so at least one sign is taken
      obtain ⟨⟨symbol, count'⟩, hoperator, hop⟩ := Option.bind_eq_some_iff.1 hassign
      obtain ⟨op', hop', heq⟩ := Option.bind_eq_some_iff.1 hop
      cases heq
      refine h.toYields.thenToken (advanceBy_takes h.sound hoperator) fun _ u h => ?_
      refine h.toYields.thenNode (hr.makesAfter h) fun value v h => ?_
      exact pushFrom_makes h rfl rfl trivial (.none rfl)
    · exact .pure h

end CodeMarkup.Grammar
