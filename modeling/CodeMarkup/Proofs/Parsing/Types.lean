import CodeMarkup.Grammar.Declarators
import CodeMarkup.Proofs.Parsing.Steps

namespace CodeMarkup.Grammar

open CodeMarkup.Parser

/-!
# Types, modifiers and variables build forests

One statement for each production: from a state where the productions inside it are right, it makes
a node of the tokens it takes, or yields the trees that the construct around it needs.
-/

variable {p : Productions} {source : Source} {s t : State} {ids : List NodeId} {id : NodeId}
  {rank : Nat}

/-! ### Types -/

/-- Array dimensions after a type: what holds of a type holds of the result, if it holds of the
    type wrapped once more. -/
theorem arrayDims_ensures {start : Nat} {I : NodeId → State → Prop}
    (hI : ∀ id t, I id t → t.IsSound source)
    (hwrap : ∀ id t u, I id t → Takes source t [] u →
      Ensures source u (pushFrom start (.arrayType id)) I) (h : I id t) :
    Ensures source t (arrayDims start id) I := by
  refine extend_ensures (fun type t ht => ?_) h
  rw [ensures_ahead]
  split
  · next hdim =>
    have hrest := State.rest_ne_nil_of_test rfl hdim
    refine (advanceTwo_takes (hI type t ht) hrest).bind fun _ u hu => ?_
    exact hu.thenSome (hwrap type t u ht hu)
  · exact .pure ht

/-- Dimensions that wrap a type again, after its name. -/
theorem arrayDims_takes (h : Takes source s [id] t) :
    Ensures source t (arrayDims s.start id) fun id u => Takes source s [id] u := by
  refine arrayDims_ensures (fun _ _ h => h.sound) (fun id t u h hu => ?_) h
  have hmakes : Ensures source u (pushFrom s.start (.arrayType id)) (Makes source s) :=
    pushFrom_makes (h.trans hu.toYields) rfl rfl (h.arePast hu) (.none rfl)
  exact hmakes.mono fun _ _ h => h.toTakes

theorem typeArgument_makes (hr : Ready p source s 1) :
    Ensures source s (typeArgument p) (Makes source s) := by
  unfold typeArgument
  rw [ensures_check]
  split
  · next hquestion =>
    rw [ensures_start]
    have hrest := State.rest_ne_nil_of_kind (by decide) (eq_of_beq hquestion)
    refine (advance_takes hr.sound hrest).bind fun _ t h => ?_
    refine h.toYields.thenAccept (by decide) (fun u h => ?_)
      (h.toYields.thenAccept (by decide) (fun u h => ?_) ?_)
    · exact h.toYields.thenNode (hr.makesAfter h) fun bound v h =>
        pushFrom_makes h rfl rfl trivial (.none rfl)
    · exact h.toYields.thenNode (hr.makesAfter h) fun bound v h =>
        pushFrom_makes h rfl rfl trivial (.none rfl)
    · exact pushFrom_makes h rfl rfl trivial (.none rfl)
  · exact hr.makes Nat.zero_lt_one

theorem typeArguments_closes (hr : Ready p source s 0) :
    Ensures source s (typeArguments p) (Closes source s) := by
  unfold typeArguments
  refine (expect_takes hr.sound (by decide)).bind fun _ t h => ?_
  refine h.toYields.thenAccept (by decide) (fun u h => .pure h.closes) ?_
  refine h.toYields.thenTaken (commaSeparated_takes h.sound fun ids u hu =>
    typeArgument_makes ((hr.after h).next hu)) fun arguments u h => ?_
  exact h.toYields.thenLast (expect_takes h.sound (by decide)) fun _ v h => .pure h

/-- One name of a dotted type, after the type it is within. -/
theorem typeSegment_makes {scope : Option NodeId} (hr : Ready p source s 0)
    (h : Yields source s scope.toList t) :
    Ensures source t (typeSegment p s.start scope) (Makes source s) := by
  unfold typeSegment
  refine h.thenLast (identifier_takes h.sound) fun name u h => ?_
  refine h.thenOptional (g := (·.getD [])) rfl (guards_check h.sound fun _ =>
    typeArguments_closes (hr.after h.toTakes)) fun arguments v h => ?_
  exact pushFrom_closes h rfl rfl trivial (.none rfl)

theorem classType_makes (hr : Ready p source s 0) :
    Ensures source s (classType p) (Makes source s) := by
  unfold classType
  rw [ensures_start]
  have hnone : Yields source s (none : Option NodeId).toList s := .refl hr.sound
  refine (typeSegment_makes hr hnone).bind fun first t h => ?_
  -- between the rounds one node covers the names read so far
  refine extend_ensures (fun scope t h => ?_) h
  rw [ensures_ahead]
  split
  · next hmember =>
    have hrest := State.rest_ne_nil_of_test rfl hmember
    refine (advance_takes h.sound hrest).bind fun _ u hu => ?_
    have hscope : Yields source s (some scope).toList u :=
      (h.toTakes.trans hu.toYields).toYields
    exact hu.thenSome (typeSegment_makes hr hscope)
  · exact .pure h

theorem nonArrayType_makes (hr : Ready p source s 0) :
    Ensures source s (nonArrayType p) (Makes source s) := by
  unfold nonArrayType
  rw [ensures_peek]
  split
  · next word hkind =>
    have hrest := State.rest_ne_nil_of_kindAt (by simp) hkind
    split
    · rw [ensures_start]
      refine (advance_spells hr.sound hrest).bind fun _ t ⟨h, hspelled⟩ => ?_
      exact pushFrom_makes h rfl rfl trivial (hspelled (s.current_spells hkind rfl))
    · exact ensures_unexpected hr.sound.valid
  · exact classType_makes hr
  · exact ensures_unexpected hr.sound.valid

theorem type_makes (hr : Ready p source s 0) : Ensures source s (type p) (Makes source s) := by
  refine hr.nested fun levels hr => ?_
  rw [ensures_start]
  refine (nonArrayType_makes hr).bind fun base t h => ?_
  -- each pair of brackets wraps the type once more, from its start
  refine arrayDims_ensures (fun _ _ h => h.sound) (fun id t u h hu => ?_) h
  exact pushFrom_makes (h.toTakes.trans hu.toYields) rfl rfl (h.toYields.arePast hu) (.none rfl)

theorem typeOrVoid_makes (hr : Ready p source s 1) :
    Ensures source s (typeOrVoid p) (Makes source s) := by
  unfold typeOrVoid
  rw [ensures_check]
  split
  · next hvoid =>
    rw [ensures_start]
    have hkind := s.kindAt_rest_zero.trans (eq_of_beq hvoid)
    have hrest := State.rest_ne_nil_of_kindAt (by decide) hkind
    refine (advance_spells hr.sound hrest).bind fun _ t ⟨h, hspelled⟩ => ?_
    exact pushFrom_makes h rfl rfl trivial (hspelled (s.current_spells hkind rfl))
  · exact hr.makes Nat.zero_lt_one

theorem typeList_takes (hr : Ready p source s 1) :
    Ensures source s (typeList p) (Takes source s) :=
  commaSeparated_takes hr.sound fun _ _ ht => (hr.next ht).makes Nat.zero_lt_one

theorem typeParameter_makes (hr : Ready p source s 0) :
    Ensures source s (typeParameter p) (Makes source s) := by
  unfold typeParameter
  rw [ensures_start]
  refine (identifier_takes hr.sound).bind fun name t h => ?_
  refine h.thenNodes (optionalList_yields (guards_accept h.sound (by decide) fun u hu => ?_))
    fun bounds u h => pushFrom_makes h rfl rfl trivial (.none rfl)
  -- a bound is read after the name, so its rank does not matter
  have hbound : ∀ ids v, Yields source u ids v → Ensures source v (p .type) (Makes source v) :=
    fun ids v hv => hr.makesAfter (h.trans (hu.toYields.trans hv))
  refine (hbound [] u (.refl hu.sound)).bind fun first v hv => ?_
  have hothers : Ensures source v (many (accept (.operator "&")) (p .type)) (Yields source v) :=
    many_nodes hv.sound fun ids w hw => guards_accept hw.sound (by decide) fun z hz =>
      hbound _ z (hv.toYields.trans (hw.trans hz.toYields))
  exact hothers.bind fun others w hw => .pure (hv.toYields.trans hw)

theorem typeParameters_takes (hr : Ready p source s 0) :
    Ensures source s (typeParameters p) (Takes source s) := by
  unfold typeParameters
  refine (expect_takes hr.sound (by decide)).bind fun _ t h => ?_
  refine h.toYields.thenTaken (commaSeparated_takes h.sound fun ids u hu =>
    typeParameter_makes ((hr.after h).next hu)) fun found u h => ?_
  exact h.toYields.thenToken (expect_takes h.sound (by decide)) fun _ v h => .pure h

/-! ### Names, annotations and modifiers -/

theorem qualifiedName_makes (hs : s.IsSound source) :
    Ensures source s qualifiedName (Makes source s) := by
  unfold qualifiedName
  rw [ensures_start]
  refine (identifier_spells hs).bind fun first t ⟨h, hspelled⟩ => ?_
  refine Ensures.bind (pushFrom_makes h rfl rfl trivial hspelled) fun head t h => ?_
  -- again one node covers the segments read so far, and is the qualifier of the next
  refine extend_ensures (fun qualifier t h => ?_) h
  rw [ensures_ahead]
  split
  · next hmember =>
    have hrest := State.rest_ne_nil_of_test rfl hmember
    refine (advance_takes h.sound hrest).bind fun _ u hu => ?_
    refine hu.toYields.thenToken (identifier_takes hu.sound) fun segment v hv => ?_
    refine hv.thenSome (pushFrom_makes (h.toTakes.trans hv.toYields) rfl rfl ?_ (.none rfl))
    trivial
  · exact .pure h

theorem memberValue_makes (hr : Ready p source s 0) :
    Ensures source s (memberValue p) (Makes source s) := by
  unfold memberValue
  rw [ensures_start]
  refine (identifier_takes hr.sound).bind fun key t h => ?_
  refine h.toYields.thenToken (expect_takes h.sound (by decide)) fun _ u h => ?_
  refine h.toYields.thenNode (hr.makesAfter h) fun value v h => ?_
  exact pushFrom_makes h rfl rfl trivial (.none rfl)

/-- The arguments of an annotation, as its children. -/
theorem annotationArguments_yields (hr : Ready p source s 5) :
    Ensures source s (annotationArguments p) fun found t =>
      Yields source s (found.1.toList ++ found.2) t := by
  unfold annotationArguments
  rw [ensures_ahead]
  split
  · refine (commaSeparated_takes hr.sound fun ids t ht =>
      memberValue_makes ((hr.next ht).mono (Nat.zero_le _))).bind fun pairs t h => ?_
    exact .pure h.toYields
  · rw [ensures_check]
    split
    · exact .pure (.refl hr.sound)
    · exact (hr.makes (by decide)).bind fun value t h => .pure h.toYields

theorem annotationUse_makes (hr : Ready p source s 0) :
    Ensures source s (annotationUse p) (Makes source s) := by
  refine hr.nested fun levels hr => ?_
  rw [ensures_start]
  refine (expect_takes hr.sound (by decide)).bind fun _ t h => ?_
  refine h.toYields.thenNode (qualifiedName_makes h.sound) fun name u h => ?_
  refine h.toYields.thenAccept (by decide) (fun v h => ?_)
    (pushFrom_makes h rfl rfl trivial (.none rfl))
  refine h.thenNodes (annotationArguments_yields (hr.after h)) fun found v h => ?_
  refine h.toYields.thenToken (expect_takes h.sound (by decide)) fun _ w h => ?_
  refine pushFrom_makes h ?_ rfl trivial (.none rfl)
  show name :: found.1.toList ++ found.2 = _
  simp

theorem elementValueArray_makes (hr : Ready p source s 0) :
    Ensures source s (elementValueArray p) (Makes source s) := by
  refine hr.nested fun levels hr => ?_
  rw [ensures_start]
  refine (expect_takes hr.sound (by decide)).bind fun _ t h => ?_
  refine h.thenNodes (listUntil_yields h.sound (by decide) fun ids u hu =>
    hr.makesAfter (h.trans hu)) fun values u h => ?_
  refine h.toYields.thenLast (expect_takes h.sound (by decide)) fun _ v h => ?_
  exact pushFrom_closes h rfl rfl trivial (.none rfl)

theorem elementValue_makes (hr : Ready p source s 4) :
    Ensures source s (elementValue p) (Makes source s) := by
  unfold elementValue
  rw [ensures_peek]
  split
  · exact annotationUse_makes (hr.mono (by decide))
  · exact elementValueArray_makes (hr.mono (by decide))
  · exact hr.makes (by decide)

theorem modifiers_opens (hr : Ready p source s rank) :
    Ensures source s (modifiers p) (Opens source s) := by
  unfold modifiers
  rw [ensures_start]
  have hnone : Gathers source s { start := s.start } s := ⟨.refl hr.sound, rfl, nofun⟩
  -- between the rounds the annotations read so far are the row
  refine Ensures.bind (P := Gathers source s) (extend_ensures (fun found t h => ?_) hnone)
    fun found t h => ensures_start.2 (.pure h.settle)
  rw [ensures_peek]
  split
  · rw [ensures_peek]
    split
    · exact .pure h
    · have hr' := (hr.next h.toYields).mono (Nat.zero_le _)
      refine (annotationUse_makes hr').bind fun use u hu => ?_
      have hlen := hu.leads.length_lt hu.start_lt
      exact .pure ⟨⟨h.toYields.trans hu.toYields, h.start_eq, nofun⟩, hlen⟩
  · next word hkind =>
    split
    · rw [ensures_start]
      have hrest := State.rest_ne_nil_of_kindAt (by simp) hkind
      refine (advance_takes h.sound hrest).bind fun _ u hu => ?_
      have hlen := hu.leads.length_lt hu.start_lt
      have hsettled := h.settle
      have hyields := hsettled.toYields.trans hu.toYields
      rw [List.append_nil] at hyields
      exact .pure ⟨⟨hyields, hsettled.start_eq, fun offset hoffset =>
        (hsettled.parts offset hoffset).trans hsettled.ids_lt hu.toReads⟩, hlen⟩
    · exact .pure h
  · exact .pure h

/-! ### Variables and parameters -/

theorem arrayInitializer_makes (hr : Ready p source s 0) :
    Ensures source s (arrayInitializer p) (Makes source s) := by
  refine hr.nested fun levels hr => ?_
  rw [ensures_start]
  refine (expect_takes hr.sound (by decide)).bind fun _ t h => ?_
  refine h.thenNodes (listUntil_yields h.sound (by decide) fun ids u hu => ?_) fun values u h => ?_
  · rw [ensures_check]
    split <;> exact hr.makesAfter (h.trans hu)
  · refine h.toYields.thenLast (expect_takes h.sound (by decide)) fun _ v h => ?_
    exact pushFrom_closes h rfl rfl trivial (.none rfl)

/-- What follows the name of a variable, which starts at `s`. -/
theorem declaratorRest_makes {name : String} (hr : Ready p source s rank)
    (h : Takes source s [] t) :
    Ensures source t (declaratorRest p name s.start) (Makes source s) := by
  unfold declaratorRest
  -- the brackets after a name make no nodes
  have hdims : Ensures source t (many (return startsDim (← ahead)) advanceTwo) fun dims u =>
      Yields source t (dims.flatMap fun _ => []) u :=
    many_yields h.sound fun ids u hu => guards_reading hu.sound rfl fun hdim =>
      (advanceTwo_takes hu.sound (State.rest_ne_nil_of_test rfl hdim)).mono fun _ v hv =>
        ⟨hv.toYields, hv.start_lt⟩
  refine h.thenNodes hdims fun dims u h => ?_
  have hnil : (dims.flatMap fun _ => ([] : List NodeId)) = [] := by simp
  rw [hnil] at h
  refine h.thenNodes (optional_yields (g := Option.toList) rfl
    (guards_accept h.sound (by decide) fun v hv => ?_))
    fun init v h => pushFrom_makes h rfl rfl trivial (.none rfl)
  rw [ensures_check]
  split <;> exact (hr.makesAfter (h.trans hv.toYields)).yieldsNode

theorem declarator_makes (hr : Ready p source s rank) :
    Ensures source s (declarator p) (Makes source s) := by
  unfold declarator
  rw [ensures_start]
  exact (identifier_takes hr.sound).bind fun name t h => declaratorRest_makes hr h

theorem localVariables_makes (hr : Ready p source s 1) :
    Ensures source s (localVariables p) (Makes source s) := by
  unfold localVariables
  refine (modifiers_opens hr).bind fun front t hfront => ?_
  have hr' := hr.next hfront.toYields
  have htype : Ensures source t (p .type) (Makes source t) := hr'.makes Nat.zero_lt_one
  refine htype.bind fun type u h => ?_
  refine h.toYields.thenTaken (commaSeparated_takes h.sound fun ids v hv =>
    declarator_makes (hr'.next (h.toYields.trans hv))) fun declared v h => ?_
  exact pushModified_makes hfront h rfl rfl trivial (.none rfl)

theorem parameter_makes (hr : Ready p source s 1) :
    Ensures source s (parameter p) (Makes source s) := by
  unfold parameter
  refine (modifiers_opens hr).bind fun front t hfront => ?_
  rw [ensures_start]
  have htype : Ensures source t (p .type) (Makes source t) :=
    (hr.next hfront.toYields).makes Nat.zero_lt_one
  refine htype.bind fun type u h => ?_
  -- dimensions after the name wrap the type again, from where it starts
  have hrest : ∀ isVarargs u, Takes source t [type] u → Ensures source u (do
      let name ← identifier "parameter name"
      let type ← arrayDims t.start type
      pushModified front
        (.parameterDecl front.annotations front.keywords (some type) isVarargs name))
      (Makes source s) := by
    intro isVarargs u h
    refine h.toYields.thenToken (identifier_takes h.sound) fun name v h => ?_
    exact (arrayDims_takes h).bind fun type w h =>
      pushModified_makes hfront h rfl rfl trivial (.none rfl)
  exact h.toYields.thenAccept (by decide) (fun v h => hrest true v h) (hrest false u h.toTakes)

end CodeMarkup.Grammar
