import CodeMarkup.Grammar.Declarators
import CodeMarkup.Proofs.Progress.Rules

namespace CodeMarkup.Grammar

open CodeMarkup.Parser

/-!
# Progress of types, modifiers and variables

One statement for each production: if the productions inside it make nodes, it takes a token and
makes a node, from whatever state it starts in.  Parts of constructs that may be empty go on without
taking a token.
-/

variable {full : Prop} {p : Productions} {source : Source} {s t : State} {id : NodeId}

/-! ### Types -/

/-- Dimensions wrap the type that was made before. -/
theorem arrayDims_builds {start : Nat} (h : Builds s id t) :
    Moves full source t (arrayDims start id) (Builds s) := by
  refine extend_builds (fun type t h => .ask rfl ?_) h
  split
  · next hdim =>
    refine (advanceTwo_took (State.rest_ne_nil_of_test rfl hdim)).bind fun _ u _ hu => ?_
    exact (pushFrom_builds (h.toTook.trans_grows hu.toGrows)).bind fun _ v hv hid =>
      .pure ⟨hu.trans_grows hv, hid⟩
  · exact .pure trivial

theorem typeArgument_builds (hp : Supplies full p source s 1) :
    Moves full source s (typeArgument p) (Builds s) := by
  refine .ask rfl ?_
  split
  · next hquestion =>
    refine .ask rfl ((advance_took
      (State.rest_ne_nil_of_kind (by simp) (eq_of_beq hquestion))).bind fun _ t _ h => ?_)
    refine h.toGrows.andAccept (by nofun) (fun u h => ?_)
      (h.toGrows.andAccept (by nofun) (fun u h => ?_) (pushFrom_builds h))
    · exact h.andThen (hp.buildsAfter h) fun _ _ h _ => pushFrom_builds h
    · exact h.andThen (hp.buildsAfter h) fun _ _ h _ => pushFrom_builds h
  · exact hp.builds Nat.zero_lt_one

theorem typeArguments_took (hp : Supplies full p source s 0) :
    Moves full source s (typeArguments p) fun _ => s.Took := by
  refine (expect_took (by nofun)).bind fun _ t _ h => ?_
  refine h.toGrows.andAccept (by nofun) (fun u h => .pure h) ?_
  refine h.andThen (commaSeparated_took fun u hu => ?_) fun _ u h _ => ?_
  · exact (typeArgument_builds ((hp.after h).next hu)).took
  · exact h.andThen (expect_took (by nofun)) fun _ _ h _ => .pure h

theorem typeSegment_builds {origin : Nat} {scope : Option NodeId}
    (hp : Supplies full p source s 0) :
    Moves full source s (typeSegment p origin scope) (Builds s) := by
  refine identifier_took.bind fun name t _ h => ?_
  exact h.andThen (optional_moves (check_guards (typeArguments_took (hp.after h)).any))
    fun _ _ h _ => pushFrom_builds h

theorem classType_builds (hp : Supplies full p source s 0) :
    Moves full source s (classType p) (Builds s) := by
  refine .ask rfl ((typeSegment_builds hp).bind fun first t _ h => ?_)
  refine extend_builds (fun scope t h => .ask rfl ?_) h
  split
  · next hmember =>
    refine (advance_took (State.rest_ne_nil_of_test rfl hmember)).bind fun _ u _ hu => ?_
    have hpast := h.toTook.trans_grows hu.toGrows
    exact (typeSegment_builds (hp.after hpast)).bind fun inner v hv hid =>
      .pure ⟨hu.trans_grows hv, hpast.trans_grows hv, hid.id_lt⟩
  · exact .pure trivial

theorem nonArrayType_builds (hp : Supplies full p source s 0) :
    Moves full source s (nonArrayType p) (Builds s) := by
  refine .ask rfl ?_
  split
  · next word hkind =>
    split
    · refine .ask rfl ?_
      exact (advance_took (State.rest_ne_nil_of_kindAt (by simp) hkind)).bind fun _ _ _ h =>
        pushFrom_builds h
    · exact moves_unexpected
  · exact classType_builds hp
  · exact moves_unexpected

theorem type_builds (hp : Supplies full p source s 0) :
    Moves full source s (type p) (Builds s) := by
  refine nested_builds fun levels => .ask rfl ?_
  exact (nonArrayType_builds (hp.withLevels levels)).bind fun _ _ _ h => arrayDims_builds h

theorem typeOrVoid_builds (hp : Supplies full p source s 1) :
    Moves full source s (typeOrVoid p) (Builds s) := by
  refine .ask rfl ?_
  split
  · next hvoid =>
    refine .ask rfl ?_
    exact (advance_took (State.rest_ne_nil_of_kind (by simp) (eq_of_beq hvoid))).bind
      fun _ _ _ h => pushFrom_builds h
  · exact hp.builds Nat.zero_lt_one

theorem typeList_took (hp : Supplies full p source s 1) :
    Moves full source s (typeList p) fun _ => s.Took :=
  commaSeparated_took fun _ ht => (hp.next ht).took Nat.zero_lt_one

theorem typeParameter_builds (hp : Supplies full p source s 0) :
    Moves full source s (typeParameter p) (Builds s) := by
  refine .ask rfl (identifier_took.bind fun name t _ h => ?_)
  refine h.andThen (optionalList_moves (accept_guards (by nofun) fun u hu => ?_))
    fun _ _ h _ => pushFrom_builds h
  have hpast := h.trans_grows hu.toGrows
  refine hpast.andThen (hp.buildsAfter hpast) fun _ v hv _ => ?_
  refine .bind (manyAccept_moves (by nofun) fun w hw => ?_) fun _ _ _ _ => .pure trivial
  exact (hp.buildsAfter (hv.trans_grows hw.toGrows)).any

theorem typeParameters_took (hp : Supplies full p source s 0) :
    Moves full source s (typeParameters p) fun _ => s.Took := by
  refine (expect_took (by nofun)).bind fun _ t _ h => ?_
  refine h.andThen (commaSeparated_took fun u hu => ?_) fun _ u h _ => ?_
  · exact (typeParameter_builds (hp.after (h.trans_grows hu))).took
  · exact h.andThen (expect_took (by nofun)) fun _ _ h _ => .pure h

/-! ### Names, annotations and modifiers -/

theorem qualifiedName_builds : Moves full source s qualifiedName (Builds s) := by
  refine .ask rfl (identifier_took.bind fun first t _ h => ?_)
  refine h.andThen (pushFrom_builds h) fun head u _ h => ?_
  refine extend_builds (fun qualifier t h => .ask rfl ?_) h
  split
  · next hmember =>
    refine (advance_took (State.rest_ne_nil_of_test rfl hmember)).bind fun _ u _ hu => ?_
    refine hu.andThen identifier_took fun segment v hv _ => ?_
    exact (pushFrom_builds (h.toTook.trans_grows hv.toGrows)).bind fun _ w hw hid =>
      .pure ⟨hv.trans_grows hw, hid⟩
  · exact .pure trivial

theorem memberValue_builds (hp : Supplies full p source s 0) :
    Moves full source s (memberValue p) (Builds s) := by
  refine .ask rfl (identifier_took.bind fun key t _ h => ?_)
  refine h.andThen (expect_took (by nofun)) fun _ u h _ => ?_
  exact h.andThen (hp.buildsAfter h) fun _ _ h _ => pushFrom_builds h

theorem annotationArguments_moves (hp : Supplies full p source s 5) :
    Moves full source s (annotationArguments p) fun _ _ => True := by
  refine .ask rfl ?_
  split
  · refine (commaSeparated_took fun t ht => ?_).bind fun _ _ _ _ => .pure trivial
    exact (memberValue_builds (hp.next ht).low).took
  · refine .ask rfl ?_
    split
    · exact .pure trivial
    · exact (hp.builds (by decide)).bind fun _ _ _ _ => .pure trivial

theorem annotationUse_builds (hp : Supplies full p source s 0) :
    Moves full source s (annotationUse p) (Builds s) := by
  refine nested_builds fun levels => .ask rfl ((expect_took (by nofun)).bind fun _ t _ h => ?_)
  refine h.andThen qualifiedName_builds fun name u h _ => ?_
  refine h.toGrows.andAccept (by nofun) (fun v h => ?_) (pushFrom_builds h)
  refine h.andThen (annotationArguments_moves ((hp.withLevels levels).after h))
    fun found w h _ => ?_
  exact h.andThen (expect_took (by nofun)) fun _ _ h _ => pushFrom_builds h

theorem elementValueArray_builds (hp : Supplies full p source s 0) :
    Moves full source s (elementValueArray p) (Builds s) := by
  refine nested_builds fun levels => .ask rfl ((expect_took (by nofun)).bind fun _ t _ h => ?_)
  refine h.andThen (listUntil_moves (by nofun) fun u hu =>
    ((hp.withLevels levels).buildsAfter (h.trans_grows hu)).any) fun _ u h _ => ?_
  exact h.andThen (expect_took (by nofun)) fun _ _ h _ => pushFrom_builds h

theorem elementValue_builds (hp : Supplies full p source s 4) :
    Moves full source s (elementValue p) (Builds s) := by
  refine .ask rfl ?_
  split
  · exact annotationUse_builds hp.low
  · exact elementValueArray_builds hp.low
  · exact hp.builds (by decide)

/-- Modifiers may be missing; each round of the loop takes one. -/
theorem modifiers_moves (hp : Supplies full p source s 0) :
    Moves full source s (modifiers p) fun _ _ => True := by
  refine .ask rfl (.bind (extend_moves (I := fun _ _ => True) (fun _ _ _ _ _ => trivial) ?_
    trivial) fun _ _ _ _ => .ask rfl (.pure trivial))
  intro found t ht _
  refine .ask rfl ?_
  split
  · refine .ask rfl ?_
    split
    · exact .pure trivial
    · exact (annotationUse_builds (hp.next ht)).bind fun _ _ _ hu =>
        .pure ⟨hu.toTook, trivial⟩
  · next word hkind =>
    split
    · refine .ask rfl ?_
      exact (advance_took (State.rest_ne_nil_of_kindAt (by simp) hkind)).bind fun _ _ _ hu =>
        .pure ⟨hu, trivial⟩
    · exact .pure trivial
  · exact .pure trivial

/-! ### Variables and parameters -/

/-- A value between braces, or an expression. -/
theorem initializer_builds (hp : Supplies full p source s 5) :
    Moves full source s (do if ← check .leftBrace then p .arrayInitializer else p .expression)
      (Builds s) := by
  refine .ask rfl ?_
  split
  · exact hp.builds (by decide)
  · exact hp.builds (by decide)

theorem arrayInitializer_builds (hp : Supplies full p source s 0) :
    Moves full source s (arrayInitializer p) (Builds s) := by
  refine nested_builds fun levels => .ask rfl ((expect_took (by nofun)).bind fun _ t _ h => ?_)
  refine h.andThen (listUntil_moves (by nofun) fun u hu =>
    (initializer_builds ((hp.withLevels levels).after (h.trans_grows hu))).any) fun _ u h _ => ?_
  exact h.andThen (expect_took (by nofun)) fun _ _ h _ => pushFrom_builds h

/-- What follows the name of a variable, which was taken before. -/
theorem declaratorRest_builds {name : String} {origin : Nat} (hp : Supplies full p source s 0)
    (h : s.Took t) : Moves full source t (declaratorRest p name origin) (Builds s) := by
  refine h.andThen (many_moves fun u hu => reading_guards rfl fun hdim => ?_) fun _ u h _ => ?_
  · exact advanceTwo_took (State.rest_ne_nil_of_test rfl hdim)
  · refine h.andThen (optional_moves (accept_guards (by nofun) fun v hv => ?_)) fun _ _ h _ =>
      pushFrom_builds h
    exact (initializer_builds (hp.after (h.trans_grows hv.toGrows))).any

theorem declarator_builds (hp : Supplies full p source s 0) :
    Moves full source s (declarator p) (Builds s) :=
  .ask rfl (identifier_took.bind fun _ _ _ h => declaratorRest_builds hp h)

theorem localVariables_builds (hp : Supplies full p source s 1) :
    Moves full source s (localVariables p) (Builds s) := by
  refine (modifiers_moves hp.low).bind fun front t ht _ => ?_
  refine ht.andTake ((hp.next ht).took Nat.zero_lt_one) fun type u h => ?_
  refine h.andThen (commaSeparated_took fun v hv => ?_) fun _ _ h _ => pushModified_builds h
  exact (declarator_builds (hp.after (h.trans_grows hv))).took

/-- Dimensions after the name wrap the type once more. -/
theorem parameter_builds (hp : Supplies full p source s 1) :
    Moves full source s (parameter p) (Builds s) := by
  refine (modifiers_moves hp.low).bind fun front t ht _ => .ask rfl ?_
  refine .bind ((hp.next ht).builds Nat.zero_lt_one) fun type u _ hu => ?_
  refine .bind accept_moves fun _ v hv _ => .bind identifier_took fun name w hw _ => ?_
  have htype := (hu.trans_grows hv).trans_grows hw
  refine .bind (arrayDims_builds htype) fun type z _ hz => ?_
  exact pushModified_builds (ht.trans_took hz.toTook)

end CodeMarkup.Grammar
