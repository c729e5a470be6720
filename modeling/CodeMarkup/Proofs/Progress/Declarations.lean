import CodeMarkup.Grammar.Declarations
import CodeMarkup.Proofs.Progress.Expressions

namespace CodeMarkup.Grammar

open CodeMarkup.Parser

/-!
# Progress of declarations

The productions for what follows the modifiers of a declaration take a token by themselves: there
may be no modifiers.
-/

variable {full : Prop} {p : Productions} {source : Source} {s t u : State} {front : Modifiers}

/-! ### Types -/

/-- Types after a word, which may be missing. -/
theorem typesAfter_moves {kind : TokenKind} (hkind : kind ≠ .eof)
    (hp : Supplies full p source s 0) :
    Moves full source s (optionalList (accept kind) (typeList p)) fun _ _ => True :=
  optionalList_moves (accept_guards hkind fun _ ht => (typeList_took (hp.after ht)).any)

theorem classDeclaration_builds {isInterface : Bool} (hp : Supplies full p source s 0) :
    Moves full source s (classDeclaration p front isInterface) (Builds s) := by
  refine advance_moves.bind fun _ t h _ => ?_
  refine h.andTake identifier_took fun name t h => ?_
  refine h.andThen (optionalList_moves (check_guards (typeParameters_took (hp.after h)).any))
    fun params t h _ => ?_
  refine h.andThen (typesAfter_moves (by nofun) (hp.after h)) fun extended t h _ => ?_
  refine h.andThen (typesAfter_moves (by nofun) (hp.after h)) fun implemented t h _ => ?_
  exact h.andThen (classBody_took (hp.after h)) fun found t h _ => pushModified_builds h

theorem enumConstant_builds (hp : Supplies full p source s 0) :
    Moves full source s (enumConstant p) (Builds s) := by
  refine (modifiers_moves hp).bind fun front t h _ => ?_
  refine h.andTake identifier_took fun name t h => ?_
  refine h.andThen (optionalList_moves (check_guards (arguments_took (hp.after h)).any))
    fun found t h _ => ?_
  exact h.andThen (optional_moves (check_guards (classBody_took (hp.after h)).any))
    fun body t h _ => pushModified_builds h

/-- The constants of an enum.  A round that is not the last takes a comma. -/
theorem enumEntriesWithin_moves (hp : Supplies full p source s 0) (rounds : Nat)
    (hrounds : s.rest.length < rounds) :
    Moves full source s (enumEntriesWithin p rounds) fun _ _ => True := by
  induction rounds generalizing s with
  | zero => exact absurd hrounds (Nat.not_lt_zero _)
  | succ rounds ih =>
    refine .ask rfl (.ask rfl ?_)
    split
    · exact .pure trivial
    · refine (enumConstant_builds hp).bind fun first t _ h => ?_
      refine h.toGrows.andAccept (by nofun) (fun u h => ?_) (.pure trivial)
      have hless := h.length_lt
      exact (ih (hp.after h) (by omega)).bind fun _ _ _ _ => .pure trivial

theorem enumDeclaration_builds (hp : Supplies full p source s 0) :
    Moves full source s (enumDeclaration p front) (Builds s) := by
  refine (expect_took (by nofun)).bind fun _ t _ h => ?_
  refine h.andThen identifier_took fun name t h _ => ?_
  refine h.andThen (typesAfter_moves (by nofun) (hp.after h)) fun implemented t h _ => ?_
  refine h.andThen (expect_took (by nofun)) fun _ t h _ => ?_
  refine h.andThen (x := enumEntries p) (.ask rfl (enumEntriesWithin_moves (hp.after h) _
    (Nat.lt_succ_self _))) fun entries t h _ => ?_
  refine h.andThen (optionalList_moves (accept_guards (by nofun) fun u hu =>
    members_moves (hp.after (h.trans_grows hu.toGrows)))) fun found t h _ => ?_
  exact h.andThen (expect_took (by nofun)) fun _ t h _ => pushModified_builds h

theorem typeDeclaration_builds (hp : Supplies full p source s 0) :
    Moves full source s (typeDeclaration p front) (Builds s) := by
  refine nested_builds fun levels => .ask rfl ?_
  have hp := hp.withLevels levels
  split
  · exact classDeclaration_builds hp
  · exact classDeclaration_builds hp
  · exact enumDeclaration_builds hp
  · exact moves_unexpected

/-! ### Members -/

theorem parameters_took (hp : Supplies full p source s 0) :
    Moves full source s (parameters p) fun _ => s.Took := by
  refine (expect_took (by nofun)).bind fun _ t _ h => ?_
  refine h.andThen (listUntil_moves (by nofun) fun u hu => ?_) fun found u h _ => ?_
  · exact (parameter_builds (hp.after (h.trans_grows hu))).any
  · exact h.andThen (expect_took (by nofun)) fun _ _ h _ => .pure h

theorem constructorDeclaration_builds {typeParams : List NodeId} (hp : Supplies full p source s 0) :
    Moves full source s (constructorDeclaration p front typeParams) (Builds s) := by
  refine identifier_took.bind fun name t _ h => ?_
  refine h.andThen (parameters_took (hp.after h)) fun params t h _ => ?_
  refine h.andThen (typesAfter_moves (by nofun) (hp.after h)) fun thrown t h _ => ?_
  exact h.andThen (block_builds (hp.after h)) fun body t h _ => pushModified_builds h

/-- The body of a method, after its parameters. -/
theorem methodBody_moves (hp : Supplies full p source s 6) :
    Moves full source s (methodBody p) fun _ _ => True := by
  refine (State.Grows.refl s).andAccept (by nofun) (fun _ _ => .pure trivial) ?_
  rw [if_neg Bool.false_ne_true]
  refine (State.Grows.refl s).andAccept (by nofun) (fun t h => ?_) (block_builds hp.low).any.map
  refine .bind (hp.buildsAfter h).discard fun _ _ _ _ => ?_
  exact (expect_took (by nofun)).bind fun _ _ _ _ => .pure trivial

/-- A method, from its parameters on.  The span of its type is looked up after them. -/
theorem methodDeclaration_builds {typeParams : List NodeId} {returnType : NodeId} {name : String}
    (hp : Supplies full p source s 0) (h : Builds s returnType t) :
    Moves full source t (methodDeclaration p front typeParams returnType name) (Builds s) := by
  refine .bind (parameters_took (hp.after h.toTook)) fun params u hu _ => ?_
  have htype := h.trans_grows hu
  refine .assoc (moves_lookup htype.id_lt fun node => .ask rfl ?_)
  refine .bind (arrayDims_builds htype) fun type v _ h => ?_
  have h := h.toTook
  refine h.andThen (typesAfter_moves (by nofun) (hp.after h)) fun thrown w h _ => ?_
  exact h.andThen (methodBody_moves (hp.after h)) fun body x h _ => pushModified_builds h

/-- A field, from the rest of its first variable on. -/
theorem fieldDeclaration_builds {type : NodeId} {name : String} {nameStart : Nat}
    (hp : Supplies full p source s 0) (h : s.Took t) :
    Moves full source t (fieldDeclaration p front type name nameStart) (Builds s) := by
  refine h.andThen (declaratorRest_builds hp h) fun first u h _ => ?_
  refine h.andThen (manyAccept_moves (by nofun) fun v hv => ?_) fun others v h _ => ?_
  · exact (declarator_builds (hp.after (h.trans_grows hv.toGrows))).any
  · exact h.andThen (expect_took (by nofun)) fun _ _ h _ => pushModified_builds h

theorem methodOrField_builds {typeParams : List NodeId} (hp : Supplies full p source s 1) :
    Moves full source s (methodOrField p front typeParams) (Builds s) := by
  refine (typeOrVoid_builds hp).bind fun type t _ h => .ask rfl ?_
  refine identifier_took.bind fun name u hu _ => .ask rfl ?_
  have htype := h.trans_grows hu
  split
  · exact methodDeclaration_builds hp.low htype
  · refine .assoc (moves_lookup htype.id_lt fun node => .ask rfl ?_)
    split
    · exact moves_unexpected
    · exact fieldDeclaration_builds hp.low htype.toTook

theorem bodyDeclaration_builds (hp : Supplies full p source s 1) :
    Moves full source s (bodyDeclaration p) (Builds s) := by
  refine .ask rfl (.ask rfl ?_)
  split
  · exact (block_builds hp.low).bind fun body t _ h => pushFrom_builds h.toTook
  · split
    · refine advance_moves.bind fun _ t h _ => ?_
      exact h.andTake (block_builds (hp.next h).low).took fun body u h => pushFrom_builds h
    · refine (modifiers_moves hp.low).bind fun front t ht _ => .ask rfl ?_
      split
      · exact ht.andBuilds (typeDeclaration_builds (hp.next ht).low)
      · refine ht.andThen (optionalList_moves (check_guards
          (typeParameters_took (hp.next ht).low).any)) fun typeParams u hu _ => ?_
        refine .ask rfl (.ask rfl ?_)
        split
        · exact hu.andBuilds (constructorDeclaration_builds (hp.next hu).low)
        · exact hu.andBuilds (methodOrField_builds (hp.next hu))

/-! ### Files -/

theorem packageDeclaration_builds (hp : Supplies full p source s 0) :
    Moves full source s (packageDeclaration p) (Builds s) := by
  refine .ask rfl (.bind (many_moves fun t ht => check_guards
    (annotationUse_builds (hp.next ht)).took) fun annotations t h _ => .ask rfl ?_)
  refine h.andTake (expect_took (by nofun)) fun _ t h => ?_
  refine h.andThen qualifiedName_builds fun name t h _ => ?_
  exact h.andThen (expect_took (by nofun)) fun _ _ h _ => pushModified_builds h

theorem importDeclaration_builds : Moves full source s importDeclaration (Builds s) := by
  refine .ask rfl ((expect_took (by nofun)).bind fun _ t _ h => ?_)
  refine h.andThen accept_moves fun isStatic t h _ => ?_
  refine h.andThen qualifiedName_builds fun name t h _ => .ask rfl (.ask rfl ?_)
  dsimp only
  split
  · refine h.andThen advanceTwo_moves fun _ t h _ => ?_
    exact h.andThen (expect_took (by nofun)) fun _ _ h _ => pushFrom_builds h
  · exact h.andThen (expect_took (by nofun)) fun _ _ h _ => pushFrom_builds h

/-- A file may have no tokens at all. -/
theorem compilationUnit_moves (hp : Supplies full p source s 0) :
    Moves full source s (compilationUnit p) fun id t => id < t.nodes.size := by
  refine .ask rfl (.bind (optional_moves (reading_guards rfl fun _ =>
    (packageDeclaration_builds hp).any)) fun package t h _ => ?_)
  refine h.andThen (many_moves fun u hu => check_guards importDeclaration_builds.took)
    fun imports t h _ => ?_
  refine .bind (many_moves fun u hu => reading_guards rfl fun _ => ?_) fun _ _ _ _ =>
    pushFrom_moves
  refine (State.Grows.refl u).andAccept (by nofun) (fun v h => .pure h) ?_
  have hp := hp.next (h.trans hu)
  rw [if_neg Bool.false_ne_true]
  refine (modifiers_moves hp).bind fun front v hv _ => ?_
  exact hv.andTake (typeDeclaration_builds (hp.next hv)).took fun type w h => .pure h

end CodeMarkup.Grammar
