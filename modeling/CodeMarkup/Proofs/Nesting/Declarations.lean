import CodeMarkup.Grammar.Declarations
import CodeMarkup.Proofs.Nesting.Expressions

namespace CodeMarkup.Grammar

open CodeMarkup.Parser

/-!
# Braces of declarations

* `enumDeclaration_fits`: the construct that needs all three braces of its level, since a constant
  may have a body of its own.
* `methodBody_fits`: the default of an annotation member, which opens no level.
* `bodyDeclaration_fits`, `compilationUnit_fits`: the main productions.
-/

variable {p : Productions} {source : Source} {s : State} {k c : Nat} {front : Modifiers}

theorem importDeclaration_fits : Fits c importDeclaration := by
  apply Closes.bind start_fits
  intro origin
  refine Closes.token nofun ?_
  refine Closes.bind (accept_fits nofun) fun isStatic => ?_
  apply Closes.bind qualifiedName_fits
  intro name source s k hs
  rw [closesAt_peek, closesAt_peek]
  dsimp only
  split
  · next hasterisk =>
    simp only [Bool.and_eq_true, beq_iff_eq] at hasterisk
    refine .advanceTwo hs (by simp [hasterisk.1]) (by simp [hasterisk.2]) ?_
    exact Closes.token nofun (pushFrom_fits _ _)
  · exact Closes.bind (expect_fits (by simp)) (fun _ => pushFrom_fits _ _) source s k hs

section

variable (hp : p.Fit)

include hp

/-! ### Types -/

theorem classDeclaration_closes {isInterface : Bool} (hs : s.Allows source k (c + 2))
    (hkind : kindAt s.rest 0 ≠ .leftBrace) :
    ClosesAt source s k 0 (classDeclaration p front isInterface) := by
  refine .advance hs hkind ?_
  apply Closes.bind (identifier_fits _)
  intro name
  apply Closes.bind (optionalList_fits (check_fits _) (typeParameters_fits hp))
  intro parameters
  refine Closes.bind (optionalList_fits (accept_fits nofun) (typeList_fits hp)) fun extended => ?_
  refine Closes.bind (optionalList_fits (accept_fits nofun) (typeList_fits hp))
    fun implemented => ?_
  exact Closes.bind (classBody_fits hp) fun found => pushModified_fits _ _

theorem enumConstant_fits : Fits (c + 2) (enumConstant p) := by
  apply Closes.bind (modifiers_fits hp)
  intro front
  apply Closes.bind (identifier_fits _)
  intro name
  apply Closes.bind (optionalList_fits (check_fits _) (arguments_fits hp))
  intro found
  apply Closes.bind (optional_fits (check_fits _) (classBody_fits hp))
  intro body
  exact pushModified_fits _ _

theorem enumEntriesWithin_fits (rounds : Nat) : Fits (c + 2) (enumEntriesWithin p rounds) := by
  induction rounds with
  | zero => exact exhausted_closes
  | succ rounds ih =>
    apply Closes.bind (check_fits _)
    intro isOver
    apply Closes.bind (check_fits _)
    intro closes
    split
    · exact .pure []
    · apply Closes.bind (enumConstant_fits hp)
      intro first
      refine Closes.branch (accept_fits nofun) ?_ (.pure _)
      exact Closes.bind ih fun others => .pure _

theorem enumEntries_fits : Fits (c + 2) (enumEntries p) :=
  Closes.bind ahead_fits fun _ => enumEntriesWithin_fits hp _

theorem enumDeclaration_fits : Fits (c + 3) (enumDeclaration p front) := by
  refine Closes.token nofun ?_
  apply Closes.bind (identifier_fits _)
  intro name
  refine Closes.bind (optionalList_fits (accept_fits nofun) (typeList_fits hp))
    fun implemented => ?_
  -- the brace of the enum, that of a constant's body and that of a block in the body
  apply Closes.opening
  apply Closes.bind (enumEntries_fits hp)
  intro entries
  refine Closes.bind (optionalList_fits (accept_fits nofun) (members_fits hp)) fun found => ?_
  exact Closes.closing (pushModified_fits _ _)

theorem typeDeclaration_fits : Fits c (typeDeclaration p front) := by
  apply nested_fits
  intro source s k hs
  rw [closesAt_peek]
  split
  · next hclass => exact classDeclaration_closes hp hs (by simp [hclass])
  · next hinterface => exact classDeclaration_closes hp hs (by simp [hinterface])
  · exact enumDeclaration_fits hp source s k hs
  · exact unexpected_closes _ source s k hs

/-! ### Members -/

theorem parameters_fits : Fits c (parameters p) := by
  refine Closes.token nofun ?_
  refine Closes.bind (listUntil_fits nofun (parameter_fits hp)) fun found => ?_
  exact Closes.token nofun (.pure _)

theorem thrownTypes_fits : Fits c (thrownTypes p) :=
  optionalList_fits (accept_fits nofun) (typeList_fits hp)

theorem constructorDeclaration_fits (typeParams : List NodeId) :
    Fits (c + 1) (constructorDeclaration p front typeParams) := by
  apply Closes.bind (identifier_fits _)
  intro name
  apply Closes.bind (parameters_fits hp)
  intro params
  apply Closes.bind (thrownTypes_fits hp)
  intro thrown
  exact Closes.bind (block_fits hp) fun body => pushModified_fits _ _

/-- The value of a default may hold a class body without a level in between, which is one brace more
    than a member of a class may open otherwise. -/
theorem methodBody_fits : Fits (c + 1) (methodBody p) := by
  refine Closes.branch (accept_fits nofun) (.pure none) ?_
  refine Closes.default ?_ (Closes.map (block_fits hp))
  apply Closes.bind (Closes.discard hp.elementValue)
  intro _
  exact Closes.token nofun (.pure none)

theorem methodDeclaration_fits (typeParams : List NodeId) (returnType : NodeId) (name : String) :
    Fits (c + 1) (methodDeclaration p front typeParams returnType name) := by
  apply Closes.bind (parameters_fits hp)
  intro params
  apply Closes.bind (spanOf_fits returnType)
  intro span
  apply Closes.bind (arrayDims_fits _ _)
  intro returnType
  apply Closes.bind (thrownTypes_fits hp)
  intro thrown
  exact Closes.bind (methodBody_fits hp) fun body => pushModified_fits _ _

theorem fieldDeclaration_fits (type : NodeId) (name : String) (nameStart : Nat) :
    Fits c (fieldDeclaration p front type name nameStart) := by
  apply Closes.bind (declaratorRest_fits hp name nameStart)
  intro first
  refine Closes.bind (many_fits (accept_fits nofun) (declarator_fits hp)) fun others => ?_
  exact Closes.token nofun (pushModified_fits _ _)

theorem methodOrField_fits (typeParams : List NodeId) :
    Fits (c + 1) (methodOrField p front typeParams) := by
  apply Closes.bind (typeOrVoid_fits hp)
  intro type
  apply Closes.bind start_fits
  intro nameStart
  apply Closes.bind (identifier_fits _)
  intro name
  refine Closes.branch (check_fits _) (methodDeclaration_fits hp typeParams type name) ?_
  apply Closes.bind (kindOf_fits type)
  intro form
  split
  · exact unexpected_closes _
  · exact fieldDeclaration_fits hp type name nameStart

theorem bodyDeclaration_fits : Fits (c + 1) (bodyDeclaration p) := by
  intro source s k hs
  unfold bodyDeclaration
  rw [closesAt_start, closesAt_ahead]
  split
  · exact Closes.bind (block_fits hp) (fun body => pushFrom_fits _ _) source s k hs
  · split
    · next hstatic =>
      simp only [Bool.and_eq_true, beq_iff_eq] at hstatic
      refine .advance hs (by simp [hstatic.1]) ?_
      exact Closes.bind (block_fits hp) fun body => pushFrom_fits _ _
    · refine Closes.bind (modifiers_fits hp) (fun front => ?_) source s k hs
      apply Closes.bind (peek_fits 0)
      intro kind
      split
      · exact typeDeclaration_fits hp
      · apply Closes.bind (optionalList_fits (check_fits _) (typeParameters_fits hp))
        intro typeParams
        apply Closes.bind (peek_fits 0)
        intro kind
        apply Closes.bind (peek_fits 1)
        intro next
        split
        · exact constructorDeclaration_fits hp typeParams
        · exact methodOrField_fits hp typeParams

/-! ### Files -/

theorem packageDeclaration_fits : Fits c (packageDeclaration p) := by
  apply Closes.bind start_fits
  intro origin
  apply Closes.bind (many_fits (check_fits _) (annotationUse_fits hp))
  intro annotations
  apply Closes.bind start_fits
  intro settled
  refine Closes.token nofun ?_
  apply Closes.bind qualifiedName_fits
  intro name
  exact Closes.token nofun (pushModified_fits _ _)

theorem compilationUnit_fits : Fits c (compilationUnit p) := by
  apply Closes.bind start_fits
  intro origin
  apply Closes.bind (optional_fits test_fits (packageDeclaration_fits hp))
  intro package
  apply Closes.bind (many_fits (check_fits _) importDeclaration_fits)
  intro imports
  refine Closes.bind (many_fits (fits_of_reads fun _ _ => ⟨_, rfl⟩) ?_)
    fun types => pushFrom_fits _ _
  refine Closes.branch (accept_fits nofun) (.pure none) ?_
  apply Closes.bind (modifiers_fits hp)
  intro front
  exact Closes.bind (typeDeclaration_fits hp) fun type => .pure _

end

end CodeMarkup.Grammar
