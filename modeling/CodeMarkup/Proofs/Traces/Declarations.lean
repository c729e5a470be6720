import CodeMarkup.Grammar.Declarations
import CodeMarkup.Proofs.Traces.Expressions

namespace CodeMarkup.Grammar

open CodeMarkup.Parser

/-!
# Traces of declarations

* `typeDeclaration_traced`: classes, interfaces and enums.
* `bodyDeclaration_traced`, `compilationUnit_traced`: members of a class, and files.
-/

variable {p : Productions} {source : Source} {s : State} {front : Modifiers}

theorem importDeclaration_traced : Traced 0 importDeclaration := by
  apply Traced.bind start_traced
  intro origin
  refine Traced.token rfl ?_
  refine Traced.bind (accept_traced rfl) fun isStatic => ?_
  apply Traced.bind qualifiedName_traced
  intro name source s
  rw [tracedAt_peek, tracedAt_peek]
  dsimp only
  split
  · next hasterisk =>
    obtain ⟨hdot, hstar⟩ := Bool.and_eq_true_iff.1 hasterisk
    refine .advanceTwo (isParen_of_beq hdot rfl) (isParen_of_beq hstar rfl) ?_
    exact Traced.token rfl (pushFrom_traced rfl _)
  · exact Traced.token rfl (pushFrom_traced rfl _) source s

section

variable (hp : p.Traced)

include hp

/-! ### Types -/

theorem classDeclaration_traced {isInterface : Bool} (hkind : (kindAt s.rest 0).isParen = false) :
    TracedAt source s 0 (classDeclaration p front isInterface) := by
  refine .advance hkind ?_
  apply Traced.bind (identifier_traced _)
  intro name
  apply Traced.bind (optionalList_traced (check_traced _) (typeParameters_traced hp))
  intro parameters
  refine Traced.bind (optionalList_traced (accept_traced rfl) (typeList_traced hp))
    fun extended => ?_
  refine Traced.bind (optionalList_traced (accept_traced rfl) (typeList_traced hp))
    fun implemented => ?_
  exact Traced.bind (classBody_traced hp) fun found => pushModified_traced rfl _

theorem enumConstant_traced : Traced 0 (enumConstant p) := by
  apply Traced.bind (modifiers_traced hp)
  intro front
  apply Traced.bind (identifier_traced _)
  intro name
  apply Traced.bind (optionalList_traced (check_traced _) (arguments_traced hp))
  intro found
  apply Traced.bind (optional_traced (check_traced _) (classBody_traced hp))
  intro body
  exact pushModified_traced rfl _

theorem enumEntriesWithin_traced (rounds : Nat) : Traced 0 (enumEntriesWithin p rounds) := by
  induction rounds with
  | zero => exact exhausted_traced
  | succ rounds ih =>
    apply Traced.bind (check_traced _)
    intro isOver
    apply Traced.bind (check_traced _)
    intro closes
    split
    · exact .pure []
    · apply Traced.bind (enumConstant_traced hp)
      intro first
      refine Traced.branch (accept_traced rfl) ?_ (.pure _)
      exact Traced.bind ih fun others => .pure _

theorem enumEntries_traced : Traced 0 (enumEntries p) :=
  Traced.bind ahead_traced fun _ => enumEntriesWithin_traced hp _

theorem enumDeclaration_traced : Traced 0 (enumDeclaration p front) := by
  refine Traced.token rfl ?_
  apply Traced.bind (identifier_traced _)
  intro name
  refine Traced.bind (optionalList_traced (accept_traced rfl) (typeList_traced hp))
    fun implemented => ?_
  refine Traced.token rfl ?_
  apply Traced.bind (enumEntries_traced hp)
  intro entries
  refine Traced.bind (optionalList_traced (accept_traced rfl) (members_traced hp)) fun found => ?_
  exact Traced.token rfl (pushModified_traced rfl _)

theorem typeDeclaration_traced : Traced 0 (typeDeclaration p front) := by
  apply nested_traced
  intro source s
  rw [tracedAt_peek]
  split
  · next hclass => exact classDeclaration_traced hp (isParen_of_eq hclass rfl)
  · next hinterface => exact classDeclaration_traced hp (isParen_of_eq hinterface rfl)
  · exact enumDeclaration_traced hp source s
  · exact unexpected_traced _ source s

/-! ### Members -/

theorem parameters_traced : Traced 0 (parameters p) := by
  apply Traced.opening
  refine Traced.bind (listUntil_traced rfl (parameter_traced hp)) fun found => ?_
  exact Traced.closing (.pure _)

theorem thrownTypes_traced : Traced 0 (thrownTypes p) :=
  optionalList_traced (accept_traced rfl) (typeList_traced hp)

theorem constructorDeclaration_traced (typeParams : List NodeId) :
    Traced 0 (constructorDeclaration p front typeParams) := by
  apply Traced.bind (identifier_traced _)
  intro name
  apply Traced.bind (parameters_traced hp)
  intro params
  apply Traced.bind (thrownTypes_traced hp)
  intro thrown
  exact Traced.bind (block_traced hp) fun body => pushModified_traced rfl _

theorem methodBody_traced : Traced 0 (methodBody p) := by
  refine Traced.branch (accept_traced rfl) (.pure none) ?_
  refine Traced.branch (accept_traced rfl) ?_ (Traced.map (block_traced hp))
  apply Traced.bind (Traced.discard (hp.traced _))
  intro _
  exact Traced.token rfl (.pure none)

theorem methodDeclaration_traced (typeParams : List NodeId) (returnType : NodeId) (name : String) :
    Traced 0 (methodDeclaration p front typeParams returnType name) := by
  apply Traced.bind (parameters_traced hp)
  intro params
  apply Traced.bind (spanOf_traced returnType)
  intro span
  apply Traced.bind (arrayDims_traced _ _)
  intro returnType
  apply Traced.bind (thrownTypes_traced hp)
  intro thrown
  exact Traced.bind (methodBody_traced hp) fun body => pushModified_traced rfl _

theorem fieldDeclaration_traced (type : NodeId) (name : String) (nameStart : Nat) :
    Traced 0 (fieldDeclaration p front type name nameStart) := by
  apply Traced.bind (declaratorRest_traced hp name nameStart)
  intro first
  refine Traced.bind (many_traced (accept_traced rfl) (declarator_traced hp)) fun others => ?_
  exact Traced.token rfl (pushModified_traced rfl _)

theorem methodOrField_traced (typeParams : List NodeId) :
    Traced 0 (methodOrField p front typeParams) := by
  apply Traced.bind (typeOrVoid_traced hp)
  intro type
  apply Traced.bind start_traced
  intro nameStart
  apply Traced.bind (identifier_traced _)
  intro name
  refine Traced.branch (check_traced _) (methodDeclaration_traced hp typeParams type name) ?_
  apply Traced.bind (kindOf_traced type)
  intro form
  split
  · exact unexpected_traced _
  · exact fieldDeclaration_traced hp type name nameStart

theorem bodyDeclaration_traced : Traced 0 (bodyDeclaration p) := by
  intro source s
  unfold bodyDeclaration
  rw [tracedAt_start, tracedAt_ahead]
  split
  · exact Traced.bind (block_traced hp) (fun body => pushFrom_traced rfl _) source s
  · split
    · next hstatic =>
      refine .advance (isParen_of_beq (Bool.and_eq_true_iff.1 hstatic).1 rfl) ?_
      exact Traced.bind (block_traced hp) fun body => pushFrom_traced rfl _
    · refine Traced.bind (modifiers_traced hp) (fun front => ?_) source s
      apply Traced.bind (peek_traced 0)
      intro kind
      split
      · exact typeDeclaration_traced hp
      · apply Traced.bind (optionalList_traced (check_traced _) (typeParameters_traced hp))
        intro typeParams
        apply Traced.bind (peek_traced 0)
        intro kind
        apply Traced.bind (peek_traced 1)
        intro next
        split
        · exact constructorDeclaration_traced hp typeParams
        · exact methodOrField_traced hp typeParams

/-! ### Files -/

theorem packageDeclaration_traced : Traced 0 (packageDeclaration p) := by
  apply Traced.bind start_traced
  intro origin
  apply Traced.bind (many_traced (check_traced _) (annotationUse_traced hp))
  intro annotations
  apply Traced.bind start_traced
  intro settled
  refine Traced.token rfl ?_
  apply Traced.bind qualifiedName_traced
  intro name
  exact Traced.token rfl (pushModified_traced rfl _)

theorem compilationUnit_traced : Traced 0 (compilationUnit p) := by
  apply Traced.bind start_traced
  intro origin
  apply Traced.bind (optional_traced test_traced (packageDeclaration_traced hp))
  intro package
  apply Traced.bind (many_traced (check_traced _) importDeclaration_traced)
  intro imports
  refine Traced.bind (many_traced (traced_of_reads fun _ _ => ⟨_, rfl⟩) ?_)
    fun types => pushFrom_traced rfl _
  refine Traced.branch (accept_traced rfl) (.pure none) ?_
  apply Traced.bind (modifiers_traced hp)
  intro front
  exact Traced.bind (typeDeclaration_traced hp) fun type => .pure _

end

end CodeMarkup.Grammar
