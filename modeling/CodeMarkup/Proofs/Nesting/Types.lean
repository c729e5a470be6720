import CodeMarkup.Grammar.Declarators
import CodeMarkup.Proofs.Nesting.Rules

namespace CodeMarkup

/-!
# Braces of names, modifiers, types and variables

* `Productions.Fit`: how many braces around nested constructs each construct of the grammar needs.
  Those that open a level need none.
* `type_fits`, `elementValue_fits`, `modifiers_fits`, `parameter_fits`: the main productions.
-/

open Parser

/-- Productions that keep to what is allowed.  A member of a class may be a block, and an expression
    that opens no level may hold a class body. -/
structure Productions.Fit (p : Productions) : Prop where
  expression : ∀ {c}, Fits c (p .expression)
  conditional : ∀ {c}, Fits (c + 2) (p .conditional)
  binary : ∀ {c} power, Fits (c + 2) (p (.binary power))
  unary : ∀ {c}, Fits (c + 2) (p .unary)
  statement : ∀ {c}, Fits c (p .statement)
  type : ∀ {c}, Fits c (p .type)
  elementValue : ∀ {c}, Fits (c + 2) (p .elementValue)
  arrayInitializer : ∀ {c}, Fits c (p .arrayInitializer)
  bodyDeclaration : ∀ {c}, Fits (c + 1) (p .bodyDeclaration)

/-! ### Tests of the tokens ahead -/

theorem startsMember_kind {tokens : List Token} (h : startsMember tokens = true) :
    kindAt tokens 0 ≠ .leftBrace := by
  simp only [startsMember, Bool.and_eq_true, beq_iff_eq] at h
  simp [h.1]

theorem startsDim_kinds {tokens : List Token} (h : startsDim tokens = true) :
    kindAt tokens 0 ≠ .leftBrace ∧ kindAt tokens 1 ≠ .leftBrace := by
  simp only [startsDim, Bool.and_eq_true, beq_iff_eq] at h
  simp [h.1, h.2]

namespace Grammar

variable {p : Productions} {source : Source} {s : State} {k c : Nat}

/-! ### Names and types -/

theorem qualifiedName_fits : Fits c qualifiedName := by
  apply Closes.bind start_fits
  intro origin
  apply Closes.bind (identifier_fits _)
  intro first
  apply Closes.bind (pushFrom_fits _ _)
  intro head
  refine extend_fits (fun qualifier => ?_) head
  intro source s k hs
  rw [closesAt_ahead]
  split
  · next hmember =>
    refine .advance hs (startsMember_kind hmember) ?_
    apply Closes.bind (identifier_fits _)
    intro segment
    exact Closes.bind (pushFrom_fits _ _) fun name => .pure _
  · exact Closes.pure none source s k hs

theorem arrayDims_fits (origin : Nat) (id : NodeId) : Fits c (arrayDims origin id) := by
  refine extend_fits (fun type => ?_) id
  intro source s k hs
  rw [closesAt_ahead]
  split
  · next hdim =>
    obtain ⟨hfirst, hsecond⟩ := startsDim_kinds hdim
    refine .advanceTwo hs hfirst hsecond ?_
    exact Closes.bind (pushFrom_fits _ _) fun wrapped => .pure _
  · exact Closes.pure none source s k hs

section

variable (hp : p.Fit)

include hp

theorem typeArgument_fits : Fits c (typeArgument p) := by
  intro source s k hs
  unfold typeArgument
  rw [closesAt_check]
  split
  · next hquestion =>
    have hkind : kindAt s.rest 0 ≠ .leftBrace := by
      rw [s.kindAt_rest_zero, eq_of_beq hquestion]
      nofun
    rw [closesAt_start]
    refine .advance hs hkind ?_
    refine Closes.branch (accept_fits nofun) ?_ ?_
    · exact Closes.bind hp.type fun bound => pushFrom_fits _ _
    · refine Closes.branch (accept_fits nofun) ?_ (pushFrom_fits _ _)
      exact Closes.bind hp.type fun bound => pushFrom_fits _ _
  · exact hp.type source s k hs

theorem typeArguments_fits : Fits c (typeArguments p) := by
  refine Closes.token nofun ?_
  refine Closes.branch (accept_fits nofun) (.pure _) ?_
  apply Closes.bind (commaSeparated_fits (typeArgument_fits hp))
  intro arguments
  exact Closes.token nofun (.pure _)

theorem typeSegment_fits (origin : Nat) (scope : Option NodeId) :
    Fits c (typeSegment p origin scope) := by
  apply Closes.bind (identifier_fits _)
  intro name
  apply Closes.bind (optional_fits (check_fits _) (typeArguments_fits hp))
  intro arguments
  exact pushFrom_fits _ _

theorem classType_fits : Fits c (classType p) := by
  apply Closes.bind start_fits
  intro origin
  apply Closes.bind (typeSegment_fits hp origin none)
  intro first
  refine extend_fits (fun scope => ?_) first
  intro source s k hs
  rw [closesAt_ahead]
  split
  · next hmember =>
    refine .advance hs (startsMember_kind hmember) ?_
    exact Closes.bind (typeSegment_fits hp origin (some scope)) fun inner => .pure _
  · exact Closes.pure none source s k hs

theorem nonArrayType_fits : Fits c (nonArrayType p) := by
  intro source s k hs
  unfold nonArrayType
  rw [closesAt_peek]
  split
  · next word hword =>
    split
    · rw [closesAt_start]
      exact .advance hs (by simp [hword]) (pushFrom_fits _ _)
    · exact unexpected_closes _ source s k hs
  · exact classType_fits hp source s k hs
  · exact unexpected_closes _ source s k hs

theorem type_fits : Fits c (type p) := by
  apply nested_fits
  apply Closes.bind start_fits
  intro origin
  exact Closes.bind (nonArrayType_fits hp) fun base => arrayDims_fits origin base

theorem typeOrVoid_fits : Fits c (typeOrVoid p) := by
  intro source s k hs
  unfold typeOrVoid
  rw [closesAt_check]
  split
  · next hvoid =>
    have hkind : kindAt s.rest 0 ≠ .leftBrace := by
      rw [s.kindAt_rest_zero, eq_of_beq hvoid]
      nofun
    rw [closesAt_start]
    exact .advance hs hkind (pushFrom_fits _ _)
  · exact hp.type source s k hs

theorem typeList_fits : Fits c (typeList p) :=
  commaSeparated_fits hp.type

theorem typeParameter_fits : Fits c (typeParameter p) := by
  apply Closes.bind start_fits
  intro origin
  apply Closes.bind (identifier_fits _)
  intro name
  refine Closes.bind (optionalList_fits (accept_fits nofun) ?_) fun bounds => pushFrom_fits _ _
  apply Closes.bind hp.type
  intro first
  exact Closes.bind (many_fits (accept_fits nofun) hp.type) fun others => .pure _

theorem typeParameters_fits : Fits c (typeParameters p) := by
  refine Closes.token nofun ?_
  apply Closes.bind (commaSeparated_fits (typeParameter_fits hp))
  intro parameters
  exact Closes.token nofun (.pure _)

/-! ### Annotations and modifiers -/

theorem memberValue_fits : Fits (c + 2) (memberValue p) := by
  apply Closes.bind start_fits
  intro origin
  apply Closes.bind (identifier_fits _)
  intro key
  refine Closes.token nofun ?_
  exact Closes.bind hp.elementValue fun value => pushFrom_fits _ _

theorem annotationArguments_fits : Fits (c + 2) (annotationArguments p) := by
  apply Closes.bind ahead_fits
  intro tokens
  split
  · exact Closes.bind (commaSeparated_fits (memberValue_fits hp)) fun pairs => .pure _
  · refine Closes.branch (check_fits _) (.pure _) ?_
    exact Closes.bind hp.elementValue fun value => .pure _

theorem annotationUse_fits : Fits c (annotationUse p) := by
  apply nested_fits
  apply Closes.bind start_fits
  intro origin
  refine Closes.token nofun ?_
  apply Closes.bind qualifiedName_fits
  intro name
  refine Closes.branch (accept_fits nofun) ?_ (pushFrom_fits _ _)
  apply Closes.bind (annotationArguments_fits hp)
  rintro ⟨value, pairs⟩
  exact Closes.token nofun (pushFrom_fits _ _)

theorem elementValueArray_fits : Fits c (elementValueArray p) := by
  apply nested_fits
  apply Closes.bind start_fits
  intro origin
  -- one brace here, and two that each value may open
  apply Closes.opening
  refine Closes.bind (listUntil_fits nofun hp.elementValue) fun values => ?_
  exact Closes.closing (pushFrom_fits _ _)

theorem elementValue_fits : Fits (c + 2) (elementValue p) := by
  apply Closes.bind (peek_fits 0)
  intro kind
  split
  · exact annotationUse_fits hp
  · exact elementValueArray_fits hp
  · exact hp.conditional

theorem modifiers_fits : Fits c (modifiers p) := by
  apply Closes.bind start_fits
  intro origin
  refine Closes.bind (extend_fits (fun found => ?_) _) fun found => ?_
  · intro source s k hs
    rw [closesAt_peek]
    split
    · rw [closesAt_peek]
      split
      · exact Closes.pure none source s k hs
      · exact Closes.bind (annotationUse_fits hp) (fun use => .pure _) source s k hs
    · next word hword =>
      split
      · rw [closesAt_start]
        exact .advance hs (by simp [hword]) (.pure _)
      · exact Closes.pure none source s k hs
    · exact Closes.pure none source s k hs
  · exact Closes.bind start_fits fun _ => .pure _

/-! ### Variables and parameters -/

theorem initializer_fits :
    Fits c (do if ← check .leftBrace then p .arrayInitializer else p .expression) :=
  Closes.branch (check_fits _) hp.arrayInitializer hp.expression

theorem arrayInitializer_fits : Fits c (arrayInitializer p) := by
  apply nested_fits
  apply Closes.bind start_fits
  intro origin
  apply Closes.opening
  refine Closes.bind (listUntil_fits nofun (initializer_fits hp)) fun values => ?_
  exact Closes.closing (pushFrom_fits _ _)

theorem declaratorRest_fits (name : String) (origin : Nat) :
    Fits c (declaratorRest p name origin) := by
  refine Closes.manyWhile (fun s => startsDim s.rest) (fun _ _ => rfl) ?_ ?_
  · intro source s k hs hdim
    obtain ⟨hfirst, hsecond⟩ := startsDim_kinds hdim
    exact ClosesAt.advanceTwo hs hfirst hsecond (.pure ())
  · intro dims source s k hs _
    refine Closes.bind ?_ (fun init => pushFrom_fits _ _) source s k hs
    exact optional_fits (accept_fits nofun) (initializer_fits hp)

theorem declarator_fits : Fits c (declarator p) := by
  apply Closes.bind start_fits
  intro origin
  exact Closes.bind (identifier_fits _) fun name => declaratorRest_fits hp name origin

theorem localVariables_fits : Fits c (localVariables p) := by
  apply Closes.bind (modifiers_fits hp)
  intro front
  apply Closes.bind hp.type
  intro type
  apply Closes.bind (commaSeparated_fits (declarator_fits hp))
  intro declared
  exact pushModified_fits _ _

theorem parameter_fits : Fits c (parameter p) := by
  apply Closes.bind (modifiers_fits hp)
  intro front
  apply Closes.bind start_fits
  intro typeStart
  apply Closes.bind hp.type
  intro type
  refine Closes.bind (accept_fits nofun) fun isVarargs => ?_
  apply Closes.bind (identifier_fits _)
  intro name
  exact Closes.bind (arrayDims_fits typeStart type) fun type => pushModified_fits _ _

end

end Grammar

end CodeMarkup
