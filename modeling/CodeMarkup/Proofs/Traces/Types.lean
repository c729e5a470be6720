import CodeMarkup.Grammar.Declarators
import CodeMarkup.Proofs.Traces.Operands

namespace CodeMarkup

/-!
# Traces of names, modifiers, types and variables

* `type_traced`, `annotationArguments_traced`, `elementValue_traced`: the productions that annotate
  and type a declaration.
* `modifiers_traced`, `localVariables_traced`, `parameter_traced`: the parts that declarations and
  statements share.
-/

open Parser

theorem startsMember_isParen {tokens : List Token} (h : startsMember tokens = true) :
    (kindAt tokens 0).isParen = false :=
  isParen_of_beq (Bool.and_eq_true_iff.1 h).1 rfl

theorem startsDim_isParen {tokens : List Token} (h : startsDim tokens = true) :
    (kindAt tokens 0).isParen = false ∧ (kindAt tokens 1).isParen = false := by
  obtain ⟨hopen, hclose⟩ := Bool.and_eq_true_iff.1 h
  exact ⟨isParen_of_beq hopen rfl, isParen_of_beq hclose rfl⟩

namespace Grammar

variable {p : Productions}

/-! ### Names and types -/

theorem qualifiedName_traced : Traced 0 qualifiedName := by
  apply Traced.bind start_traced
  intro origin
  apply Traced.bind (identifier_traced _)
  intro first
  apply Traced.bind (pushFrom_traced rfl _)
  intro head
  refine extend_traced (fun qualifier => ?_) head
  intro source s
  rw [tracedAt_ahead]
  split
  · next hmember =>
    refine .advance (startsMember_isParen hmember) ?_
    apply Traced.bind (identifier_traced _)
    intro segment
    exact Traced.bind (pushFrom_traced rfl _) fun name => .pure _
  · exact Traced.pure none source s

theorem arrayDims_traced (origin : Nat) (id : NodeId) : Traced 0 (arrayDims origin id) := by
  refine extend_traced (fun type => ?_) id
  intro source s
  rw [tracedAt_ahead]
  split
  · next hdim =>
    obtain ⟨hfirst, hsecond⟩ := startsDim_isParen hdim
    refine .advanceTwo hfirst hsecond ?_
    exact Traced.bind (pushFrom_traced rfl _) fun wrapped => .pure _
  · exact Traced.pure none source s

section

variable (hp : p.Traced)

include hp

theorem typeArgument_traced : Traced 0 (typeArgument p) := by
  have hbound : ∀ (origin : Nat) (kind : NodeId → NodeKind), (∀ id, (kind id).isCompound = false) →
      Traced 0 (p .type >>= fun bound => pushFrom origin (kind bound)) := by
    intro origin kind hkind
    exact Traced.bind (hp.traced _) fun bound => pushFrom_traced (hkind bound) _
  intro source s
  unfold typeArgument
  rw [tracedAt_check]
  split
  · next hquestion =>
    rw [tracedAt_start]
    refine .advance (isParen_of_beq hquestion rfl) ?_
    refine Traced.branch (accept_traced rfl) (hbound _ (.wildcardType · none) fun _ => rfl) ?_
    exact Traced.branch (accept_traced rfl) (hbound _ (.wildcardType none ·) fun _ => rfl)
      (pushFrom_traced rfl _)
  · exact hp.traced _ source s

theorem typeArguments_traced : Traced 0 (typeArguments p) := by
  refine Traced.token rfl ?_
  refine Traced.branch (accept_traced rfl) (.pure _) ?_
  apply Traced.bind (commaSeparated_traced (typeArgument_traced hp))
  intro arguments
  exact Traced.token rfl (.pure _)

theorem typeSegment_traced (origin : Nat) (scope : Option NodeId) :
    Traced 0 (typeSegment p origin scope) := by
  apply Traced.bind (identifier_traced _)
  intro name
  apply Traced.bind (optional_traced (check_traced _) (typeArguments_traced hp))
  intro arguments
  exact pushFrom_traced rfl _

theorem classType_traced : Traced 0 (classType p) := by
  apply Traced.bind start_traced
  intro origin
  apply Traced.bind (typeSegment_traced hp origin none)
  intro first
  refine extend_traced (fun scope => ?_) first
  intro source s
  rw [tracedAt_ahead]
  split
  · next hmember =>
    refine .advance (startsMember_isParen hmember) ?_
    exact Traced.bind (typeSegment_traced hp origin (some scope)) fun inner => .pure _
  · exact Traced.pure none source s

theorem nonArrayType_traced : Traced 0 (nonArrayType p) := by
  intro source s
  unfold nonArrayType
  rw [tracedAt_peek]
  split
  · next word hword =>
    split
    · rw [tracedAt_start]
      exact .advance (isParen_of_eq hword rfl) (pushFrom_traced rfl _)
    · exact unexpected_traced _ source s
  · exact classType_traced hp source s
  · exact unexpected_traced _ source s

theorem type_traced : Traced 0 (type p) := by
  apply nested_traced
  apply Traced.bind start_traced
  intro origin
  exact Traced.bind (nonArrayType_traced hp) fun base => arrayDims_traced origin base

theorem typeOrVoid_traced : Traced 0 (typeOrVoid p) := by
  intro source s
  unfold typeOrVoid
  rw [tracedAt_check]
  split
  · next hvoid =>
    rw [tracedAt_start]
    exact .advance (isParen_of_beq hvoid rfl) (pushFrom_traced rfl _)
  · exact hp.traced _ source s

theorem typeList_traced : Traced 0 (typeList p) :=
  commaSeparated_traced (hp.traced _)

theorem typeParameter_traced : Traced 0 (typeParameter p) := by
  apply Traced.bind start_traced
  intro origin
  apply Traced.bind (identifier_traced _)
  intro name
  refine Traced.bind (optionalList_traced (accept_traced rfl) ?_) fun bounds =>
    pushFrom_traced rfl _
  apply Traced.bind (hp.traced _)
  intro first
  exact Traced.bind (many_traced (accept_traced rfl) (hp.traced _)) fun others => .pure _

theorem typeParameters_traced : Traced 0 (typeParameters p) := by
  refine Traced.token rfl ?_
  apply Traced.bind (commaSeparated_traced (typeParameter_traced hp))
  intro parameters
  exact Traced.token rfl (.pure _)

/-! ### Annotations and modifiers -/

theorem memberValue_traced : Traced 0 (memberValue p) := by
  apply Traced.bind start_traced
  intro origin
  apply Traced.bind (identifier_traced _)
  intro key
  refine Traced.token rfl ?_
  exact Traced.bind (hp.traced _) fun value => pushFrom_traced rfl _

theorem annotationArguments_traced : Traced 0 (annotationArguments p) := by
  apply Traced.bind ahead_traced
  intro tokens
  split
  · exact Traced.bind (commaSeparated_traced (memberValue_traced hp)) fun pairs => .pure _
  · refine Traced.branch (check_traced _) (.pure _) ?_
    exact Traced.bind (hp.traced _) fun value => .pure _

theorem annotationUse_traced : Traced 0 (annotationUse p) := by
  apply nested_traced
  apply Traced.bind start_traced
  intro origin
  refine Traced.token rfl ?_
  apply Traced.bind qualifiedName_traced
  intro name
  refine Traced.acceptOpening ?_ (pushFrom_traced rfl _)
  refine Traced.bind (annotationArguments_traced hp) fun arguments => ?_
  exact Traced.closing (pushFrom_traced rfl _)

theorem elementValueArray_traced : Traced 0 (elementValueArray p) := by
  apply nested_traced
  apply Traced.bind start_traced
  intro origin
  refine Traced.token rfl ?_
  refine Traced.bind (listUntil_traced rfl (hp.traced _)) fun values => ?_
  exact Traced.token rfl (pushFrom_traced rfl _)

theorem elementValue_traced : Traced 0 (elementValue p) := by
  apply Traced.bind (peek_traced 0)
  intro kind
  split
  · exact annotationUse_traced hp
  · exact elementValueArray_traced hp
  · exact hp.traced _

theorem modifiers_traced : Traced 0 (modifiers p) := by
  apply Traced.bind start_traced
  intro origin
  refine Traced.bind (extend_traced (fun found => ?_) _) fun found => ?_
  · intro source s
    rw [tracedAt_peek]
    split
    · rw [tracedAt_peek]
      split
      · exact Traced.pure none source s
      · exact Traced.bind (annotationUse_traced hp) (fun use => .pure _) source s
    · next word hword =>
      split
      · rw [tracedAt_start]
        exact .advance (isParen_of_eq hword rfl) (.pure _)
      · exact Traced.pure none source s
    · exact Traced.pure none source s
  · exact Traced.bind start_traced fun _ => .pure _

/-! ### Variables and parameters -/

theorem initializer_traced :
    Traced 0 (do if ← check .leftBrace then p .arrayInitializer else p .expression) :=
  Traced.branch (check_traced _) (hp.traced _) (hp.traced _)

theorem arrayInitializer_traced : Traced 0 (arrayInitializer p) := by
  apply nested_traced
  apply Traced.bind start_traced
  intro origin
  refine Traced.token rfl ?_
  refine Traced.bind (listUntil_traced rfl (initializer_traced hp)) fun values => ?_
  exact Traced.token rfl (pushFrom_traced rfl _)

theorem declaratorRest_traced (name : String) (origin : Nat) :
    Traced 0 (declaratorRest p name origin) := by
  refine Traced.manyWhile (fun s => startsDim s.rest) (fun _ _ => rfl) ?_ ?_
  · intro source s hdim
    obtain ⟨hfirst, hsecond⟩ := startsDim_isParen hdim
    exact TracedAt.advanceTwo hfirst hsecond (.pure ())
  · intro dims source s _
    refine Traced.bind ?_ (fun init => pushFrom_traced rfl _) source s
    exact optional_traced (accept_traced rfl) (initializer_traced hp)

theorem declarator_traced : Traced 0 (declarator p) := by
  apply Traced.bind start_traced
  intro origin
  exact Traced.bind (identifier_traced _) fun name => declaratorRest_traced hp name origin

theorem localVariables_traced : Traced 0 (localVariables p) := by
  apply Traced.bind (modifiers_traced hp)
  intro front
  apply Traced.bind (hp.traced _)
  intro type
  apply Traced.bind (commaSeparated_traced (declarator_traced hp))
  intro declared
  exact pushModified_traced rfl _

theorem parameter_traced : Traced 0 (parameter p) := by
  apply Traced.bind (modifiers_traced hp)
  intro front
  apply Traced.bind start_traced
  intro typeStart
  apply Traced.bind (hp.traced _)
  intro type
  refine Traced.bind (accept_traced rfl) fun isVarargs => ?_
  apply Traced.bind (identifier_traced _)
  intro name
  exact Traced.bind (arrayDims_traced typeStart type) fun type => pushModified_traced rfl _

end

end Grammar

end CodeMarkup
