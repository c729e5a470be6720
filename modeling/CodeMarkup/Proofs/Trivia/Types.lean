import CodeMarkup.Grammar.Declarators
import CodeMarkup.Proofs.Trivia.Agreement

namespace CodeMarkup.Grammar

open CodeMarkup.Parser

/-!
# Names, modifiers, types and variables, side by side

Each production agrees with itself on two texts that look alike, if the productions inside it do.

* `Modifiers.Twin`: modifiers read from two such texts.
* `type_agree`, `modifiers_agree`, `parameter_agree`: the main productions.
-/

variable {a b : Source} {p q : Productions}

/-! ### Names and types -/

theorem qualifiedName_agree : Agree a b Eq qualifiedName qualifiedName := by
  refine .start fun m n hmn => ?_
  refine (identifier_agree _).seq fun first => ?_
  refine (pushFrom_agree hmn _).seq fun head => ?_
  refine extendEq_agree (fun qualifier => .ahead fun xs ys h => ?_) head
  rw [h.startsMember_eq]
  split
  · refine advance_agree.seq fun _ => ?_
    refine (identifier_agree _).seq fun segment => ?_
    exact (pushFrom_agree hmn _).seq fun name => .pure rfl
  · exact .pure rfl

theorem arrayDims_agree {m n : Nat} (hmn : a = b → m = n) (id : NodeId) :
    Agree a b Eq (arrayDims m id) (arrayDims n id) := by
  refine extendEq_agree (fun type => .ahead fun xs ys h => ?_) id
  rw [h.startsDim_eq]
  split
  · refine advanceTwo_agree.seq fun _ => ?_
    exact (pushFrom_agree hmn _).seq fun wrapped => .pure rfl
  · exact .pure rfl

section

variable (hp : ∀ construct, Agree a b Eq (p construct) (q construct))

include hp

theorem typeArgument_agree : Agree a b Eq (typeArgument p) (typeArgument q) := by
  refine (check_agree .question).branch ?_ (hp .type)
  refine .start fun m n hmn => ?_
  refine advance_agree.seq fun _ => ?_
  refine (accept_agree _).branch ?_ ?_
  · refine (hp .type).seq fun bound => ?_
    exact pushFrom_agree hmn _
  · refine (accept_agree _).branch ?_ (pushFrom_agree hmn _)
    refine (hp .type).seq fun bound => ?_
    exact pushFrom_agree hmn _

theorem typeArguments_agree : Agree a b Eq (typeArguments p) (typeArguments q) := by
  refine (expect_agree _).seq fun _ => ?_
  refine (accept_agree _).branch (.pure rfl) ?_
  refine (commaSeparated_agree (typeArgument_agree hp)).seq fun arguments => ?_
  exact (expect_agree _).seq fun _ => .pure rfl

theorem typeSegment_agree {m n : Nat} (hmn : a = b → m = n) (scope : Option NodeId) :
    Agree a b Eq (typeSegment p m scope) (typeSegment q n scope) := by
  refine (identifier_agree _).seq fun name => ?_
  refine (optional_agree (check_agree _) (typeArguments_agree hp)).seq fun arguments => ?_
  exact pushFrom_agree hmn _

theorem classType_agree : Agree a b Eq (classType p) (classType q) := by
  refine .start fun m n hmn => ?_
  refine (typeSegment_agree hp hmn none).seq fun first => ?_
  refine extendEq_agree (fun scope => .ahead fun xs ys h => ?_) first
  rw [h.startsMember_eq]
  split
  · refine advance_agree.seq fun _ => ?_
    exact (typeSegment_agree hp hmn (some scope)).seq fun inner => .pure rfl
  · exact .pure rfl

theorem nonArrayType_agree : Agree a b Eq (nonArrayType p) (nonArrayType q) := by
  refine .peek fun kind => ?_
  split
  · split
    · refine .start fun m n hmn => ?_
      refine advance_agree.seq fun _ => ?_
      exact pushFrom_agree hmn _
    · exact unexpected_agree _
  · exact classType_agree hp
  · exact unexpected_agree _

theorem type_agree : Agree a b Eq (type p) (type q) := by
  -- the dimensions wrap the type from where it starts, an offset that only spans depend on
  refine nested_agree (.start fun m n hmn => ?_)
  refine (nonArrayType_agree hp).seq fun base => ?_
  exact arrayDims_agree hmn base

theorem typeOrVoid_agree : Agree a b Eq (typeOrVoid p) (typeOrVoid q) := by
  refine (check_agree _).branch ?_ (hp .type)
  refine .start fun m n hmn => ?_
  refine advance_agree.seq fun _ => ?_
  exact pushFrom_agree hmn _

theorem typeList_agree : Agree a b Eq (typeList p) (typeList q) :=
  commaSeparated_agree (hp .type)

theorem typeParameter_agree : Agree a b Eq (typeParameter p) (typeParameter q) := by
  refine .start fun m n hmn => ?_
  refine (identifier_agree _).seq fun name => ?_
  refine (optionalList_agree (accept_agree _) ?_).seq fun bounds => pushFrom_agree hmn _
  refine (hp .type).seq fun first => ?_
  exact (many_agree (accept_agree _) (hp .type)).seq fun others => .pure rfl

theorem typeParameters_agree : Agree a b Eq (typeParameters p) (typeParameters q) := by
  refine (expect_agree _).seq fun _ => ?_
  refine (commaSeparated_agree (typeParameter_agree hp)).seq fun parameters => ?_
  exact (expect_agree _).seq fun _ => .pure rfl

/-! ### Annotations and modifiers -/

theorem memberValue_agree : Agree a b Eq (memberValue p) (memberValue q) := by
  refine .start fun m n hmn => ?_
  refine (identifier_agree _).seq fun key => ?_
  refine (expect_agree _).seq fun _ => ?_
  refine (hp .elementValue).seq fun value => ?_
  exact pushFrom_agree hmn _

theorem annotationArguments_agree :
    Agree a b Eq (annotationArguments p) (annotationArguments q) := by
  refine .ahead fun xs ys h => ?_
  rw [h.kindAt_eq, h.kindAt_eq]
  split
  · exact (commaSeparated_agree (memberValue_agree hp)).seq fun pairs => .pure rfl
  · refine (check_agree _).branch (.pure rfl) ?_
    exact (hp .elementValue).seq fun value => .pure rfl

theorem annotationUse_agree : Agree a b Eq (annotationUse p) (annotationUse q) := by
  refine nested_agree (.start fun m n hmn => ?_)
  refine (expect_agree _).seq fun _ => ?_
  refine qualifiedName_agree.seq fun name => ?_
  refine (accept_agree _).branch ?_ (pushFrom_agree hmn _)
  refine (annotationArguments_agree hp).seq fun (value, pairs) => ?_
  refine (expect_agree _).seq fun _ => ?_
  exact pushFrom_agree hmn _

theorem elementValueArray_agree : Agree a b Eq (elementValueArray p) (elementValueArray q) := by
  refine nested_agree (.start fun m n hmn => ?_)
  refine (expect_agree _).seq fun _ => ?_
  refine (listUntil_agree (hp .elementValue)).seq fun values => ?_
  refine (expect_agree _).seq fun _ => ?_
  exact pushFrom_agree hmn _

theorem elementValue_agree : Agree a b Eq (elementValue p) (elementValue q) := by
  refine .peek fun kind => ?_
  split
  · exact annotationUse_agree hp
  · exact elementValueArray_agree hp
  · exact hp .conditional

end

/-- Modifiers that differ in their offsets at most, and in nothing if they are from one text. -/
structure Modifiers.Twin (a b : Source) (front front' : Modifiers) : Prop where
  annotations : front.annotations = front'.annotations
  keywords : front.keywords = front'.keywords
  settled : front.unannotatedStart.isSome = front'.unannotatedStart.isSome
  same : a = b → front = front'

theorem Modifiers.Twin.settle {front front' : Modifiers} {m n : Nat} (h : front.Twin a b front')
    (hmn : a = b → m = n) : (front.settle m).Twin a b (front'.settle n) := by
  have hsame : a = b → front.settle m = front'.settle n := by
    intro hab
    rw [h.same hab, hmn hab]
  unfold Modifiers.settle at hsame ⊢
  rw [h.annotations, h.settled] at hsame ⊢
  split
  · exact h
  · next hopen => exact ⟨rfl, h.keywords, rfl, by rwa [if_neg hopen, if_neg hopen] at hsame⟩

theorem pushModified_agree {front front' : Modifiers} (hsame : a = b → front = front')
    (kind : NodeKind) : Agree a b Eq (pushModified front kind) (pushModified front' kind) := by
  intro s t h
  have hspan : a = b → s.spanFrom front.start = t.spanFrom front'.start :=
    fun hab => hsame hab ▸ h.spanFrom_eq hab _
  exact push_agree kind hspan (fun hab => congrArg _ (hsame hab)) s t h

section

variable (hp : ∀ construct, Agree a b Eq (p construct) (q construct))

include hp

theorem modifiers_agree : Agree a b (Modifiers.Twin a b) (modifiers p) (modifiers q) := by
  refine .start fun m n hmn => ?_
  -- the loop carries modifiers, which hold offsets and so are twins, not equal ones
  refine Agree.bind (R := Modifiers.Twin a b) ?_ fun front front' h => ?_
  · refine extend_agree (fun front front' h => .peek fun kind => ?_)
      ⟨rfl, rfl, rfl, fun hab => by rw [hmn hab]⟩
    split
    · refine .peek fun next => ?_
      split
      · exact .pure .none
      · refine (annotationUse_agree hp).seq fun use => .pure (.some ?_)
        exact ⟨congrArg (· ++ [use]) h.annotations, h.keywords, rfl, fun hab => by rw [h.same hab]⟩
    · split
      · refine .start fun m n hmn => ?_
        refine advance_agree.seq fun _ => .pure (.some ?_)
        -- a keyword settles where the unannotated part starts, at the offset of each text
        have hsettle := h.settle hmn
        exact ⟨hsettle.annotations, congrArg (· ++ [_]) hsettle.keywords, hsettle.settled,
          fun hab => by rw [hsettle.same hab]⟩
      · exact .pure .none
    · exact .pure .none
  · exact .start fun m n hmn => .pure (h.settle hmn)

/-! ### Variables and parameters -/

theorem arrayInitializer_agree : Agree a b Eq (arrayInitializer p) (arrayInitializer q) := by
  refine nested_agree (.start fun m n hmn => ?_)
  refine (expect_agree _).seq fun _ => ?_
  refine (listUntil_agree ?_).seq fun values => ?_
  · exact (check_agree _).branch (hp .arrayInitializer) (hp .expression)
  · refine (expect_agree _).seq fun _ => ?_
    exact pushFrom_agree hmn _

theorem declaratorRest_agree (name : String) {m n : Nat} (hmn : a = b → m = n) :
    Agree a b Eq (declaratorRest p name m) (declaratorRest q name n) := by
  refine (many_agree (ahead_agree fun _ _ h => h.startsDim_eq) advanceTwo_agree).seq fun dims => ?_
  refine (optional_agree (accept_agree _) ?_).seq fun init => pushFrom_agree hmn _
  exact (check_agree _).branch (hp .arrayInitializer) (hp .expression)

theorem declarator_agree : Agree a b Eq (declarator p) (declarator q) := by
  refine .start fun m n hmn => ?_
  refine (identifier_agree _).seq fun name => ?_
  exact declaratorRest_agree hp name hmn

theorem localVariables_agree : Agree a b Eq (localVariables p) (localVariables q) := by
  refine (modifiers_agree hp).bind fun front front' h => ?_
  refine (hp .type).seq fun type => ?_
  refine (commaSeparated_agree (declarator_agree hp)).seq fun declared => ?_
  rw [h.annotations, h.keywords]
  exact pushModified_agree h.same _

theorem parameter_agree : Agree a b Eq (parameter p) (parameter q) := by
  refine (modifiers_agree hp).bind fun front front' h => ?_
  refine .start fun m n hmn => ?_
  refine (hp .type).seq fun type => ?_
  refine (accept_agree _).seq fun isVarargs => ?_
  refine (identifier_agree _).seq fun name => ?_
  refine (arrayDims_agree hmn type).seq fun type => ?_
  rw [h.annotations, h.keywords]
  exact pushModified_agree h.same _

end

end CodeMarkup.Grammar
