import CodeMarkup.Grammar.Statements
import CodeMarkup.Proofs.Trivia.Expressions

namespace CodeMarkup.Grammar

open CodeMarkup.Parser

/-!
# Declarations, side by side

Each production agrees with itself on two texts that look alike, if the productions inside it do.
The modifiers in front of a declaration are taken from the two texts, and are twins.

* `bodyDeclaration_agree`, `compilationUnit_agree`: the main productions.
-/

variable {a b : Source} {p q : Productions} {front front' : Modifiers}

theorem importDeclaration_agree : Agree a b Eq importDeclaration importDeclaration := by
  refine .start fun m n hmn => ?_
  refine (expect_agree _).seq fun _ => ?_
  refine (accept_agree _).seq fun isStatic => ?_
  refine qualifiedName_agree.seq fun name => ?_
  refine .peek fun kind => .peek fun next => ?_
  dsimp only
  split
  · refine advanceTwo_agree.seq fun _ => ?_
    exact (expect_agree _).seq fun _ => pushFrom_agree hmn _
  · exact (expect_agree _).seq fun _ => pushFrom_agree hmn _

section

variable (hp : ∀ construct, Agree a b Eq (p construct) (q construct))

include hp

/-! ### Types -/

theorem classDeclaration_agree (hfront : front.Twin a b front') (isInterface : Bool) :
    Agree a b Eq (classDeclaration p front isInterface)
      (classDeclaration q front' isInterface) := by
  refine advance_agree.seq fun _ => ?_
  refine (identifier_agree _).seq fun name => ?_
  refine (optionalList_agree (check_agree _) (typeParameters_agree hp)).seq fun parameters => ?_
  refine (optionalList_agree (accept_agree _) (typeList_agree hp)).seq fun extended => ?_
  refine (optionalList_agree (accept_agree _) (typeList_agree hp)).seq fun implemented => ?_
  refine (classBody_agree hp).seq fun found => ?_
  rw [hfront.annotations, hfront.keywords]
  exact pushModified_agree hfront.same _

theorem enumConstant_agree : Agree a b Eq (enumConstant p) (enumConstant q) := by
  refine (modifiers_agree hp).bind fun front front' hfront => ?_
  refine (identifier_agree _).seq fun name => ?_
  refine (optionalList_agree (check_agree _) (arguments_agree hp)).seq fun found => ?_
  refine (optional_agree (check_agree _) (classBody_agree hp)).seq fun body => ?_
  rw [hfront.annotations]
  exact pushModified_agree hfront.same _

theorem enumEntriesWithin_agree (rounds : Nat) :
    Agree a b Eq (enumEntriesWithin p rounds) (enumEntriesWithin q rounds) := by
  induction rounds with
  | zero => exact exhausted_agree
  | succ rounds ih =>
    refine (check_agree _).seq fun isOver => (check_agree _).seq fun closes => ?_
    split
    · exact .pure rfl
    · refine (enumConstant_agree hp).seq fun first => ?_
      refine (accept_agree _).branch ?_ (.pure rfl)
      exact ih.seq fun others => .pure rfl

theorem enumEntries_agree : Agree a b Eq (enumEntries p) (enumEntries q) := by
  refine .ahead fun xs ys h => ?_
  rw [h.length_eq]
  exact enumEntriesWithin_agree hp _

theorem enumDeclaration_agree (hfront : front.Twin a b front') :
    Agree a b Eq (enumDeclaration p front) (enumDeclaration q front') := by
  refine (expect_agree _).seq fun _ => ?_
  refine (identifier_agree _).seq fun name => ?_
  refine (optionalList_agree (accept_agree _) (typeList_agree hp)).seq fun implemented => ?_
  refine (expect_agree _).seq fun _ => ?_
  refine (enumEntries_agree hp).seq fun entries => ?_
  refine (optionalList_agree (accept_agree _) (members_agree hp)).seq fun found => ?_
  refine (expect_agree _).seq fun _ => ?_
  rw [hfront.annotations, hfront.keywords]
  exact pushModified_agree hfront.same _

theorem typeDeclaration_agree (hfront : front.Twin a b front') :
    Agree a b Eq (typeDeclaration p front) (typeDeclaration q front') := by
  refine nested_agree (.peek fun kind => ?_)
  split
  · exact classDeclaration_agree hp hfront false
  · exact classDeclaration_agree hp hfront true
  · exact enumDeclaration_agree hp hfront
  · exact unexpected_agree _

/-! ### Members -/

theorem parameters_agree : Agree a b Eq (parameters p) (parameters q) := by
  refine (expect_agree _).seq fun _ => ?_
  refine (listUntil_agree (parameter_agree hp)).seq fun found => ?_
  exact (expect_agree _).seq fun _ => .pure rfl

theorem thrownTypes_agree : Agree a b Eq (thrownTypes p) (thrownTypes q) :=
  optionalList_agree (accept_agree _) (typeList_agree hp)

theorem constructorDeclaration_agree (hfront : front.Twin a b front') (typeParams : List NodeId) :
    Agree a b Eq (constructorDeclaration p front typeParams)
      (constructorDeclaration q front' typeParams) := by
  refine (identifier_agree _).seq fun name => ?_
  refine (parameters_agree hp).seq fun params => ?_
  refine (thrownTypes_agree hp).seq fun thrown => ?_
  refine (block_agree hp).seq fun body => ?_
  rw [hfront.annotations, hfront.keywords]
  exact pushModified_agree hfront.same _

theorem methodBody_agree : Agree a b Eq (methodBody p) (methodBody q) := by
  refine (accept_agree _).branch (.pure rfl) ?_
  refine (accept_agree _).branch ?_ (block_agree hp).mapEq
  refine Agree.seq (hp .elementValue).mapEq fun _ => ?_
  exact (expect_agree _).seq fun _ => .pure rfl

theorem methodDeclaration_agree (hfront : front.Twin a b front') (typeParams : List NodeId)
    (returnType : NodeId) (name : String) :
    Agree a b Eq (methodDeclaration p front typeParams returnType name)
      (methodDeclaration q front' typeParams returnType name) := by
  refine (parameters_agree hp).seq fun params => ?_
  -- dimensions after the parameters wrap the type that stands before them
  refine .spanOf fun span span' hspan => ?_
  have hstart : a = b → span.start = span'.start := fun hab => congrArg Span.start (hspan hab)
  refine (arrayDims_agree hstart returnType).seq fun returnType => ?_
  refine (thrownTypes_agree hp).seq fun thrown => ?_
  refine (methodBody_agree hp).seq fun body => ?_
  rw [hfront.annotations, hfront.keywords]
  exact pushModified_agree hfront.same _

theorem fieldDeclaration_agree (hfront : front.Twin a b front') (type : NodeId) (name : String)
    {m n : Nat} (hmn : a = b → m = n) :
    Agree a b Eq (fieldDeclaration p front type name m)
      (fieldDeclaration q front' type name n) := by
  refine (declaratorRest_agree hp name hmn).seq fun first => ?_
  refine (many_agree (accept_agree _) (declarator_agree hp)).seq fun others => ?_
  refine (expect_agree _).seq fun _ => ?_
  rw [hfront.annotations, hfront.keywords]
  exact pushModified_agree hfront.same _

theorem methodOrField_agree (hfront : front.Twin a b front') (typeParams : List NodeId) :
    Agree a b Eq (methodOrField p front typeParams) (methodOrField q front' typeParams) := by
  refine (typeOrVoid_agree hp).seq fun type => ?_
  refine .start fun m n hmn => ?_
  refine (identifier_agree _).seq fun name => ?_
  refine (check_agree _).branch (methodDeclaration_agree hp hfront typeParams type name) ?_
  -- the form of a node made before decides, and it is the same in both arenas
  refine (kindOf_agree type).seq fun form => ?_
  split
  · exact unexpected_agree _
  · exact fieldDeclaration_agree hp hfront type name hmn

theorem bodyDeclaration_agree : Agree a b Eq (bodyDeclaration p) (bodyDeclaration q) := by
  refine .start fun m n hmn => .ahead fun xs ys h => ?_
  rw [h.kindAt_eq, h.kindAt_eq]
  split
  · exact (block_agree hp).seq fun body => pushFrom_agree hmn _
  · split
    · refine advance_agree.seq fun _ => ?_
      exact (block_agree hp).seq fun body => pushFrom_agree hmn _
    · refine (modifiers_agree hp).bind fun front front' hfront => ?_
      refine .peek fun kind => ?_
      split
      · exact typeDeclaration_agree hp hfront
      · refine (optionalList_agree (check_agree _) (typeParameters_agree hp)).seq
          fun typeParams => ?_
        refine .peek fun kind => .peek fun next => ?_
        split
        · exact constructorDeclaration_agree hp hfront typeParams
        · exact methodOrField_agree hp hfront typeParams

/-! ### Files -/

theorem packageDeclaration_agree :
    Agree a b Eq (packageDeclaration p) (packageDeclaration q) := by
  refine .start fun m n hmn => ?_
  refine (many_agree (check_agree _) (annotationUse_agree hp)).seq fun annotations => ?_
  refine .start fun m' n' hmn' => ?_
  refine (expect_agree _).seq fun _ => ?_
  refine qualifiedName_agree.seq fun name => ?_
  refine (expect_agree _).seq fun _ => ?_
  exact pushModified_agree (fun hab => by rw [hmn hab, hmn' hab]) _

theorem compilationUnit_agree : Agree a b Eq (compilationUnit p) (compilationUnit q) := by
  refine .start fun m n hmn => ?_
  refine (optional_agree (ahead_agree fun _ _ h => h.startsPackage_eq)
    (packageDeclaration_agree hp)).seq fun package => ?_
  refine (many_agree (check_agree _) importDeclaration_agree).seq fun imports => ?_
  refine (many_agree atEnd_agree.mapEq ?_).seq fun types => pushFrom_agree hmn _
  refine (accept_agree _).branch (.pure rfl) ?_
  refine (modifiers_agree hp).bind fun front front' hfront => ?_
  exact (typeDeclaration_agree hp hfront).seq fun type => .pure rfl

end

end CodeMarkup.Grammar
