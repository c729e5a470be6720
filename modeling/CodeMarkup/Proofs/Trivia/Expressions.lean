import CodeMarkup.Proofs.Trivia.Markup
import CodeMarkup.Proofs.Trivia.Types

namespace CodeMarkup.Grammar

open CodeMarkup.Parser

/-!
# Expressions, side by side

Each production agrees with itself on two texts that look alike, if the productions inside it do.

* `primary_agree`: expressions without operators.  The text of a template is found at the next
  token, so here the states matter.
* `operation_agree`, `expression_agree`: operators are joined from the same signs, since the same
  ones touch.
-/

variable {a b : Source} {p q : Productions}

/-- The statements of a block and its closing brace. -/
def blockRest (p : Productions) (origin : Nat) : Parser NodeId := do
  let statements ← many (return !(← check .rightBrace)) do
    if ← atEnd then unexpected TokenKind.rightBrace.describe else p .statement
  advance
  pushFrom origin (.block statements)

theorem classLiteral_agree {type type' : Parser NodeId} (htype : Agree a b Eq type type') :
    Agree a b Eq (classLiteral type) (classLiteral type') := by
  refine .start fun m n hmn => ?_
  refine htype.seq fun found => ?_
  refine (expect_agree _).seq fun _ => ?_
  refine (expect_agree _).seq fun _ => ?_
  exact pushFrom_agree hmn _

theorem referenceName_agree : Agree a b Eq referenceName referenceName :=
  (accept_agree _).branch (.pure rfl) (identifier_agree _)

theorem advanceBy_agree (count : Nat) : Agree a b Eq (advanceBy count) (advanceBy count) := by
  induction count with
  | zero => exact .pure rfl
  | succ count ih => exact advance_agree.seq fun _ => ih

section

variable (hp : ∀ construct, Agree a b Eq (p construct) (q construct))

include hp

/-! ### Parts of blocks and bodies -/

/-- A block after its opening brace. -/
theorem blockRest_agree {m n : Nat} (hmn : a = b → m = n) : Agree a b Eq (blockRest p m)
    (blockRest q n) := by
  refine (many_agree (check_agree _).mapEq ?_).seq fun statements => ?_
  · exact atEnd_agree.branch (unexpected_agree _) (hp .statement)
  · refine advance_agree.seq fun _ => ?_
    exact pushFrom_agree hmn _

theorem block_agree : Agree a b Eq (block p) (block q) := by
  refine .start fun m n hmn => ?_
  refine (expect_agree _).seq fun _ => ?_
  exact blockRest_agree hp hmn

theorem members_agree : Agree a b Eq (members p) (members q) := by
  refine (many_agree (check_agree _).mapEq ?_).seq fun items => .pure rfl
  refine atEnd_agree.branch (unexpected_agree _) ?_
  refine (accept_agree _).branch (.pure rfl) ?_
  exact (hp .bodyDeclaration).seq fun member => .pure rfl

theorem classBody_agree : Agree a b Eq (classBody p) (classBody q) := by
  refine (expect_agree _).seq fun _ => ?_
  refine (members_agree hp).seq fun found => ?_
  exact (expect_agree _).seq fun _ => .pure rfl

theorem arguments_agree : Agree a b Eq (arguments p) (arguments q) := by
  refine (expect_agree _).seq fun _ => ?_
  refine (accept_agree _).branch (.pure rfl) ?_
  refine (commaSeparated_agree (hp .expression)).seq fun found => ?_
  exact (expect_agree _).seq fun _ => .pure rfl

/-! ### Lambdas and creation -/

theorem lambdaParameter_agree : Agree a b Eq (lambdaParameter p) (lambdaParameter q) := by
  refine .peek fun next => .peek fun kind => ?_
  split
  · refine .start fun m n hmn => ?_
    refine (identifier_agree _).seq fun name => ?_
    exact pushFrom_agree hmn _
  · exact parameter_agree hp

theorem lambda_agree : Agree a b Eq (lambda p) (lambda q) := by
  refine .start fun m n hmn => ?_
  refine (accept_agree _).seq fun parenthesized => ?_
  -- the arrow and the body, after parameters with or without parentheses
  have hrest : ∀ parameters : List NodeId, Agree a b Eq
      (do
        expect .arrow
        let body ← if ← check .leftBrace then block p else p .expression
        pushFrom m (.lambda parameters body parenthesized))
      (do
        expect .arrow
        let body ← if ← check .leftBrace then block q else q .expression
        pushFrom n (.lambda parameters body parenthesized)) := by
    intro parameters
    refine (expect_agree _).seq fun _ => ?_
    refine (check_agree _).branch ?_ ?_
    · exact (block_agree hp).seq fun body => pushFrom_agree hmn _
    · exact (hp .expression).seq fun body => pushFrom_agree hmn _
  split
  · refine (listUntil_agree (lambdaParameter_agree hp)).seq fun found => ?_
    exact (expect_agree _).seq fun _ => hrest found
  · exact (lambdaParameter_agree hp).seq fun only => hrest [only]

theorem creationDims_agree : Agree a b Eq (creationDims p) (creationDims q) := by
  refine extendEq_agree (fun (sizes, unsized) => ?_) _
  refine (accept_agree _).branch ?_ (.pure rfl)
  refine (accept_agree _).branch (.pure rfl) ?_
  split
  · exact unexpected_agree _
  · refine (hp .expression).seq fun size => ?_
    exact (expect_agree _).seq fun _ => .pure rfl

theorem creation_agree (scope : Option NodeId) {m n : Nat} (hmn : a = b → m = n) :
    Agree a b Eq (creation p scope m) (creation q scope n) := by
  refine (expect_agree _).seq fun _ => ?_
  refine (nonArrayType_agree hp).seq fun type => ?_
  refine (check_agree _).branch ?_ ?_
  · refine (creationDims_agree hp).seq fun (sizes, unsized) => ?_
    refine (optional_agree (check_agree _) (hp .arrayInitializer)).seq fun init => ?_
    split
    · exact unexpected_agree _
    · exact pushFrom_agree hmn _
  · refine (arguments_agree hp).seq fun found => ?_
    refine (optional_agree (check_agree _) (classBody_agree hp)).seq fun body => ?_
    exact pushFrom_agree hmn _

/-! ### Primary expressions -/

theorem namePrimary_agree (name : String) :
    Agree a b Eq (namePrimary p name) (namePrimary q name) := by
  refine .start fun m n hmn => .ahead fun xs ys h => ?_
  have hclass := Alike.any_eq h.scanType? fun _ _ h => h.startsClass_eq
  -- a reference to a method needs a type of two tokens at least, so lengths count here
  have hreference := Alike.any_eq h.scanType? fun xs' ys' h' => show
      (kindAt xs' 0 == .doubleColon && decide (xs'.length + 1 < xs.length))
        = (kindAt ys' 0 == .doubleColon && decide (ys'.length + 1 < ys.length)) by
    rw [h'.kindAt_eq, h'.length_eq, h.length_eq]
  dsimp only
  rw [hclass, hreference, h.kindAt_eq]
  split
  · exact classLiteral_agree (hp .type)
  · split
    · exact hp .type
    · refine advance_agree.seq fun _ => ?_
      refine (check_agree _).branch ?_ (pushFrom_agree hmn _)
      refine (arguments_agree hp).seq fun found => ?_
      exact pushFrom_agree hmn _

theorem primitivePrimary_agree (word : Keyword) :
    Agree a b Eq (primitivePrimary p word) (primitivePrimary q word) := by
  refine .start fun m n hmn => .ahead fun xs ys h => ?_
  have hclass := Alike.any_eq h.scanType? fun _ _ h => h.startsClass_eq
  have hreference := Alike.any_eq h.scanType? fun xs' ys' h' => show
      (kindAt xs' 0 == .doubleColon) = (kindAt ys' 0 == .doubleColon) by rw [h'.kindAt_eq]
  dsimp only
  rw [hclass, hreference]
  split
  · exact classLiteral_agree (hp .type)
  · split
    · exact hp .type
    · refine advance_agree.seq fun _ => ?_
      exact pushFrom_agree hmn _

/-- At the next token the two states have the same kind, and the same text if that is a template. -/
theorem primary_agree : Agree a b Eq (primary p) (primary q) := by
  intro s t h
  unfold primary
  rw [agreeAt_start, agreeAt_peek, ← h.rest.kindAt_eq]
  split
  · exact advance_agree.seq (fun _ => pushFrom_agree h.start_eq _) s t h
  · split
    · next raw hraw => exact template_agree hp h (s.kindAt_rest_zero ▸ hraw)
    · exact creation_agree hp none h.start_eq s t h
    · exact classLiteral_agree (typeOrVoid_agree hp) s t h
    · split
      · exact primitivePrimary_agree hp _ s t h
      · exact unexpected_agree _ s t h
    · exact namePrimary_agree hp _ s t h
    · refine advance_agree.seq (fun _ => ?_) s t h
      refine (hp .expression).seq fun inner => ?_
      exact (expect_agree _).seq fun _ => pushFrom_agree h.start_eq _
    · exact jsonObject_agree hp s t h
    · exact jsonArray_agree hp s t h
    · exact tag_agree hp s t h
    · exact unexpected_agree _ s t h

/-! ### Operators after an expression -/

theorem member_agree (scope : NodeId) {m n : Nat} (hmn : a = b → m = n) :
    Agree a b Eq (member p scope m) (member q scope n) := by
  refine .peek fun kind => ?_
  split
  · refine (typeArguments_agree hp).seq fun types => ?_
    refine (identifier_agree _).seq fun name => ?_
    refine (arguments_agree hp).seq fun found => ?_
    exact pushFrom_agree hmn _
  · refine advance_agree.seq fun _ => ?_
    refine (check_agree _).branch ?_ (pushFrom_agree hmn _)
    refine (arguments_agree hp).seq fun found => ?_
    exact pushFrom_agree hmn _
  · exact advance_agree.seq fun _ => pushFrom_agree hmn _
  · exact advance_agree.seq fun _ => pushFrom_agree hmn _
  · exact creation_agree hp (some scope) hmn
  · exact unexpected_agree _

theorem suffix_agree {m n : Nat} (hmn : a = b → m = n) (id : NodeId) :
    Agree a b Eq (suffix p m id) (suffix q n id) := by
  refine .peek fun kind => ?_
  split
  · exact advance_agree.seq fun _ => (member_agree hp id hmn).mapEq
  · refine advance_agree.seq fun _ => ?_
    refine (hp .expression).seq fun index => ?_
    exact (expect_agree _).seq fun _ => (pushFrom_agree hmn _).mapEq
  · refine advance_agree.seq fun _ => ?_
    exact referenceName_agree.seq fun name => (pushFrom_agree hmn _).mapEq
  · exact advance_agree.seq fun _ => (pushFrom_agree hmn _).mapEq
  · exact advance_agree.seq fun _ => (pushFrom_agree hmn _).mapEq
  · exact .pure rfl

theorem suffixed_agree : Agree a b Eq (suffixed p) (suffixed q) := by
  refine .start fun m n hmn => ?_
  refine (primary_agree hp).seq fun first => ?_
  exact extendEq_agree (suffix_agree hp hmn) first

/-! ### Operators before and between expressions -/

theorem unary_agree : Agree a b Eq (unary p) (unary q) := by
  refine .start fun m n hmn => .peek fun kind => ?_
  split
  · refine advance_agree.seq fun _ => ?_
    exact (nested_agree (hp .unary)).seq fun operand => pushFrom_agree hmn _
  · refine .ahead fun xs ys h => ?_
    rw [h.startsCast_eq]
    split
    · refine advance_agree.seq fun _ => ?_
      refine (hp .type).seq fun type => ?_
      refine (expect_agree _).seq fun _ => ?_
      exact (nested_agree (hp .unary)).seq fun operand => pushFrom_agree hmn _
    · exact suffixed_agree hp

theorem operation_agree (power : Nat) {m n : Nat} (hmn : a = b → m = n) (left : NodeId) :
    Agree a b Eq (operation p power m left) (operation q power n left) := by
  refine .ahead fun xs ys h => ?_
  -- the operator is joined from the signs that touch, and a closing tag is none
  rw [h.kindAt_eq, h.operatorAhead?_eq, h.startsClosingTag_eq]
  split
  · split
    · exact .pure rfl
    · refine advance_agree.seq fun _ => ?_
      refine (hp .type).seq fun type => ?_
      exact (pushFrom_agree hmn _).mapEq
  · split
    · exact .pure rfl
    · refine (kindOf_agree left).seq fun form => ?_
      split
      · exact .pure rfl
      · split
        · exact .pure rfl
        · split
          · exact .pure rfl
          · refine (advanceBy_agree _).seq fun _ => ?_
            refine (hp (.binary _)).seq fun right => ?_
            exact (pushFrom_agree hmn _).mapEq

theorem binary_agree (power : Nat) : Agree a b Eq (binary p power) (binary q power) := by
  refine .start fun m n hmn => ?_
  refine (hp .unary).seq fun first => ?_
  exact extendEq_agree (operation_agree hp power hmn) first

theorem conditional_agree : Agree a b Eq (conditional p) (conditional q) := by
  refine .start fun m n hmn => ?_
  refine (hp (.binary 0)).seq fun condition => ?_
  refine (accept_agree _).branch ?_ (.pure rfl)
  refine (hp .expression).seq fun yes => ?_
  refine (expect_agree _).seq fun _ => ?_
  refine .ahead fun xs ys h => ?_
  rw [h.startsLambda_eq]
  split
  · exact (lambda_agree hp).seq fun no => pushFrom_agree hmn _
  · exact (nested_agree (hp .conditional)).seq fun no => pushFrom_agree hmn _

theorem expression_agree : Agree a b Eq (expression p) (expression q) := by
  refine nested_agree (.ahead fun xs ys h => ?_)
  rw [h.startsLambda_eq]
  split
  · exact lambda_agree hp
  · refine .start fun m n hmn => ?_
    refine (hp .conditional).seq fun target => ?_
    refine .ahead fun xs ys h => ?_
    rw [h.assignmentAhead?_eq]
    split
    · refine (advanceBy_agree _).seq fun _ => ?_
      refine (hp .expression).seq fun value => ?_
      exact pushFrom_agree hmn _
    · exact .pure rfl

end

end CodeMarkup.Grammar
