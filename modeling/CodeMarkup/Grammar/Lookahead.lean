import CodeMarkup.Grammar.State

namespace CodeMarkup

/-!
# Lookahead

Declarations, casts and lambdas can start like expressions.  The functions here look at the tokens
ahead, without taking any, to tell them apart; each returns the tokens after what it has passed.

* `scanType?`: the tokens after a type.
* `afterParens?`: the tokens after a closing parenthesis.
* `skipModifiers`: the tokens after annotations and modifiers.
* `operatorAhead?`: the operator at the head, joined from adjacent signs.
-/

/-- The tokens after pairs of empty brackets. -/
def skipDims : List Token → List Token
  | ⟨.leftBracket, _⟩ :: ⟨.rightBracket, _⟩ :: rest => skipDims rest
  | tokens => tokens

/-- Whether a list starts with an empty pair of brackets. -/
def startsDim (tokens : List Token) : Bool :=
  kindAt tokens 0 == .leftBracket && kindAt tokens 1 == .rightBracket

/-- Whether a list starts with a point and a name. -/
def startsMember (tokens : List Token) : Bool :=
  kindAt tokens 0 == .dot && (kindAt tokens 1).isIdentifier

/-- The tokens after what follows a type argument: a comma with more of the list, or the sign that
    closes it. -/
def afterTypeArgument? (more : List Token → Option (List Token)) : List Token → Option (List Token)
  | ⟨.comma, _⟩ :: rest => more rest
  | ⟨.operator ">", _⟩ :: rest => some rest
  | _ => none

mutual

/-- The tokens after a type. -/
def scanType : Nat → Nat → List Token → Option (List Token)
  | 0, _, _ => none
  | fuel + 1, depth, tokens =>
    if maxNesting < depth then none
    else
      match tokens with
      | ⟨.keyword word, _⟩ :: rest => if word.isPrimitive then some (skipDims rest) else none
      | ⟨.identifier _, _⟩ :: _ => (scanClassType fuel depth tokens).map skipDims
      | _ => none

/-- The tokens after a named type without dimensions. -/
def scanClassType : Nat → Nat → List Token → Option (List Token)
  | fuel + 1, depth, ⟨.identifier _, _⟩ :: rest => do
    let rest ←
      if kindAt rest 0 == .operator "<" then scanTypeArguments fuel (depth + 1) rest.tail
      else some rest
    if startsMember rest then scanClassType fuel depth rest.tail else some rest
  | _, _, _ => none

/-- The tokens after a list of type arguments whose opening sign has been passed. -/
def scanTypeArguments : Nat → Nat → List Token → Option (List Token)
  | 0, _, _ => none
  | fuel + 1, depth, tokens =>
    if kindAt tokens 0 == .operator ">" then some tokens.tail
    else scanArgumentList fuel depth tokens

/-- The tokens after type arguments, of which at least one follows. -/
def scanArgumentList : Nat → Nat → List Token → Option (List Token)
  | 0, _, _ => none
  | fuel + 1, depth, tokens => do
    let rest ←
      match tokens with
      | ⟨.question, _⟩ :: ⟨.keyword .kwExtends, _⟩ :: rest => scanType fuel depth rest
      | ⟨.question, _⟩ :: ⟨.keyword .kwSuper, _⟩ :: rest => scanType fuel depth rest
      | ⟨.question, _⟩ :: rest => some rest
      | _ => scanType fuel depth tokens
    afterTypeArgument? (scanArgumentList fuel depth) rest

end

/-- The tokens after a type at the head of a list.  At most four steps of the scan share a token, so
    the bound is never met. -/
def scanType? (tokens : List Token) : Option (List Token) :=
  scanType (4 * tokens.length + 4) 0 tokens

/-- The tokens after the parenthesis that closes the innermost of `depth` open ones. -/
def afterParens? : Nat → List Token → Option (List Token)
  | _, [] => none
  | depth, token :: rest =>
    match token.kind with
    | .leftParen => afterParens? (depth + 1) rest
    | .rightParen => if depth ≤ 1 then some rest else afterParens? (depth - 1) rest
    | _ => afterParens? depth rest

/-- The tokens after a dotted name, however its points stand. -/
def skipDottedName (tokens : List Token) : List Token :=
  tokens.dropWhile fun token => token.kind.isIdentifier || token.kind == .dot

/-- The tokens after an annotation whose `@` has been passed, or nothing if its parenthesis is not
    closed. -/
def afterAnnotation? (tokens : List Token) : Option (List Token) :=
  let rest := skipDottedName tokens
  if kindAt rest 0 == .leftParen then afterParens? 0 rest else some rest

theorem length_afterParens?_lt {depth : Nat} {tokens rest : List Token}
    (h : afterParens? depth tokens = some rest) : rest.length < tokens.length := by
  fun_induction afterParens? depth tokens with
  | case1 => simp at h
  | case2 depth token tokens _ ih =>
    have := ih h
    simp only [List.length_cons]
    omega
  | case3 depth token tokens _ _ =>
    simp only [Option.some.injEq] at h
    simp [← h]
  | case4 depth token tokens _ _ ih =>
    have := ih h
    simp only [List.length_cons]
    omega
  | case5 depth token tokens _ _ ih =>
    have := ih h
    simp only [List.length_cons]
    omega

theorem length_skipDottedName_le (tokens : List Token) :
    (skipDottedName tokens).length ≤ tokens.length :=
  (List.dropWhile_suffix _).length_le

theorem length_afterAnnotation?_le {tokens rest : List Token}
    (h : afterAnnotation? tokens = some rest) : rest.length ≤ tokens.length := by
  have hle := length_skipDottedName_le tokens
  unfold afterAnnotation? at h
  dsimp only at h
  split at h
  · have := length_afterParens?_lt h
    omega
  · simp only [Option.some.injEq] at h
    exact h ▸ hle

/-- The tokens after modifiers and annotations.  An annotation whose parenthesis is not closed ends
    the search at that parenthesis. -/
def skipModifiers (tokens : List Token) : List Token :=
  match tokens with
  | [] => []
  | token :: rest =>
    match token.kind with
    | .keyword word => if word.isModifier then skipModifiers rest else tokens
    | .at =>
      if kindAt rest 0 == .keyword .kwInterface then tokens
      else
        match _h : afterAnnotation? rest with
        | some after => skipModifiers after
        | none => skipDottedName rest
    | _ => tokens
termination_by tokens.length
decreasing_by
  · simp
  · have := length_afterAnnotation?_le _h
    simp only [List.length_cons]
    omega

/-- Whether `package` follows, possibly after annotations. -/
def startsPackage (tokens : List Token) : Bool :=
  match tokens with
  | [] => false
  | token :: rest =>
    match token.kind with
    | .at =>
      match _h : afterAnnotation? rest with
      | some after => startsPackage after
      | none => false
    | kind => kind == .keyword .kwPackage
termination_by tokens.length
decreasing_by
  have := length_afterAnnotation?_le _h
  simp only [List.length_cons]
  omega

/-- Whether a type and a name follow, possibly after modifiers. -/
def startsLocalVariable (tokens : List Token) : Bool :=
  (scanType? (skipModifiers tokens)).any fun rest => (kindAt rest 0).isIdentifier

/-- Whether a kind of token opens the declaration of a type. -/
def TokenKind.opensType (kind : TokenKind) : Bool :=
  kind == .keyword .kwClass || kind == .keyword .kwInterface || kind == .keyword .kwEnum

/-- Whether the declaration of a type follows, possibly after modifiers. -/
def startsLocalType (tokens : List Token) : Bool :=
  (kindAt (skipModifiers tokens) 0).opensType

/-- Whether a lambda follows: a name or a parenthesis, and an arrow after it. -/
def startsLambda (tokens : List Token) : Bool :=
  match kindAt tokens 0 with
  | .identifier _ => kindAt tokens 1 == .arrow
  | .leftParen => (afterParens? 0 tokens).any (kindAt · 0 == .arrow)
  | _ => false

/-- The kinds of token that start an operand and cannot continue a binary expression. -/
def TokenKind.startsCastOperand : TokenKind → Bool
  | .identifier _ | .leftParen | .integer _ | .long _ | .floating _ => true
  | .char _ | .string _ | .template _ => true
  | .keyword .kwThis | .keyword .kwSuper | .keyword .kwNew => true
  | .keyword .kwTrue | .keyword .kwFalse | .keyword .kwNull => true
  | .operator symbol => symbol == "!" || symbol == "~"
  | _ => false

/-- Whether a kind of token names a primitive type. -/
def TokenKind.isPrimitive : TokenKind → Bool
  | .keyword word => word.isPrimitive
  | _ => false

/-- Whether a cast follows.  A primitive type in parentheses always is one; after any other type the
    operand has to be one that no binary operation could go on with. -/
def startsCast (tokens : List Token) : Bool :=
  kindAt tokens 0 == .leftParen
    && (scanType? tokens.tail).any fun rest =>
      kindAt rest 0 == .rightParen
        && ((kindAt tokens 1).isPrimitive || (kindAt rest 1).startsCastOperand)

/-- The signs that continue an operator whose last sign is `>`: at most `more` further `>`, then
    possibly `=`, each touching the sign before it. -/
def gluedSigns : Nat → Token → List Token → String × Nat
  | _, _, [] => ("", 0)
  | more, last, token :: rest =>
    if last.touches token && token.kind == .operator "=" then ("=", 1)
    else if last.touches token && token.kind == .operator ">" then
      match more with
      | 0 => ("", 0)
      | more + 1 =>
        let (signs, count) := gluedSigns more token rest
        (">" ++ signs, count + 1)
    else ("", 0)

/-- The operator at the head of a list and the number of its tokens. -/
def operatorAhead? : List Token → Option (String × Nat)
  | token :: rest =>
    match token.kind with
    | .operator ">" =>
      let (signs, count) := gluedSigns 2 token rest
      some (">" ++ signs, count + 1)
    | .operator symbol => some (symbol, 1)
    | _ => none
  | [] => none

/-- Whether the closing half of a tag follows: `<` and `/` with nothing between them. -/
def startsClosingTag : List Token → Bool
  | a :: b :: _ => a.kind == .operator "<" && b.kind == .operator "/" && a.touches b
  | _ => false

end CodeMarkup
