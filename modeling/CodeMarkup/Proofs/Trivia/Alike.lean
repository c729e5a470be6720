import CodeMarkup.Grammar.Expressions

namespace CodeMarkup

/-!
# Token lists that look alike

Two lists of tokens look alike if their kinds are the same and the same neighbours touch.  Blanks
and comments are all that can tell them apart.  Every function that looks ahead says the same of
such lists.

* `Alike`: lists that look alike.
* `Alike.scanType?`, `Alike.skipModifiers`, `Alike.afterParens?`: the tokens after some construct
  look alike again.
* `Alike.operatorAhead?_eq`, `Alike.startsCast_eq` and so on: the same is found ahead.
-/

/-! ### Scans by the kinds of tokens

A scan matches on tokens with their spans.  The equations here say what it does in terms of kinds
alone. -/

/-- A token of some kind at the head of a list. -/
theorem cons_of_kindAt {tokens : List Token} {kind : TokenKind}
    (h : (kindAt tokens 0 == kind) = true) (hkind : kind ≠ .eof) :
    ∃ span rest, tokens = ⟨kind, span⟩ :: rest := by
  have hkindAt := eq_of_beq h
  cases tokens with
  | nil => exact absurd hkindAt.symm hkind
  | cons token rest => exact ⟨token.span, rest, by rw [← hkindAt]; rfl⟩

theorem skipDims_eq (tokens : List Token) :
    skipDims tokens = if startsDim tokens then skipDims tokens.tail.tail else tokens := by
  rw [skipDims.eq_def]
  split
  · rfl
  · next hpair =>
    -- the match took its last case, so the kinds cannot be those of a pair of brackets
    rw [if_neg]
    intro h
    rw [startsDim, Bool.and_eq_true] at h
    obtain ⟨span, rest, rfl⟩ := cons_of_kindAt h.1 (by decide)
    obtain ⟨span', rest', rfl⟩ := cons_of_kindAt (h.2 : (kindAt rest 0 == .rightBracket) = true)
      (by decide)
    exact hpair span span' rest' rfl

theorem scanType_eq (fuel depth : Nat) (tokens : List Token) :
    scanType (fuel + 1) depth tokens =
      if maxNesting < depth then none
      else
        match kindAt tokens 0 with
        | .keyword word => if word.isPrimitive then some (skipDims tokens.tail) else none
        | .identifier _ => (scanClassType fuel depth tokens).map skipDims
        | _ => none := by
  rw [scanType.eq_def]
  dsimp only
  split
  · rfl
  · cases tokens with
    | nil => rfl
    | cons token rest =>
      obtain ⟨kind, span⟩ := token
      cases kind <;> rfl

theorem scanClassType_eq (fuel depth : Nat) (tokens : List Token) :
    scanClassType (fuel + 1) depth tokens =
      if (kindAt tokens 0).isIdentifier then
        (if kindAt tokens 1 == .operator "<" then
          scanTypeArguments fuel (depth + 1) tokens.tail.tail
        else some tokens.tail).bind fun rest =>
        if startsMember rest then scanClassType fuel depth rest.tail else some rest
      else none := by
  rw [scanClassType.eq_def]
  cases tokens with
  | nil => rfl
  | cons token rest =>
    obtain ⟨kind, span⟩ := token
    cases kind with
    | identifier name =>
      -- the rest of the scan stands in both branches on the left, and after them on the right
      show (if kindAt rest 0 == .operator "<" then _ else _)
        = Option.bind (if kindAt rest 0 == .operator "<" then _ else _) _
      split <;> rfl
    | _ => rfl

theorem afterTypeArgument?_eq (more : List Token → Option (List Token)) (tokens : List Token) :
    afterTypeArgument? more tokens =
      if kindAt tokens 0 == .comma then more tokens.tail
      else if kindAt tokens 0 == .operator ">" then some tokens.tail else none := by
  rw [afterTypeArgument?.eq_def]
  split
  · rfl
  · rfl
  · next hcomma hclose =>
    rw [if_neg, if_neg]
    · intro h
      obtain ⟨span, rest, rfl⟩ := cons_of_kindAt h (by decide)
      exact hclose span rest rfl
    · intro h
      obtain ⟨span, rest, rfl⟩ := cons_of_kindAt h (by decide)
      exact hcomma span rest rfl

theorem scanArgumentList_eq (fuel depth : Nat) (tokens : List Token) :
    scanArgumentList (fuel + 1) depth tokens =
      (if kindAt tokens 0 == .question then
        if kindAt tokens 1 == .keyword .kwExtends || kindAt tokens 1 == .keyword .kwSuper then
          scanType fuel depth tokens.tail.tail
        else some tokens.tail
      else scanType fuel depth tokens).bind
        (afterTypeArgument? (scanArgumentList fuel depth)) := by
  rw [scanArgumentList.eq_def]
  dsimp only
  split
  · rfl
  · rfl
  · next span rest hextends hsuper =>
    -- a wildcard without a bound: neither of the two cases above has matched
    have hbound :
        ¬(kindAt rest 0 == .keyword .kwExtends || kindAt rest 0 == .keyword .kwSuper) := by
      intro h
      rw [Bool.or_eq_true] at h
      rcases h with h | h
      · obtain ⟨span', rest', rfl⟩ := cons_of_kindAt h (by decide)
        exact hextends span' rest' rfl
      · obtain ⟨span', rest', rfl⟩ := cons_of_kindAt h (by decide)
        exact hsuper span' rest' rfl
    rw [if_pos (by rfl), if_neg]
    · rfl
    · exact hbound
  · next hextends hsuper hquestion =>
    rw [if_neg]
    · rfl
    · intro h
      obtain ⟨span, rest, rfl⟩ := cons_of_kindAt h (by decide)
      exact hquestion span rest rfl

theorem skipModifiers_cons (token : Token) (rest : List Token) :
    skipModifiers (token :: rest) =
      match token.kind with
      | .keyword word => if word.isModifier then skipModifiers rest else token :: rest
      | .at =>
        if kindAt rest 0 == .keyword .kwInterface then token :: rest
        else ((afterAnnotation? rest).map skipModifiers).getD (skipDottedName rest)
      | _ => token :: rest := by
  rw [skipModifiers]
  obtain ⟨kind, span⟩ := token
  cases kind with
  | «at» =>
    dsimp only
    split
    · rfl
    · split
      · next after hafter =>
        rw [hafter]
        rfl
      · next hafter =>
        rw [hafter]
        rfl
  | _ => rfl

theorem startsPackage_cons (token : Token) (rest : List Token) :
    startsPackage (token :: rest) =
      match token.kind with
      | .at => ((afterAnnotation? rest).map startsPackage).getD false
      | kind => kind == .keyword .kwPackage := by
  rw [startsPackage]
  obtain ⟨kind, span⟩ := token
  cases kind with
  | «at» =>
    dsimp only
    split
    · next after hafter =>
      rw [hafter]
      rfl
    · next hafter =>
      rw [hafter]
      rfl
  | _ => rfl

/-! ### Looking alike -/

/-- Lists of tokens with the same kinds, of which the same neighbours touch. -/
inductive Alike : List Token → List Token → Prop where
  | nil : Alike [] []
  | cons {x y : Token} {xs ys : List Token} (hkind : x.kind = y.kind)
      (htouches : xs.head?.any x.touches = ys.head?.any y.touches) (h : Alike xs ys) :
      Alike (x :: xs) (y :: ys)

namespace Alike

variable {xs ys : List Token}

theorem refl (tokens : List Token) : Alike tokens tokens := by
  induction tokens with
  | nil => exact .nil
  | cons _ _ ih => exact .cons rfl rfl ih

theorem length_eq (h : Alike xs ys) : xs.length = ys.length := by
  induction h with
  | nil => rfl
  | cons _ _ _ ih => rw [List.length_cons, List.length_cons, ih]

theorem kindAt_eq (h : Alike xs ys) (n : Nat) : kindAt xs n = kindAt ys n := by
  induction h generalizing n with
  | nil => rfl
  | cons hkind _ _ ih =>
    cases n with
    | zero => exact hkind
    | succ n => exact ih n

theorem tail (h : Alike xs ys) : Alike xs.tail ys.tail := by
  cases h with
  | nil => exact .nil
  | cons _ _ h => exact h

theorem isEmpty_eq (h : Alike xs ys) : xs.isEmpty = ys.isEmpty := by
  cases h <;> rfl

theorem dropWhile (p : TokenKind → Bool) (h : Alike xs ys) :
    Alike (xs.dropWhile fun token => p token.kind) (ys.dropWhile fun token => p token.kind) := by
  induction h with
  | nil => exact .nil
  | cons hkind htouches h ih =>
    rw [List.dropWhile_cons, List.dropWhile_cons, hkind]
    split
    · exact ih
    · exact .cons hkind htouches h

/-- Lists look alike if their kinds are the same and the same neighbours touch. -/
theorem of_kinds {xs ys : List Token} (hkinds : xs.map Token.kind = ys.map Token.kind)
    (hadjacent : ∀ i (_ : i + 1 < xs.length) (_ : i + 1 < ys.length),
      xs[i].span.stop = xs[i + 1].span.start ↔ ys[i].span.stop = ys[i + 1].span.start) :
    Alike xs ys := by
  induction xs generalizing ys with
  | nil =>
    rw [List.map_nil, eq_comm, List.map_eq_nil_iff] at hkinds
    rw [hkinds]
    exact .nil
  | cons x xs ih =>
    cases ys with
    | nil => cases hkinds
    | cons y ys =>
      rw [List.map_cons, List.map_cons, List.cons.injEq] at hkinds
      refine .cons hkinds.1 ?_ (ih hkinds.2 fun i hi hi' => ?_)
      -- what the first token touches is the neighbour at index 0
      · have hlength : xs.length = ys.length := by simpa using congrArg List.length hkinds.2
        cases xs with
        | nil =>
          rw [List.eq_nil_of_length_eq_zero hlength.symm]
          rfl
        | cons x' xs =>
          cases ys with
          | nil => cases hlength
          | cons y' ys =>
            have hfirst := hadjacent 0 (by simp) (by simp)
            show (x.span.stop == x'.span.start) = (y.span.stop == y'.span.start)
            rw [Bool.eq_iff_iff, beq_iff_eq, beq_iff_eq]
            exact hfirst
      -- the neighbours of the tails are those one further on
      · exact hadjacent (i + 1) (Nat.succ_lt_succ hi) (Nat.succ_lt_succ hi')

/-- Lists that look alike still do so without their marks. -/
theorem of_concat {xs ys : List Token} {x y : Token} (h : Alike (xs ++ [x]) (ys ++ [y])) :
    Alike xs ys := by
  induction xs generalizing ys with
  | nil =>
    have hlength := h.length_eq
    cases ys with
    | nil => exact .nil
    | cons y' ys => simp at hlength
  | cons x' xs ih =>
    have hlength := h.length_eq
    cases ys with
    | nil => simp at hlength
    | cons y' ys =>
      cases h with
      | cons hkind htouches h =>
        refine .cons hkind ?_ (ih h)
        -- only the last token before the mark loses its neighbour, and it does so in both lists
        cases xs with
        | nil =>
          cases ys with
          | nil => rfl
          | cons => simp at hlength
        | cons =>
          cases ys with
          | nil => simp at hlength
          | cons => exact htouches

/-! ### Lists that may be missing -/

section Missing

variable {x y : Option (List Token)} {f g : List Token → Option (List Token)}

theorem bind (h : Option.Rel Alike x y)
    (hf : ∀ xs ys, Alike xs ys → Option.Rel Alike (f xs) (g ys)) :
    Option.Rel Alike (x.bind f) (y.bind g) := by
  cases h with
  | none => exact .none
  | some h => exact hf _ _ h

theorem map {f g : List Token → List Token} (h : Option.Rel Alike x y)
    (hf : ∀ xs ys, Alike xs ys → Alike (f xs) (g ys)) : Option.Rel Alike (x.map f) (y.map g) := by
  cases h with
  | none => exact .none
  | some h => exact .some (hf _ _ h)

theorem any_eq {p q : List Token → Bool} (h : Option.Rel Alike x y)
    (hp : ∀ xs ys, Alike xs ys → p xs = q ys) : x.any p = y.any q := by
  cases h with
  | none => rfl
  | some h => exact hp _ _ h

/-- What holds where no list is found and wherever one is found, holds of what is made of it. -/
theorem elim {α : Type} {P : α → α → Prop} {f g : List Token → α} {a b : α}
    (h : Option.Rel Alike x y) (hnone : P a b)
    (hsome : ∀ xs, x = some xs → ∀ ys, Alike xs ys → P (f xs) (g ys)) :
    P ((x.map f).getD a) ((y.map g).getD b) := by
  cases h with
  | none => exact hnone
  | some h => exact hsome _ rfl _ h

end Missing

/-! ### Types -/

theorem startsDim_eq (h : Alike xs ys) : startsDim xs = startsDim ys := by
  rw [startsDim, startsDim, h.kindAt_eq, h.kindAt_eq]

theorem startsMember_eq (h : Alike xs ys) : startsMember xs = startsMember ys := by
  rw [startsMember, startsMember, h.kindAt_eq, h.kindAt_eq]

theorem skipDims {xs ys : List Token} (h : Alike xs ys) :
    Alike (CodeMarkup.skipDims xs) (CodeMarkup.skipDims ys) := by
  rw [skipDims_eq xs, skipDims_eq ys, h.startsDim_eq]
  split
  · next hdim =>
    -- two tokens fewer, which is what the recursion decreases on
    have hlt : xs.tail.tail.length < xs.length := by
      rw [← h.startsDim_eq, startsDim, Bool.and_eq_true] at hdim
      obtain ⟨span, rest, rfl⟩ := cons_of_kindAt hdim.1 (by decide)
      rw [List.tail_cons, List.length_tail, List.length_cons]
      omega
    exact h.tail.tail.skipDims
  · exact h
termination_by xs.length

/-- The scans of a type and of its parts stop at lists that look alike. -/
theorem scan (fuel : Nat) : ∀ depth xs ys, Alike xs ys →
    Option.Rel Alike (scanType fuel depth xs) (scanType fuel depth ys)
    ∧ Option.Rel Alike (scanClassType fuel depth xs) (scanClassType fuel depth ys)
    ∧ Option.Rel Alike (scanTypeArguments fuel depth xs) (scanTypeArguments fuel depth ys)
    ∧ Option.Rel Alike (scanArgumentList fuel depth xs) (scanArgumentList fuel depth ys) := by
  -- the four scans call each other with less fuel, so all are shown together
  induction fuel with
  | zero =>
    intro depth xs ys _
    refine ⟨?_, ?_, ?_, ?_⟩
    · rw [scanType, scanType]
      exact .none
    · rw [scanClassType.eq_def, scanClassType.eq_def]
      exact .none
    · rw [scanTypeArguments, scanTypeArguments]
      exact .none
    · rw [scanArgumentList, scanArgumentList]
      exact .none
  | succ fuel ih =>
    intro depth xs ys h
    refine ⟨?_, ?_, ?_, ?_⟩
    · rw [scanType_eq, scanType_eq, h.kindAt_eq]
      split
      · exact .none
      · split
        · split
          · exact .some h.tail.skipDims
          · exact .none
        · exact map (ih depth xs ys h).2.1 fun _ _ h => h.skipDims
        · exact .none
    · rw [scanClassType_eq, scanClassType_eq, h.kindAt_eq, h.kindAt_eq]
      split
      -- the arguments of one segment first, then the segments after it
      · refine bind ?_ fun xs ys h => ?_
        · split
          · exact (ih _ _ _ h.tail.tail).2.2.1
          · exact .some h.tail
        · rw [h.startsMember_eq]
          split
          · exact (ih _ _ _ h.tail).2.1
          · exact .some h
      · exact .none
    · rw [scanTypeArguments, scanTypeArguments, h.kindAt_eq]
      split
      · exact .some h.tail
      · exact (ih _ _ _ h).2.2.2
    · rw [scanArgumentList_eq, scanArgumentList_eq, h.kindAt_eq, h.kindAt_eq]
      refine bind ?_ fun xs ys h => ?_
      · split
        · split
          · exact (ih _ _ _ h.tail.tail).1
          · exact .some h.tail
        · exact (ih _ _ _ h).1
      · rw [afterTypeArgument?_eq, afterTypeArgument?_eq, h.kindAt_eq]
        split
        · exact (ih _ _ _ h.tail).2.2.2
        · split
          · exact .some h.tail
          · exact .none

theorem scanType? (h : Alike xs ys) :
    Option.Rel Alike (CodeMarkup.scanType? xs) (CodeMarkup.scanType? ys) := by
  rw [CodeMarkup.scanType?, CodeMarkup.scanType?, h.length_eq]
  exact (scan _ _ _ _ h).1

/-! ### Parentheses, annotations and modifiers -/

theorem afterParens? (h : Alike xs ys) (depth : Nat) :
    Option.Rel Alike (CodeMarkup.afterParens? depth xs) (CodeMarkup.afterParens? depth ys) := by
  induction h generalizing depth with
  | nil => exact .none
  | cons hkind _ h ih =>
    rw [CodeMarkup.afterParens?, CodeMarkup.afterParens?, hkind]
    split
    · exact ih _
    · split
      · exact .some h
      · exact ih _
    · exact ih _

theorem skipDottedName (h : Alike xs ys) :
    Alike (CodeMarkup.skipDottedName xs) (CodeMarkup.skipDottedName ys) :=
  h.dropWhile fun kind => kind.isIdentifier || kind == .dot

theorem afterAnnotation? (h : Alike xs ys) :
    Option.Rel Alike (CodeMarkup.afterAnnotation? xs) (CodeMarkup.afterAnnotation? ys) := by
  unfold CodeMarkup.afterAnnotation?
  dsimp only
  rw [h.skipDottedName.kindAt_eq]
  split
  · exact h.skipDottedName.afterParens? 0
  · exact .some h.skipDottedName

theorem skipModifiers {xs ys : List Token} (h : Alike xs ys) :
    Alike (CodeMarkup.skipModifiers xs) (CodeMarkup.skipModifiers ys) := by
  cases h with
  | nil =>
    rw [CodeMarkup.skipModifiers]
    exact .nil
  | @cons x y xs ys hkind htouches h =>
    rw [skipModifiers_cons, skipModifiers_cons, hkind]
    split
    · split
      · exact h.skipModifiers
      · exact .cons hkind htouches h
    · rw [h.kindAt_eq]
      split
      · exact .cons hkind htouches h
      -- an annotation: its end is found at lists that look alike, and closer to the end
      · refine elim h.afterAnnotation? h.skipDottedName fun rest hrest rest' hafter => ?_
        have hle := length_afterAnnotation?_le hrest
        exact hafter.skipModifiers
    · exact .cons hkind htouches h
termination_by xs.length
decreasing_by
  · simp
  · simp
    omega

theorem startsPackage_eq {xs ys : List Token} (h : Alike xs ys) :
    startsPackage xs = startsPackage ys := by
  cases h with
  | nil => rfl
  | @cons x y xs ys hkind htouches h =>
    rw [startsPackage_cons, startsPackage_cons, hkind]
    split
    · refine elim h.afterAnnotation? rfl fun rest hrest rest' hafter => ?_
      have hle := length_afterAnnotation?_le hrest
      exact hafter.startsPackage_eq
    · rfl
termination_by xs.length
decreasing_by
  simp
  omega

theorem startsLocalVariable_eq (h : Alike xs ys) :
    startsLocalVariable xs = startsLocalVariable ys := by
  refine any_eq h.skipModifiers.scanType? fun xs ys h => ?_
  rw [h.kindAt_eq]

theorem startsLocalType_eq (h : Alike xs ys) : startsLocalType xs = startsLocalType ys := by
  rw [startsLocalType, startsLocalType, h.skipModifiers.kindAt_eq]

/-! ### Lambdas, casts and class literals -/

theorem startsLambda_eq (h : Alike xs ys) : startsLambda xs = startsLambda ys := by
  rw [startsLambda, startsLambda, h.kindAt_eq, h.kindAt_eq]
  split
  · rfl
  · refine any_eq (h.afterParens? 0) fun xs ys h => ?_
    rw [h.kindAt_eq]
  · rfl

theorem startsCast_eq (h : Alike xs ys) : startsCast xs = startsCast ys := by
  rw [startsCast, startsCast, h.kindAt_eq]
  -- the token inside the parentheses counts too, so both lists stay in view
  refine congrArg _ (any_eq h.tail.scanType? fun xs' ys' h' => ?_)
  rw [h'.kindAt_eq, h'.kindAt_eq, h.kindAt_eq]

theorem startsClass_eq (h : Alike xs ys) : Grammar.startsClass xs = Grammar.startsClass ys := by
  rw [Grammar.startsClass, Grammar.startsClass, h.kindAt_eq, h.kindAt_eq]

/-! ### Operators and tags

Here it counts which tokens touch. -/

/-- The signs after a token that touch it. -/
theorem gluedSigns_eq {x y : Token} (h : Alike (x :: xs) (y :: ys)) (more : Nat) :
    gluedSigns more x xs = gluedSigns more y ys := by
  induction more generalizing x y xs ys with
  | zero =>
    cases h with
    | cons _ htouches h =>
      cases h with
      | nil => rfl
      | cons hkind _ _ =>
        rw [List.head?_cons, List.head?_cons, Option.any_some, Option.any_some] at htouches
        rw [gluedSigns, gluedSigns, htouches, hkind]
  | succ more ih =>
    cases h with
    | cons _ htouches h =>
      cases h with
      | nil => rfl
      | cons hkind htouches' h' =>
        rw [List.head?_cons, List.head?_cons, Option.any_some, Option.any_some] at htouches
        rw [gluedSigns, gluedSigns, htouches, hkind, ih (.cons hkind htouches' h')]

theorem operatorAhead?_eq (h : Alike xs ys) : operatorAhead? xs = operatorAhead? ys := by
  cases h with
  | nil => rfl
  | cons hkind htouches h =>
    rw [operatorAhead?, operatorAhead?, hkind, gluedSigns_eq (.cons hkind htouches h)]

theorem assignmentAhead?_eq (h : Alike xs ys) :
    Grammar.assignmentAhead? xs = Grammar.assignmentAhead? ys := by
  rw [Grammar.assignmentAhead?, Grammar.assignmentAhead?, h.operatorAhead?_eq]

theorem startsClosingTag_eq (h : Alike xs ys) : startsClosingTag xs = startsClosingTag ys := by
  cases h with
  | nil => rfl
  | cons hkind htouches h =>
    cases h with
    | nil => rfl
    | cons hkind' _ _ =>
      rw [List.head?_cons, List.head?_cons, Option.any_some, Option.any_some] at htouches
      rw [startsClosingTag, startsClosingTag, hkind, hkind', htouches]

end Alike

end CodeMarkup
