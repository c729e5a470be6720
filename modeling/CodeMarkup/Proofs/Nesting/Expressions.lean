import CodeMarkup.Grammar.Expressions
import CodeMarkup.Proofs.Nesting.Markup

namespace CodeMarkup

/-!
# Braces of expressions

A class body after `new` opens one brace itself, and its members may open another before they come
to a level: an expression may stand wherever two braces are allowed.

* `block_fits`, `classBody_fits`: the braces that expressions share with statements and
  declarations.
* `primary_fits`, `unary_fits`, `operation_fits`, `conditional_fits`: expressions that open no level
  themselves.
* `expression_fits`: those that do, which leave one brace of three unused.
-/

open Parser

/-! ### Tokens of operators -/

theorem gluedSigns_kinds (more : Nat) (last : Token) (tokens : List Token) :
    ∀ n < (gluedSigns more last tokens).2, kindAt tokens n ≠ .leftBrace := by
  fun_induction gluedSigns more last tokens with
  | case1 => nofun
  | case2 more last token rest hequals =>
    simp only [Bool.and_eq_true, beq_iff_eq] at hequals
    intro n hn
    obtain rfl : n = 0 := Nat.lt_one_iff.1 hn
    show token.kind ≠ _
    simp [hequals.2]
  | case3 => nofun
  | case4 last token rest _ hcloses more signs count heq ih =>
    simp only [Bool.and_eq_true, beq_iff_eq] at hcloses
    rw [heq] at ih
    intro n hn
    cases n with
    | zero =>
      show token.kind ≠ _
      simp [hcloses.2]
    | succ n => exact ih n (Nat.lt_of_succ_lt_succ hn)
  | case5 => nofun

/-- An operator is joined from signs only. -/
theorem operatorAhead?_kinds {tokens : List Token} {symbol : String} {count : Nat}
    (h : operatorAhead? tokens = some (symbol, count)) :
    ∀ n < count, kindAt tokens n ≠ .leftBrace := by
  cases tokens with
  | nil => cases h
  | cons token rest =>
    unfold operatorAhead? at h
    dsimp only at h
    have hhead : ∀ sign, token.kind = .operator sign →
        kindAt (token :: rest) 0 ≠ .leftBrace := by
      intro sign hsign
      show token.kind ≠ _
      simp [hsign]
    split at h
    · next hsign =>
      cases h
      intro n hn
      cases n with
      | zero => exact hhead _ hsign
      | succ n => exact gluedSigns_kinds 2 token rest n (Nat.lt_of_succ_lt_succ hn)
    · next sign _ hsign =>
      cases h
      intro n hn
      obtain rfl : n = 0 := Nat.lt_one_iff.1 hn
      exact hhead _ hsign
    · cases h

namespace Grammar

variable {p : Productions} {source : Source} {s : State} {k c : Nat}

theorem advanceBy_closes {count : Nat} (hs : s.Allows source k c)
    (hkinds : ∀ n < count, kindAt s.rest n ≠ .leftBrace) :
    ClosesAt source s k 0 (advanceBy count) := by
  induction count generalizing s with
  | zero => exact Closes.pure () source s k hs
  | succ count ih =>
    intro a t h
    have hpasses := advance_passesBraces hs (current_kind_ne (hkinds 0 (Nat.succ_pos _)))
    refine hpasses.trans (ih (hpasses.allows hs) (fun n hn => ?_) a t h)
    rw [kindAt_advance]
    exact hkinds (n + 1) (Nat.succ_lt_succ hn)

theorem classLiteral_fits {type : Parser NodeId} (htype : Fits c type) :
    Fits c (classLiteral type) := by
  apply Closes.bind start_fits
  intro origin
  apply Closes.bind htype
  intro found
  exact Closes.token nofun (Closes.token nofun (pushFrom_fits _ _))

theorem referenceName_fits : Fits c referenceName :=
  Closes.branch (accept_fits nofun) (.pure _) (identifier_fits _)

section

variable (hp : p.Fit)

include hp

/-! ### Parts of blocks and bodies -/

theorem block_fits : Fits (c + 1) (block p) := by
  apply Closes.bind start_fits
  intro origin
  apply Closes.opening
  -- the loop ends at the closing brace, which is taken without another test
  refine Closes.manyWhile (fun s => !(s.current.kind == .rightBrace)) (fun _ _ => rfl) ?_ ?_
  · intro source s k hs _
    exact Closes.branch atEnd_fits (unexpected_closes _) hp.statement source s k hs
  · intro statements source s k hs hend
    have hkind : s.current.kind = .rightBrace := by simpa using hend
    exact ClosesAt.closing hs hkind (pushFrom_fits _ _)

theorem members_fits : Fits (c + 1) (members p) := by
  refine Closes.bind (many_fits (notAt_fits _) ?_) fun items => .pure _
  refine Closes.branch atEnd_fits (unexpected_closes _) ?_
  refine Closes.branch (accept_fits nofun) (.pure _) ?_
  exact Closes.bind hp.bodyDeclaration fun member => .pure _

theorem classBody_fits : Fits (c + 2) (classBody p) := by
  apply Closes.opening
  apply Closes.bind (members_fits hp)
  intro found
  exact Closes.closing (.pure _)

theorem arguments_fits : Fits c (arguments p) := by
  refine Closes.token nofun ?_
  refine Closes.branch (accept_fits nofun) (.pure _) ?_
  apply Closes.bind (commaSeparated_fits hp.expression)
  intro found
  exact Closes.token nofun (.pure _)

/-! ### Lambdas and creation -/

theorem lambdaParameter_fits : Fits c (lambdaParameter p) := by
  apply Closes.bind (peek_fits 1)
  intro next
  apply Closes.bind (peek_fits 0)
  intro kind
  split
  · apply Closes.bind start_fits
    intro origin
    exact Closes.bind (identifier_fits _) fun name => pushFrom_fits _ _
  · exact parameter_fits hp

theorem lambda_fits : Fits (c + 1) (lambda p) := by
  apply Closes.bind start_fits
  intro origin
  refine Closes.bind (accept_fits nofun) fun parenthesized => ?_
  -- the arrow and the body, after parameters with or without parentheses
  have hrest : ∀ parameters : List NodeId, Fits (c + 1) (do
      expect .arrow
      let body ← if ← check .leftBrace then block p else p .expression
      pushFrom origin (.lambda parameters body parenthesized)) := by
    intro parameters
    refine Closes.token nofun ?_
    refine Closes.branch (check_fits _) ?_ ?_
    · exact Closes.bind (block_fits hp) fun body => pushFrom_fits _ _
    · exact Closes.bind hp.expression fun body => pushFrom_fits _ _
  split
  · refine Closes.bind (listUntil_fits nofun (lambdaParameter_fits hp)) fun found => ?_
    exact Closes.token nofun (hrest found)
  · exact Closes.bind (lambdaParameter_fits hp) fun only => hrest [only]

theorem creationDims_fits : Fits c (creationDims p) := by
  refine extend_fits (fun (sizes, unsized) => ?_) _
  refine Closes.branch (accept_fits nofun) ?_ (.pure _)
  refine Closes.branch (accept_fits nofun) (.pure _) ?_
  split
  · exact unexpected_closes _
  · apply Closes.bind hp.expression
    intro size
    exact Closes.token nofun (.pure _)

theorem creation_fits (scope : Option NodeId) (origin : Nat) :
    Fits (c + 2) (creation p scope origin) := by
  refine Closes.token nofun ?_
  apply Closes.bind (nonArrayType_fits hp)
  intro type
  refine Closes.branch (check_fits _) ?_ ?_
  · apply Closes.bind (creationDims_fits hp)
    rintro ⟨sizes, unsized⟩
    apply Closes.bind (optional_fits (check_fits _) hp.arrayInitializer)
    intro init
    split
    · exact unexpected_closes _
    · exact pushFrom_fits _ _
  · apply Closes.bind (arguments_fits hp)
    intro found
    apply Closes.bind (optional_fits (check_fits _) (classBody_fits hp))
    intro body
    exact pushFrom_fits _ _

/-! ### Primary expressions -/

theorem namePrimary_closes {name : String} (hs : s.Allows source k c)
    (hkind : kindAt s.rest 0 = .identifier name) :
    ClosesAt source s k 0 (namePrimary p name) := by
  unfold namePrimary
  rw [closesAt_start, closesAt_ahead]
  dsimp only
  split
  · exact classLiteral_fits hp.type source s k hs
  · split
    · exact hp.type source s k hs
    · refine .advance hs (by simp [hkind]) ?_
      refine Closes.branch (check_fits _) ?_ (pushFrom_fits _ _)
      exact Closes.bind (arguments_fits hp) fun found => pushFrom_fits _ _

theorem primitivePrimary_closes {word : Keyword} (hs : s.Allows source k c)
    (hkind : kindAt s.rest 0 = .keyword word) :
    ClosesAt source s k 0 (primitivePrimary p word) := by
  unfold primitivePrimary
  rw [closesAt_start, closesAt_ahead]
  dsimp only
  split
  · exact classLiteral_fits hp.type source s k hs
  · split
    · exact hp.type source s k hs
    · exact .advance hs (by simp [hkind]) (pushFrom_fits _ _)

theorem primary_fits : Fits (c + 2) (primary p) := by
  intro source s k hs
  unfold primary
  rw [closesAt_start, closesAt_peek]
  split
  · next form hform =>
    exact .advance hs (ne_leftBrace_of_read rfl hform) (pushFrom_fits _ _)
  · split
    · next raw hraw => exact template_closes hp hs (s.kindAt_rest_zero ▸ hraw)
    · exact creation_fits hp none _ source s k hs
    · exact classLiteral_fits (typeOrVoid_fits hp) source s k hs
    · next word _ _ hword =>
      split
      · exact primitivePrimary_closes hp hs hword
      · exact unexpected_closes _ source s k hs
    · next name hname => exact namePrimary_closes hp hs hname
    · next hparen =>
      refine .advance hs (by simp [hparen]) ?_
      apply Closes.bind hp.expression
      intro inner
      exact Closes.token nofun (pushFrom_fits _ _)
    · exact jsonObject_fits hp source s k hs
    · exact jsonArray_fits hp source s k hs
    · exact tag_fits hp source s k hs
    · exact unexpected_closes _ source s k hs

/-! ### Operators after an expression -/

theorem member_fits (scope : NodeId) (origin : Nat) : Fits (c + 2) (member p scope origin) := by
  intro source s k hs
  unfold member
  rw [closesAt_peek]
  split
  · refine Closes.bind (typeArguments_fits hp) (fun types => ?_) source s k hs
    apply Closes.bind (identifier_fits _)
    intro name
    exact Closes.bind (arguments_fits hp) fun found => pushFrom_fits _ _
  · next name hname =>
    refine .advance hs (by simp [hname]) ?_
    refine Closes.branch (check_fits _) ?_ (pushFrom_fits _ _)
    exact Closes.bind (arguments_fits hp) fun found => pushFrom_fits _ _
  · next hthis => exact .advance hs (by simp [hthis]) (pushFrom_fits _ _)
  · next hsuper => exact .advance hs (by simp [hsuper]) (pushFrom_fits _ _)
  · exact creation_fits hp (some scope) origin source s k hs
  · exact unexpected_closes _ source s k hs

theorem suffix_fits (origin : Nat) (id : NodeId) : Fits (c + 2) (suffix p origin id) := by
  intro source s k hs
  unfold suffix
  rw [closesAt_peek]
  split
  · next hdot => exact .advance hs (by simp [hdot]) (Closes.map (member_fits hp id origin))
  · next hbracket =>
    refine .advance hs (by simp [hbracket]) ?_
    apply Closes.bind hp.expression
    intro index
    exact Closes.token nofun (Closes.map (pushFrom_fits _ _))
  · next hcolons =>
    refine .advance hs (by simp [hcolons]) ?_
    exact Closes.bind referenceName_fits fun name => Closes.map (pushFrom_fits _ _)
  · next hplus => exact .advance hs (by simp [hplus]) (Closes.map (pushFrom_fits _ _))
  · next hminus => exact .advance hs (by simp [hminus]) (Closes.map (pushFrom_fits _ _))
  · exact Closes.pure none source s k hs

theorem suffixed_fits : Fits (c + 2) (suffixed p) := by
  apply Closes.bind start_fits
  intro origin
  exact Closes.bind (primary_fits hp) fun first => extend_fits (suffix_fits hp origin) first

/-! ### Operators before and between expressions -/

theorem unary_fits : Fits (c + 2) (unary p) := by
  intro source s k hs
  unfold unary
  rw [closesAt_start, closesAt_peek]
  split
  · next op hop =>
    refine .advance hs (ne_leftBrace_of_read rfl hop) ?_
    exact Closes.bind (nested_fits hp.unary) fun operand => pushFrom_fits _ _
  · rw [closesAt_ahead]
    split
    · next hcast =>
      have hparen : kindAt s.rest 0 = .leftParen := by
        simp only [startsCast, Bool.and_eq_true, beq_iff_eq] at hcast
        exact hcast.1
      refine .advance hs (by simp [hparen]) ?_
      apply Closes.bind hp.type
      intro type
      refine Closes.token nofun ?_
      exact Closes.bind (nested_fits hp.unary) fun operand => pushFrom_fits _ _
    · exact suffixed_fits hp source s k hs

theorem operation_fits (power origin : Nat) (left : NodeId) :
    Fits (c + 2) (operation p power origin left) := by
  intro source s k hs
  unfold operation
  rw [closesAt_ahead]
  split
  · next hinstance =>
    split
    · exact Closes.pure none source s k hs
    · refine .advance hs (by simp [eq_of_beq hinstance]) ?_
      apply Closes.bind hp.type
      intro type
      exact Closes.map (pushFrom_fits _ _)
  · split
    · exact Closes.pure none source s k hs
    · next symbol count hoperator =>
      refine .bind (kindOf_fits left source s k hs) fun form t hrun ht => ?_
      -- reading the form of the left operand leaves the tokens ahead where they are
      obtain rfl := eq_of_kindOf hrun
      split
      · exact Closes.pure none source t k hs
      · split
        · exact Closes.pure none source t k hs
        · split
          · exact Closes.pure none source t k hs
          · refine .bind (advanceBy_closes hs (operatorAhead?_kinds hoperator)) fun _ u _ hu => ?_
            refine Closes.bind (hp.binary _) (fun right => ?_) source u k (hu.allows hs)
            exact Closes.map (pushFrom_fits _ _)

theorem binary_fits (power : Nat) : Fits (c + 2) (binary p power) := by
  apply Closes.bind start_fits
  intro origin
  exact Closes.bind hp.unary fun first => extend_fits (operation_fits hp power origin) first

theorem conditional_fits : Fits (c + 2) (conditional p) := by
  apply Closes.bind start_fits
  intro origin
  apply Closes.bind (hp.binary 0)
  intro condition
  refine Closes.branch (accept_fits nofun) ?_ (.pure condition)
  apply Closes.bind hp.expression
  intro yes
  refine Closes.token nofun ?_
  apply Closes.bind ahead_fits
  intro tokens
  split
  · exact Closes.bind (lambda_fits hp) fun no => pushFrom_fits _ _
  · exact Closes.bind (nested_fits hp.conditional) fun no => pushFrom_fits _ _

theorem expression_fits : Fits c (expression p) := by
  apply nested_fits
  apply Closes.bind ahead_fits
  intro tokens
  split
  · exact lambda_fits hp
  · apply Closes.bind start_fits
    intro origin
    apply Closes.bind hp.conditional
    intro target source s k hs
    rw [closesAt_ahead]
    split
    · next op count hassignment =>
      obtain ⟨⟨symbol, signs⟩, hoperator, hop⟩ := Option.bind_eq_some_iff.1 hassignment
      obtain ⟨found, -, hfound⟩ := Option.bind_eq_some_iff.1 hop
      cases hfound
      refine .bind (advanceBy_closes hs (operatorAhead?_kinds hoperator)) fun _ t _ ht => ?_
      exact Closes.bind hp.expression (fun value => pushFrom_fits _ _) source t k (ht.allows hs)
    · exact Closes.pure target source s k hs

end

end Grammar

end CodeMarkup
