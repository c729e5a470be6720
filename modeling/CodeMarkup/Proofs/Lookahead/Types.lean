import CodeMarkup.Grammar.Entry
import CodeMarkup.Proofs.Nesting.Rules
import CodeMarkup.Proofs.Trivia.Alike

namespace CodeMarkup

/-!
# Lookahead of types

Whether a type follows is found out by a scan that makes no nodes and opens no nesting levels.  It
passes over the tokens that the production of types takes, and over no others.

* `Parser.MatchesAt`: a computation takes the tokens that a scan passes, and fails where the scan
  finds nothing.  It may also fail because it nests too deep.
* `Parser.typeArguments_matches`, `Parser.classType_matches`, `Parser.type_matches`: one lemma for
  each production of types, given that the types inside match.
* `Grammar.derive_type_scanType?`: the production of types and the scan agree from every state.
-/

variable {source : Source} {s t : State}

theorem State.advance_rest (s : State) : s.advance.rest = s.rest.tail := by
  unfold State.advance
  cases hrest : s.rest with
  | nil => exact hrest
  | cons token rest => rfl

/-- Taking a token leaves one less. -/
theorem State.length_advance (h : s.rest ≠ []) : s.rest.length = s.advance.rest.length + 1 := by
  have hpos := List.length_pos_iff.2 h
  rw [s.advance_rest, List.length_tail]
  omega

theorem State.length_advance_of_kindAt {kind : TokenKind} (h : (kindAt s.rest 0 == kind) = true)
    (hkind : kind ≠ .eof) : s.rest.length = s.advance.rest.length + 1 :=
  State.length_advance (State.rest_ne_nil_of_kindAt hkind (eq_of_beq h))

theorem TokenKind.isIdentifier_iff {kind : TokenKind} :
    kind.isIdentifier = true ↔ ∃ name, kind = .identifier name := by
  cases kind <;> simp [isIdentifier]

/-- A branch on one of two conditions is taken in two steps. -/
theorem ite_bool_or {α : Type} (a b : Bool) (x y : α) :
    (if (a || b) = true then x else y) = if a then x else if b then x else y := by
  cases a <;> rfl

namespace Parser

variable {α β γ : Type} {x : Parser α} {f : α → Parser β} {scan : Option (List Token)}

/-- A computation that is seen to succeed has a value and a state that it ends in. -/
theorem exists_run_eq_ok {P : State → Prop} [DecidablePred P]
    (h : (match x source s with | .ok _ t => decide (P t) | .error _ _ => false) = true) :
    ∃ a t, x source s = .ok a t ∧ P t := by
  cases hrun : x source s with
  | error error t =>
    rw [hrun] at h
    cases h
  | ok a t =>
    rw [hrun] at h
    exact ⟨a, t, rfl, of_decide_eq_true h⟩

/-! ### Computations and scans -/

/-- From a state on, a computation that succeeds takes the tokens that a scan passes; where it
    fails, the scan finds nothing, or the nesting is too deep. -/
def MatchesAt (source : Source) (s : State) (x : Parser α) (scan : Option (List Token)) : Prop :=
  match x source s with
  | .ok _ t => s.LeadsTo t ∧ scan = some t.rest
  | .error error _ => error.fault = .nestingTooDeep ∨ scan = none

namespace MatchesAt

/-- **Sequences.**  The second part goes on where the first part and its scan have ended. -/
theorem bind {next : List Token → Option (List Token)} (hx : MatchesAt source s x scan)
    (hf : ∀ a t, s.LeadsTo t → MatchesAt source t (f a) (next t.rest)) :
    MatchesAt source s (x >>= f) (scan.bind next) := by
  unfold MatchesAt at hx ⊢
  rw [bind_apply]
  cases hrun : x source s with
  | error error t =>
    rw [hrun] at hx
    rcases hx with hdeep | hnone
    · exact .inl hdeep
    · exact .inr (by rw [hnone, Option.bind_none])
  | ok a t =>
    rw [hrun] at hx
    obtain ⟨hleads, hscan⟩ := hx
    have hnext := hf a t hleads
    unfold MatchesAt at hnext
    rw [hscan, Option.bind_some]
    dsimp only
    cases hrest : f a source t with
    | error error u =>
      rw [hrest] at hnext
      exact hnext
    | ok b u =>
      rw [hrest] at hnext
      exact ⟨hleads.trans hnext.1, hnext.2⟩

theorem pure (a : α) : MatchesAt source s (pure a) (some s.rest) :=
  ⟨.refl s, rfl⟩

/-- What follows a computation and takes no tokens does not matter to the scan. -/
theorem andThen (hx : MatchesAt source s x scan)
    (hf : ∀ a t, MatchesAt source t (f a) (some t.rest)) : MatchesAt source s (x >>= f) scan := by
  have hbind := hx.bind fun a t _ => hf a t
  rwa [show scan.bind (fun rest => some rest) = scan by cases scan <;> rfl] at hbind

theorem fails {error : ParseError} (h : x source s = .error error t) :
    MatchesAt source s x none := by
  unfold MatchesAt
  rw [h]
  exact .inr rfl

theorem unexpected (expected : String) :
    MatchesAt source s (unexpected expected : Parser α) none :=
  fails rfl

theorem bind_assoc {g : β → Parser γ} :
    MatchesAt source s ((x >>= f) >>= g) scan
      ↔ MatchesAt source s (x >>= fun a => f a >>= g) scan := by
  unfold MatchesAt
  simp only [bind_apply]
  cases x source s <;> rfl

theorem get_bind {f : State → Parser β} :
    MatchesAt source s (get >>= f) scan ↔ MatchesAt source s (f s) scan :=
  Iff.rfl

theorem start_bind {f : Nat → Parser β} :
    MatchesAt source s (start >>= f) scan ↔ MatchesAt source s (f s.start) scan :=
  Iff.rfl

theorem ahead_bind {f : List Token → Parser β} :
    MatchesAt source s (ahead >>= f) scan ↔ MatchesAt source s (f s.rest) scan :=
  Iff.rfl

theorem peek_bind {n : Nat} {f : TokenKind → Parser β} :
    MatchesAt source s (peek n >>= f) scan ↔ MatchesAt source s (f (kindAt s.rest n)) scan :=
  Iff.rfl

theorem check_bind {kind : TokenKind} {f : Bool → Parser β} :
    MatchesAt source s (check kind >>= f) scan
      ↔ MatchesAt source s (f (kindAt s.rest 0 == kind)) scan := by
  rw [s.kindAt_rest_zero]
  exact Iff.rfl

/-! ### Tokens and nodes -/

theorem advance_bind {f : Unit → Parser β} (hf : MatchesAt source s.advance (f ()) scan) :
    MatchesAt source s (advance >>= f) scan := by
  have hrun : (advance >>= f) source s = f () source s.advance := rfl
  unfold MatchesAt at hf ⊢
  rw [hrun]
  cases hrest : f () source s.advance with
  | error error t =>
    rw [hrest] at hf
    exact hf
  | ok b t =>
    rw [hrest] at hf
    exact ⟨s.leadsTo_advance.trans hf.1, hf.2⟩

theorem advanceTwo_bind {f : Unit → Parser β}
    (hf : MatchesAt source s.advance.advance (f ()) scan) :
    MatchesAt source s (advanceTwo >>= f) scan := by
  unfold advanceTwo
  rw [bind_assoc]
  exact advance_bind (advance_bind hf)

theorem expect_bind {kind : TokenKind} {f : Unit → Parser β}
    (hf : (kindAt s.rest 0 == kind) = true → MatchesAt source s.advance (f ()) scan) :
    MatchesAt source s (expect kind >>= f)
      (if kindAt s.rest 0 == kind then scan else none) := by
  unfold expect
  rw [bind_assoc, check_bind]
  split
  · next hkind => exact advance_bind (hf hkind)
  · exact fails rfl

theorem accept_bind {kind : TokenKind} {f : Bool → Parser β} {scan' : Option (List Token)}
    (hyes : (kindAt s.rest 0 == kind) = true → MatchesAt source s.advance (f true) scan)
    (hno : MatchesAt source s (f false) scan') :
    MatchesAt source s (accept kind >>= f) (if kindAt s.rest 0 == kind then scan else scan') := by
  unfold accept
  rw [bind_assoc, check_bind]
  split
  · next hkind =>
    rw [bind_assoc]
    exact advance_bind (hyes hkind)
  · exact hno

theorem identifier_bind {expected : String} {f : String → Parser β}
    (hf : ∀ name, (kindAt s.rest 0).isIdentifier = true →
      MatchesAt source s.advance (f name) scan) :
    MatchesAt source s (identifier expected >>= f)
      (if (kindAt s.rest 0).isIdentifier then scan else none) := by
  rw [s.kindAt_rest_zero] at hf ⊢
  rw [identifier, bind_assoc, get_bind]
  split
  · next name hkind =>
    rw [hkind] at hf ⊢
    rw [bind_assoc]
    exact advance_bind (hf name rfl)
  · next hother =>
    have hname : ¬s.current.kind.isIdentifier = true := by
      rintro h
      obtain ⟨name, hname⟩ := TokenKind.isIdentifier_iff.1 h
      exact hother name hname
    rw [if_neg hname]
    exact fails rfl

theorem optional {present : TokenKind} {item : Parser α}
    (hitem : (kindAt s.rest 0 == present) = true → MatchesAt source s item scan) :
    MatchesAt source s (optional (check present) item)
      (if kindAt s.rest 0 == present then scan else some s.rest) := by
  unfold Parser.optional
  rw [check_bind]
  split
  · next hpresent => exact (hitem hpresent).andThen fun a t => .pure (some a)
  · exact .pure none

theorem pushFrom (start : Nat) (kind : NodeKind) :
    MatchesAt source s (pushFrom start kind) (some s.rest) :=
  ⟨⟨⟨[], rfl, rfl⟩, rfl, rfl, by simp⟩, rfl⟩

/-! ### Levels -/

/-- A production that is nested matches if it does so at its level, unless there is no room for
    another one. -/
theorem nested (hopen : s.levels.head? = some s.start → MatchesAt source s x scan)
    (hinner : s.levels.length < maxNesting →
      MatchesAt source { s with levels := s.start :: s.levels } x scan) :
    MatchesAt source s (nested x) scan := by
  by_cases hhead : s.levels.head? = some s.start
  · have hrun : Parser.nested x source s = x source s := if_pos hhead
    unfold MatchesAt
    rw [hrun]
    exact hopen hhead
  · by_cases hdeep : maxNesting ≤ s.levels.length
    · have hrun : Parser.nested x source s = .error ⟨.nestingTooDeep, s.current.span⟩ s := by
        rw [Parser.nested, if_neg hhead, if_pos hdeep]
      unfold MatchesAt
      rw [hrun]
      exact .inl rfl
    · have hmatches := hinner (Nat.lt_of_not_le hdeep)
      unfold MatchesAt at hmatches ⊢
      rw [Parser.nested, if_neg hhead, if_neg hdeep]
      cases hrun : x source { s with levels := s.start :: s.levels } with
      | error error t =>
        rw [hrun] at hmatches
        exact hmatches
      | ok a t =>
        rw [hrun] at hmatches
        obtain ⟨⟨htaken, hstop, hlevels, hnodes⟩, hscan⟩ := hmatches
        exact ⟨⟨htaken, hstop, by rw [hlevels]; rfl, hnodes⟩, hscan⟩

end MatchesAt

/-! ### Types inside a type -/

/-- A state with some levels open, of whose tokens it has the first ones taken. -/
structure Among (levels : List Nat) (tokens : List Token) (s : State) : Prop where
  levels_eq : s.levels = levels
  suffix : s.rest <:+ tokens

/-- The types after the first of some tokens match their scans at a depth, where some levels are
    open. -/
def TypesMatch (p : Productions) (source : Source) (levels : List Nat) (tokens : List Token)
    (depth : Nat) : Prop :=
  ∀ s fuel, Among levels tokens s → s.rest.length < tokens.length →
    4 * s.rest.length + 4 ≤ fuel → MatchesAt source s (p .type) (scanType fuel depth s.rest)

namespace Among

variable {levels : List Nat} {tokens : List Token}

theorem leads (h : Among levels tokens s) (hleads : s.LeadsTo t) : Among levels tokens t :=
  ⟨hleads.levels_eq.trans h.levels_eq, hleads.rest_suffix.trans h.suffix⟩

theorem advance (h : Among levels tokens s) : Among levels tokens s.advance :=
  h.leads s.leadsTo_advance

end Among

section Inner

variable {p : Productions} {levels : List Nat} {tokens : List Token} {depth fuel : Nat}

theorem typeArgument_matches (hp : TypesMatch p source levels tokens depth)
    (hs : Among levels tokens s) (hlt : s.rest.length < tokens.length)
    (hfuel : 4 * s.rest.length + 4 ≤ fuel) :
    MatchesAt source s (Grammar.typeArgument p)
      (if kindAt s.rest 0 == .question then
        if kindAt s.rest 1 == .keyword .kwExtends || kindAt s.rest 1 == .keyword .kwSuper then
          scanType fuel depth s.rest.tail.tail
        else some s.rest.tail
      else scanType fuel depth s.rest) := by
  -- the bound of a wildcard, if it has one, is a type after two tokens
  have hbound : ∀ kind : NodeId → NodeKind, MatchesAt source s.advance.advance
      (p .type >>= fun bound => pushFrom s.start (kind bound))
      (scanType fuel depth s.rest.tail.tail) := by
    intro kind
    have hle := (s.leadsTo_advance.trans s.advance.leadsTo_advance).rest_suffix.length_le
    have htype := hp _ fuel hs.advance.advance (by omega) (by omega)
    rw [s.advance.advance_rest, s.advance_rest] at htype
    exact htype.andThen fun bound t => .pushFrom _ _
  have hnone : MatchesAt source s.advance (pushFrom s.start (.wildcardType none none))
      (some s.rest.tail) := s.advance_rest ▸ .pushFrom _ _
  unfold Grammar.typeArgument
  rw [MatchesAt.check_bind]
  split
  · rw [MatchesAt.start_bind, ← kindAt_advance, ite_bool_or]
    apply MatchesAt.advance_bind
    refine .accept_bind (fun _ => hbound fun bound => .wildcardType (some bound) none) ?_
    exact .accept_bind (fun _ => hbound fun bound => .wildcardType none (some bound)) hnone
  · exact hp s fuel hs hlt hfuel

/-- Where a list of type arguments goes on: more of them after a comma, or the sign that closes
    it. -/
theorem moreArguments_matches (hp : TypesMatch p source levels tokens depth) {rounds : Nat}
    {f : List NodeId → Parser (List NodeId)}
    (hf : ∀ others t, MatchesAt source t (f others) (some t.rest)) (hs : Among levels tokens s)
    (hlt : s.rest.length < tokens.length) (hrounds : s.rest.length < rounds)
    (hfuel : 4 * s.rest.length + 1 ≤ fuel) :
    MatchesAt source s
      (manyWithin (accept .comma) (Grammar.typeArgument p) rounds >>= fun others =>
        expect (.operator ">") >>= fun _ => f others)
      (afterTypeArgument? (scanArgumentList fuel depth) s.rest) := by
  induction rounds generalizing s fuel f with
  | zero => exact absurd hrounds (Nat.not_lt_zero _)
  | succ rounds ih =>
    rw [afterTypeArgument?_eq]
    unfold manyWithin
    rw [MatchesAt.bind_assoc]
    refine .accept_bind (fun hcomma => ?_) (.expect_bind fun _ => ?_)
    · -- another argument, and the rest of the list with less fuel
      have hlength := State.length_advance_of_kindAt hcomma (by decide)
      obtain ⟨less, rfl⟩ : ∃ less, fuel = less + 1 := ⟨fuel - 1, by omega⟩
      rw [← s.advance_rest, scanArgumentList_eq]
      show MatchesAt source s.advance ((Grammar.typeArgument p >>= fun first => _) >>= _) _
      rw [MatchesAt.bind_assoc]
      refine (typeArgument_matches hp hs.advance (by omega) (by omega)).bind fun first t ht => ?_
      have hle := ht.rest_suffix.length_le
      rw [MatchesAt.bind_assoc]
      exact ih (fun others t => hf (first :: others) t) (hs.advance.leads ht) (by omega) (by omega)
        (by omega)
    · rw [← s.advance_rest]
      exact hf [] s.advance

/-- A list of type arguments, from its opening sign on. -/
theorem typeArguments_matches (hp : TypesMatch p source levels tokens depth)
    (hs : Among levels tokens s) (hfuel : 4 * s.rest.length + 2 ≤ fuel) :
    MatchesAt source s (Grammar.typeArguments p)
      (if kindAt s.rest 0 == .operator "<" then scanTypeArguments fuel depth s.rest.tail
      else none) := by
  refine .expect_bind fun hopen => ?_
  have hlength := State.length_advance_of_kindAt hopen (by decide)
  have hall := hs.suffix.length_le
  obtain ⟨less, rfl⟩ : ∃ less, fuel = less + 2 := ⟨fuel - 2, by omega⟩
  rw [← s.advance_rest, scanTypeArguments]
  refine .accept_bind (fun _ => s.advance.advance_rest ▸ .pure []) ?_
  show MatchesAt source s.advance (commaSeparated (Grammar.typeArgument p) >>= _) _
  unfold commaSeparated
  rw [MatchesAt.bind_assoc, scanArgumentList_eq]
  refine (typeArgument_matches hp hs.advance (by omega) (by omega)).bind fun first t ht => ?_
  have hle := ht.rest_suffix.length_le
  rw [MatchesAt.bind_assoc]
  unfold many
  rw [MatchesAt.bind_assoc, MatchesAt.ahead_bind]
  exact moreArguments_matches hp (fun others t => .pure _) (hs.advance.leads ht) (by omega)
    (Nat.lt_succ_self _) (by omega)

/-- One name of a dotted type, with its arguments. -/
theorem typeSegment_matches {origin : Nat} {scope : Option NodeId}
    (hp : TypesMatch p source levels tokens (depth + 1)) (hs : Among levels tokens s)
    (hfuel : 4 * s.rest.length ≤ fuel + 2) :
    MatchesAt source s (Grammar.typeSegment p origin scope)
      (if (kindAt s.rest 0).isIdentifier then
        if kindAt s.rest 1 == .operator "<" then
          scanTypeArguments fuel (depth + 1) s.rest.tail.tail
        else some s.rest.tail
      else none) := by
  refine .identifier_bind fun name hname => ?_
  have hrest : s.rest ≠ [] := by
    intro hnil
    rw [hnil] at hname
    cases hname
  have hlength := State.length_advance hrest
  rw [← kindAt_advance, ← s.advance_rest]
  refine .andThen (.optional fun hopen => ?_) fun arguments t => .pushFrom _ _
  have harguments : MatchesAt source s.advance (Grammar.typeArguments p)
      (if kindAt s.advance.rest 0 == .operator "<" then
        scanTypeArguments fuel (depth + 1) s.advance.rest.tail
      else none) := typeArguments_matches hp hs.advance (by omega)
  rwa [if_pos hopen] at harguments

/-- A scan of a named type passes one name with its arguments, and goes on after it. -/
theorem scanClassType_eq_bind (fuel depth : Nat) (tokens : List Token) :
    scanClassType (fuel + 1) depth tokens =
      (if (kindAt tokens 0).isIdentifier then
        if kindAt tokens 1 == .operator "<" then
          scanTypeArguments fuel (depth + 1) tokens.tail.tail
        else some tokens.tail
      else none).bind fun rest =>
        if startsMember rest then scanClassType fuel depth rest.tail else some rest := by
  rw [scanClassType_eq]
  split <;> rfl

/-- The names of a dotted type after the first. -/
theorem moreSegments_matches {origin rounds : Nat} {scope : NodeId}
    (hp : TypesMatch p source levels tokens (depth + 1)) (hs : Among levels tokens s)
    (hrounds : s.rest.length < rounds) (hfuel : 4 * s.rest.length ≤ fuel) :
    MatchesAt source s
      (extendWithin (fun scope => do
        if startsMember (← ahead) then
          advance
          let inner ← Grammar.typeSegment p origin (some scope)
          return some inner
        else return none) rounds scope)
      (if startsMember s.rest then scanClassType fuel depth s.rest.tail else some s.rest) := by
  induction rounds generalizing s fuel scope with
  | zero => exact absurd hrounds (Nat.not_lt_zero _)
  | succ rounds ih =>
    unfold extendWithin
    rw [MatchesAt.bind_assoc, MatchesAt.ahead_bind]
    split
    · next hmember =>
      have hdot := (Bool.and_eq_true_iff.1 hmember).1
      have hlength := State.length_advance_of_kindAt hdot (by decide)
      obtain ⟨less, rfl⟩ : ∃ less, fuel = less + 1 := ⟨fuel - 1, by omega⟩
      rw [MatchesAt.bind_assoc]
      apply MatchesAt.advance_bind
      rw [MatchesAt.bind_assoc, ← s.advance_rest, scanClassType_eq_bind]
      refine (typeSegment_matches hp hs.advance (by omega)).bind fun inner t ht => ?_
      have hle := ht.rest_suffix.length_le
      exact ih (hs.advance.leads ht) (by omega) (by omega)
    · exact .pure scope

/-- A named type. -/
theorem classType_matches (hp : TypesMatch p source levels tokens (depth + 1))
    (hs : Among levels tokens s) (hfuel : 4 * s.rest.length + 3 ≤ fuel) :
    MatchesAt source s (Grammar.classType p) (scanClassType fuel depth s.rest) := by
  obtain ⟨less, rfl⟩ : ∃ less, fuel = less + 1 := ⟨fuel - 1, by omega⟩
  unfold Grammar.classType
  rw [MatchesAt.start_bind, scanClassType_eq_bind]
  refine (typeSegment_matches hp hs (by omega)).bind fun first t ht => ?_
  have hle := ht.rest_suffix.length_le
  exact moreSegments_matches hp (hs.leads ht) (Nat.lt_succ_self _) (by omega)

/-- Array dimensions. -/
theorem arrayDims_matches (origin : Nat) (type : NodeId) :
    MatchesAt source s (Grammar.arrayDims origin type) (some (skipDims s.rest)) := by
  have hloop : ∀ rounds (s : State) type, s.rest.length < rounds →
      MatchesAt source s
        (extendWithin (fun type => do
          if startsDim (← ahead) then
            advanceTwo
            let wrapped ← pushFrom origin (.arrayType type)
            return some wrapped
          else return none) rounds type)
        (some (skipDims s.rest)) := by
    intro rounds
    induction rounds with
    | zero => exact fun s type hrounds => absurd hrounds (Nat.not_lt_zero _)
    | succ rounds ih =>
      intro s type hrounds
      unfold extendWithin
      rw [MatchesAt.bind_assoc, MatchesAt.ahead_bind, skipDims_eq]
      split
      · next hdim =>
        have hlength := State.length_advance (State.rest_ne_nil_of_test rfl hdim)
        have hle := s.advance.leadsTo_advance.rest_suffix.length_le
        rw [MatchesAt.bind_assoc, ← s.advance_rest, ← s.advance.advance_rest]
        apply MatchesAt.advanceTwo_bind
        rw [MatchesAt.bind_assoc]
        show MatchesAt source s.advance.advance _
          ((some s.advance.advance.rest).bind fun rest => some (skipDims rest))
        refine (MatchesAt.pushFrom _ _).bind fun wrapped t ht => ih t wrapped ?_
        have hle' := ht.rest_suffix.length_le
        omega
      · exact .pure type
  exact hloop _ s type (Nat.lt_succ_self _)

/-- The tokens after a type without dimensions. -/
def scanNonArrayType (fuel depth : Nat) (tokens : List Token) : Option (List Token) :=
  match kindAt tokens 0 with
  | .keyword word => if word.isPrimitive then some tokens.tail else none
  | .identifier _ => scanClassType fuel depth tokens
  | _ => none

theorem scanType_eq_bind (fuel : Nat) (tokens : List Token) (hdepth : depth ≤ maxNesting) :
    scanType (fuel + 1) depth tokens =
      (scanNonArrayType fuel depth tokens).bind fun rest => some (skipDims rest) := by
  rw [scanType_eq, if_neg (Nat.not_lt.2 hdepth), scanNonArrayType]
  cases kindAt tokens 0 with
  | keyword word =>
    dsimp only
    split <;> rfl
  | identifier name => exact Option.map_eq_bind
  | _ => rfl

theorem nonArrayType_matches (hp : TypesMatch p source levels tokens (depth + 1))
    (hs : Among levels tokens s) (hfuel : 4 * s.rest.length + 3 ≤ fuel) :
    MatchesAt source s (Grammar.nonArrayType p) (scanNonArrayType fuel depth s.rest) := by
  unfold Grammar.nonArrayType scanNonArrayType
  rw [MatchesAt.peek_bind]
  cases kindAt s.rest 0 with
  | keyword word =>
    dsimp only
    split
    · rw [MatchesAt.start_bind, ← s.advance_rest]
      exact .advance_bind (.pushFrom _ _)
    · exact .unexpected _
  | identifier name => exact classType_matches hp hs hfuel
  | _ => exact .unexpected _

/-- A type, within its level. -/
theorem arrayType_matches (hp : TypesMatch p source levels tokens (depth + 1))
    (hs : Among levels tokens s) (hdepth : depth ≤ maxNesting)
    (hfuel : 4 * s.rest.length + 4 ≤ fuel) :
    MatchesAt source s (start >>= fun origin => Grammar.nonArrayType p >>= Grammar.arrayDims origin)
      (scanType fuel depth s.rest) := by
  obtain ⟨less, rfl⟩ : ∃ less, fuel = less + 1 := ⟨fuel - 1, by omega⟩
  rw [MatchesAt.start_bind, scanType_eq_bind less s.rest hdepth]
  refine (nonArrayType_matches hp hs (by omega)).bind fun base t _ => ?_
  exact arrayDims_matches s.start base

end Inner

end Parser

namespace Grammar

open Parser

/-- The innermost open level starts before all tokens that are left. -/
def IsPastLevels (s : State) : Prop :=
  ∀ level ∈ s.levels.head?, ∀ token ∈ s.rest, level < token.span.start

/-- A token that starts where the innermost level does is not past it. -/
theorem IsPastLevels.rest_eq_nil (h : IsPastLevels s) (hhead : s.levels.head? = some s.start) :
    s.rest = [] := by
  cases hrest : s.rest with
  | nil => rfl
  | cons token rest =>
    have hstart : s.start = token.span.start := by
      rw [State.start, State.current, hrest]
      rfl
    have hlt := h s.start hhead token (by rw [hrest]; exact List.mem_cons_self)
    omega

/-- Tokens after the first start after it. -/
theorem start_lt_of_mem {tokens : List Token} {token : Token}
    (horder : s.rest.Pairwise (·.span.start < ·.span.start)) (hsuffix : tokens <:+ s.rest)
    (hlt : tokens.length < s.rest.length) (htoken : token ∈ tokens) :
    s.start < token.span.start := by
  cases hrest : s.rest with
  | nil =>
    rw [hrest] at hlt
    exact absurd hlt (Nat.not_lt_zero _)
  | cons first rest =>
    rw [hrest] at horder hsuffix hlt
    have hstart : s.start = first.span.start := by
      rw [State.start, State.current, hrest]
      rfl
    rcases List.suffix_cons_iff.1 hsuffix with heq | hsuffix
    · rw [heq] at hlt
      exact absurd hlt (Nat.lt_irrefl _)
    · rw [hstart]
      exact (List.pairwise_cons.1 horder).1 token (hsuffix.mem htoken)

theorem scanType_nil (fuel depth : Nat) : scanType fuel depth [] = none := by
  cases fuel with
  | zero => rw [scanType]
  | succ fuel =>
    rw [scanType_eq]
    split <;> rfl

/-- **Types match their scans.**  Scanning a type inside others has a depth for each level that they
    have opened. -/
theorem derive_type_matches (n : Nat) {depth fuel : Nat}
    (horder : s.rest.Pairwise (·.span.start < ·.span.start)) (hdepth : depth ≤ s.levels.length)
    (hpast : depth = 0 ∨ IsPastLevels s) (hn : s.rest.length < n)
    (hfuel : 4 * s.rest.length + 4 ≤ fuel) :
    MatchesAt source s (derive n .type) (scanType fuel depth s.rest) := by
  induction n generalizing s depth fuel with
  | zero => exact absurd hn (Nat.not_lt_zero _)
  | succ n ih =>
    -- types further on are inside the level of this one, which starts before them
    have hinner : ∀ levels, levels.head? = some s.start → depth + 1 ≤ levels.length →
        TypesMatch (derive n) source levels s.rest (depth + 1) := by
      intro levels hhead hlength t fuel ht hlt hfuel
      have hstarts := horder.sublist ht.suffix.sublist
      refine ih hstarts (by rw [ht.levels_eq]; exact hlength) (.inr ?_) (by omega) hfuel
      intro level hlevel token htoken
      rw [ht.levels_eq, hhead] at hlevel
      cases hlevel
      exact start_lt_of_mem horder ht.suffix hlt htoken
    refine MatchesAt.nested (fun hhead => ?_) fun hroom => ?_
    · rcases hpast with rfl | hpast
      · -- the outermost type shares its level with what it is part of
        have hlength : 0 < s.levels.length := by
          rw [List.length_pos_iff]
          intro hnil
          rw [hnil] at hhead
          cases hhead
        exact arrayType_matches (hinner _ hhead hlength) ⟨rfl, List.suffix_refl _⟩
          (Nat.zero_le _) hfuel
      · -- otherwise only the mark at the end can start with the level
        obtain ⟨taken, rest, stop, nodes, levels⟩ := s
        obtain rfl : rest = [] := hpast.rest_eq_nil hhead
        rw [scanType_nil]
        exact .fails rfl
    · have hlength : depth + 1 ≤ (s.start :: s.levels).length := Nat.succ_le_succ hdepth
      exact arrayType_matches (hinner _ rfl hlength) ⟨rfl, List.suffix_refl _⟩ (by omega) hfuel

/-- **The lookahead agrees with the production of types.**  From every state, whatever levels are
    open in it: where a type is read, the scan passes its tokens; and where the scan passes some
    tokens, a type is read from them, unless it nests too deep. -/
theorem derive_type_scanType? (source : Source) (s : State) (fuel : Nat)
    (horder : s.rest.Pairwise (·.span.start < ·.span.start)) (hfuel : s.rest.length < fuel) :
    (∀ id t, derive fuel .type source s = .ok id t → scanType? s.rest = some t.rest)
      ∧ ∀ rest, scanType? s.rest = some rest →
        (∃ id t, derive fuel .type source s = .ok id t ∧ t.rest = rest)
          ∨ ∃ error t, derive fuel .type source s = .error error t
            ∧ error.fault = .nestingTooDeep := by
  have hmatches : MatchesAt source s (derive fuel .type) (scanType? s.rest) :=
    derive_type_matches fuel horder (Nat.zero_le _) (.inl rfl) hfuel (Nat.le_refl _)
  unfold MatchesAt at hmatches
  cases hrun : derive fuel .type source s with
  | error error t =>
    rw [hrun] at hmatches
    refine ⟨nofun, fun rest hscan => .inr ⟨error, t, rfl, ?_⟩⟩
    rcases hmatches with hdeep | hnone
    · exact hdeep
    · rw [hnone] at hscan
      cases hscan
  | ok id t =>
    rw [hrun] at hmatches
    obtain ⟨-, hscan⟩ := hmatches
    rw [hscan]
    refine ⟨?_, fun rest hrest => .inl ⟨id, t, rfl, Option.some.inj hrest⟩⟩
    rintro _ _ ⟨⟩
    rfl

/-- Type arguments two deep, a wildcard, dimensions inside and outside, and a name after them. -/
def nestedArguments : Source :=
  .ofText "Map<K, List<? extends V[]>>[] x"

/-- The state in which the tokens of `nestedArguments` are read. -/
def nestedArguments.state : State :=
  .ofTokens (nestedArguments.tokens.toOption.getD [])

/-- Production and scan both stop before the name. -/
theorem derive_type_scanType?_nestedArguments :
    nestedArguments.state.rest.Pairwise (·.span.start < ·.span.start)
      ∧ nestedArguments.state.rest.length < 17
      ∧ ∃ id t, derive 17 .type nestedArguments nestedArguments.state = .ok id t
        ∧ scanType? nestedArguments.state.rest = some t.rest
        ∧ t.rest = [⟨.identifier "x", ⟨30, 31⟩⟩] := by
  have horder : nestedArguments.state.rest.Pairwise (·.span.start < ·.span.start) := by
    decide +kernel
  have hfuel : nestedArguments.state.rest.length < 17 := by decide +kernel
  obtain ⟨id, t, hrun, hname⟩ : ∃ id t,
      derive 17 .type nestedArguments nestedArguments.state = .ok id t
      ∧ t.rest = [⟨.identifier "x", ⟨30, 31⟩⟩] :=
    exists_run_eq_ok (by decide +kernel)
  have hagree := derive_type_scanType? nestedArguments nestedArguments.state 17 horder hfuel
  exact ⟨horder, hfuel, id, t, hrun, hagree.1 id t hrun, hname⟩

end Grammar

end CodeMarkup
