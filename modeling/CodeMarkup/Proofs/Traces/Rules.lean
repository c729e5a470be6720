import CodeMarkup.Proofs.Nesting.Rules
import CodeMarkup.Proofs.Traces.Trace

namespace CodeMarkup.Parser

/-!
# Rules for traces

The traces of the computations that all productions are made of.

* `Traced`: a computation that leaves a trace wherever it succeeds; `TracedAt` is the same from one
  state.  `Traced.bind` is the rule for sequences.
* `Traced.opening`, `Traced.closing`: a parenthesis at the head of a sequence.
* `nested_traced`, `onTokens_traced`, `pushFrom_traced`: levels, other tokens and nodes.
* `many_traced`, `extend_traced`, `listUntil_traced`: loops.
* `extend_run`, `extend_stops`: what every round of a loop preserves holds where it ends.
-/

variable {α β : Type} {source : Source} {s t : State} {d : Nat} {x : Parser α} {f : α → Parser β}

/-- From a state on, a computation that succeeds leaves a trace, in which it closes `d`
    parentheses. -/
def TracedAt (source : Source) (s : State) (d : Nat) (x : Parser α) : Prop :=
  ∀ a t, x source s = .ok a t → Trace d s.rest s.nodes t.rest t.nodes

/-- A computation that leaves a trace wherever it succeeds. -/
def Traced (d : Nat) (x : Parser α) : Prop :=
  ∀ source s, TracedAt source s d x

/-! ### Sequences and branches -/

theorem TracedAt.bind (hx : TracedAt source s 0 x)
    (hf : ∀ a t, x source s = .ok a t → TracedAt source t d (f a)) :
    TracedAt source s d (x >>= f) := by
  intro b u h
  obtain ⟨a, t, hrun, hrest⟩ := bind_eq_ok h
  have htrace := (hx a t hrun).trans (hf a t hrun b u hrest)
  rwa [Nat.zero_add] at htrace

/-- **Sequences.**  Parentheses that are open at the start may be closed by the second part. -/
theorem Traced.bind (hx : Traced 0 x) (hf : ∀ a, Traced d (f a)) : Traced d (x >>= f) :=
  fun source s => .bind (hx source s) fun a t _ => hf a source t

theorem Traced.pure (a : α) : Traced 0 (pure a) := by
  intro source s b t h
  cases h
  exact .done _ _

theorem Traced.map {g : α → β} (hx : Traced 0 x) : Traced 0 (g <$> x) :=
  Traced.bind hx fun a => .pure (g a)

theorem Traced.discard (hx : Traced 0 x) : Traced 0 (discard x) :=
  hx.map

theorem Traced.branch {test : Parser Bool} {yes no : Parser α} (htest : Traced 0 test)
    (hyes : Traced d yes) (hno : Traced d no) :
    Traced d (test >>= fun found => if found then yes else no) := by
  refine Traced.bind htest fun found => ?_
  cases found with
  | true => exact hyes
  | false => exact hno

/-! ### Reading and failing -/

/-- A computation that only reads the state. -/
theorem traced_of_reads (h : ∀ source s, ∃ a, x source s = .ok a s) : Traced 0 x := by
  intro source s a t hrun
  obtain ⟨b, hb⟩ := h source s
  rw [hb] at hrun
  cases hrun
  exact .done _ _

theorem get_traced : Traced 0 (get : Parser State) :=
  traced_of_reads fun _ _ => ⟨_, rfl⟩

theorem read_traced : Traced 0 (read : Parser Source) :=
  traced_of_reads fun _ _ => ⟨_, rfl⟩

theorem start_traced : Traced 0 start :=
  traced_of_reads fun _ _ => ⟨_, rfl⟩

theorem ahead_traced : Traced 0 ahead :=
  traced_of_reads fun _ _ => ⟨_, rfl⟩

theorem peek_traced (n : Nat) : Traced 0 (peek n) :=
  traced_of_reads fun _ _ => ⟨_, rfl⟩

theorem atEnd_traced : Traced 0 atEnd :=
  traced_of_reads fun _ _ => ⟨_, rfl⟩

theorem check_traced (kind : TokenKind) : Traced 0 (check kind) :=
  traced_of_reads fun _ _ => ⟨_, rfl⟩

theorem notAt_traced (kind : TokenKind) : Traced 0 (do return !(← check kind)) :=
  traced_of_reads fun _ _ => ⟨_, rfl⟩

/-- A test of the tokens ahead. -/
theorem test_traced {g : List Token → Bool} : Traced 0 (do return g (← ahead)) :=
  traced_of_reads fun _ _ => ⟨_, rfl⟩

theorem lookup_traced (id : NodeId) : Traced 0 (lookup id) := by
  intro source s node t h
  obtain rfl := eq_of_lookup h
  exact .done _ _

theorem kindOf_traced (id : NodeId) : Traced 0 (kindOf id) :=
  Traced.bind (lookup_traced id) fun _ => .pure _

theorem spanOf_traced (id : NodeId) : Traced 0 (spanOf id) :=
  Traced.bind (lookup_traced id) fun _ => .pure _

/-- A computation that always fails. -/
theorem traced_of_fails (h : ∀ source s, ∃ error t, x source s = .error error t) :
    Traced d x := by
  intro source s a t hrun
  obtain ⟨error, u, herror⟩ := h source s
  rw [herror] at hrun
  cases hrun

theorem fail_traced (fault : Fault) (span : Span) : Traced d (fail fault span : Parser α) :=
  traced_of_fails fun _ _ => ⟨_, _, rfl⟩

theorem unexpected_traced (expected : String) : Traced d (unexpected expected : Parser α) :=
  traced_of_fails fun _ _ => ⟨_, _, rfl⟩

theorem exhausted_traced : Traced d (exhausted : Parser α) :=
  traced_of_fails fun _ _ => ⟨_, _, rfl⟩

section Reading

variable {n : Nat} {kind : TokenKind}

theorem tracedAt_start {f : Nat → Parser β} :
    TracedAt source s d (start >>= f) ↔ TracedAt source s d (f s.start) :=
  Iff.rfl

theorem tracedAt_get {f : State → Parser β} :
    TracedAt source s d (get >>= f) ↔ TracedAt source s d (f s) :=
  Iff.rfl

theorem tracedAt_ahead {f : List Token → Parser β} :
    TracedAt source s d (ahead >>= f) ↔ TracedAt source s d (f s.rest) :=
  Iff.rfl

theorem tracedAt_peek {f : TokenKind → Parser β} :
    TracedAt source s d (peek n >>= f) ↔ TracedAt source s d (f (kindAt s.rest n)) :=
  Iff.rfl

theorem tracedAt_check {f : Bool → Parser β} :
    TracedAt source s d (check kind >>= f) ↔ TracedAt source s d (f (kindAt s.rest 0 == kind)) := by
  rw [s.kindAt_rest_zero]
  exact Iff.rfl

end Reading

/-! ### Tokens -/

/-- The token at hand and what follows it; at the end nothing is taken. -/
theorem rest_eq_cons_or (s : State) :
    s.rest = s.current :: s.advance.rest ∨ (s.rest = [] ∧ s.advance = s) := by
  unfold State.advance State.current
  cases hrest : s.rest with
  | nil => exact .inr ⟨rfl, rfl⟩
  | cons token rest => exact .inl rfl

theorem advance_nodes (s : State) : s.advance.nodes = s.nodes := by
  unfold State.advance
  cases s.rest <;> rfl

/-- A token that is no parenthesis may be taken anywhere. -/
theorem advance_trace {rest : List Token} {made : Array Node}
    (hkind : s.current.kind.isParen = false)
    (h : Trace d s.advance.rest s.advance.nodes rest made) :
    Trace d s.rest s.nodes rest made := by
  rw [advance_nodes] at h
  rcases rest_eq_cons_or s with hrest | ⟨-, hsame⟩
  · rw [hrest]
    exact .token hkind h
  · rwa [hsame] at h

/-- A token other than the mark at the end is the first of those left. -/
theorem rest_eq_cons {kind : TokenKind} (hkind : s.current.kind = kind) (hne : kind ≠ .eof) :
    s.rest = s.current :: s.advance.rest := by
  rcases rest_eq_cons_or s with hrest | ⟨hrest, -⟩
  · exact hrest
  · exact absurd hrest (State.rest_ne_nil_of_kind hne hkind)

theorem opening_trace {rest : List Token} {made : Array Node} (hkind : s.current.kind = .leftParen)
    (h : Trace (d + 1) s.advance.rest s.advance.nodes rest made) :
    Trace d s.rest s.nodes rest made := by
  rw [rest_eq_cons hkind nofun]
  rw [advance_nodes] at h
  exact .opening hkind h

theorem closing_trace {rest : List Token} {made : Array Node} (hkind : s.current.kind = .rightParen)
    (h : Trace d s.advance.rest s.advance.nodes rest made) :
    Trace (d + 1) s.rest s.nodes rest made := by
  rw [rest_eq_cons hkind nofun]
  rw [advance_nodes] at h
  exact .closing hkind h

theorem TracedAt.advance {f : Unit → Parser β} (hkind : (kindAt s.rest 0).isParen = false)
    (hf : Traced d (f ())) : TracedAt source s d (advance >>= f) := by
  intro b t h
  rw [s.kindAt_rest_zero] at hkind
  exact advance_trace hkind (hf source s.advance b t h)

theorem TracedAt.advanceTwo {f : Unit → Parser β} (hfirst : (kindAt s.rest 0).isParen = false)
    (hsecond : (kindAt s.rest 1).isParen = false) (hf : Traced d (f ())) :
    TracedAt source s d (advanceTwo >>= f) := by
  intro b t h
  rw [s.kindAt_rest_zero] at hfirst
  rw [← kindAt_advance, s.advance.kindAt_rest_zero] at hsecond
  exact advance_trace hfirst (advance_trace hsecond (hf source s.advance.advance b t h))

/-- An opening parenthesis that is known to be the next token. -/
theorem TracedAt.opening {f : Unit → Parser β} (hkind : kindAt s.rest 0 = .leftParen)
    (hf : Traced (d + 1) (f ())) : TracedAt source s d (Parser.advance >>= f) := by
  intro b t h
  rw [s.kindAt_rest_zero] at hkind
  exact opening_trace hkind (hf source s.advance b t h)

theorem expect_traced {kind : TokenKind} (hkind : kind.isParen = false) :
    Traced 0 (expect kind) := by
  intro source s a t h
  obtain ⟨rfl, rfl⟩ := expect_eq_ok h
  exact advance_trace hkind (.done _ _)

theorem Traced.token {kind : TokenKind} {f : Unit → Parser β} (hkind : kind.isParen = false)
    (hf : Traced d (f ())) : Traced d (expect kind >>= f) :=
  Traced.bind (expect_traced hkind) fun _ => hf

/-- **An opening parenthesis.** -/
theorem Traced.opening {f : Unit → Parser β} (hf : Traced (d + 1) (f ())) :
    Traced d (expect .leftParen >>= f) := by
  intro source s b t h
  obtain ⟨_, _, hexpect, hrest⟩ := bind_eq_ok h
  obtain ⟨hkind, rfl⟩ := expect_eq_ok hexpect
  exact opening_trace hkind (hf source s.advance b t hrest)

/-- **A closing parenthesis.** -/
theorem Traced.closing {f : Unit → Parser β} (hf : Traced d (f ())) :
    Traced (d + 1) (expect .rightParen >>= f) := by
  intro source s b t h
  obtain ⟨_, _, hexpect, hrest⟩ := bind_eq_ok h
  obtain ⟨hkind, rfl⟩ := expect_eq_ok hexpect
  exact closing_trace hkind (hf source s.advance b t hrest)

theorem accept_traced {kind : TokenKind} (hkind : kind.isParen = false) :
    Traced 0 (accept kind) := by
  intro source s found t h
  obtain ⟨-, rfl, rfl⟩ | ⟨-, -, rfl⟩ := accept_eq_ok h
  · exact advance_trace hkind (.done _ _)
  · exact .done _ _

/-- An opening parenthesis, if there is one. -/
theorem Traced.acceptOpening {f : Bool → Parser β} (hyes : Traced (d + 1) (f true))
    (hno : Traced d (f false)) : Traced d (accept .leftParen >>= f) := by
  intro source s b t h
  obtain ⟨found, _, haccept, hrest⟩ := bind_eq_ok h
  obtain ⟨rfl, hkind, rfl⟩ | ⟨rfl, -, rfl⟩ := accept_eq_ok haccept
  · exact opening_trace hkind (hyes source s.advance b t hrest)
  · exact hno source _ b t hrest

/-- A closing parenthesis, if it follows at once. -/
theorem Traced.acceptClosing {f : Bool → Parser β} (hyes : Traced d (f true))
    (hno : Traced (d + 1) (f false)) : Traced (d + 1) (accept .rightParen >>= f) := by
  intro source s b t h
  obtain ⟨found, _, haccept, hrest⟩ := bind_eq_ok h
  obtain ⟨rfl, hkind, rfl⟩ | ⟨rfl, -, rfl⟩ := accept_eq_ok haccept
  · exact closing_trace hkind (hyes source s.advance b t hrest)
  · exact hno source _ b t hrest

/-- A kind that is known is seen to be no parenthesis. -/
theorem isParen_of_eq {kind known : TokenKind} (h : kind = known) (hknown : known.isParen = false) :
    kind.isParen = false := by
  rw [h]
  exact hknown

theorem isParen_of_beq {kind known : TokenKind} (h : (kind == known) = true)
    (hknown : known.isParen = false) : kind.isParen = false :=
  isParen_of_eq (eq_of_beq h) hknown

/-- What is read off a token and cannot be read off a parenthesis. -/
theorem isParen_of_read {g : TokenKind → Option α} {kind : TokenKind} {a : α}
    (hleft : g .leftParen = none) (hright : g .rightParen = none) (h : g kind = some a) :
    kind.isParen = false := by
  cases kind with
  | leftParen => cases hleft.symm.trans h
  | rightParen => cases hright.symm.trans h
  | _ => rfl

theorem identifier_traced (expected : String) : Traced 0 (identifier expected) := by
  intro source s
  unfold identifier
  rw [tracedAt_get]
  split
  · next name hkind =>
    exact .advance (isParen_of_eq (s.kindAt_rest_zero.trans hkind) rfl) (Traced.pure name)
  · exact unexpected_traced expected source s

theorem expectEnd_traced : Traced 0 expectEnd := by
  intro source s a t h
  obtain ⟨-, rfl⟩ := expectEnd_eq_ok h
  exact .done _ _

/-! ### Levels, other tokens and nodes -/

/-- A production that succeeds in a level of its own succeeds in another state with the same tokens
    and nodes. -/
theorem nested_eq_ok {a : α} (h : nested x source s = .ok a t) :
    ∃ u v, x source u = .ok a v ∧ u.rest = s.rest ∧ u.nodes = s.nodes ∧ v.rest = t.rest
      ∧ v.nodes = t.nodes := by
  unfold nested at h
  split at h
  · exact ⟨s, t, h, rfl, rfl, rfl, rfl⟩
  · split at h
    · cases h
    · cases hrun : x source { s with levels := s.start :: s.levels } with
      | error error u =>
        rw [hrun] at h
        cases h
      | ok b u =>
        rw [hrun] at h
        cases h
        exact ⟨_, u, hrun, rfl, rfl, rfl, rfl⟩

/-- Levels leave no trace. -/
theorem nested_traced (hx : Traced 0 x) : Traced 0 (nested x) := by
  intro source s a t h
  obtain ⟨u, v, hrun, hrest, hnodes, hrest', hnodes'⟩ := nested_eq_ok h
  have htrace := hx source u a v hrun
  rwa [hrest, hnodes, hrest', hnodes'] at htrace

theorem onTokens_traced {tokens : List Token} (hx : Traced 0 x) : Traced 0 (onTokens tokens x) := by
  intro source s a t h
  unfold onTokens at h
  dsimp only at h
  split at h
  · next b after hrun =>
    cases h
    have hinside := hx source _ a after hrun
    exact .inner hinside (.done _ _)
  · cases h

theorem push_traced {kind : NodeKind} (hkind : kind.isCompound = false) (span : Span)
    (unannotatedStart : Option Nat) : Traced 0 (push kind span unannotatedStart) := by
  intro source s id t h
  cases h
  exact .node (NodeKind.isGrouped_of_not_isCompound hkind _) (.done _ _)

theorem pushFrom_traced {kind : NodeKind} (hkind : kind.isCompound = false) (start : Nat) :
    Traced 0 (pushFrom start kind) :=
  Traced.bind get_traced fun _ => push_traced hkind _ none

/-- A node that asks something of the forms of its parts. -/
theorem TracedAt.pushFrom {kind : NodeKind} (hkind : kind.IsGrouped s.nodes) (start : Nat) :
    TracedAt source s 0 (pushFrom start kind) := by
  intro id t h
  cases h
  exact .node hkind (.done _ _)

theorem pushModified_traced {kind : NodeKind} (hkind : kind.isCompound = false)
    (front : Grammar.Modifiers) : Traced 0 (Grammar.pushModified front kind) :=
  Traced.bind get_traced fun _ => push_traced hkind _ _

/-! ### Loops -/

section Loops

variable {more present : Parser Bool} {item : Parser α}

theorem manyWithin_traced (hmore : Traced 0 more) (hitem : Traced 0 item) (rounds : Nat) :
    Traced 0 (manyWithin more item rounds) := by
  induction rounds with
  | zero => exact exhausted_traced
  | succ rounds ih =>
    refine Traced.branch hmore ?_ (.pure [])
    apply Traced.bind hitem
    intro first
    exact Traced.bind ih fun others => .pure _

theorem many_traced (hmore : Traced 0 more) (hitem : Traced 0 item) : Traced 0 (many more item) :=
  Traced.bind ahead_traced fun _ => manyWithin_traced hmore hitem _

theorem commaSeparated_traced (hitem : Traced 0 item) : Traced 0 (commaSeparated item) := by
  apply Traced.bind hitem
  intro first
  exact Traced.bind (many_traced (accept_traced rfl) hitem) fun others => .pure _

/-- The rounds of a loop whose test only reads the state start where the test says yes. -/
theorem manyWithin_tracedWhile {test : State → Bool}
    (hmore : ∀ source s, more source s = .ok (test s) s)
    (hitem : ∀ source s, test s = true → TracedAt source s 0 item) (rounds : Nat) :
    Traced 0 (manyWithin more item rounds) := by
  induction rounds with
  | zero => exact exhausted_traced
  | succ rounds ih =>
    intro source s found t h
    obtain ⟨yes, _, htest, h⟩ := bind_eq_ok h
    rw [hmore] at htest
    cases htest
    split at h
    · next hyes =>
      refine TracedAt.bind (hitem source s hyes) (fun first u _ => ?_) found t h
      exact Traced.bind ih (fun others => .pure _) source u
    · cases h
      exact .done _ _

/-- A loop with such a test, and what follows it where the test says no. -/
theorem Traced.manyWhile (test : State → Bool) {f : List α → Parser β}
    (hmore : ∀ source s, more source s = .ok (test s) s)
    (hitem : ∀ source s, test s = true → TracedAt source s 0 item)
    (hf : ∀ found source s, test s = false → TracedAt source s d (f found)) :
    Traced d (many more item >>= f) := by
  intro source s
  have hmany : TracedAt source s 0 (many more item) :=
    manyWithin_tracedWhile hmore hitem _ source s
  exact .bind hmany fun found t hrun => hf found source t (manyWithin_stops hmore hrun)

theorem listUntilWithin_traced {close separator : TokenKind}
    (hseparator : separator.isParen = false) (hitem : Traced 0 item) (rounds : Nat) :
    Traced 0 (listUntilWithin close separator item rounds) := by
  induction rounds with
  | zero => exact exhausted_traced
  | succ rounds ih =>
    refine Traced.branch (check_traced close) (.pure []) ?_
    apply Traced.bind hitem
    intro first
    refine Traced.branch (accept_traced hseparator) ?_ (.pure _)
    exact Traced.bind ih fun others => .pure _

theorem listUntil_traced {close separator : TokenKind} (hseparator : separator.isParen = false)
    (hitem : Traced 0 item) : Traced 0 (listUntil close separator item) :=
  Traced.bind ahead_traced fun _ => listUntilWithin_traced hseparator hitem _

/-- **Loops.**  What every round preserves, of the value and the state, holds before the round that
    ends the loop. -/
theorem extend_run {step : α → Parser (Option α)} {I : State → α → Prop} {a b : α}
    (hstep : ∀ a b s t, I s a → step a source s = .ok (some b) t → I t b)
    (hs : I s a) (h : extend step a source s = .ok b t) :
    ∃ u, I u b ∧ step b source u = .ok none t := by
  have hloop : ∀ rounds s a, I s a → extendWithin step rounds a source s = .ok b t →
      ∃ u, I u b ∧ step b source u = .ok none t := by
    intro rounds
    induction rounds with
    | zero => nofun
    | succ rounds ih =>
      intro s a hs h
      obtain ⟨next, u, hround, h⟩ := bind_eq_ok h
      cases next with
      | none =>
        cases h
        exact ⟨s, hs, hround⟩
      | some next => exact ih u next (hstep a next s u hs hround) h
  exact hloop _ s a hs h

/-- **Loops that stop where they are.**  If every round goes on or does nothing, then what the
    rounds preserve holds at the end, with what makes the last round do nothing. -/
theorem extend_stops {step : α → Parser (Option α)} {I J : State → α → Prop} {a b : α}
    (hstep : ∀ a result s t, I s a → step a source s = .ok result t →
      (∃ b, result = some b ∧ I t b) ∨ (result = none ∧ t = s ∧ J s a))
    (hs : I s a) (h : extend step a source s = .ok b t) : I t b ∧ J t b := by
  have hnext : ∀ a b s t, I s a → step a source s = .ok (some b) t → I t b := by
    intro a b s t hs hround
    obtain ⟨next, hnext, ht⟩ | ⟨hnone, -⟩ := hstep a (some b) s t hs hround
    · cases hnext
      exact ht
    · cases hnone
  obtain ⟨u, hu, hlast⟩ := extend_run hnext hs h
  obtain ⟨next, hnext, -⟩ | ⟨-, rfl, hend⟩ := hstep b none u t hu hlast
  · cases hnext
  · exact ⟨hu, hend⟩

theorem extend_traced {step : α → Parser (Option α)} (hstep : ∀ a, Traced 0 (step a)) (a : α) :
    Traced 0 (extend step a) := by
  intro source s b t h
  obtain ⟨u, hu, hlast⟩ := extend_run
    (I := fun u _ => Trace 0 s.rest s.nodes u.rest u.nodes)
    (fun a b u v hu hround => hu.trans (hstep a source u (some b) v hround)) (.done _ _) h
  exact hu.trans (hstep b source u none t hlast)

theorem optional_traced (hpresent : Traced 0 present) (hitem : Traced 0 item) :
    Traced 0 (optional present item) :=
  Traced.branch hpresent (Traced.bind hitem fun a => .pure (some a)) (.pure none)

/-- Where an optional part is present, it has been read last. -/
theorem optional_eq_some {a : α} (h : optional present item source s = .ok (some a) t) :
    ∃ u, item source u = .ok a t := by
  obtain ⟨yes, u, -, h⟩ := bind_eq_ok h
  cases yes with
  | false => cases h
  | true =>
    obtain ⟨b, v, hrun, hpure⟩ := bind_eq_ok h
    cases hpure
    exact ⟨u, hrun⟩

theorem optionalList_traced {items : Parser (List α)} (hpresent : Traced 0 present)
    (hitems : Traced 0 items) : Traced 0 (optionalList present items) :=
  Traced.branch hpresent hitems (.pure [])

theorem mapM_traced {γ : Type} {g : γ → Parser α} (items : List γ)
    (hg : ∀ item, Traced 0 (g item)) : Traced 0 (items.mapM g) := by
  induction items with
  | nil =>
    rw [List.mapM_nil]
    exact .pure []
  | cons item items ih =>
    rw [List.mapM_cons]
    apply Traced.bind (hg item)
    intro first
    exact Traced.bind ih fun others => .pure _

end Loops

end CodeMarkup.Parser
