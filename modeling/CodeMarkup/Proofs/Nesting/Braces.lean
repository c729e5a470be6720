import CodeMarkup.Proofs.Parsing.Steps

namespace CodeMarkup

/-!
# Braces and nesting levels

How many braces the productions open between two nesting levels.  Only computations that succeed
are looked at, and of these only the tokens that they take.

* `BracesWithin`: tokens that open a limited number of braces at a time and close some that were
  open before.  A word `default` counts like a brace that is closed: the value after it may hold a
  class body without a level of its own.
* `State.Allows`: the number of braces that may be opened from a state on, which depends on the
  number of levels that may still be opened.
* `Parser.Closes`, `Parser.Fits`: a computation that keeps to what is allowed wherever it runs.
  `Closes.bind` is the rule for sequences.
-/

/-! ### Braces among tokens -/

/-- Whether a kind of token makes room for one more brace. -/
def TokenKind.makesRoom (kind : TokenKind) : Bool :=
  kind == .rightBrace || kind == .keyword .kwDefault

/-- The number of braces that tokens open. -/
def opened (tokens : List Token) : Nat :=
  tokens.countP (·.kind == .leftBrace)

/-- The number of tokens that make room for a brace. -/
def relieved (tokens : List Token) : Nat :=
  tokens.countP (·.kind.makesRoom)

@[simp] theorem opened_nil : opened [] = 0 :=
  rfl

@[simp] theorem relieved_nil : relieved [] = 0 :=
  rfl

@[simp] theorem opened_append (a b : List Token) : opened (a ++ b) = opened a + opened b :=
  List.countP_append

@[simp] theorem relieved_append (a b : List Token) :
    relieved (a ++ b) = relieved a + relieved b :=
  List.countP_append

theorem opened_cons (token : Token) (tokens : List Token) :
    opened (token :: tokens) = opened [token] + opened tokens :=
  opened_append [token] tokens

theorem relieved_cons (token : Token) (tokens : List Token) :
    relieved (token :: tokens) = relieved [token] + relieved tokens :=
  relieved_append [token] tokens

theorem opened_singleton_le (token : Token) : opened [token] ≤ 1 :=
  List.countP_le_length

theorem opened_of_ne {token : Token} (h : token.kind ≠ .leftBrace) : opened [token] = 0 := by
  simp [opened, h]

theorem relieved_of_makesRoom {token : Token} (h : token.kind.makesRoom = true) :
    opened [token] = 0 ∧ relieved [token] = 1 := by
  have hne : token.kind ≠ .leftBrace := by
    rintro hkind
    rw [hkind] at h
    cases h
  exact ⟨opened_of_ne hne, by simp [relieved, h]⟩

/-- Tokens of which no first part opens more than `k` braces beyond those it makes room for, and all
    of which make room for what they open and `d` braces more. -/
structure BracesWithin (k d : Nat) (tokens : List Token) : Prop where
  peak : ∀ n, opened (tokens.take n) ≤ relieved (tokens.take n) + k
  closed : d + opened tokens ≤ relieved tokens

namespace BracesWithin

variable {k d : Nat} {tokens more : List Token} {token : Token}

theorem nil (k : Nat) : BracesWithin k 0 [] :=
  ⟨fun n => by simp, Nat.le_refl _⟩

theorem append (h : BracesWithin k 0 tokens) (h' : BracesWithin k d more) :
    BracesWithin k d (tokens ++ more) := by
  have hclosed := h.closed
  have hclosed' := h'.closed
  refine ⟨fun n => ?_, by simp; omega⟩
  rw [List.take_append, opened_append, relieved_append]
  have hfront := h.peak n
  have hback := h'.peak (n - tokens.length)
  -- the second part is reached only after the whole first part
  rcases Nat.le_total n tokens.length with hle | hle
  · rw [Nat.sub_eq_zero_of_le hle, List.take_zero]
    simpa using hfront
  · rw [List.take_of_length_le hle]
    omega

/-- What a first token opens or makes room for changes the allowance for what follows it. -/
theorem cons {j e : Nat} (h : BracesWithin j e tokens)
    (hpeak : opened [token] + j ≤ relieved [token] + k)
    (hclosed : d + opened [token] ≤ relieved [token] + e) : BracesWithin k d (token :: tokens) := by
  have htokens := h.closed
  refine ⟨fun n => ?_, ?_⟩
  · cases n with
    | zero => simp
    | succ n =>
      have hrest := h.peak n
      rw [List.take_succ_cons, opened_cons, relieved_cons]
      omega
  · rw [opened_cons, relieved_cons]
    omega

end BracesWithin

/-! ### What a state allows -/

namespace State

variable {source : Source} {s t u : State} {k c d : Nat}

/-- The number of levels that may still be opened. -/
def spare (s : State) : Nat :=
  maxNesting - s.levels.length

/-- The number of braces that a nested production may open here: three for each level, of which the
    innermost counts if it starts here. -/
def room (s : State) : Nat :=
  3 * s.spare + if s.levels.head? = some s.start then 3 else 0

/-- A state from which on `k` braces may be opened at a time: enough for a nested production, and
    for `c` braces around one that starts later. -/
structure Allows (source : Source) (k c : Nat) (s : State) : Prop where
  valid : s.IsValid source
  here : s.room ≤ k
  later : 3 * s.spare + c ≤ k

/-- From `s` to `t` tokens were taken that need no more than `k` braces at a time and close `d`. -/
structure Passes (source : Source) (k d : Nat) (s t : State) : Prop where
  taken : ∃ tokens, s.rest = tokens ++ t.rest ∧ BracesWithin k d tokens
  valid : t.IsValid source
  levels_eq : t.levels = s.levels
  stop_eq : t.stop = s.stop
  moved : t.rest = s.rest ∨ s.start < t.start

theorem start_eq_of_rest (hrest : t.rest = s.rest) (hstop : t.stop = s.stop) :
    t.start = s.start := by
  unfold start current
  rw [hrest, hstop]

theorem Allows.mono {b : Nat} (h : s.Allows source k c) (hle : b ≤ c) : s.Allows source k b :=
  ⟨h.valid, h.here, by have := h.later; omega⟩

/-- Past the start of the innermost level only further levels count. -/
theorem room_eq_of_lt (hs : s.IsValid source) (hlevels : t.levels = s.levels)
    (hlt : s.start < t.start) : t.room = 3 * s.spare := by
  have hhead : t.levels.head? ≠ some t.start := by
    rw [hlevels]
    intro hhead
    have hle := hs.levels_le _ (List.mem_of_mem_head? hhead)
    omega
  rw [room, if_neg hhead, spare, spare, hlevels, Nat.add_zero]

namespace Passes

theorem refl (hs : s.IsValid source) : s.Passes source k 0 s :=
  ⟨⟨[], rfl, .nil k⟩, hs, rfl, rfl, .inl rfl⟩

theorem start_le (h : s.Passes source k d t) : s.start ≤ t.start := by
  rcases h.moved with hrest | hlt
  · exact Nat.le_of_eq (start_eq_of_rest hrest h.stop_eq).symm
  · exact Nat.le_of_lt hlt

theorem trans (h : s.Passes source k 0 t) (h' : t.Passes source k d u) :
    s.Passes source k d u := by
  obtain ⟨tokens, hrest, hwithin⟩ := h.taken
  obtain ⟨more, hrest', hwithin'⟩ := h'.taken
  refine ⟨⟨tokens ++ more, by rw [hrest, hrest', List.append_assoc], hwithin.append hwithin'⟩,
    h'.valid, h'.levels_eq.trans h.levels_eq, h'.stop_eq.trans h.stop_eq, ?_⟩
  have hle := h.start_le
  have hle' := h'.start_le
  rcases h.moved with hsame | hlt
  · rcases h'.moved with hsame' | hlt'
    · exact .inl (hsame'.trans hsame)
    · exact .inr (by omega)
  · exact .inr (by omega)

theorem spare_eq (h : s.Passes source k d t) : t.spare = s.spare := by
  rw [spare, spare, h.levels_eq]

/-- Going on, no more room is needed. -/
theorem room_le (h : s.Passes source k d t) (hs : s.IsValid source) : t.room ≤ s.room := by
  rcases h.moved with hrest | hlt
  · apply Nat.le_of_eq
    rw [room, room, h.spare_eq, h.levels_eq, start_eq_of_rest hrest h.stop_eq]
  · rw [room_eq_of_lt hs h.levels_eq hlt, room]
    exact Nat.le_add_right _ _

theorem allows {j : Nat} (h : s.Passes source j d t) (hs : s.Allows source k c) :
    t.Allows source k c := by
  have hroom := h.room_le hs.valid
  have hhere := hs.here
  refine ⟨h.valid, by omega, ?_⟩
  rw [h.spare_eq]
  exact hs.later

end Passes

/-- The next token has been taken, and what follows it passes. -/
theorem passes_of_advance {j e : Nat} (hs : s.IsValid source) (hrest : s.rest ≠ [])
    (h : s.advance.Passes source j e t)
    (hpeak : opened [s.current] + j ≤ relieved [s.current] + k)
    (hclosed : d + opened [s.current] ≤ relieved [s.current] + e) : s.Passes source k d t := by
  obtain ⟨hvalid, htaken⟩ := hs.advance hrest
  have hnext := hvalid.previousStop_le_start
  obtain ⟨tokens, htokens, hwithin⟩ := h.taken
  have hle := h.start_le
  have hlevels : s.advance.levels = s.levels := s.leadsTo_advance.levels_eq
  have hstop : s.advance.stop = s.stop := s.leadsTo_advance.stop_eq
  have hsplit : s.rest = s.current :: s.advance.rest := by
    unfold advance current
    cases hcons : s.rest with
    | nil => exact absurd hcons hrest
    | cons token rest => rfl
  refine ⟨⟨s.current :: tokens, ?_, hwithin.cons hpeak hclosed⟩, h.valid,
    h.levels_eq.trans hlevels, h.stop_eq.trans hstop, .inr (by omega)⟩
  rw [hsplit, htokens, List.cons_append]

/-- What is allowed after the next token. -/
theorem Allows.advance (hs : s.Allows source k c) (hrest : s.rest ≠ []) :
    s.advance.Allows source k c ∧ s.advance.room = 3 * s.advance.spare := by
  obtain ⟨hvalid, htaken⟩ := hs.valid.advance hrest
  have hnext := hvalid.previousStop_le_start
  have hlevels : s.advance.levels = s.levels := s.leadsTo_advance.levels_eq
  have hspare : s.advance.spare = s.spare := by rw [spare, spare, hlevels]
  have hroom := room_eq_of_lt hs.valid hlevels (by omega)
  have hlater := hs.later
  exact ⟨⟨hvalid, by omega, by omega⟩, by rw [hroom, hspare]⟩

end State

/-! ### Computations that keep to it -/

namespace Parser

variable {α β : Type} {source : Source} {s t : State} {k c d : Nat} {x : Parser α}
  {f : α → Parser β}

/-- From a state on, a computation that succeeds needs no more than `k` braces at a time and closes
    `d`. -/
def ClosesAt (source : Source) (s : State) (k d : Nat) (x : Parser α) : Prop :=
  ∀ a t, x source s = .ok a t → s.Passes source k d t

/-- A computation that closes `d` braces and otherwise fits wherever `c` braces are allowed around
    what is nested in it. -/
def Closes (d c : Nat) (x : Parser α) : Prop :=
  ∀ source s k, s.Allows source k c → ClosesAt source s k d x

/-- A computation that closes all braces that it opens. -/
def Fits (c : Nat) (x : Parser α) : Prop :=
  Closes 0 c x

theorem ClosesAt.bind (hx : ClosesAt source s k 0 x)
    (hf : ∀ a t, x source s = .ok a t → s.Passes source k 0 t → ClosesAt source t k d (f a)) :
    ClosesAt source s k d (x >>= f) := by
  intro b u h
  obtain ⟨a, t, hrun, hrest⟩ := bind_eq_ok h
  have hpasses := hx a t hrun
  exact hpasses.trans (hf a t hrun hpasses b u hrest)

theorem ClosesAt.map {g : α → β} (hx : ClosesAt source s k 0 x) :
    ClosesAt source s k 0 (g <$> x) := by
  refine ClosesAt.bind hx fun a t _ ht => ?_
  intro b u h
  cases h
  exact .refl ht.valid

/-- **Sequences.**  Braces that are open at the start may be closed by the second part. -/
theorem Closes.bind (hx : Fits c x) (hf : ∀ a, Closes d c (f a)) : Closes d c (x >>= f) :=
  fun source s k hs => ClosesAt.bind (hx source s k hs) fun a t _ ht =>
    hf a source t k (ht.allows hs)

theorem Closes.mono {b : Nat} (hx : Closes d b x) (h : b ≤ c) : Closes d c x :=
  fun source s k hs => hx source s k (hs.mono h)

theorem Closes.pure (a : α) : Fits c (pure a) := by
  intro source s k hs b t h
  cases h
  exact .refl hs.valid

theorem Closes.map {g : α → β} (hx : Fits c x) : Fits c (g <$> x) :=
  Closes.bind hx fun a => .pure (g a)

theorem Closes.discard (hx : Fits c x) : Fits c (discard x) :=
  Closes.map hx

theorem Closes.branch {test : Parser Bool} {x y : Parser α} (htest : Fits c test)
    (hyes : Closes d c x) (hno : Closes d c y) :
    Closes d c (test >>= fun found => if found then x else y) := by
  refine Closes.bind htest fun found => ?_
  cases found with
  | true => exact hyes
  | false => exact hno

/-! ### Reading and failing -/

/-- A computation that only reads the state. -/
theorem fits_of_reads (h : ∀ source s, ∃ a, x source s = .ok a s) : Fits c x := by
  intro source s k hs a t hrun
  obtain ⟨b, hb⟩ := h source s
  rw [hb] at hrun
  cases hrun
  exact .refl hs.valid

theorem get_fits : Fits c (get : Parser State) :=
  fits_of_reads fun _ _ => ⟨_, rfl⟩

theorem start_fits : Fits c start :=
  fits_of_reads fun _ _ => ⟨_, rfl⟩

theorem ahead_fits : Fits c ahead :=
  fits_of_reads fun _ _ => ⟨_, rfl⟩

theorem peek_fits (n : Nat) : Fits c (peek n) :=
  fits_of_reads fun _ _ => ⟨_, rfl⟩

theorem atEnd_fits : Fits c atEnd :=
  fits_of_reads fun _ _ => ⟨_, rfl⟩

theorem check_fits (kind : TokenKind) : Fits c (check kind) :=
  fits_of_reads fun _ _ => ⟨_, rfl⟩

theorem notAt_fits (kind : TokenKind) : Fits c (do return !(← check kind)) :=
  fits_of_reads fun _ _ => ⟨_, rfl⟩

/-- A test of the tokens ahead. -/
theorem test_fits {g : List Token → Bool} : Fits c (do return g (← ahead)) :=
  fits_of_reads fun _ _ => ⟨_, rfl⟩

/-- Looking at a node changes nothing. -/
theorem eq_of_lookup {id : NodeId} {node : Node} (h : lookup id source s = .ok node t) : t = s := by
  rw [lookup_apply] at h
  cases hnode : s.nodes[id]? with
  | none =>
    rw [hnode] at h
    cases h
  | some node =>
    rw [hnode] at h
    cases h
    rfl

theorem eq_of_kindOf {id : NodeId} {kind : NodeKind} (h : kindOf id source s = .ok kind t) :
    t = s := by
  obtain ⟨node, u, hlookup, hreturn⟩ := bind_eq_ok h
  cases hreturn
  exact eq_of_lookup hlookup

theorem lookup_fits (id : NodeId) : Fits c (lookup id) := by
  intro source s k hs node t h
  obtain rfl := eq_of_lookup h
  exact .refl hs.valid

theorem kindOf_fits (id : NodeId) : Fits c (kindOf id) :=
  Closes.bind (lookup_fits id) fun _ => .pure _

theorem spanOf_fits (id : NodeId) : Fits c (spanOf id) :=
  Closes.bind (lookup_fits id) fun _ => .pure _

/-- A computation that always fails. -/
theorem closes_of_fails (h : ∀ source s, ∃ error t, x source s = .error error t) :
    Closes d c x := by
  intro source s k _ a t hrun
  obtain ⟨error, u, herror⟩ := h source s
  rw [herror] at hrun
  cases hrun

theorem fail_closes (fault : Fault) (span : Span) : Closes d c (fail fault span : Parser α) :=
  closes_of_fails fun _ _ => ⟨_, _, rfl⟩

theorem unexpected_closes (expected : String) : Closes d c (unexpected expected : Parser α) :=
  closes_of_fails fun _ _ => ⟨_, _, rfl⟩

theorem exhausted_closes : Closes d c (exhausted : Parser α) :=
  closes_of_fails fun _ _ => ⟨_, _, rfl⟩

end Parser

end CodeMarkup
