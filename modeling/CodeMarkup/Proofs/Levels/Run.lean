import CodeMarkup.Proofs.Parsing.Forest

namespace CodeMarkup

/-!
# Runs and their nesting levels

A parse opens and closes nesting levels on its way.  To say what holds of them at every point, the
states that a computation passes through are written down, step by step.

* `Parser.Run`: the run of a computation that is put together from the steps of a parse, with all
  states on the way.  A level can be closed only if there is one.
* `Parser.Run.result_eq`: a run ends as the computation does.
* `State.IsStacked`: the levels increase from the outermost to the innermost, there are no more than
  are allowed, and none of them starts after the next token.
* `Parser.Keeps`: from every valid state whose levels are stacked there is a run on which they stay
  so, and it ends with the levels with which it has started.  `Keeps.bind` and `Keeps.branch` are
  the rules for sequences.
* `Parser.nested_keeps`, `Parser.KeepsFrom.onTokens`: one level deeper, and other tokens.
* `Parser.many_keeps`, `Parser.listUntil_keeps`, `Parser.extend_keeps`: loops.
-/

/-! ### Runs -/

namespace State

/-- A level that starts at the next token. -/
def openLevel (s : State) : State :=
  { s with levels := s.start :: s.levels }

/-- Without the innermost level. -/
def closeLevel (s : State) : State :=
  { s with levels := s.levels.tail }

/-- Other tokens, with the same nodes and levels. -/
def onTokens (s : State) (tokens : List Token) : State :=
  { State.ofTokens tokens with nodes := s.nodes, levels := s.levels }

/-- Back on the tokens of `s`, after others have been read. -/
def resume (s after : State) : State :=
  { after with taken := s.taken, rest := s.rest, stop := s.stop }

end State

namespace Parser

/-- How a computation ends: with a value or an error, in a state. -/
abbrev Result (α : Type) := EStateM.Result ParseError State α

variable {α β : Type}

/-- The state in which a computation ends. -/
def stateOf : Result α → State
  | .ok _ s => s
  | .error _ s => s

/-- The same value or error in another state. -/
def withState (f : State → State) : Result α → Result α
  | .ok a s => .ok a (f s)
  | .error error s => .error error (f s)

@[simp] theorem stateOf_withState (f : State → State) (result : Result α) :
    stateOf (withState f result) = f (stateOf result) := by
  cases result <;> rfl

/-- The run of a computation from a state, with the states that it passes through, the first and the
    last included.  A computation that can be put together in more than one way has several.  Levels
    are opened and closed by `nested` alone: it leaves the innermost level as it is if that starts at
    the next token, fails if there are as many levels as are allowed, and closes the level it has
    opened, for which there has to be one. -/
inductive Run (source : Source) :
    {α : Type} → Parser α → State → List State → Result α → Prop where
  | pure {α : Type} (a : α) (s : State) : Run source (pure a) s [s] (.ok a s)
  | throw {α : Type} (error : ParseError) (s : State) :
      Run source (throw error : Parser α) s [s] (.error error s)
  | get (s : State) : Run source get s [s] (.ok s s)
  | read (s : State) : Run source read s [s] (.ok source s)
  | advance (s : State) : Run source advance s [s, s.advance] (.ok () s.advance)
  | push (kind : NodeKind) (span : Span) (unannotatedStart : Option Nat) (s : State) :
      Run source (push kind span unannotatedStart) s
        [s, s.add (nodeOf source kind span unannotatedStart)]
        (.ok s.nodes.size (s.add (nodeOf source kind span unannotatedStart)))
  | bind {α β : Type} {x : Parser α} {f : α → Parser β} {s t : State} {a : α}
      {path later : List State} {result : Result β} (hfirst : Run source x s path (.ok a t))
      (hrest : Run source (f a) t later result) : Run source (x >>= f) s (path ++ later) result
  | bindError {α β : Type} {x : Parser α} {f : α → Parser β} {s t : State} {error : ParseError}
      {path : List State} (hfirst : Run source x s path (.error error t)) :
      Run source (x >>= f) s path (.error error t)
  | sameLevel {α : Type} {x : Parser α} {s : State} {path : List State} {result : Result α}
      (hsame : s.levels.head? = some s.start) (hrun : Run source x s path result) :
      Run source (nested x) s path result
  | tooDeep {α : Type} {x : Parser α} {s : State} (hother : s.levels.head? ≠ some s.start)
      (hdeep : maxNesting ≤ s.levels.length) :
      Run source (nested x) s [s] (.error ⟨.nestingTooDeep, s.current.span⟩ s)
  | deeper {α : Type} {x : Parser α} {s : State} {path : List State} {result : Result α}
      (hother : s.levels.head? ≠ some s.start) (hroom : s.levels.length < maxNesting)
      (hrun : Run source x s.openLevel path result) (hlevel : (stateOf result).levels ≠ []) :
      Run source (nested x) s (s :: path ++ [(stateOf result).closeLevel])
        (withState State.closeLevel result)
  | onTokens {α : Type} {x : Parser α} {s : State} {tokens : List Token} {path : List State}
      {result : Result α} (hrun : Run source x (s.onTokens tokens) path result) :
      Run source (onTokens tokens x) s (s :: path ++ [s.resume (stateOf result)])
        (withState s.resume result)

variable {source : Source} {s t : State} {x : Parser α} {f : α → Parser β} {path : List State}
  {result : Result α}

/-- A run passes through its first and its last state. -/
theorem Run.mem_ends (h : Run source x s path result) : s ∈ path ∧ stateOf result ∈ path := by
  induction h with
  | pure | throw | get | read => simp [stateOf]
  | advance | push => simp [stateOf]
  | bind _ _ ih ih' => exact ⟨List.mem_append_left _ ih.1, List.mem_append_right _ ih'.2⟩
  | bindError _ ih => exact ih
  | sameLevel _ _ ih => exact ih
  | tooDeep => simp [stateOf]
  | deeper | onTokens => simp

end Parser

/-! ### Stacked levels -/

/-- Levels that increase from the outermost to the innermost, no more than are allowed, none of
    which starts after the next token. -/
structure State.IsStacked (s : State) : Prop where
  increasing : s.levels.reverse.Pairwise (· < ·)
  length_le : s.levels.length ≤ maxNesting
  levels_le : ∀ level ∈ s.levels, level ≤ s.start

namespace State.IsStacked

variable {source : Source} {s t : State}

/-- The same levels in another valid state. -/
theorem of_levels_eq (h : s.IsStacked) (ht : t.IsValid source) (heq : t.levels = s.levels) :
    t.IsStacked :=
  ⟨heq ▸ h.increasing, heq ▸ h.length_le, ht.levels_le⟩

/-- Unless the innermost level starts at the next token, all levels start before it. -/
theorem levels_lt (h : s.IsStacked) (hother : s.levels.head? ≠ some s.start) :
    ∀ level ∈ s.levels, level < s.start := by
  have hincreasing := List.pairwise_reverse.1 h.increasing
  have hle := h.levels_le
  cases hlevels : s.levels with
  | nil => nofun
  | cons innermost outer =>
    rw [hlevels] at hincreasing hle hother
    have hlt : innermost < s.start :=
      Nat.lt_of_le_of_ne (hle innermost List.mem_cons_self) fun heq => hother (heq ▸ rfl)
    refine List.forall_mem_cons.2 ⟨hlt, fun level hlevel => ?_⟩
    exact Nat.lt_trans ((List.pairwise_cons.1 hincreasing).1 level hlevel) hlt

/-- One more level, if there is room for it and none starts at the next token. -/
theorem openLevel (h : s.IsStacked) (hother : s.levels.head? ≠ some s.start)
    (hroom : s.levels.length < maxNesting) : s.openLevel.IsStacked := by
  refine ⟨?_, hroom, List.forall_mem_cons.2 ⟨Nat.le_refl _, h.levels_le⟩⟩
  show (s.start :: s.levels).reverse.Pairwise (· < ·)
  rw [List.reverse_cons]
  refine List.pairwise_append.2 ⟨h.increasing, List.pairwise_singleton _ _, ?_⟩
  intro level hlevel innermost hinnermost
  rw [List.mem_singleton.1 hinnermost]
  exact h.levels_lt hother level (List.mem_reverse.1 hlevel)

end State.IsStacked

theorem State.IsValid.openLevel {source : Source} {s : State} (h : s.IsValid source) :
    s.openLevel.IsValid source :=
  h.withLevels (List.forall_mem_cons.2 ⟨Nat.le_refl _, h.levels_le⟩)

namespace Parser

variable {α β : Type} {source : Source} {s t : State} {x : Parser α} {f : α → Parser β}

/-! ### Computations that keep the levels -/

/-- What is asked of a run: the levels are stacked all the way, and at the end they are those of the
    start. -/
structure IsLayered (source : Source) (s : State) (path : List State) (result : Result α) :
    Prop where
  stacked : ∀ u ∈ path, u.IsValid source ∧ u.IsStacked
  levels_eq : (stateOf result).levels = s.levels

/-- A computation with such a run from a state. -/
def KeepsFrom (source : Source) (s : State) (x : Parser α) : Prop :=
  ∃ path result, Run source x s path result ∧ IsLayered source s path result

/-- A computation with such a run from every valid state whose levels are stacked. -/
def Keeps (source : Source) (x : Parser α) : Prop :=
  ∀ s : State, s.IsValid source → s.IsStacked → KeepsFrom source s x

/-- **Sequences.**  The second part starts with the levels of the first. -/
theorem KeepsFrom.bind (hx : KeepsFrom source s x)
    (hf : ∀ a t, t.IsValid source → t.IsStacked → t.levels = s.levels →
      KeepsFrom source t (f a)) : KeepsFrom source s (x >>= f) := by
  obtain ⟨path, result, hrun, h⟩ := hx
  cases result with
  | error error t => exact ⟨path, .error error t, .bindError hrun, h.stacked, h.levels_eq⟩
  | ok a t =>
    have hlevels : t.levels = s.levels := h.levels_eq
    obtain ⟨hvalid, hstacked⟩ := h.stacked t hrun.mem_ends.2
    obtain ⟨later, result, hrest, h'⟩ := hf a t hvalid hstacked hlevels
    exact ⟨path ++ later, result, .bind hrun hrest,
      List.forall_mem_append.2 ⟨h.stacked, h'.stacked⟩, h'.levels_eq.trans hlevels⟩

theorem Keeps.bind (hx : Keeps source x) (hf : ∀ a, Keeps source (f a)) :
    Keeps source (x >>= f) :=
  fun s hs hstacked => (hx s hs hstacked).bind fun a t ht hstacked' _ => hf a t ht hstacked'

theorem Keeps.branch {test : Parser Bool} {yes no : Parser α} (htest : Keeps source test)
    (hyes : Keeps source yes) (hno : Keeps source no) :
    Keeps source (test >>= fun found => if found then yes else no) := by
  refine htest.bind fun found => ?_
  cases found with
  | true => exact hyes
  | false => exact hno

/-- A run that stays in its state. -/
theorem KeepsFrom.still {result : Result α} (hs : s.IsValid source) (hstacked : s.IsStacked)
    (hrun : Run source x s [s] result) (hstate : stateOf result = s) : KeepsFrom source s x :=
  ⟨[s], result, hrun, List.forall_mem_singleton.2 ⟨hs, hstacked⟩, by rw [hstate]⟩

theorem Keeps.pure (a : α) : Keeps source (pure a) :=
  fun s hs hstacked => .still hs hstacked (.pure a s) rfl

theorem Keeps.map {g : α → β} (hx : Keeps source x) : Keeps source (g <$> x) :=
  hx.bind fun a => .pure (g a)

theorem Keeps.discard (hx : Keeps source x) : Keeps source (discard x) :=
  hx.map

/-! ### Reading and failing -/

theorem get_keeps : Keeps source get :=
  fun s hs hstacked => .still hs hstacked (.get s) rfl

/-- A computation that reads the state goes on with it. -/
theorem KeepsFrom.get {f : State → Parser β} (h : KeepsFrom source s (f s)) :
    KeepsFrom source s (get >>= f) := by
  obtain ⟨path, result, hrun, hlayered⟩ := h
  refine ⟨[s] ++ path, result, .bind (.get s) hrun, ?_, hlayered.levels_eq⟩
  exact List.forall_mem_append.2
    ⟨List.forall_mem_singleton.2 (hlayered.stacked s hrun.mem_ends.1), hlayered.stacked⟩

/-- A computation that reads the source goes on with it. -/
theorem KeepsFrom.read {f : Source → Parser β} (h : KeepsFrom source s (f source)) :
    KeepsFrom source s (read >>= f) := by
  obtain ⟨path, result, hrun, hlayered⟩ := h
  refine ⟨[s] ++ path, result, .bind (.read s) hrun, ?_, hlayered.levels_eq⟩
  exact List.forall_mem_append.2
    ⟨List.forall_mem_singleton.2 (hlayered.stacked s hrun.mem_ends.1), hlayered.stacked⟩

theorem ahead_keeps : Keeps source ahead :=
  get_keeps.bind fun _ => .pure _

theorem start_keeps : Keeps source start :=
  get_keeps.bind fun _ => .pure _

theorem peek_keeps (n : Nat) : Keeps source (peek n) :=
  get_keeps.bind fun _ => .pure _

theorem atEnd_keeps : Keeps source atEnd :=
  get_keeps.bind fun _ => .pure _

theorem check_keeps (kind : TokenKind) : Keeps source (check kind) :=
  get_keeps.bind fun _ => .pure _

theorem throw_keeps (error : ParseError) : Keeps source (throw error : Parser α) :=
  fun s hs hstacked => .still hs hstacked (.throw error s) rfl

theorem fail_keeps (fault : Fault) (span : Span) : Keeps source (fail fault span : Parser α) :=
  throw_keeps _

theorem unexpected_keeps (expected : String) : Keeps source (unexpected expected : Parser α) :=
  get_keeps.bind fun _ => fail_keeps _ _

theorem exhausted_keeps : Keeps source (exhausted : Parser α) :=
  get_keeps.bind fun _ => fail_keeps _ _

theorem expectEnd_keeps : Keeps source expectEnd := by
  refine get_keeps.bind fun s => ?_
  split
  · exact .pure ()
  · exact fail_keeps _ _

theorem lookup_keeps (id : NodeId) : Keeps source (lookup id) := by
  refine get_keeps.bind fun s => ?_
  split
  · exact .pure _
  · exact exhausted_keeps

theorem kindOf_keeps (id : NodeId) : Keeps source (kindOf id) :=
  (lookup_keeps id).bind fun _ => .pure _

theorem spanOf_keeps (id : NodeId) : Keeps source (spanOf id) :=
  (lookup_keeps id).bind fun _ => .pure _

/-! ### Tokens -/

/-- The next token starts no earlier once one has been taken. -/
theorem advance_keeps : Keeps source advance := by
  intro s hs hstacked
  have hlevels : s.advance.levels = s.levels := s.leadsTo_advance.levels_eq
  have hvalid : s.advance.IsValid source := by
    by_cases hrest : s.rest = []
    · have hsame : s.advance = s := by
        unfold State.advance
        rw [hrest]
      rwa [hsame]
    · exact (hs.advance hrest).1
  refine ⟨_, _, .advance s, ?_, hlevels⟩
  exact List.forall_mem_cons.2 ⟨⟨hs, hstacked⟩,
    List.forall_mem_singleton.2 ⟨hvalid, hstacked.of_levels_eq hvalid hlevels⟩⟩

theorem advanceTwo_keeps : Keeps source advanceTwo :=
  advance_keeps.bind fun _ => advance_keeps

theorem accept_keeps (kind : TokenKind) : Keeps source (accept kind) :=
  (check_keeps kind).branch (advance_keeps.bind fun _ => .pure true) (.pure false)

theorem expect_keeps (kind : TokenKind) : Keeps source (expect kind) :=
  (check_keeps kind).branch advance_keeps (unexpected_keeps _)

theorem identifier_keeps (expected : String) : Keeps source (identifier expected) := by
  refine get_keeps.bind fun s => ?_
  split
  · exact advance_keeps.bind fun _ => .pure _
  · exact unexpected_keeps expected

/-- A token that is demanded, and what follows it. -/
theorem Keeps.token {kind : TokenKind} {f : Unit → Parser β} (hf : Keeps source (f ())) :
    Keeps source (expect kind >>= f) :=
  (expect_keeps kind).bind fun _ => hf

/-! ### Nodes -/

theorem push_keeps (kind : NodeKind) (span : Span) (unannotatedStart : Option Nat) :
    Keeps source (push kind span unannotatedStart) := by
  intro s hs hstacked
  have hvalid := hs.withNodes (s.add (nodeOf source kind span unannotatedStart)).nodes
  refine ⟨_, _, .push kind span unannotatedStart s, ?_, rfl⟩
  exact List.forall_mem_cons.2 ⟨⟨hs, hstacked⟩,
    List.forall_mem_singleton.2 ⟨hvalid, hstacked.of_levels_eq hvalid rfl⟩⟩

theorem pushFrom_keeps (start : Nat) (kind : NodeKind) : Keeps source (pushFrom start kind) :=
  get_keeps.bind fun _ => push_keeps _ _ _

/-! ### Levels and other tokens -/

/-- **One level deeper.**  The level that is opened starts after all others, and it is the innermost
    one again when it is closed. -/
theorem nested_keeps (hx : Keeps source x) : Keeps source (nested x) := by
  intro s hs hstacked
  by_cases hsame : s.levels.head? = some s.start
  · obtain ⟨path, result, hrun, h⟩ := hx s hs hstacked
    exact ⟨path, result, .sameLevel hsame hrun, h⟩
  · by_cases hdeep : maxNesting ≤ s.levels.length
    · exact .still hs hstacked (.tooDeep hsame hdeep) rfl
    · have hroom := Nat.lt_of_not_le hdeep
      obtain ⟨path, result, hrun, h⟩ := hx _ hs.openLevel (hstacked.openLevel hsame hroom)
      have hopen : (stateOf result).levels = s.start :: s.levels := h.levels_eq
      -- what is left of the levels at the end are those of the start
      have hlevels : (stateOf result).closeLevel.levels = s.levels := by
        rw [State.closeLevel, hopen, List.tail_cons]
      obtain ⟨hend, -⟩ := h.stacked _ hrun.mem_ends.2
      have hvalid : (stateOf result).closeLevel.IsValid source :=
        hend.withLevels fun level hlevel => hend.levels_le level (List.mem_of_mem_tail hlevel)
      have hclosed := hstacked.of_levels_eq hvalid hlevels
      refine ⟨_, _, .deeper hsame hroom hrun (by rw [hopen]; exact List.cons_ne_nil _ _), ?_, ?_⟩
      · exact List.forall_mem_append.2 ⟨List.forall_mem_cons.2 ⟨⟨hs, hstacked⟩, h.stacked⟩,
          List.forall_mem_singleton.2 ⟨hvalid, hclosed⟩⟩
      · rwa [stateOf_withState]

/-- **Other tokens.**  The levels that are open go on to be open while other tokens of the source
    are read, if these stand after the start of all of them. -/
theorem KeepsFrom.onTokens {range : Span} {tokens : List Token} (hs : s.IsValid source)
    (hstacked : s.IsStacked) (hrange : source.HasSpan range)
    (htokens : IsTokenStream source range (.ok tokens))
    (hlevels : ∀ level ∈ s.levels, level ≤ range.start) (hx : Keeps source x) :
    KeepsFrom source s (onTokens tokens x) := by
  obtain ⟨body, rfl, hbody⟩ := htokens
  have hinner : s.onTokens (body ++ [⟨.eof, .point range.stop⟩])
      = { rest := body, stop := range.stop, nodes := s.nodes, levels := s.levels } := by
    rw [State.onTokens, State.ofTokens_concat]
  have hvalid : (s.onTokens (body ++ [⟨.eof, .point range.stop⟩])).IsValid source := by
    rw [hinner]
    refine ⟨hbody.mono (Nat.zero_le _), nofun, hrange.stop_boundary, fun level hlevel => ?_⟩
    have hstart : range.start ≤ State.start ⟨[], body, range.stop, s.nodes, s.levels⟩ :=
      State.le_start hbody
    exact Nat.le_trans (hlevels level hlevel) hstart
  obtain ⟨path, result, hrun, h⟩ := hx _ hvalid (hstacked.of_levels_eq hvalid rfl)
  -- the tokens at hand are as they were
  have hresumed : (s.resume (stateOf result)).levels = s.levels := h.levels_eq
  have hback : (s.resume (stateOf result)).IsValid source :=
    ⟨hs.inOrder, hs.previous_boundary, hs.stop_boundary, fun level hlevel =>
      hs.levels_le level (hresumed ▸ hlevel)⟩
  have hend := hstacked.of_levels_eq hback hresumed
  refine ⟨_, _, .onTokens hrun, ?_, ?_⟩
  · exact List.forall_mem_append.2 ⟨List.forall_mem_cons.2 ⟨⟨hs, hstacked⟩, h.stacked⟩,
      List.forall_mem_singleton.2 ⟨hback, hend⟩⟩
  · rwa [stateOf_withState]

/-! ### Loops -/

section Loops

variable {more present : Parser Bool} {item : Parser α}

theorem manyWithin_keeps (hmore : Keeps source more) (hitem : Keeps source item) (rounds : Nat) :
    Keeps source (manyWithin more item rounds) := by
  induction rounds with
  | zero => exact exhausted_keeps
  | succ rounds ih =>
    refine hmore.branch ?_ (.pure [])
    exact hitem.bind fun first => ih.bind fun others => .pure _

theorem many_keeps (hmore : Keeps source more) (hitem : Keeps source item) :
    Keeps source (many more item) :=
  ahead_keeps.bind fun _ => manyWithin_keeps hmore hitem _

theorem commaSeparated_keeps (hitem : Keeps source item) : Keeps source (commaSeparated item) :=
  hitem.bind fun _ => (many_keeps (accept_keeps .comma) hitem).bind fun _ => .pure _

theorem listUntilWithin_keeps {close separator : TokenKind} (hitem : Keeps source item)
    (rounds : Nat) : Keeps source (listUntilWithin close separator item rounds) := by
  induction rounds with
  | zero => exact exhausted_keeps
  | succ rounds ih =>
    refine (check_keeps close).branch (.pure []) ?_
    refine hitem.bind fun first => (accept_keeps separator).branch ?_ (.pure [first])
    exact ih.bind fun others => .pure _

theorem listUntil_keeps {close separator : TokenKind} (hitem : Keeps source item) :
    Keeps source (listUntil close separator item) :=
  ahead_keeps.bind fun _ => listUntilWithin_keeps hitem _

theorem extend_keeps {step : α → Parser (Option α)} (hstep : ∀ a, Keeps source (step a)) (a : α) :
    Keeps source (extend step a) := by
  have hwithin : ∀ rounds a, Keeps source (extendWithin step rounds a) := by
    intro rounds
    induction rounds with
    | zero => exact fun _ => exhausted_keeps
    | succ rounds ih =>
      intro a
      refine (hstep a).bind fun next => ?_
      cases next with
      | none => exact .pure a
      | some b => exact ih b
  exact ahead_keeps.bind fun _ => hwithin _ a

theorem optional_keeps (hpresent : Keeps source present) (hitem : Keeps source item) :
    Keeps source (optional present item) :=
  hpresent.branch (hitem.bind fun a => .pure (some a)) (.pure none)

theorem optionalList_keeps {items : Parser (List α)} (hpresent : Keeps source present)
    (hitems : Keeps source items) : Keeps source (optionalList present items) :=
  hpresent.branch hitems (.pure [])

end Loops

end Parser

end CodeMarkup
