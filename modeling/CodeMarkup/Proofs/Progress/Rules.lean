import CodeMarkup.Grammar.Modifiers
import CodeMarkup.Proofs.Parsing.Steps
import CodeMarkup.Proofs.Safety.Cursor

namespace CodeMarkup

/-!
# Progress of a parse

Whatever the tokens at hand and the nodes made before are, a computation takes tokens from the left
and adds nodes at the end.  Here nothing is asked of the state in which it starts: the tokens need
not stand in the source, and the nodes need not belong together.

* `State.Grows`, `State.Took`: tokens were taken and nodes added, and a token was taken.
* `State.weight`: the tokens that are left, each with the text that may be read again inside it.
  Taking a token lowers it, and so does going into a template.
* `Parser.Moves`: a computation goes on from a state and meets no bound, if there is enough fuel.
  `Moves.bind`, `Moves.ask`, `State.Took.andThen` and `State.Grows.andTake` are the rules for
  sequences.
* `many_moves`, `listUntil_moves`, `extend_moves`: loops, whose bounds are not met since each round
  takes a token.
* `Supplies`: the productions at hand make nodes wherever less is left, and, here, for constructs of
  a lower rank.
-/

/-- One for the token itself, and as much as the text of a template may hold. -/
def Token.weight (token : Token) : Nat :=
  match token.kind with
  | .template raw => byteLength raw.toList + 1
  | _ => 1

theorem Token.weight_pos (token : Token) : 0 < token.weight := by
  unfold weight
  split <;> omega

/-- What tokens weigh together. -/
def totalWeight (tokens : List Token) : Nat :=
  tokens.foldr (fun token rest => token.weight + rest) 0

theorem totalWeight_cons (token : Token) (tokens : List Token) :
    totalWeight (token :: tokens) = token.weight + totalWeight tokens :=
  rfl

theorem totalWeight_append (xs ys : List Token) :
    totalWeight (xs ++ ys) = totalWeight xs + totalWeight ys := by
  induction xs with
  | nil => exact (Nat.zero_add _).symm
  | cons token xs ih =>
    rw [List.cons_append, totalWeight_cons, totalWeight_cons, ih]
    omega

/-! ### States -/

namespace State

variable {s t u : State}

/-- What is left to be read. -/
def weight (s : State) : Nat :=
  totalWeight s.rest

/-- Tokens were taken from the left and nodes added at the end, and nothing else has changed. -/
structure Grows (s t : State) : Prop where
  moved : ∃ moved, s.rest = moved ++ t.rest ∧ t.taken = moved.reverse ++ s.taken
  stop_eq : t.stop = s.stop
  levels_eq : t.levels = s.levels
  nodes_kept : s.nodes.toList <+: t.nodes.toList

/-- At least one token was taken. -/
structure Took (s t : State) : Prop extends Grows s t where
  length_lt : t.rest.length < s.rest.length

namespace Grows

theorem refl (s : State) : s.Grows s :=
  ⟨⟨[], rfl, rfl⟩, rfl, rfl, List.prefix_refl _⟩

theorem trans (h : s.Grows t) (h' : t.Grows u) : s.Grows u := by
  obtain ⟨moved, hrest, htaken⟩ := h.moved
  obtain ⟨more, hrest', htaken'⟩ := h'.moved
  refine ⟨⟨moved ++ more, ?_, ?_⟩, h'.stop_eq.trans h.stop_eq, h'.levels_eq.trans h.levels_eq,
    h.nodes_kept.trans h'.nodes_kept⟩
  · rw [hrest, hrest', List.append_assoc]
  · rw [htaken', htaken, List.reverse_append, List.append_assoc]

/-- The cursor stays on the same tokens. -/
theorem tokens_eq (h : s.Grows t) : t.cursor.tokens = s.cursor.tokens := by
  obtain ⟨moved, hrest, htaken⟩ := h.moved
  simp [cursor, htaken, hrest, h.stop_eq]

theorem index_eq (h : s.Grows t) :
    t.cursor.index + t.rest.length = s.cursor.index + s.rest.length := by
  obtain ⟨moved, hrest, htaken⟩ := h.moved
  simp only [cursor, htaken, hrest, List.length_append, List.length_reverse]
  omega

theorem length_le (h : s.Grows t) : t.rest.length ≤ s.rest.length := by
  obtain ⟨moved, hrest, -⟩ := h.moved
  rw [hrest, List.length_append]
  omega

theorem weight_le (h : s.Grows t) : t.weight ≤ s.weight := by
  obtain ⟨moved, hrest, -⟩ := h.moved
  rw [weight, weight, hrest, totalWeight_append]
  omega

theorem size_le (h : s.Grows t) : s.nodes.size ≤ t.nodes.size := by
  simpa using h.nodes_kept.length_le

/-- The nodes made before are as they were. -/
theorem getElem?_eq (h : s.Grows t) {id : NodeId} (hid : id < s.nodes.size) :
    t.nodes[id]? = s.nodes[id]? := by
  obtain ⟨more, hmore⟩ := h.nodes_kept
  rw [← Array.getElem?_toList, ← Array.getElem?_toList, ← hmore, List.getElem?_append_left]
  simpa using hid

end Grows

namespace Took

theorem trans_grows (h : s.Took t) (h' : t.Grows u) : s.Took u :=
  ⟨h.toGrows.trans h', Nat.lt_of_le_of_lt h'.length_le h.length_lt⟩

theorem index_lt (h : s.Took t) : s.cursor.index < t.cursor.index := by
  have heq := h.index_eq
  have hlt := h.length_lt
  omega

/-- Every token that is taken has some weight. -/
theorem weight_lt (h : s.Took t) : t.weight < s.weight := by
  obtain ⟨moved, hrest, -⟩ := h.moved
  have hlength := h.length_lt
  rw [weight, weight, hrest, totalWeight_append]
  cases moved with
  | nil =>
    rw [hrest] at hlength
    exact absurd hlength (Nat.lt_irrefl _)
  | cons token moved =>
    have hpos := token.weight_pos
    rw [totalWeight_cons]
    omega

end Took

theorem Grows.trans_took (h : s.Grows t) (h' : t.Took u) : s.Took u :=
  ⟨h.trans h'.toGrows, Nat.lt_of_lt_of_le h'.length_lt h.length_le⟩

theorem grows_advance (s : State) : s.Grows s.advance := by
  unfold advance
  cases hrest : s.rest with
  | nil => exact .refl s
  | cons token rest => exact ⟨⟨[token], by rw [hrest]; rfl, rfl⟩, rfl, rfl, List.prefix_refl _⟩

theorem took_advance (h : s.rest ≠ []) : s.Took s.advance := by
  refine ⟨s.grows_advance, ?_⟩
  unfold advance
  cases hrest : s.rest with
  | nil => exact absurd hrest h
  | cons token rest => exact Nat.lt_succ_self _

end State

/-- A production has taken a token and made a node, or gives one that was made before. -/
structure Builds (s : State) (id : NodeId) (t : State) : Prop extends State.Took s t where
  id_lt : id < t.nodes.size

theorem Builds.trans_grows {s t u : State} {id : NodeId} (h : Builds s id t) (h' : t.Grows u) :
    Builds s id u :=
  ⟨h.toTook.trans_grows h', Nat.lt_of_lt_of_le h.id_lt h'.size_le⟩

/-! ### Computations -/

namespace Parser

variable {α β : Type} {full : Prop} {source : Source} {s t u : State} {x : Parser α}
  {f : α → Parser β} {P Q : α → State → Prop} {R : β → State → Prop}

/-- A computation that goes on from a state, whether it succeeds or fails; where it succeeds, `Q`
    holds, and where there is enough fuel, no bound makes it fail. -/
def Moves (full : Prop) (source : Source) (s : State) (x : Parser α) (Q : α → State → Prop) :
    Prop :=
  match x source s with
  | .ok a t => s.Grows t ∧ Q a t
  | .error error t => s.Grows t ∧ (full → error.fault ≠ .exhausted)

/-- **Sequences.** -/
theorem Moves.bind (hx : Moves full source s x P)
    (hf : ∀ a t, s.Grows t → P a t → Moves full source t (f a) R) :
    Moves full source s (x >>= f) R := by
  unfold Moves at hx ⊢
  rw [bind_apply]
  cases h : x source s with
  | error error t =>
    rw [h] at hx
    exact hx
  | ok a t =>
    rw [h] at hx
    obtain ⟨hgrows, hP⟩ := hx
    have hrest := hf a t hgrows hP
    unfold Moves at hrest
    dsimp only
    cases h' : f a source t with
    | error error u =>
      rw [h'] at hrest
      exact ⟨hgrows.trans hrest.1, hrest.2⟩
    | ok b u =>
      rw [h'] at hrest
      exact ⟨hgrows.trans hrest.1, hrest.2⟩

theorem Moves.mono (hx : Moves full source s x P) (h : ∀ a t, s.Grows t → P a t → Q a t) :
    Moves full source s x Q := by
  unfold Moves at hx ⊢
  cases h' : x source s with
  | error error t =>
    rw [h'] at hx
    exact hx
  | ok a t =>
    rw [h'] at hx
    exact ⟨hx.1, h a t hx.1 hx.2⟩

theorem Moves.any (hx : Moves full source s x P) : Moves full source s x fun _ _ => True :=
  hx.mono fun _ _ _ _ => trivial

theorem Moves.pure {a : α} (h : Q a s) : Moves full source s (pure a) Q :=
  ⟨.refl s, h⟩

theorem Moves.map {g : α → β} (hx : Moves full source s x fun a t => R (g a) t) :
    Moves full source s (g <$> x) R :=
  hx.bind fun _ _ _ h => .pure h

theorem Moves.discard (hx : Moves full source s x P) :
    Moves full source s (discard x) fun _ _ => True :=
  hx.bind (f := fun _ => Pure.pure ()) fun _ _ _ _ => .pure trivial

/-- What only reads the state comes to its answer at once. -/
theorem Moves.ask {a : α} (hx : x source s = .ok a s) (hf : Moves full source s (f a) R) :
    Moves full source s (x >>= f) R := by
  unfold Moves at hf ⊢
  rw [bind_apply, hx]
  exact hf

theorem Moves.assoc {γ : Type} {x : Parser β} {h : β → Parser γ} {f : γ → Parser α}
    (hx : Moves full source s (x >>= fun a => h a >>= f) Q) :
    Moves full source s ((x >>= h) >>= f) Q := by
  unfold Moves at hx ⊢
  simp only [bind_apply] at hx ⊢
  cases hresult : x source s <;> rw [hresult] at hx <;> exact hx

theorem moves_fail {fault : Fault} {span : Span} (h : fault ≠ .exhausted) :
    Moves full source s (fail fault span : Parser α) Q :=
  ⟨.refl s, fun _ => h⟩

theorem moves_unexpected {expected : String} :
    Moves full source s (unexpected expected : Parser α) Q :=
  ⟨.refl s, nofun⟩

theorem moves_lookup {id : NodeId} {f : Node → Parser β} (hid : id < s.nodes.size)
    (hf : ∀ node, Moves full source s (f node) R) : Moves full source s (lookup id >>= f) R :=
  .ask (lookup_eq_ok hid) (hf _)

/-! ### Tokens -/

variable {kind : TokenKind}

theorem advance_moves : Moves full source s advance fun _ _ => True :=
  ⟨s.grows_advance, trivial⟩

theorem advance_took (h : s.rest ≠ []) : Moves full source s advance fun _ => s.Took :=
  ⟨s.grows_advance, State.took_advance h⟩

theorem advanceTwo_moves : Moves full source s advanceTwo fun _ _ => True :=
  advance_moves.bind fun _ _ _ _ => advance_moves

theorem advanceTwo_took (h : s.rest ≠ []) : Moves full source s advanceTwo fun _ => s.Took :=
  (advance_took h).bind fun _ _ _ ht => advance_moves.mono fun _ _ hu _ => ht.trans_grows hu

theorem expect_took (hkind : kind ≠ .eof) : Moves full source s (expect kind) fun _ => s.Took := by
  refine .ask rfl ?_
  split
  · next h => exact advance_took (State.rest_ne_nil_of_kind hkind (eq_of_beq h))
  · exact moves_unexpected

theorem identifier_took {expected : String} :
    Moves full source s (identifier expected) fun _ => s.Took := by
  refine .ask rfl ?_
  split
  · next name h =>
    exact (advance_took (State.rest_ne_nil_of_kind (by simp) h)).bind fun _ _ _ ht => .pure ht
  · exact moves_unexpected

/-- A test that may take the token it asks for, and what holds where it says yes. -/
theorem accept_guards {P : State → Prop} (hkind : kind ≠ .eof) (h : ∀ t, s.Took t → P t) :
    Moves full source s (accept kind) fun yes t => yes = true → P t := by
  refine .ask rfl ?_
  split
  · next heq =>
    have hrest := State.rest_ne_nil_of_kind hkind (eq_of_beq heq)
    exact (advance_took hrest).bind fun _ t _ ht => .pure fun _ => h t ht
  · exact .pure nofun

theorem accept_moves : Moves full source s (accept kind) fun _ _ => True := by
  refine .ask rfl ?_
  split
  · exact advance_moves.bind fun _ _ _ _ => .pure trivial
  · exact .pure trivial

/-- A test that only reads the state. -/
theorem reading_guards {present : Parser Bool} {yes : Bool} {P : State → Prop}
    (hread : present source s = .ok yes s) (h : yes = true → P s) :
    Moves full source s present fun yes t => yes = true → P t := by
  unfold Moves
  rw [hread]
  exact ⟨.refl s, h⟩

theorem check_guards {P : State → Prop} (h : P s) :
    Moves full source s (check kind) fun yes t => yes = true → P t :=
  reading_guards rfl fun _ => h

end Parser

open Parser

/-! ### One more step -/

section Steps

variable {α β : Type} {full : Prop} {source : Source} {s t u : State} {x : Parser α}
  {f : α → Parser β} {P Q : α → State → Prop} {R : β → State → Prop} {kind : TokenKind}

theorem State.Grows.andThen (h : s.Grows t) (hx : Moves full source t x P)
    (hf : ∀ a u, s.Grows u → P a u → Moves full source u (f a) R) :
    Moves full source t (x >>= f) R :=
  hx.bind fun a u hu ha => hf a u (h.trans hu) ha

/-- The first token of a construct. -/
theorem State.Grows.andTake (h : s.Grows t) (hx : Moves full source t x fun _ => t.Took)
    (hf : ∀ a u, s.Took u → Moves full source u (f a) R) : Moves full source t (x >>= f) R :=
  hx.bind fun a u _ hu => hf a u (h.trans_took hu)

theorem State.Took.andThen (h : s.Took t) (hx : Moves full source t x P)
    (hf : ∀ a u, s.Took u → P a u → Moves full source u (f a) R) :
    Moves full source t (x >>= f) R :=
  hx.bind fun a u hu ha => hf a u (h.trans_grows hu) ha

/-- After a token, whatever comes keeps it taken. -/
theorem State.Took.keeps (h : s.Took t) (hx : Moves full source t x P) :
    Moves full source t x fun _ => s.Took :=
  hx.mono fun _ _ hu _ => h.trans_grows hu

/-- A token that may or may not be there. -/
theorem State.Grows.andAccept {f : Bool → Parser β} (h : s.Grows t) (hkind : kind ≠ .eof)
    (hyes : ∀ u, s.Took u → Moves full source u (f true) R)
    (hno : Moves full source t (f false) R) : Moves full source t (accept kind >>= f) R := by
  unfold accept
  refine .assoc (.ask rfl ?_)
  split
  · next heq =>
    refine .assoc ?_
    have hrest := State.rest_ne_nil_of_kind hkind (eq_of_beq heq)
    exact h.andTake (advance_took hrest) fun _ u hu => hyes u hu
  · exact hno

theorem Parser.Moves.took {x : Parser NodeId} (hx : Moves full source s x (Builds s)) :
    Moves full source s x fun _ => s.Took :=
  hx.mono fun _ _ _ hid => hid.toTook

/-- A construct after what comes before it. -/
theorem State.Grows.andBuilds {x : Parser NodeId} (h : s.Grows t)
    (hx : Moves full source t x (Builds t)) : Moves full source t x (Builds s) :=
  hx.mono fun _ _ _ hid => ⟨h.trans_took hid.toTook, hid.id_lt⟩

/-! ### Nodes -/

variable {nodeKind : NodeKind}

theorem push_grows (node : Node) : s.Grows { s with nodes := s.nodes.push node } := by
  refine ⟨⟨[], rfl, rfl⟩, rfl, rfl, ?_⟩
  rw [Array.toList_push]
  exact List.prefix_append _ _

theorem push_builds {span : Span} {unannotatedStart : Option Nat} (h : s.Took t) :
    Moves full source t (push nodeKind span unannotatedStart) (Builds s) :=
  ⟨push_grows _, h.trans_grows (push_grows _), by simp [Array.size_push]⟩

theorem pushFrom_builds {start : Nat} (h : s.Took t) :
    Moves full source t (pushFrom start nodeKind) (Builds s) :=
  .ask rfl (push_builds h)

theorem pushFrom_moves {start : Nat} :
    Moves full source t (pushFrom start nodeKind) fun id u => id < u.nodes.size :=
  ⟨push_grows _, by simp [Array.size_push]⟩

theorem pushModified_builds {front : Grammar.Modifiers} (h : s.Took t) :
    Moves full source t (Grammar.pushModified front nodeKind) (Builds s) :=
  .ask rfl (push_builds h)

/-! ### Optional parts and loops -/

theorem optional_moves {present : Parser Bool} {item : Parser α}
    (h : Moves full source s present fun yes t =>
      yes = true → Moves full source t item fun _ _ => True) :
    Moves full source s (Parser.optional present item) fun _ _ => True := by
  unfold Parser.optional
  refine h.bind fun yes t _ hitem => ?_
  cases yes with
  | false => exact .pure trivial
  | true => exact (hitem rfl).bind fun _ _ _ _ => .pure trivial

theorem optionalList_moves {present : Parser Bool} {items : Parser (List α)}
    (h : Moves full source s present fun yes t =>
      yes = true → Moves full source t items fun _ _ => True) :
    Moves full source s (optionalList present items) fun _ _ => True := by
  unfold Parser.optionalList
  refine h.bind fun yes t _ hitems => ?_
  cases yes with
  | false => exact .pure trivial
  | true => exact hitems rfl

/-- Items as long as a test says yes.  A round takes a token, whether the test or the item does, so
    that the number of rounds left always exceeds the number of tokens left. -/
theorem many_moves {more : Parser Bool} {item : Parser α}
    (hround : ∀ t, s.Grows t → Moves full source t more fun yes u =>
      yes = true → Moves full source u item fun _ => t.Took) :
    Moves full source s (many more item) fun _ _ => True := by
  have hwithin : ∀ rounds t, s.Grows t → t.rest.length < rounds →
      Moves full source t (manyWithin more item rounds) fun _ _ => True := by
    intro rounds
    induction rounds with
    | zero => exact fun _ _ hlt => absurd hlt (Nat.not_lt_zero _)
    | succ rounds ih =>
      intro t ht hlt
      unfold manyWithin
      refine ht.andThen (hround t ht) fun yes u hu hitem => ?_
      cases yes with
      | false => exact .pure trivial
      | true =>
        refine hu.andThen (hitem rfl) fun _ v hv htook => ?_
        have hless := htook.length_lt
        exact (ih v hv (by omega)).bind fun _ _ _ _ => .pure trivial
  exact .ask rfl (hwithin _ s (.refl s) (Nat.lt_succ_self _))

/-- Items after a sign each. -/
theorem manyAccept_moves {item : Parser α} (hkind : kind ≠ .eof)
    (hitem : ∀ t, s.Took t → Moves full source t item fun _ _ => True) :
    Moves full source s (many (accept kind) item) fun _ _ => True :=
  many_moves fun _ ht => accept_guards hkind fun u hu => hu.keeps (hitem u (ht.trans_took hu))

theorem commaSeparated_took {item : Parser α}
    (hitem : ∀ t, s.Grows t → Moves full source t item fun _ => t.Took) :
    Moves full source s (commaSeparated item) fun _ => s.Took := by
  refine (hitem s (.refl s)).bind fun _ t _ ht => ?_
  have hlater : ∀ u, t.Took u → Moves full source u item fun _ _ => True :=
    fun u hu => (hitem u (ht.trans_grows hu.toGrows).toGrows).any
  exact ht.andThen (manyAccept_moves nofun hlater) fun _ _ hu _ => .pure hu

/-- Items up to a closing token.  A round that is not the last takes a separator. -/
theorem listUntil_moves {close separator : TokenKind} {item : Parser α}
    (hseparator : separator ≠ .eof)
    (hitem : ∀ t, s.Grows t → Moves full source t item fun _ _ => True) :
    Moves full source s (listUntil close separator item) fun _ _ => True := by
  have hwithin : ∀ rounds t, s.Grows t → t.rest.length < rounds →
      Moves full source t (listUntilWithin close separator item rounds) fun _ _ => True := by
    intro rounds
    induction rounds with
    | zero => exact fun _ _ hlt => absurd hlt (Nat.not_lt_zero _)
    | succ rounds ih =>
      intro t ht hlt
      refine .ask rfl ?_
      split
      · exact .pure trivial
      · refine (hitem t ht).bind fun _ u hu _ => ?_
        refine hu.andAccept hseparator (fun v hv => ?_) (.pure trivial)
        have hless := hv.length_lt
        exact (ih v (ht.trans hv.toGrows) (by omega)).bind fun _ _ _ _ => .pure trivial
  exact .ask rfl (hwithin _ s (.refl s) (Nat.lt_succ_self _))

/-- What one step of a loop ensures: it ends the loop, or takes a token and `I` holds again. -/
def Continues (I : α → State → Prop) (t : State) : Option α → State → Prop
  | some b, u => t.Took u ∧ I b u
  | none, _ => True

/-- The value of a step, once a token has been taken. -/
theorem State.Took.some {I : α → State → Prop} (h : s.Took t) (hx : Moves full source t x I) :
    Moves full source t (some <$> x) (Continues I s) :=
  .map (hx.mono fun _ _ hu ha => ⟨h.trans_grows hu, ha⟩)

/-- A step repeated as long as it yields something.  `I` holds between the rounds. -/
theorem extend_moves {step : α → Parser (Option α)} {I : α → State → Prop} {a : α}
    (hstable : ∀ a t u, t.Grows u → I a t → I a u)
    (hstep : ∀ a t, s.Grows t → I a t → Moves full source t (step a) (Continues I t))
    (h : I a s) : Moves full source s (extend step a) I := by
  -- the bound is not met: a round that goes on leaves fewer tokens
  have hwithin : ∀ rounds a t, s.Grows t → I a t → t.rest.length < rounds →
      Moves full source t (extendWithin step rounds a) I := by
    intro rounds
    induction rounds with
    | zero => exact fun _ _ _ _ hlt => absurd hlt (Nat.not_lt_zero _)
    | succ rounds ih =>
      intro a t ht ha hlt
      unfold extendWithin
      refine (hstep a t ht ha).bind fun next u hu hnext => ?_
      cases next with
      | none => exact .pure (hstable a t u hu ha)
      | some b =>
        obtain ⟨htook, hb⟩ := hnext
        have hless := htook.length_lt
        exact ih b u (ht.trans hu) hb (by omega)
  exact .ask rfl (hwithin _ a s (.refl s) h (Nat.lt_succ_self _))

/-- The nodes that a loop makes. -/
theorem extend_builds {step : NodeId → Parser (Option NodeId)} {id : NodeId}
    (hstep : ∀ id t, Builds s id t → Moves full source t (step id) (Continues (Builds s) t))
    (h : Builds s id t) : Moves full source t (extend step id) (Builds s) :=
  extend_moves (fun _ _ _ hu hid => hid.trans_grows hu) (fun id u _ hid => hstep id u hid) h

end Steps

/-! ### Nesting -/

section Nesting

variable {α : Type} {full : Prop} {source : Source} {s t : State} {id : NodeId}

theorem State.Grows.withLevels (h : s.Grows t) (levels : List Nat) :
    State.Grows { s with levels := levels } { t with levels := levels } :=
  ⟨h.moved, h.stop_eq, rfl, h.nodes_kept⟩

theorem Builds.withLevels (h : Builds s id t) (levels : List Nat) :
    Builds { s with levels := levels } id { t with levels := levels } :=
  ⟨⟨h.toGrows.withLevels levels, h.length_lt⟩, h.id_lt⟩

/-- One level deeper, a production finds the same tokens and nodes, and the level is closed again
    whether it succeeds or fails. -/
theorem nested_builds {production : Parser NodeId}
    (h : ∀ levels, Moves full source { s with levels := levels } production
      (Builds { s with levels := levels })) :
    Moves full source s (nested production) (Builds s) := by
  unfold Moves nested
  by_cases hsame : s.levels.head? = some s.start
  · rw [if_pos hsame]
    exact h s.levels
  · rw [if_neg hsame]
    by_cases hdeep : maxNesting ≤ s.levels.length
    · rw [if_pos hdeep]
      exact ⟨.refl s, nofun⟩
    · rw [if_neg hdeep]
      have hdeeper := h (s.start :: s.levels)
      unfold Moves at hdeeper
      -- the levels after the production are those before it, and the new one is the first
      have hclose : ∀ u, State.Grows { s with levels := s.start :: s.levels } u →
          u.levels.tail = s.levels := by
        intro u hu
        rw [hu.levels_eq]
        rfl
      cases hresult : production source { s with levels := s.start :: s.levels } with
      | error error u =>
        rw [hresult] at hdeeper
        dsimp only
        rw [hclose u hdeeper.1]
        exact ⟨hdeeper.1.withLevels s.levels, hdeeper.2⟩
      | ok id u =>
        rw [hresult] at hdeeper
        dsimp only
        rw [hclose u hdeeper.1]
        exact ⟨hdeeper.1.withLevels s.levels,
          hdeeper.2.withLevels s.levels⟩

/-- A production on other tokens leaves the present ones where they are. -/
theorem onTokens_moves {x : Parser NodeId} {tokens : List Token}
    (h : Moves full source { State.ofTokens tokens with nodes := s.nodes, levels := s.levels } x
      fun _ _ => True) : Moves full source s (onTokens tokens x) fun _ _ => True := by
  have hresume : ∀ t, State.Grows
      { State.ofTokens tokens with nodes := s.nodes, levels := s.levels } t →
      s.Grows { t with taken := s.taken, rest := s.rest, stop := s.stop } :=
    fun t ht => ⟨⟨[], rfl, rfl⟩, rfl, ht.levels_eq, ht.nodes_kept⟩
  unfold Moves at h ⊢
  unfold onTokens
  dsimp only
  cases hresult : x source { State.ofTokens tokens with nodes := s.nodes, levels := s.levels } with
  | error error t =>
    rw [hresult] at h
    exact ⟨hresume t h.1, h.2⟩
  | ok id t =>
    rw [hresult] at h
    exact ⟨hresume t h.1, trivial⟩

end Nesting

/-! ### The productions at hand -/

/-- At `s` productions make nodes for constructs below a rank, and for all constructs where less is
    left. -/
def Supplies (full : Prop) (p : Productions) (source : Source) (s : State) (rank : Nat) : Prop :=
  ∀ (construct : Nonterminal) (t : State),
    (t.weight < s.weight ∨ t.weight ≤ s.weight ∧ construct.rank < rank) →
      Moves full source t (p construct) (Builds t)

namespace Supplies

variable {full : Prop} {p : Productions} {source : Source} {s t : State} {rank : Nat}
  {construct : Nonterminal}

theorem builds (hp : Supplies full p source s rank) (h : construct.rank < rank) :
    Moves full source s (p construct) (Builds s) :=
  hp construct s (.inr ⟨Nat.le_refl _, h⟩)

theorem took (hp : Supplies full p source s rank) (h : construct.rank < rank) :
    Moves full source s (p construct) fun _ => s.Took :=
  (hp.builds h).took

theorem mono (hp : Supplies full p source s rank) {lower : Nat} (h : lower ≤ rank) :
    Supplies full p source s lower := by
  intro construct t hless
  refine hp construct t ?_
  omega

theorem low (hp : Supplies full p source s rank) : Supplies full p source s 0 :=
  hp.mono (Nat.zero_le _)

theorem next (hp : Supplies full p source s rank) (h : s.Grows t) :
    Supplies full p source t rank := by
  intro construct u hless
  have hle := h.weight_le
  refine hp construct u ?_
  omega

/-- Once a token has been taken they make nodes for all constructs. -/
theorem after (hp : Supplies full p source s rank) (h : s.Took t) {any : Nat} :
    Supplies full p source t any := by
  intro construct u hless
  have hlt := h.weight_lt
  refine hp construct u ?_
  omega

theorem buildsAfter (hp : Supplies full p source s rank) (h : s.Took t) :
    Moves full source t (p construct) (Builds t) :=
  (hp.after h).builds (Nat.lt_succ_self construct.rank)

/-- Nesting levels make no difference to what is left. -/
theorem withLevels (hp : Supplies full p source s rank) (levels : List Nat) :
    Supplies full p source { s with levels := levels } rank :=
  hp

theorem nestedAfter (hp : Supplies full p source s rank) (h : s.Took t) :
    Moves full source t (Parser.nested (p construct)) (Builds t) :=
  nested_builds fun levels => ((hp.after h).withLevels levels).builds (Nat.lt_succ_self _)

end Supplies

end CodeMarkup
