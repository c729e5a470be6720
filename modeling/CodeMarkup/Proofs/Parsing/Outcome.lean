import CodeMarkup.Grammar.Lookahead
import CodeMarkup.Proofs.TokenStream

namespace CodeMarkup

/-!
# Outcomes of a parse

A logic for computations on the state of a parse: what a computation ensures when it succeeds, and
what holds whether it succeeds or fails.

* `State.IsValid`: the tokens left stand in the source in order, and no open nesting level starts
  after the next one.
* `State.LeadsTo`: what no computation may change.  Tokens are only taken, nodes are only added, and
  the nesting levels are as before.
* `Parser.Ensures`: a computation leads on from a state, fails only with a sound error, and a
  condition holds where it succeeds.  `Ensures.bind` is the rule for sequences; computations that
  only read the state are rewritten away.
-/

/-! ### Valid states -/

namespace State

variable {source : Source} {s t u : State}

/-- A state between two tokens of a source. -/
structure IsValid (source : Source) (s : State) : Prop where
  inOrder : InOrder source (s.previous.elim 0 (·.span.stop)) s.rest s.stop
  previous_boundary : ∀ token ∈ s.previous, source.IsBoundary token.span.stop
  stop_boundary : source.IsBoundary s.stop
  levels_le : ∀ level ∈ s.levels, level ≤ s.start

/-- The mark at the end is no token of a source, so that every other kind shows that one is left. -/
theorem rest_ne_nil_of_kind {kind : TokenKind} (hkind : kind ≠ .eof) (h : s.current.kind = kind) :
    s.rest ≠ [] := by
  intro hrest
  rw [current, hrest] at h
  exact hkind h.symm

theorem rest_ne_nil_of_kindAt {kind : TokenKind} (hkind : kind ≠ .eof)
    (h : kindAt s.rest 0 = kind) : s.rest ≠ [] := by
  intro hrest
  rw [hrest] at h
  exact hkind h.symm

/-- What is read off the next token cannot be read off the mark. -/
theorem rest_ne_nil_of_read {α : Type} {f : TokenKind → Option α} {a : α} (hnone : f .eof = none)
    (h : f (kindAt s.rest 0) = some a) : s.rest ≠ [] := by
  intro hrest
  rw [hrest] at h
  cases hnone.symm.trans h

/-- A test that fails on an empty list shows that a token is left. -/
theorem rest_ne_nil_of_test {test : List Token → Bool} (hnil : test [] = false)
    (h : test s.rest = true) : s.rest ≠ [] := by
  intro hrest
  rw [hrest, hnil] at h
  cases h

theorem kindAt_rest_zero (s : State) : kindAt s.rest 0 = s.current.kind := by
  unfold kindAt current
  cases s.rest <;> rfl

/-- The next token starts no earlier than the tokens left do. -/
theorem le_start {lo : Nat} (h : InOrder source lo s.rest s.stop) : lo ≤ s.start := by
  unfold start current
  cases hrest : s.rest with
  | nil =>
    rw [hrest] at h
    exact h.le
  | cons token rest =>
    rw [hrest] at h
    cases h with
    | cons hstart _ _ => exact hstart

theorem advance_previousStop (h : s.rest ≠ []) :
    s.advance.previousStop = s.current.span.stop := by
  unfold advance current
  cases hrest : s.rest with
  | nil => exact absurd hrest h
  | cons token rest => rfl

theorem ofTokens_concat (body : List Token) (stop : Nat) :
    ofTokens (body ++ [⟨.eof, .point stop⟩]) = { rest := body, stop := stop } := by
  unfold ofTokens
  rw [List.dropLast_concat, List.getLast?_concat]
  rfl

namespace IsValid

theorem start_le_stop (h : s.IsValid source) : s.start ≤ s.stop := by
  have hin := h.inOrder
  unfold start current
  cases hrest : s.rest with
  | nil => exact Nat.le_refl _
  | cons token rest =>
    rw [hrest] at hin
    cases hin with
    | cons hstart htoken hrest =>
      exact Nat.le_trans (Nat.le_of_lt htoken.start_lt) hrest.le

theorem hasSpan_current (h : s.IsValid source) : source.HasSpan s.current.span := by
  have hin := h.inOrder
  unfold current
  cases hrest : s.rest with
  | nil => exact h.stop_boundary.hasSpan_point
  | cons token rest =>
    rw [hrest] at hin
    cases hin with
    | cons _ htoken _ => exact htoken.hasText.hasSpan

theorem start_boundary (h : s.IsValid source) : source.IsBoundary s.start :=
  h.hasSpan_current.start_boundary

theorem previousStop_boundary (h : s.IsValid source) : source.IsBoundary s.previousStop := by
  unfold previousStop
  cases hprevious : s.previous with
  | none => exact h.start_boundary
  | some token => exact h.previous_boundary token hprevious

theorem previousStop_le_start (h : s.IsValid source) : s.previousStop ≤ s.start := by
  have hin := h.inOrder
  unfold previousStop
  cases hprevious : s.previous with
  | none => exact Nat.le_refl _
  | some token =>
    rw [hprevious] at hin
    exact le_start hin

/-- The next token is one of the source. -/
theorem current_isPlaced (h : s.IsValid source) (hrest : s.rest ≠ []) :
    s.current.IsPlaced source ∧ s.current.span.stop ≤ s.stop := by
  have hin := h.inOrder
  unfold current
  cases hcons : s.rest with
  | nil => exact absurd hcons hrest
  | cons token rest =>
    rw [hcons] at hin
    cases hin with
    | cons _ htoken hin => exact ⟨htoken, hin.le⟩

/-- The text of a template stands between the quotes of its token. -/
theorem template_hasText {raw : String} (h : s.IsValid source)
    (hkind : s.current.kind = .template raw) :
    source.HasText ⟨s.start + 1, s.start + 1 + byteLength raw.toList⟩ raw.toList
      ∧ s.current.span.stop = s.start + 1 + byteLength raw.toList + 1 := by
  obtain ⟨hplaced, -⟩ := h.current_isPlaced (rest_ne_nil_of_kind (by simp) hkind)
  -- a template is spelled by its text between two quotes of one byte each
  have hspelling : s.current.kind.spelling.toList = ['`'] ++ raw.toList ++ ['`'] := by
    rw [hkind, TokenKind.spelling, String.toList_append, String.toList_append]
    rfl
  have htext := hplaced.hasText
  rw [hspelling] at htext
  constructor
  · have hpart := htext.part ['`'] raw.toList ['`']
    rwa [byteLength_append, ← Nat.add_assoc] at hpart
  · obtain ⟨_, _, _, _, hlen⟩ := htext
    rw [hlen, byteLength_append, byteLength_append, ← Nat.add_assoc, ← Nat.add_assoc]
    rfl

/-- Taking a token moves on past it. -/
theorem advance (h : s.IsValid source) (hrest : s.rest ≠ []) :
    s.advance.IsValid source ∧ s.start < s.advance.previousStop := by
  have hin := h.inOrder
  have hlevels := h.levels_le
  unfold start current at hlevels
  unfold State.advance start current
  cases hcons : s.rest with
  | nil => exact absurd hcons hrest
  | cons token rest =>
    rw [hcons] at hin hlevels
    cases hin with
    | cons hstart htoken hin =>
      have hlt := htoken.start_lt
      refine ⟨⟨hin, ?_, h.stop_boundary, ?_⟩, hlt⟩
      · rintro token' ⟨⟩
        exact htoken.hasText.hasSpan.stop_boundary
      · intro level hlevel
        -- levels that start no later than this token start before the next one
        have hle : level ≤ token.span.start := hlevels level hlevel
        have hnext : token.span.stop ≤ start { s with taken := token :: s.taken, rest := rest } :=
          le_start hin
        exact Nat.le_trans hle (Nat.le_trans (Nat.le_of_lt hlt) hnext)

/-- Other nesting levels may be open, if they start early enough. -/
theorem withLevels (h : s.IsValid source) {levels : List Nat}
    (hlevels : ∀ level ∈ levels, level ≤ s.start) :
    IsValid source { s with levels := levels } :=
  ⟨h.inOrder, h.previous_boundary, h.stop_boundary, hlevels⟩

theorem withNodes (h : s.IsValid source) (nodes : Array Node) :
    IsValid source { s with nodes := nodes } :=
  ⟨h.inOrder, h.previous_boundary, h.stop_boundary, h.levels_le⟩

end IsValid

/-! ### Leading on -/

/-- What no computation may change: tokens are only taken, and the last one taken is remembered;
    nodes are only added, and nesting levels are closed again. -/
structure LeadsTo (s t : State) : Prop where
  taken : ∃ taken, s.rest = taken ++ t.rest ∧ t.previous = taken.getLast?.or s.previous
  stop_eq : t.stop = s.stop
  levels_eq : t.levels = s.levels
  nodes_kept : s.nodes.toList <+: t.nodes.toList

theorem LeadsTo.refl (s : State) : s.LeadsTo s :=
  ⟨⟨[], rfl, rfl⟩, rfl, rfl, List.prefix_refl _⟩

theorem LeadsTo.trans (h : s.LeadsTo t) (h' : t.LeadsTo u) : s.LeadsTo u := by
  refine ⟨?_, h'.stop_eq.trans h.stop_eq, h'.levels_eq.trans h.levels_eq,
    h.nodes_kept.trans h'.nodes_kept⟩
  obtain ⟨taken, hrest, hprevious⟩ := h.taken
  obtain ⟨more, hrest', hprevious'⟩ := h'.taken
  refine ⟨taken ++ more, by rw [hrest, hrest', List.append_assoc], ?_⟩
  -- the last token taken is that of the second part, if it has taken any
  rw [hprevious', hprevious, List.getLast?_append, Option.or_assoc]

theorem LeadsTo.rest_suffix (h : s.LeadsTo t) : t.rest <:+ s.rest := by
  obtain ⟨taken, hrest, _⟩ := h.taken
  exact ⟨taken, hrest.symm⟩

theorem LeadsTo.size_le (h : s.LeadsTo t) : s.nodes.size ≤ t.nodes.size := by
  simpa using h.nodes_kept.length_le

theorem leadsTo_advance (s : State) : s.LeadsTo s.advance := by
  unfold advance
  cases hrest : s.rest with
  | nil => exact LeadsTo.refl s
  | cons token rest => exact ⟨⟨[token], by rw [hrest]; rfl, rfl⟩, rfl, rfl, List.prefix_refl _⟩

end State

/-! ### What a computation ensures -/

namespace Parser

variable {α β : Type} {source : Source} {s t : State} {x : Parser α} {f : α → Parser β}
  {P Q : α → State → Prop} {R : β → State → Prop}

/-- A computation that leads on from a state and fails only with a sound error; where it succeeds,
    `Q` holds of its value and of the state it ends in. -/
def Ensures (source : Source) (s : State) (x : Parser α) (Q : α → State → Prop) : Prop :=
  match x source s with
  | .ok a t => s.LeadsTo t ∧ Q a t
  | .error error t => s.LeadsTo t ∧ error.IsSound source

theorem bind_apply (x : Parser α) (f : α → Parser β) (source : Source) (s : State) :
    (x >>= f) source s =
      match x source s with
      | .ok a t => f a source t
      | .error error t => .error error t := by
  show EStateM.bind (x source) (fun a => f a source) s = _
  unfold EStateM.bind
  cases x source s <;> rfl

theorem bind_eq_ok {b : β} (h : (x >>= f) source s = .ok b t) :
    ∃ a u, x source s = .ok a u ∧ f a source u = .ok b t := by
  rw [bind_apply] at h
  cases hx : x source s with
  | error error u =>
    rw [hx] at h
    cases h
  | ok a u =>
    rw [hx] at h
    exact ⟨a, u, rfl, h⟩

/-- **Sequences.**  What the first part ensures is at hand for the second. -/
theorem Ensures.bind (hx : Ensures source s x P)
    (hf : ∀ a t, P a t → Ensures source t (f a) R) : Ensures source s (x >>= f) R := by
  unfold Ensures at hx ⊢
  rw [bind_apply]
  cases h : x source s with
  | error error t =>
    rw [h] at hx
    exact hx
  | ok a t =>
    rw [h] at hx
    obtain ⟨hleads, hP⟩ := hx
    -- the second part runs from where the first has ended, whether it fails or not
    have hrest := hf a t hP
    unfold Ensures at hrest
    dsimp only
    cases h' : f a source t with
    | error error u =>
      rw [h'] at hrest
      exact ⟨hleads.trans hrest.1, hrest.2⟩
    | ok b u =>
      rw [h'] at hrest
      exact ⟨hleads.trans hrest.1, hrest.2⟩

theorem Ensures.mono (hx : Ensures source s x P) (h : ∀ a t, P a t → Q a t) :
    Ensures source s x Q := by
  unfold Ensures at hx ⊢
  cases h' : x source s with
  | error error t =>
    rw [h'] at hx
    exact hx
  | ok a t =>
    rw [h'] at hx
    exact ⟨hx.1, h a t hx.2⟩

/-- That a computation leads on is at hand too. -/
theorem Ensures.leads (hx : Ensures source s x P) :
    Ensures source s x (fun a t => s.LeadsTo t ∧ P a t) := by
  unfold Ensures at hx ⊢
  cases h : x source s with
  | error error t =>
    rw [h] at hx
    exact hx
  | ok a t =>
    rw [h] at hx
    exact ⟨hx.1, hx⟩

theorem Ensures.pure {a : α} (h : Q a s) : Ensures source s (pure a) Q :=
  ⟨.refl s, h⟩

theorem Ensures.map {g : α → β} (hx : Ensures source s x (fun a t => R (g a) t)) :
    Ensures source s (g <$> x) R :=
  hx.bind fun _ _ h => .pure h

/-! ### Reading the state -/

section Reading

variable {n : Nat} {kind : TokenKind} {id : NodeId} {g : Bool → Parser α}

theorem ensures_get {f : State → Parser α} :
    Ensures source s (get >>= f) Q ↔ Ensures source s (f s) Q :=
  Iff.rfl

theorem ensures_read {f : Source → Parser α} :
    Ensures source s (read >>= f) Q ↔ Ensures source s (f source) Q :=
  Iff.rfl

theorem ensures_ahead {f : List Token → Parser α} :
    Ensures source s (ahead >>= f) Q ↔ Ensures source s (f s.rest) Q :=
  Iff.rfl

theorem ensures_peek {f : TokenKind → Parser α} :
    Ensures source s (peek n >>= f) Q ↔ Ensures source s (f (kindAt s.rest n)) Q :=
  Iff.rfl

theorem ensures_start {f : Nat → Parser α} :
    Ensures source s (start >>= f) Q ↔ Ensures source s (f s.start) Q :=
  Iff.rfl

theorem ensures_atEnd : Ensures source s (atEnd >>= g) Q ↔ Ensures source s (g s.rest.isEmpty) Q :=
  Iff.rfl

theorem ensures_check :
    Ensures source s (check kind >>= g) Q ↔ Ensures source s (g (s.current.kind == kind)) Q :=
  Iff.rfl

theorem lookup_apply (id : NodeId) (source : Source) (s : State) :
    lookup id source s = (s.nodes[id]?).elim (exhausted source s) (.ok · s) := by
  have hget : (get : Parser State) source s = .ok s s := rfl
  rw [lookup, bind_apply, hget]
  dsimp only
  cases s.nodes[id]? <;> rfl

theorem lookup_eq_ok (hid : id < s.nodes.size) :
    lookup id source s = .ok ((s.nodes[id]?).getD .blank) s := by
  rw [lookup_apply, Array.getElem?_eq_getElem hid]
  rfl

theorem ensures_kindOf {f : NodeKind → Parser α} (hid : id < s.nodes.size) :
    Ensures source s (kindOf id >>= f) Q
      ↔ Ensures source s (f ((s.nodes[id]?).getD .blank).kind) Q := by
  unfold Ensures kindOf
  rw [bind_apply, bind_apply, lookup_eq_ok hid]
  rfl

theorem ensures_spanOf {f : Span → Parser α} (hid : id < s.nodes.size) :
    Ensures source s (spanOf id >>= f) Q
      ↔ Ensures source s (f ((s.nodes[id]?).getD .blank).span) Q := by
  unfold Ensures spanOf
  rw [bind_apply, bind_apply, lookup_eq_ok hid]
  rfl

theorem ensures_bind_assoc {γ : Type} {x : Parser β} {h : β → Parser γ} {f : γ → Parser α} :
    Ensures source s ((x >>= h) >>= f) Q ↔ Ensures source s (x >>= fun a => h a >>= f) Q := by
  unfold Ensures
  simp only [bind_apply]
  cases x source s <;> rfl

theorem ensures_discard {x : Parser β} {f : Unit → Parser α} :
    Ensures source s (discard x >>= f) Q ↔ Ensures source s (x >>= fun _ => f ()) Q := by
  -- `discard` is a map, which is a sequence by definition
  have hdiscard : discard x = x >>= fun _ => pure () := rfl
  rw [hdiscard, ensures_bind_assoc]
  exact Iff.rfl

end Reading

/-! ### Other tokens -/

/-- A production on other tokens leaves the present ones where they are. -/
theorem ensures_onTokens {tokens : List Token}
    (h : Ensures source { State.ofTokens tokens with nodes := s.nodes, levels := s.levels } x
      fun a t => Q a { t with taken := s.taken, rest := s.rest, stop := s.stop }) :
    Ensures source s (onTokens tokens x) Q := by
  -- no token at hand is taken; the nodes and levels are those of the inner run
  have hresume : ∀ t, State.LeadsTo
      { State.ofTokens tokens with nodes := s.nodes, levels := s.levels } t →
      s.LeadsTo { t with taken := s.taken, rest := s.rest, stop := s.stop } :=
    fun t ht => ⟨⟨[], rfl, rfl⟩, rfl, ht.levels_eq, ht.nodes_kept⟩
  unfold Ensures at h ⊢
  unfold onTokens
  dsimp only
  cases hresult : x source { State.ofTokens tokens with nodes := s.nodes, levels := s.levels } with
  | error error t =>
    rw [hresult] at h
    exact ⟨hresume t h.1, h.2⟩
  | ok a t =>
    rw [hresult] at h
    exact ⟨hresume t h.1, h.2⟩

/-! ### Failing -/

theorem ensures_fail {fault : Fault} {span : Span} (hfault : fault.isGenuine = true)
    (hspan : source.HasSpan span) : Ensures source s (fail fault span : Parser α) Q :=
  ⟨.refl s, hfault, hspan⟩

theorem ensures_unexpected {expected : String} (hs : s.IsValid source) :
    Ensures source s (unexpected expected : Parser α) Q :=
  ⟨.refl s, rfl, hs.hasSpan_current⟩

theorem expectEnd_eq_ok {a : Unit} (h : expectEnd source s = .ok a t) : s.rest = [] ∧ t = s := by
  change (if s.rest.isEmpty = true then pure ()
    else fail (.trailingInput s.current.kind) s.current.span : Parser Unit) source s = _ at h
  split at h
  · next hempty =>
    cases h
    exact ⟨List.isEmpty_iff.1 hempty, rfl⟩
  · cases h

/-- Reading to the end: no token is left where that succeeds. -/
theorem ensures_expectEnd (hs : s.IsValid source) :
    Ensures source s expectEnd (fun _ t => t = s ∧ s.rest = []) := by
  unfold expectEnd
  rw [ensures_get]
  split
  · next h => exact .pure ⟨rfl, List.isEmpty_iff.1 h⟩
  · exact ensures_fail rfl hs.hasSpan_current

end Parser

end CodeMarkup
