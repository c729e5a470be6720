import CodeMarkup.Proofs.Parsing.Outcome
import CodeMarkup.Proofs.Safety.Lines

namespace CodeMarkup

/-!
# The token cursor

The tokens that a state has taken and those that are left make up one list, with the mark at its
end; the number of tokens taken is an index into it.  Reading the next token, one further ahead or
the last one taken is an access to that list, and none of these accesses is out of range.

* `Cursor`: a list of tokens and an index.
* `State.cursor`: the cursor of a state.
* `State.cursor_isInRange`: every access of a state is in range.
* `State.cursor_ofTokens`: a parse starts at index zero of its tokens.
* `State.IsValid.cursor_advance`: taking a token moves the index by one, until the mark is reached.
-/

/-- Tokens, the mark included, and the index of the one that is read next. -/
structure Cursor where
  /-- The tokens. -/
  tokens : List Token
  /-- The index of the next one. -/
  index : Nat

namespace Cursor

/-- The token at an index; past the end stands the last one. -/
def tokenAt (cursor : Cursor) (index : Nat) : Option Token :=
  cursor.tokens[min index (cursor.tokens.length - 1)]?

/-- Where the token before the next one stops; without one, where the next one starts. -/
def previousStop (cursor : Cursor) : Option Nat :=
  if cursor.index = 0 then do
    let token ← cursor.tokenAt 0
    return token.span.start
  else do
    let index ← Checked.minus cursor.index 1
    let token ← cursor.tokens[index]?
    return token.span.stop

/-- The cursor after the next token; there is nothing after the mark. -/
def advance (cursor : Cursor) : Option Cursor := do
  let token ← cursor.tokenAt cursor.index
  if token.kind = .eof then return cursor
  else return { cursor with index := cursor.index + 1 }

end Cursor

namespace State

/-- The cursor of a state. -/
def cursor (s : State) : Cursor :=
  ⟨s.taken.reverse ++ (s.rest ++ [⟨.eof, .point s.stop⟩]), s.taken.length⟩

/-- That the accesses to the tokens of a state are in range, and find what the state reads. -/
structure IsInRange (s : State) : Prop where
  /-- The cursor stays below the number of tokens. -/
  index_lt : s.cursor.index < s.cursor.tokens.length
  /-- Any number of tokens ahead, there is one. -/
  ahead : ∀ n, ∃ token, s.cursor.tokenAt (s.cursor.index + n) = some token
    ∧ token.kind = kindAt s.rest n
  /-- The next token is the one at the index. -/
  current : s.cursor.tokenAt s.cursor.index = some s.current
  /-- The token before the index is the last one taken. -/
  previousStop : s.cursor.previousStop = some s.previousStop

theorem cursor_length (s : State) :
    s.cursor.tokens.length = s.taken.length + (s.rest.length + 1) := by
  simp [cursor]

/-- What stands ahead of the cursor are the tokens left, and then the mark. -/
theorem cursor_tokenAt (s : State) (n : Nat) :
    s.cursor.tokenAt (s.cursor.index + n) = some (s.rest.getD n ⟨.eof, .point s.stop⟩) := by
  have hmin : min (s.cursor.index + n) (s.cursor.tokens.length - 1)
      = s.taken.reverse.length + min n s.rest.length := by
    rw [cursor_length, List.length_reverse]
    show min (s.taken.length + n) _ = _
    omega
  rw [Cursor.tokenAt, hmin]
  show (s.taken.reverse ++ _)[_]? = _
  rw [List.getElem?_append_right (Nat.le_add_right _ _), Nat.add_sub_cancel_left]
  by_cases hn : n < s.rest.length
  · rw [Nat.min_eq_left (Nat.le_of_lt hn), List.getElem?_append_left hn]
    simp [hn]
  · have hle : s.rest.length ≤ n := Nat.le_of_not_lt hn
    rw [Nat.min_eq_right hle, List.getElem?_append_right (Nat.le_refl _)]
    simp [hle]

theorem cursor_current (s : State) : s.cursor.tokenAt s.cursor.index = some s.current := by
  have hcurrent := s.cursor_tokenAt 0
  rw [Nat.add_zero] at hcurrent
  rw [hcurrent, State.current]
  cases s.rest <;> rfl

theorem cursor_previousStop (s : State) : s.cursor.previousStop = some s.previousStop := by
  unfold Cursor.previousStop State.previousStop previous
  cases htaken : s.taken with
  | nil =>
    have hindex : s.cursor.index = 0 := congrArg List.length htaken
    have hcurrent := s.cursor_current
    rw [hindex] at hcurrent
    rw [if_pos hindex, hcurrent]
    rfl
  | cons last taken =>
    have hindex : s.cursor.index = taken.length + 1 := congrArg List.length htaken
    -- of the tokens taken, the last one stands right before the index
    have hlast : s.cursor.tokens[taken.length]? = some last := by
      simp [cursor, htaken]
    have hne : s.cursor.index ≠ 0 := by omega
    rw [if_neg hne, hindex, Checked.minus_eq (by omega), Nat.add_sub_cancel]
    simp [hlast]

/-- **Every access is in range.**  The mark is never taken, so the index stays below it. -/
theorem cursor_isInRange (s : State) : s.IsInRange where
  index_lt := by
    rw [cursor_length]
    exact Nat.lt_add_of_pos_right (Nat.succ_pos _)
  ahead n := by
    refine ⟨_, s.cursor_tokenAt n, ?_⟩
    rw [kindAt, List.getD_eq_getElem?_getD]
    cases s.rest[n]? <;> rfl
  current := s.cursor_current
  previousStop := s.cursor_previousStop

/-- A parse starts at the first of its tokens. -/
theorem cursor_ofTokens {source : Source} {span : Span} {tokens : List Token}
    (hspan : source.HasSpan span) (h : IsTokenStream source span (.ok tokens)) :
    (State.ofTokens tokens).IsValid source ∧ (State.ofTokens tokens).cursor = ⟨tokens, 0⟩ := by
  obtain ⟨body, rfl, hbody⟩ := h
  rw [ofTokens_concat]
  exact ⟨⟨hbody.mono (Nat.zero_le _), nofun, hspan.stop_boundary, nofun⟩, rfl⟩

/-- Taking a token moves the cursor, which stays on the same tokens. -/
theorem IsValid.cursor_advance {source : Source} {s : State} (h : s.IsValid source) :
    s.advance.IsValid source ∧ s.cursor.advance = some s.advance.cursor := by
  rw [Cursor.advance, s.cursor_current, Option.bind_eq_bind, Option.bind_some]
  by_cases hrest : s.rest = []
  · -- the mark is not taken
    have hmark : s.current.kind = .eof := by
      rw [State.current, hrest]
      rfl
    have hstays : s.advance = s := by
      rw [State.advance, hrest]
    rw [if_pos hmark, hstays]
    exact ⟨h, rfl⟩
  · obtain ⟨hplaced, -⟩ := h.current_isPlaced hrest
    refine ⟨(h.advance hrest).1, ?_⟩
    rw [if_neg hplaced.kind_ne]
    obtain ⟨token, rest, hcons⟩ := List.exists_cons_of_ne_nil hrest
    simp [State.advance, cursor, hcons]

end State

end CodeMarkup
