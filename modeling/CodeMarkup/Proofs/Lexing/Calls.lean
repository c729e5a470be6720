import CodeMarkup.Proofs.Lexing.Layout

namespace CodeMarkup

/-!
# A scan driven by calls

A scan can be asked for its next token and for the next item of its iteration, in any order and
also after a fault.  It keeps two cursors: the bytes taken and the position.  A failed iteration
moves the position alone past the end of the text, and a call that skips nothing starts its span
there.

* `Lexer.run`: the answers to a sequence of calls, each with the state it is asked in.
* `Lexer.IsWithin`: the cursors stand in a range of the source, and the position follows the bytes
  taken or stands past the end.
* `Lexer.IsWithin.answer`, `Lexer.IsWithin.run`: a call keeps this, and so does a run.
* `Source.lexer_run_isSafe_iff`: which calls give a token where it stands, or a fault of the text.
-/

/-- A piece at fault is not empty. -/
theorem Piece.text_ne_nil_of_error {text : List Char} {fault : Fault}
    (h : (scan text).outcome = .error fault) : (scan text).text ≠ [] := by
  unfold scan at h ⊢
  dsimp only at h ⊢
  split at h
  · next hclosed =>
    rw [if_pos hclosed]
    cases hrest : (Gap.scan text).rest with
    | nil =>
      rw [hrest] at h
      cases h
    | cons c rest => exact List.length_pos_iff.1 (Lexeme.scan_text_pos c rest)
  · next hopen =>
    rw [if_neg hopen]
    exact fun hnil => hopen (List.isEmpty_iff.2 hnil)

namespace Lexer

/-! ### Runs -/

/-- The ways to drive a scan. -/
inductive Call where
  /-- Asks for the next item of the iteration. -/
  | next
  /-- Asks for the next token. -/
  | nextToken

/-- The answer to a call, and the scan after it. -/
def answer (lexer : Lexer) : Call → Option (Except ParseError Token) × Lexer
  | .next => lexer.next
  | .nextToken => (some lexer.nextToken.1, lexer.nextToken.2)

/-- A call in a run: the scan before it, and the answer. -/
structure Step where
  before : Lexer
  call : Call
  answer : Option (Except ParseError Token)

/-- The steps of a sequence of calls on one scan. -/
def run (lexer : Lexer) : List Call → List Step
  | [] => []
  | call :: calls => ⟨lexer, call, (lexer.answer call).1⟩ :: run (lexer.answer call).2 calls

/-- An answer that says where it stands: a token in the range, at its spelling, or a fault of the
    text, or the end. -/
def IsSafe (source : Source) (range : Span) : Option (Except ParseError Token) → Prop
  | none => True
  | some (.error error) => error.fault ≠ .reversedSlice
  | some (.ok token) => token.span.start ≤ token.span.stop ∧ range.contains token.span = true
      ∧ source.slice? token.span = some token.kind.spelling.toList

namespace Step

/-- Whether the next token is asked for in vain: the position stands past the end, no blank or
    comment brings it back, and the span that starts there is read or returned. -/
def IsStray (step : Step) : Prop :=
  step.call = .nextToken ∧ step.before.size < step.before.position
    ∧ (Piece.scan step.before.rest).trivia = []
    ∧ ((∃ kind, (Piece.scan step.before.rest).outcome = .ok kind)
      ∨ readsSpan (Piece.scan step.before.rest).outcome = true)

/-- The call ends the iteration with a fault. -/
def Fails (step : Step) : Prop :=
  step.call = .next ∧ ∃ error, step.answer = some (.error error)

end Step

/-! ### One call -/

/-- Where the next token starts, in the text that is scanned. -/
def tokenStart (lexer : Lexer) : Nat :=
  if (Piece.scan lexer.rest).trivia.isEmpty then lexer.position
  else lexer.consumed + byteLength (Piece.scan lexer.rest).trivia

/-- Where the next token stops, in the text that is scanned. -/
def tokenStop (lexer : Lexer) : Nat :=
  if (Piece.scan lexer.rest).text.isEmpty then lexer.tokenStart
  else lexer.consumed + byteLength (Piece.scan lexer.rest).trivia
    + byteLength (Piece.scan lexer.rest).text

/-- What a call for the next token answers, and what it changes. -/
theorem nextToken_eq (lexer : Lexer) :
    lexer.nextToken =
      (if lexer.tokenStop < lexer.tokenStart && readsSpan (Piece.scan lexer.rest).outcome then
          .error ⟨.reversedSlice, ⟨lexer.base + lexer.tokenStart, lexer.base + lexer.tokenStop⟩⟩
        else match (Piece.scan lexer.rest).outcome with
          | .ok kind => .ok ⟨kind, ⟨lexer.base + lexer.tokenStart, lexer.base + lexer.tokenStop⟩⟩
          | .error fault =>
            .error ⟨fault, ⟨lexer.base + lexer.tokenStart, lexer.base + lexer.tokenStop⟩⟩,
        { lexer with
          consumed := lexer.consumed + byteLength (Piece.scan lexer.rest).trivia
            + byteLength (Piece.scan lexer.rest).text
          position := lexer.tokenStop
          rest := (Piece.scan lexer.rest).rest }) := by
  rw [nextToken]
  show (if lexer.tokenStop < lexer.tokenStart && readsSpan (Piece.scan lexer.rest).outcome then _
    else _) = _
  split
  · rfl
  · cases (Piece.scan lexer.rest).outcome <;> rfl

section

variable {source : Source} {range : Span} {lexer : Lexer}

/-- The position follows the bytes taken, or a gap that is skipped brings it back to them. -/
def IsOnTrack (lexer : Lexer) : Prop :=
  (Piece.scan lexer.rest).trivia = [] → lexer.position = lexer.consumed

theorem IsOnTrack.tokenStart_eq (h : lexer.IsOnTrack) :
    lexer.tokenStart = lexer.consumed + byteLength (Piece.scan lexer.rest).trivia := by
  unfold tokenStart
  split
  · next hnil =>
    have hnil := List.isEmpty_iff.1 hnil
    rw [h hnil, hnil]
    rfl
  · rfl

theorem IsOnTrack.tokenStop_eq (h : lexer.IsOnTrack) :
    lexer.tokenStop = lexer.consumed + byteLength (Piece.scan lexer.rest).trivia
      + byteLength (Piece.scan lexer.rest).text := by
  unfold tokenStop
  split
  · next hnil => rw [h.tokenStart_eq, List.isEmpty_iff.1 hnil]; rfl
  · rfl

/-- A scan of a range of a source.  What is left stands in the source after the bytes taken; the
    position follows them, or stands past the end. -/
structure IsWithin (source : Source) (range : Span) (lexer : Lexer) : Prop where
  base_eq : lexer.base = range.start
  size_eq : range.stop = range.start + lexer.size
  hasText : source.HasText ⟨range.start + lexer.consumed, range.stop⟩ lexer.rest
  position_eq : lexer.position = lexer.consumed ∨ lexer.position = lexer.size + 1

theorem isWithin_ofText {text : List Char} (h : source.HasText range text) :
    (ofText range.start text).IsWithin source range := by
  refine ⟨rfl, ?_, h, .inl rfl⟩
  obtain ⟨_, _, _, _, hstop⟩ := h
  exact hstop

namespace IsWithin

/-- The next piece stands in the source, before what is left after it. -/
theorem piece (h : lexer.IsWithin source range) :
    source.HasText
        ⟨range.start + (lexer.consumed + byteLength (Piece.scan lexer.rest).trivia),
          range.start + (lexer.consumed + byteLength (Piece.scan lexer.rest).trivia
            + byteLength (Piece.scan lexer.rest).text)⟩ (Piece.scan lexer.rest).text
      ∧ source.HasText
        ⟨range.start + (lexer.consumed + byteLength (Piece.scan lexer.rest).trivia
            + byteLength (Piece.scan lexer.rest).text), range.stop⟩
        (Piece.scan lexer.rest).rest := by
  have htext := h.hasText
  rw [← Piece.scan_append lexer.rest, List.append_assoc] at htext
  obtain ⟨htext, hrest⟩ := htext.split.2.split
  simp only [Nat.add_assoc] at htext hrest ⊢
  exact ⟨htext, hrest⟩

/-- The next piece ends inside the range. -/
theorem piece_le (h : lexer.IsWithin source range) :
    lexer.consumed + byteLength (Piece.scan lexer.rest).trivia
      + byteLength (Piece.scan lexer.rest).text ≤ lexer.size := by
  have hle := h.piece.2.hasSpan.start_le
  have hsize := h.size_eq
  dsimp only at hle
  omega

/-- Where the position has strayed, it stands past the end. -/
theorem position_of_lt (h : lexer.IsWithin source range) (hlt : lexer.size < lexer.position) :
    lexer.position = lexer.size + 1 := by
  rcases h.position_eq with hposition | hposition
  · have := h.piece_le
    omega
  · exact hposition

theorem isOnTrack (h : lexer.IsWithin source range) (hle : lexer.position ≤ lexer.size) :
    lexer.IsOnTrack := by
  intro _
  rcases h.position_eq with hposition | hposition
  · exact hposition
  · omega

/-- A call for the next token moves the cursors together, or leaves the position past the end. -/
theorem nextToken (h : lexer.IsWithin source range) :
    lexer.nextToken.2.IsWithin source range := by
  rw [nextToken_eq]
  refine ⟨h.base_eq, h.size_eq, h.piece.2, ?_⟩
  by_cases htrack : lexer.IsOnTrack
  · exact .inl htrack.tokenStop_eq
  · -- nothing is skipped, and the position stays if nothing is taken
    simp only [IsOnTrack, Classical.not_imp] at htrack
    obtain ⟨htrivia, hposition⟩ := htrack
    show lexer.tokenStop = _ ∨ lexer.tokenStop = _
    unfold tokenStop tokenStart
    rw [htrivia]
    split
    · exact .inr (h.position_eq.resolve_left hposition)
    · exact .inl rfl

/-- On track, the next token is found where it stands. -/
theorem isSafe_of_isOnTrack (h : lexer.IsWithin source range) (htrack : lexer.IsOnTrack) :
    IsSafe source range (some lexer.nextToken.1) := by
  have hspelled := Piece.scan_spelling lexer.rest
  have hle := h.piece_le
  have hsize := h.size_eq
  rw [nextToken_eq]
  dsimp only
  rw [htrack.tokenStart_eq, htrack.tokenStop_eq, h.base_eq,
    if_neg (by simp only [Bool.and_eq_true, decide_eq_true_eq]; omega)]
  cases houtcome : (Piece.scan lexer.rest).outcome with
  | error fault =>
    rw [houtcome] at hspelled
    rintro rfl
    cases hspelled
  | ok kind =>
    rw [houtcome] at hspelled
    refine ⟨by dsimp only; omega, ?_, ?_⟩
    · simp only [Span.contains, Bool.and_eq_true, decide_eq_true_eq]
      omega
    · rw [hspelled.1]
      exact Source.slice?_eq_some h.piece.1

/-- Off the track, the token starts past the end. -/
theorem tokenStart_of_lt (h : lexer.IsWithin source range) (hlt : lexer.size < lexer.position)
    (htrivia : (Piece.scan lexer.rest).trivia = []) : lexer.tokenStart = lexer.size + 1 := by
  rw [tokenStart, htrivia]
  exact h.position_of_lt hlt

/-- Off the track, the next token is safe only if its text is neither read nor returned. -/
theorem isSafe_iff_of_lt (h : lexer.IsWithin source range) (hlt : lexer.size < lexer.position)
    (htrivia : (Piece.scan lexer.rest).trivia = []) :
    IsSafe source range (some lexer.nextToken.1)
      ↔ ¬ ((∃ kind, (Piece.scan lexer.rest).outcome = .ok kind)
        ∨ readsSpan (Piece.scan lexer.rest).outcome = true) := by
  have hspelled := Piece.scan_spelling lexer.rest
  have hstart := h.tokenStart_of_lt hlt htrivia
  have hle := h.piece_le
  rw [nextToken_eq]
  dsimp only
  by_cases hnil : (Piece.scan lexer.rest).text = []
  · -- the end mark stands past the end
    have hstop : lexer.tokenStop = lexer.size + 1 := by
      rw [tokenStop, hnil]
      exact hstart
    rw [hstart, hstop, if_neg (by simp)]
    cases houtcome : (Piece.scan lexer.rest).outcome with
    | error fault => exact absurd hnil (Piece.text_ne_nil_of_error houtcome)
    | ok kind =>
      refine iff_of_false (fun hsafe => ?_) (fun hnot => hnot (.inl ⟨kind, rfl⟩))
      have hcontains := hsafe.2.1
      have hbase := h.base_eq
      have hsize := h.size_eq
      simp only [Span.contains, Bool.and_eq_true, decide_eq_true_eq] at hcontains
      omega
  · -- the span stops before it starts
    have hstop : lexer.tokenStop < lexer.tokenStart := by
      rw [hstart, tokenStop, if_neg (by rwa [List.isEmpty_iff])]
      omega
    rw [decide_eq_true hstop, Bool.true_and]
    by_cases hreads : readsSpan (Piece.scan lexer.rest).outcome = true
    · rw [if_pos hreads]
      exact iff_of_false (fun hsafe => hsafe rfl) (fun hnot => hnot (.inr hreads))
    · rw [if_neg hreads]
      cases houtcome : (Piece.scan lexer.rest).outcome with
      | error fault =>
        rw [houtcome] at hreads hspelled
        refine iff_of_true ?_ ?_
        · rintro rfl
          cases hspelled
        · rintro (⟨kind, hkind⟩ | hreads')
          · cases hkind
          · exact hreads hreads'
      | ok kind =>
        refine iff_of_false (fun hsafe => ?_) (fun hnot => hnot (.inl ⟨kind, rfl⟩))
        have hle := hsafe.1
        dsimp only at hle
        omega

/-- **One call.**  A call keeps the cursors within the range. -/
theorem answer (h : lexer.IsWithin source range) (call : Call) :
    (lexer.answer call).2.IsWithin source range := by
  cases call with
  | nextToken => exact h.nextToken
  | next =>
    have hafter := h.nextToken
    show lexer.next.2.IsWithin source range
    unfold Lexer.next
    split
    · exact h
    · generalize lexer.nextToken = result at hafter
      obtain ⟨result, after⟩ := result
      cases result with
      | error error => exact ⟨hafter.base_eq, hafter.size_eq, hafter.hasText, .inr rfl⟩
      | ok token =>
        dsimp only
        split <;> exact hafter

/-- The iteration asks for a token only on track. -/
theorem next_isSafe (h : lexer.IsWithin source range) : IsSafe source range lexer.next.1 := by
  unfold Lexer.next
  split
  · trivial
  · next hle =>
    have hsafe := h.isSafe_of_isOnTrack (h.isOnTrack (by omega))
    generalize lexer.nextToken = result at hsafe
    obtain ⟨result, after⟩ := result
    cases result with
    | error error => exact hsafe
    | ok token =>
      dsimp only
      split
      · trivial
      · exact hsafe

/-- **Which calls are safe.**  All but those that ask for a token off the track. -/
theorem isSafe_iff (h : lexer.IsWithin source range) (call : Call) :
    IsSafe source range (lexer.answer call).1
      ↔ ¬ Step.IsStray ⟨lexer, call, (lexer.answer call).1⟩ := by
  cases call with
  | next => exact iff_of_true h.next_isSafe (by rintro ⟨hcall, -⟩; cases hcall)
  | nextToken =>
    by_cases hstray : lexer.size < lexer.position ∧ (Piece.scan lexer.rest).trivia = []
    · obtain ⟨hlt, htrivia⟩ := hstray
      have hiff := h.isSafe_iff_of_lt hlt htrivia
      simp only [Step.IsStray, hlt, htrivia, true_and]
      exact hiff
    · refine iff_of_true (h.isSafe_of_isOnTrack fun htrivia => ?_) ?_
      · have hle : lexer.position ≤ lexer.size := by
          by_contra hgt
          exact hstray ⟨by omega, htrivia⟩
        exact h.isOnTrack hle htrivia
      · rintro ⟨-, hlt, htrivia, -⟩
        exact hstray ⟨hlt, htrivia⟩

/-- On track, a call for the next token leaves the position in the text. -/
theorem position_nextToken_le (h : lexer.IsWithin source range)
    (hle : lexer.position ≤ lexer.size) :
    lexer.nextToken.2.position ≤ lexer.nextToken.2.size := by
  rw [nextToken_eq]
  show lexer.tokenStop ≤ lexer.size
  rw [(h.isOnTrack hle).tokenStop_eq]
  exact h.piece_le

/-- A call that leaves the position past the end has found it there, or ends the iteration with a
    fault. -/
theorem lt_or_fails (h : lexer.IsWithin source range) {call : Call}
    (hlt : (lexer.answer call).2.size < (lexer.answer call).2.position) :
    lexer.size < lexer.position ∨ Step.Fails ⟨lexer, call, (lexer.answer call).1⟩ := by
  by_cases hbefore : lexer.size < lexer.position
  · exact .inl hbefore
  have hle := h.position_nextToken_le (Nat.le_of_not_lt hbefore)
  cases call with
  | nextToken => exact absurd hlt (Nat.not_lt_of_le hle)
  | next =>
    refine .inr ⟨rfl, ?_⟩
    show ∃ error, lexer.next.1 = some (.error error)
    have hlt : lexer.next.2.size < lexer.next.2.position := hlt
    unfold Lexer.next at hlt ⊢
    rw [if_neg hbefore] at hlt ⊢
    generalize lexer.nextToken = result at hle hlt
    obtain ⟨result, after⟩ := result
    cases result with
    | error error => exact ⟨error, rfl⟩
    | ok token =>
      -- a token leaves the position where the call for it does
      dsimp only at hlt hle
      split at hlt <;> exact absurd hlt (Nat.not_lt_of_le hle)

/-! ### Runs of calls -/

/-- **Runs.**  Every call of a run finds the cursors within the range, and the position past the end
    only if it stood there from the start or an earlier call ended the iteration with a fault. -/
theorem run {calls : List Call} {front back : List Step} {step : Step}
    (h : lexer.IsWithin source range) (hrun : lexer.run calls = front ++ step :: back) :
    step.before.IsWithin source range ∧ step.answer = (step.before.answer step.call).1
      ∧ (step.before.size < step.before.position →
        lexer.size < lexer.position ∨ ∃ failed ∈ front, failed.Fails) := by
  induction calls generalizing lexer front with
  | nil =>
    rw [Lexer.run] at hrun
    simp at hrun
  | cons call calls ih =>
    rw [Lexer.run] at hrun
    cases front with
    | nil =>
      obtain ⟨rfl, -⟩ := List.cons.inj hrun
      exact ⟨h, rfl, .inl⟩
    | cons first front =>
      obtain ⟨rfl, hmore⟩ := List.cons.inj hrun
      obtain ⟨hwithin, hanswer, hpast⟩ := ih (h.answer call) hmore
      refine ⟨hwithin, hanswer, fun hlt => ?_⟩
      rcases hpast hlt with hafter | ⟨failed, hmem, hfails⟩
      · rcases h.lt_or_fails hafter with hbefore | hfails
        · exact .inl hbefore
        · exact .inr ⟨_, List.mem_cons_self, hfails⟩
      · exact .inr ⟨failed, List.mem_cons_of_mem _ hmem, hfails⟩

end IsWithin

end

end Lexer

/-- **Driving a scan.**  A scan of a range is asked for tokens and for items of its iteration, in
    any order.  An answer is a token of the range at its spelling, a fault of the text or the end,
    except if the next token is asked for while the position stands past the end and nothing is
    skipped; and then an earlier call ended the iteration with a fault. -/
theorem Source.lexer_run_isSafe_iff (source : Source) (range : Span) (hrange : source.HasSpan range)
    (calls : List Lexer.Call) :
    ∃ text, source.slice? range = some text
      ∧ ∀ front step back, (Lexer.ofText range.start text).run calls = front ++ step :: back →
        (Lexer.IsSafe source range step.answer ↔ ¬ step.IsStray)
        ∧ (step.IsStray → ∃ failed ∈ front, failed.Fails) := by
  obtain ⟨text, htext⟩ := hrange.exists_hasText
  refine ⟨text, slice?_eq_some htext, fun front step back hrun => ?_⟩
  obtain ⟨hwithin, hanswer, hpast⟩ := (Lexer.isWithin_ofText htext).run hrun
  constructor
  · have hiff := hwithin.isSafe_iff step.call
    rwa [← hanswer] at hiff
  · rintro ⟨-, hlt, -⟩
    exact (hpast hlt).resolve_left (Nat.not_lt_zero _)

/-- After an iteration that failed at a sign, the name behind the sign is read from a span that
    stops before it starts. -/
theorem lexer_run_isSafe_iff_afterFailure :
    ∃ first second, (Lexer.ofText 0 "#a".toList).run [.next, .nextToken] = [first, second]
      ∧ Lexer.IsSafe (Source.ofText "#a") ⟨0, 2⟩ first.answer ∧ first.Fails
      ∧ ¬ Lexer.IsSafe (Source.ofText "#a") ⟨0, 2⟩ second.answer := by
  have hrange : (Source.ofText "#a").HasSpan ⟨0, 2⟩ :=
    ⟨by decide, ⟨[], "#a".toList, rfl, rfl⟩, ⟨"#a".toList, [], by decide, by decide⟩⟩
  obtain ⟨text, hslice, h⟩ := Source.lexer_run_isSafe_iff _ _ hrange [.next, .nextToken]
  obtain rfl : text = "#a".toList := by
    rw [show (Source.ofText "#a").slice? ⟨0, 2⟩ = some "#a".toList by decide] at hslice
    exact (Option.some.inj hslice).symm
  obtain ⟨hfirst, -⟩ := h [] _ _ rfl
  obtain ⟨hsecond, hfailed⟩ := h [_] _ [] rfl
  -- the position is 3, and no blank stands before the name
  have hunsafe := mt hsecond.1 fun hnot =>
    hnot ⟨rfl, by decide +kernel, by decide +kernel, .inr (by decide +kernel)⟩
  obtain ⟨failed, hmem, hfails⟩ := hfailed (not_not.1 (mt hsecond.2 hunsafe))
  obtain rfl := List.mem_singleton.1 hmem
  exact ⟨_, _, rfl, hfirst.2 (by rintro ⟨hcall, -⟩; cases hcall), hfails, hunsafe⟩

end CodeMarkup
