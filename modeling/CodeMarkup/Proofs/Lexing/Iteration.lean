import CodeMarkup.Proofs.Lexing.Calls

namespace CodeMarkup

/-!
# The iteration over a scan

A scan is asked for its next token again and again, or it is iterated over.  Both pass over the same
tokens; they differ in how they end.

* `Lexer.IsInStep`: the position of a scan follows the bytes taken.
* `Lexer.Reads`: the tokens that calls for the next token give, up to the mark or the first fault.
* `Lexer.Reads.tokensFrom_eq`, `Lexer.Reads.run_next`, `Lexer.Reads.drain_eq`: the list of all
  tokens and the iteration give the same ones.
* `Lexer.IsInStep.position_lt`, `Lexer.IsInStep.reaches_end`: a call for the next token goes on, and
  so the mark is reached.
-/

namespace Lexer

variable {lexer : Lexer} {tokens : List Token} {last : Except ParseError Token}

/-! ### Calls for the next token -/

/-- What a call for the next token changes. -/
theorem nextToken_snd (lexer : Lexer) :
    lexer.nextToken.2 = { lexer with
      consumed := lexer.consumed + byteLength (Piece.scan lexer.rest).trivia
        + byteLength (Piece.scan lexer.rest).text
      position := lexer.tokenStop
      rest := (Piece.scan lexer.rest).rest } := by
  rw [nextToken_eq]

/-- A scan whose position follows the bytes taken. -/
structure IsInStep (lexer : Lexer) : Prop where
  position_eq : lexer.position = lexer.consumed
  size_eq : lexer.size = lexer.consumed + byteLength lexer.rest

theorem isInStep_ofText (base : Nat) (text : List Char) : (ofText base text).IsInStep :=
  ⟨rfl, (Nat.zero_add _).symm⟩

namespace IsInStep

/-- The span of the next piece, in the source. -/
theorem span_eq (h : lexer.IsInStep) :
    lexer.tokenStart = lexer.consumed + byteLength (Piece.scan lexer.rest).trivia
      ∧ lexer.tokenStop = lexer.consumed + byteLength (Piece.scan lexer.rest).trivia
        + byteLength (Piece.scan lexer.rest).text :=
  have htrack : lexer.IsOnTrack := fun _ => h.position_eq
  ⟨htrack.tokenStart_eq, htrack.tokenStop_eq⟩

/-- In step, the next token is the next piece of what is left. -/
theorem nextToken_ok {kind : TokenKind} (h : lexer.IsInStep)
    (hkind : (Piece.scan lexer.rest).outcome = .ok kind) :
    lexer.nextToken.1
      = .ok ⟨kind, ⟨lexer.base + lexer.tokenStart, lexer.base + lexer.tokenStop⟩⟩ := by
  obtain ⟨hstart, hstop⟩ := h.span_eq
  have hle : ¬lexer.tokenStop < lexer.tokenStart := by omega
  simp [nextToken_eq, hkind, hle]

theorem nextToken_error {fault : Fault} (h : lexer.IsInStep)
    (hfault : (Piece.scan lexer.rest).outcome = .error fault) :
    lexer.nextToken.1
      = .error ⟨fault, ⟨lexer.base + lexer.tokenStart, lexer.base + lexer.tokenStop⟩⟩ := by
  obtain ⟨hstart, hstop⟩ := h.span_eq
  have hle : ¬lexer.tokenStop < lexer.tokenStart := by omega
  simp [nextToken_eq, hfault, hle]

/-- **One call.**  A call for the next token leaves the scan in step. -/
theorem nextToken (h : lexer.IsInStep) : lexer.nextToken.2.IsInStep := by
  have hlength := congrArg byteLength (Piece.scan_append lexer.rest)
  have hsize := h.size_eq
  simp only [byteLength_append] at hlength
  rw [nextToken_snd]
  refine ⟨h.span_eq.2, ?_⟩
  dsimp only
  omega

theorem position_le (h : lexer.IsInStep) : lexer.position ≤ lexer.size := by
  have hposition := h.position_eq
  have hsize := h.size_eq
  omega

/-- The next token is the mark just if there is nothing left to take. -/
theorem nextToken_cases (h : lexer.IsInStep) :
    ((Piece.scan lexer.rest).text = [] ∧ lexer.nextToken.2.rest = []
        ∧ ∃ mark, lexer.nextToken.1 = .ok mark ∧ mark.kind = .eof)
      ∨ ((Piece.scan lexer.rest).text ≠ []
        ∧ ∀ token, lexer.nextToken.1 = .ok token → token.kind ≠ .eof) := by
  have hspelled := Piece.scan_spelling lexer.rest
  cases houtcome : (Piece.scan lexer.rest).outcome with
  | error fault =>
    rw [h.nextToken_error houtcome]
    exact .inr ⟨Piece.text_ne_nil_of_error houtcome, by simp⟩
  | ok kind =>
    rw [houtcome] at hspelled
    obtain ⟨-, heof, hend⟩ := hspelled
    rw [h.nextToken_ok houtcome, nextToken_snd]
    by_cases hnil : (Piece.scan lexer.rest).text = []
    · exact .inl ⟨hnil, hend hnil, _, rfl, heof.2 hnil⟩
    · refine .inr ⟨hnil, ?_⟩
      rintro _ ⟨⟩
      exact mt heof.1 hnil

/-- A call that does not give the mark takes something. -/
theorem text_ne_nil (h : lexer.IsInStep)
    (hend : ∀ token, lexer.nextToken.1 = .ok token → token.kind ≠ .eof) :
    (Piece.scan lexer.rest).text ≠ [] := by
  rcases h.nextToken_cases with ⟨-, -, mark, hmark, heof⟩ | ⟨hne, -⟩
  · exact absurd heof (hend mark hmark)
  · exact hne

theorem length_nextToken_lt (h : lexer.IsInStep)
    (hend : ∀ token, lexer.nextToken.1 = .ok token → token.kind ≠ .eof) :
    lexer.nextToken.2.rest.length < lexer.rest.length := by
  rw [nextToken_snd]
  exact Piece.length_scan_rest_lt (h.text_ne_nil hend)

/-- **Progress.**  A call for the next token that does not give the mark moves the position on. -/
theorem position_lt (h : lexer.IsInStep)
    (hend : ∀ token, lexer.nextToken.1 = .ok token → token.kind ≠ .eof) :
    lexer.position < lexer.nextToken.2.position := by
  have hpos := byteLength_pos (h.text_ne_nil hend)
  have hposition := h.position_eq
  rw [nextToken_snd, h.span_eq.2]
  dsimp only
  omega

end IsInStep

/-- The call gives the mark. -/
def Step.AnswersEnd (step : Step) : Prop :=
  ∃ mark, step.answer = some (.ok mark) ∧ mark.kind = .eof

namespace IsInStep

/-- **Runs.**  Every call of a run of calls for the next token gives the mark or goes on. -/
theorem run_position_lt (h : lexer.IsInStep) (n : Nat) :
    ∀ step ∈ lexer.run (List.replicate n .nextToken),
      step.AnswersEnd ∨ step.before.position < (step.before.answer step.call).2.position := by
  induction n generalizing lexer with
  | zero => simp [run]
  | succ n ih =>
    rw [List.replicate_succ, run]
    refine List.forall_mem_cons.2 ⟨?_, ih h.nextToken⟩
    by_cases hend : ∃ mark, lexer.nextToken.1 = .ok mark ∧ mark.kind = .eof
    · obtain ⟨mark, hmark, heof⟩ := hend
      exact .inl ⟨mark, congrArg some hmark, heof⟩
    · exact .inr (h.position_lt fun mark hmark heof => hend ⟨mark, hmark, heof⟩)

/-- The position cannot go on for more calls than bytes are left. -/
theorem reaches_end (h : lexer.IsInStep) (n : Nat) (hn : lexer.size < lexer.position + n) :
    ∃ step ∈ lexer.run (List.replicate n .nextToken), step.AnswersEnd := by
  induction n generalizing lexer with
  | zero =>
    have := h.position_le
    omega
  | succ n ih =>
    rw [List.replicate_succ, run]
    by_cases hend : ∃ mark, lexer.nextToken.1 = .ok mark ∧ mark.kind = .eof
    · obtain ⟨mark, hmark, heof⟩ := hend
      exact ⟨_, List.mem_cons_self, mark, congrArg some hmark, heof⟩
    · have hlt := h.position_lt fun mark hmark heof => hend ⟨mark, hmark, heof⟩
      have hsize : lexer.nextToken.2.size = lexer.size := by rw [nextToken_snd]
      obtain ⟨step, hstep, hanswer⟩ := ih h.nextToken (by omega)
      exact ⟨step, List.mem_cons_of_mem _ hstep, hanswer⟩

end IsInStep

/-! ### All tokens of a scan -/

/-- A scan is asked for its next token until the mark or a fault is found: the tokens before it, and
    what is found at last. -/
inductive Reads : Lexer → List Token → Except ParseError Token → Prop where
  | mark {lexer : Lexer} {mark : Token} (hnext : lexer.nextToken.1 = .ok mark)
      (hkind : mark.kind = .eof) : Reads lexer [] (.ok mark)
  | fault {lexer : Lexer} {error : ParseError} (hnext : lexer.nextToken.1 = .error error) :
      Reads lexer [] (.error error)
  | token {lexer : Lexer} {token : Token} {tokens : List Token} {last : Except ParseError Token}
      (hnext : lexer.nextToken.1 = .ok token) (hkind : token.kind ≠ .eof)
      (hlater : Reads lexer.nextToken.2 tokens last) : Reads lexer (token :: tokens) last

theorem IsInStep.exists_reads (h : lexer.IsInStep) : ∃ tokens last, lexer.Reads tokens last := by
  induction hlength : lexer.rest.length using Nat.strongRecOn generalizing lexer with
  | _ length ih =>
    cases hnext : lexer.nextToken.1 with
    | error error => exact ⟨[], _, .fault hnext⟩
    | ok token =>
      by_cases hkind : token.kind = .eof
      · exact ⟨[], _, .mark hnext hkind⟩
      · have hlt := h.length_nextToken_lt (by simp [hnext, hkind])
        obtain ⟨tokens, last, hlater⟩ := ih _ (hlength ▸ hlt) h.nextToken rfl
        exact ⟨_, _, .token hnext hkind hlater⟩

/-- The list of all tokens by one call for the next token: the mark or a fault ends it. -/
theorem IsInStep.tokensFrom_eq (h : lexer.IsInStep) :
    tokensFrom (lexer.base + lexer.consumed) lexer.rest = lexer.nextToken.1.bind fun token =>
      if token.kind = .eof then .ok [token]
      else (tokensFrom (lexer.nextToken.2.base + lexer.nextToken.2.consumed)
        lexer.nextToken.2.rest).map (token :: ·) := by
  have hspelled := Piece.scan_spelling lexer.rest
  obtain ⟨hstart, hstop⟩ := h.span_eq
  have hfrom : lexer.base + lexer.consumed + byteLength (Piece.scan lexer.rest).trivia
      = lexer.base + lexer.tokenStart := by omega
  have hto : lexer.base + lexer.tokenStart + byteLength (Piece.scan lexer.rest).text
      = lexer.base + lexer.tokenStop := by omega
  rw [tokensFrom]
  dsimp only
  rw [hfrom, hto]
  cases houtcome : (Piece.scan lexer.rest).outcome with
  | error fault =>
    rw [h.nextToken_error houtcome]
    rfl
  | ok kind =>
    rw [houtcome] at hspelled
    obtain ⟨-, heof, -⟩ := hspelled
    rw [h.nextToken_ok houtcome, nextToken_snd, ← hstop]
    by_cases hnil : (Piece.scan lexer.rest).text = []
    · simp [Except.bind, hnil, heof.2 hnil]
    · simp [Except.bind, hnil, mt heof.1 hnil]

/-- **All tokens.**  The list of all tokens holds those that calls for the next token give, with the
    mark that ends them, or the fault. -/
theorem Reads.tokensFrom_eq (h : lexer.Reads tokens last) (hstep : lexer.IsInStep) :
    tokensFrom (lexer.base + lexer.consumed) lexer.rest = last.map (tokens ++ [·]) := by
  induction h with
  | mark hnext hkind => simp [hstep.tokensFrom_eq, hnext, hkind, Except.bind, Except.map]
  | fault hnext => simp [hstep.tokensFrom_eq, hnext, Except.bind, Except.map]
  | @token lexer token tokens last hnext hkind _ ih =>
    rw [hstep.tokensFrom_eq, hnext, ih hstep.nextToken]
    cases last <;> simp [hkind, Except.bind, Except.map]

/-! ### The iteration -/

/-- The items of an iteration over a scan that reads some tokens: these, and the fault that ends
    them if there is one. -/
def iterated (tokens : List Token) : Except ParseError Token → List (Except ParseError Token)
  | .ok _ => tokens.map .ok
  | .error error => tokens.map .ok ++ [.error error]

theorem iterated_cons (token : Token) (tokens : List Token) (last : Except ParseError Token) :
    iterated (token :: tokens) last = .ok token :: iterated tokens last := by
  cases last <;> rfl

/-- A scan over which there is nothing left to iterate: its position stands past the end, or the
    next token is the mark. -/
def IsOver (lexer : Lexer) : Prop :=
  lexer.size < lexer.position ∨ lexer.IsInStep ∧ (Piece.scan lexer.rest).text = []

theorem IsInStep.isOver {mark : Token} (h : lexer.IsInStep) (hmark : lexer.nextToken.1 = .ok mark)
    (hkind : mark.kind = .eof) : lexer.IsOver := by
  rcases h.nextToken_cases with ⟨hnil, -⟩ | ⟨-, hend⟩
  · exact .inr ⟨h, hnil⟩
  · exact absurd hkind (hend mark hmark)

/-- In step, the iteration asks for the next token. -/
theorem IsInStep.next_eq (h : lexer.IsInStep) :
    (∀ mark, lexer.nextToken.1 = .ok mark → mark.kind = .eof →
        lexer.next = (none, lexer.nextToken.2))
      ∧ (∀ error, lexer.nextToken.1 = .error error →
        lexer.next = (some (.error error),
          { lexer.nextToken.2 with position := lexer.nextToken.2.size + 1 }))
      ∧ ∀ token, lexer.nextToken.1 = .ok token → token.kind ≠ .eof →
        lexer.next = (some (.ok token), lexer.nextToken.2) := by
  have hle := Nat.not_lt_of_le h.position_le
  rw [next, if_neg hle]
  generalize lexer.nextToken = result
  obtain ⟨result, after⟩ := result
  refine ⟨?_, ?_, ?_⟩
  · rintro mark rfl hkind
    exact if_pos hkind
  · rintro error rfl
    rfl
  · rintro token rfl hkind
    exact if_neg hkind

namespace IsOver

theorem next (h : lexer.IsOver) : lexer.next.1 = none ∧ lexer.next.2.IsOver := by
  rcases h with hlt | ⟨hstep, hnil⟩
  · rw [Lexer.next, if_pos hlt]
    exact ⟨rfl, .inl hlt⟩
  · rcases hstep.nextToken_cases with ⟨-, hrest, mark, hmark, heof⟩ | ⟨hne, -⟩
    · rw [hstep.next_eq.1 mark hmark heof]
      refine ⟨rfl, .inr ⟨hstep.nextToken, ?_⟩⟩
      rw [hrest]
      decide +kernel
    · exact absurd hnil hne

/-- An iteration that is over stays so. -/
theorem run_next (h : lexer.IsOver) (n : Nat) :
    (lexer.run (List.replicate n .next)).map (·.answer) = List.replicate n none := by
  induction n generalizing lexer with
  | zero => rfl
  | succ n ih =>
    obtain ⟨hnone, hover⟩ := h.next
    rw [List.replicate_succ, List.replicate_succ, run, List.map_cons]
    exact congrArg₂ List.cons hnone (ih hover)

theorem drain_eq (h : lexer.IsOver) : lexer.drain = ([], lexer.next.2) := by
  have hnone := h.next.1
  rw [drain]
  generalize lexer.next = result at hnone
  obtain ⟨item, after⟩ := result
  subst hnone
  rfl

end IsOver

namespace Reads

/-- **The calls of an iteration.**  They yield the tokens that are read, then the fault if there is
    one, and then nothing however often they are repeated. -/
theorem run_next (h : lexer.Reads tokens last) (hstep : lexer.IsInStep) (n : Nat) :
    (lexer.run (List.replicate ((iterated tokens last).length + n) .next)).map (·.answer)
      = (iterated tokens last).map some ++ List.replicate n none := by
  induction h with
  | mark hnext hkind =>
    rw [iterated, List.map_nil, List.length_nil, Nat.zero_add]
    exact (hstep.isOver hnext hkind).run_next n
  | @fault lexer error hnext =>
    have hfirst := hstep.next_eq.2.1 error hnext
    have hover : lexer.next.2.IsOver := by
      rw [hfirst]
      exact .inl (Nat.lt_succ_self _)
    show (lexer.run (List.replicate (1 + n) .next)).map (·.answer) = _
    rw [Nat.add_comm, List.replicate_succ, run, List.map_cons]
    exact congrArg₂ List.cons (congrArg Prod.fst hfirst) (hover.run_next n)
  | @token lexer token tokens last hnext hkind _ ih =>
    have hfirst := hstep.next_eq.2.2 token hnext hkind
    rw [iterated_cons, List.length_cons, Nat.add_right_comm, List.replicate_succ, run,
      List.map_cons, List.map_cons, List.cons_append, ← ih hstep.nextToken]
    refine congrArg₂ List.cons (congrArg Prod.fst hfirst) ?_
    rw [answer, hfirst]

/-- **The whole iteration.**  It yields the tokens that are read and the fault, and is over then. -/
theorem drain_eq (h : lexer.Reads tokens last) (hstep : lexer.IsInStep) :
    lexer.drain.1 = iterated tokens last ∧ lexer.drain.2.IsOver := by
  induction h with
  | mark hnext hkind =>
    have hover := hstep.isOver hnext hkind
    rw [hover.drain_eq]
    exact ⟨rfl, hover.next.2⟩
  | @fault lexer error hnext =>
    have hlt := hstep.length_nextToken_lt (by simp [hnext])
    have hover : IsOver { lexer.nextToken.2 with position := lexer.nextToken.2.size + 1 } :=
      .inl (Nat.lt_succ_self _)
    rw [drain, hstep.next_eq.2.1 error hnext]
    dsimp only
    rw [if_pos hlt, hover.drain_eq]
    exact ⟨rfl, hover.next.2⟩
  | @token lexer token tokens last hnext hkind _ ih =>
    have hlt := hstep.length_nextToken_lt (by simp [hnext, hkind])
    obtain ⟨hitems, hover⟩ := ih hstep.nextToken
    rw [drain, hstep.next_eq.2.2 token hnext hkind]
    dsimp only
    rw [if_pos hlt, iterated_cons]
    exact ⟨congrArg _ hitems, hover⟩

end Reads

end Lexer

/-- **One stream of tokens.**  Calls for the next token on a scan of a range give tokens up to the
    mark or the first fault.  These are the tokens of the range, and its fault.  The iteration over
    the scan yields the same tokens without the mark, or the tokens and then the fault, and is over
    then for ever.  Calls for the next token that go on after faults move the position on until
    the mark is reached, at the latest after as many calls as the range has bytes. -/
theorem Source.iteration_agrees (source : Source) (range : Span) (hrange : source.HasSpan range) :
    ∃ text tokens last, source.slice? range = some text
      ∧ (Lexer.ofText range.start text).Reads tokens last
      ∧ source.tokensIn? range = some (last.map (tokens ++ [·]))
      ∧ (Lexer.ofText range.start text).drain.1 = Lexer.iterated tokens last
      ∧ (∀ n, ((Lexer.ofText range.start text).drain.2.run (List.replicate n .next)).map (·.answer)
        = List.replicate n none)
      ∧ (∀ n, ((Lexer.ofText range.start text).run
          (List.replicate ((Lexer.iterated tokens last).length + n) .next)).map (·.answer)
        = (Lexer.iterated tokens last).map some ++ List.replicate n none)
      ∧ (∀ n, ∀ step ∈ (Lexer.ofText range.start text).run (List.replicate n .nextToken),
        step.AnswersEnd ∨ step.before.position < (step.before.answer step.call).2.position)
      ∧ ∃ step ∈ (Lexer.ofText range.start text).run (List.replicate (range.size + 1) .nextToken),
        step.AnswersEnd := by
  obtain ⟨text, htext⟩ := hrange.exists_hasText
  have hstep := Lexer.isInStep_ofText range.start text
  obtain ⟨tokens, last, hreads⟩ := hstep.exists_reads
  obtain ⟨hitems, hover⟩ := hreads.drain_eq hstep
  have hsize : range.size = byteLength text := by
    obtain ⟨_, _, _, _, hstop⟩ := htext
    rw [Span.size]
    omega
  refine ⟨text, tokens, last, slice?_eq_some htext, hreads, ?_, hitems, hover.run_next,
    hreads.run_next hstep, hstep.run_position_lt, hstep.reaches_end _ ?_⟩
  · rw [tokensIn?, slice?_eq_some htext, Option.map_some, ← hreads.tokensFrom_eq hstep]
    rfl
  · show byteLength text < 0 + (range.size + 1)
    omega

/-- A sign that is no token, after a name.  The iteration yields the name and the fault and nothing
    more; six calls for the next token also reach the mark, past the sign and the name behind it. -/
theorem iteration_agrees_sign :
    (∀ n, ((Lexer.ofText 3 "a # b".toList).run (List.replicate (2 + n) .next)).map (·.answer)
        = [some (.ok ⟨.identifier "a", ⟨3, 4⟩⟩),
            some (.error ⟨.unexpectedCharacter '#', ⟨5, 6⟩⟩)] ++ List.replicate n none)
      ∧ ∃ step ∈ (Lexer.ofText 3 "a # b".toList).run (List.replicate 6 .nextToken),
        step.AnswersEnd := by
  have hrange : (Source.ofText "é a # b").HasSpan ⟨3, 8⟩ :=
    ⟨by decide, ⟨"é ".toList, "a # b".toList, by decide, by decide⟩,
      ⟨"é a # b".toList, [], by decide, by decide⟩⟩
  have htext : (Source.ofText "é a # b").slice? ⟨3, 8⟩ = some "a # b".toList := by decide
  have hdrain : (Lexer.ofText 3 "a # b".toList).drain.1
      = [.ok ⟨.identifier "a", ⟨3, 4⟩⟩, .error ⟨.unexpectedCharacter '#', ⟨5, 6⟩⟩] := by
    decide +kernel
  obtain ⟨text, tokens, last, hslice, -, -, hitems, -, hcalls, -, hend⟩ :=
    Source.iteration_agrees _ _ hrange
  rw [htext] at hslice
  cases hslice
  rw [← hitems, hdrain] at hcalls
  exact ⟨hcalls, hend⟩

end CodeMarkup
