import CodeMarkup.Proofs.Lexing.Calls
import CodeMarkup.Proofs.Safety.Slices

namespace CodeMarkup

/-!
# Texts that are moved

A range of a source is scanned where it stands: the spans count from the start of the source, and
the texts of the tokens are cut out of it.  The same text can be scanned as a source of its own.

* `Lexer.shift`: a scan of the same text, which stands further on.
* `Lexer.answer_shift`, `Lexer.run_shift`: a call, and a run of calls, on such a scan.
* `Source.tokensIn_translated`: scanning a range is scanning its text, moved to the range.
-/

namespace Lexer

/-- The scan of the same text, which stands further on in its source. -/
def shift (lexer : Lexer) (distance : Nat) : Lexer :=
  { lexer with base := lexer.base + distance }

/-- A token or a fault, moved towards the end of the text. -/
def shiftItem (distance : Nat) : Except ParseError Token → Except ParseError Token
  | .ok token => .ok (token.shift distance)
  | .error error => .error (error.shift distance)

/-- The step with its scan and its answer moved. -/
def Step.shift (step : Step) (distance : Nat) : Step :=
  ⟨step.before.shift distance, step.call, step.answer.map (shiftItem distance)⟩

variable (lexer : Lexer) (distance : Nat)

theorem ofText_shift (text : List Char) :
    (ofText 0 text).shift distance = ofText distance text := by
  simp [shift, ofText]

/-- The cursors of a scan count from the start of its text, and only its spans show where the text
    stands. -/
theorem nextToken_shift :
    (lexer.shift distance).nextToken
      = (shiftItem distance lexer.nextToken.1, lexer.nextToken.2.shift distance) := by
  have hstart : (lexer.shift distance).tokenStart = lexer.tokenStart := rfl
  have hstop : (lexer.shift distance).tokenStop = lexer.tokenStop := rfl
  have hspan : (⟨lexer.base + distance + lexer.tokenStart,
      lexer.base + distance + lexer.tokenStop⟩ : Span)
      = Span.shift ⟨lexer.base + lexer.tokenStart, lexer.base + lexer.tokenStop⟩ distance := by
    rw [Span.shift, Span.mk.injEq]
    dsimp only
    omega
  rw [nextToken_eq, nextToken_eq, hstart, hstop, Prod.mk.injEq]
  refine ⟨?_, rfl⟩
  simp only [shift, hspan]
  split
  · rfl
  · cases (Piece.scan lexer.rest).outcome <;> rfl

theorem next_shift :
    (lexer.shift distance).next
      = (lexer.next.1.map (shiftItem distance), lexer.next.2.shift distance) := by
  have hpast : (lexer.shift distance).size < (lexer.shift distance).position
      ↔ lexer.size < lexer.position := Iff.rfl
  unfold next
  rw [nextToken_shift]
  by_cases hlt : lexer.size < lexer.position
  · rw [if_pos hlt, if_pos (hpast.2 hlt)]
    rfl
  · rw [if_neg hlt, if_neg (mt hpast.1 hlt)]
    generalize lexer.nextToken = result
    obtain ⟨result, after⟩ := result
    cases result with
    | error error => rfl
    | ok token =>
      -- a token that is moved keeps its kind
      show (if token.kind = .eof then _ else _) = _
      dsimp only
      split <;> rfl

/-- **One call.**  A scan of a text that stands further on gives the same answer, moved. -/
theorem answer_shift (call : Call) :
    (lexer.shift distance).answer call
      = ((lexer.answer call).1.map (shiftItem distance), (lexer.answer call).2.shift distance) := by
  cases call with
  | next => exact lexer.next_shift distance
  | nextToken =>
    show (some (lexer.shift distance).nextToken.1, (lexer.shift distance).nextToken.2) = _
    rw [nextToken_shift]
    rfl

/-- **Runs.**  So does every call of a run. -/
theorem run_shift (calls : List Call) :
    (lexer.shift distance).run calls = (lexer.run calls).map (·.shift distance) := by
  induction calls generalizing lexer with
  | nil => rfl
  | cons call calls ih =>
    rw [run, run, answer_shift, List.map_cons, ih]
    rfl

end Lexer

/-- **Ranges are texts of their own.**  A range between characters has the tokens of its text, each
    moved to the range, or the fault of its text, moved in the same way; and so it is with the texts
    cut out of the source.  A scan of the range that is driven by calls answers each call as a scan
    of the text does, moved. -/
theorem Source.tokensIn_translated (source : Source) (range : Span)
    (hrange : source.HasSpan range) :
    ∃ text, source.slice? range = some text
      ∧ source.tokensIn? range = some (shiftTokens range.start (Source.mk text).tokens)
      ∧ Checked.tokensIn source range = source.tokensIn? range
      ∧ ∀ calls, (Lexer.ofText range.start text).run calls
          = ((Lexer.ofText 0 text).run calls).map (·.shift range.start) := by
  obtain ⟨text, htext⟩ := hrange.exists_hasText
  have hslice := slice?_eq_some htext
  refine ⟨text, hslice, ?_, Checked.tokensIn_eq htext, fun calls => ?_⟩
  · rw [tokensIn?, hslice, Option.map_some, ← Nat.zero_add range.start, tokensFrom_add,
      Nat.zero_add]
    rfl
  · rw [← Lexer.run_shift, Lexer.ofText_shift]

/-- An interpolation that does not close its string, after a character of two bytes: the fault is
    found at the second byte of its text, and at the seventh of the source. -/
theorem tokensIn_translated_interpolation :
    (Source.ofText "`é$\x7b+\"a\x7d`").tokensIn? ⟨5, 8⟩
        = some (shiftTokens 5 (.error ⟨.unterminatedString, ⟨1, 3⟩⟩))
      ∧ ∀ calls, (Lexer.ofText 5 "+\"a".toList).run calls
          = ((Lexer.ofText 0 "+\"a".toList).run calls).map (·.shift 5) := by
  have hrange : (Source.ofText "`é$\x7b+\"a\x7d`").HasSpan ⟨5, 8⟩ :=
    ⟨by decide, ⟨"`é$\x7b".toList, "+\"a\x7d`".toList, by decide, by decide⟩,
      ⟨"`é$\x7b+\"a".toList, "\x7d`".toList, by decide, by decide⟩⟩
  have hslice : (Source.ofText "`é$\x7b+\"a\x7d`").slice? ⟨5, 8⟩ = some "+\"a".toList := by decide
  have htokens : (Source.mk "+\"a".toList).tokens = .error ⟨.unterminatedString, ⟨1, 3⟩⟩ := by
    decide +kernel
  obtain ⟨text, htext, htranslated, -, hcalls⟩ := Source.tokensIn_translated _ _ hrange
  rw [hslice] at htext
  cases htext
  rw [htokens] at htranslated
  exact ⟨htranslated, hcalls⟩

end CodeMarkup
