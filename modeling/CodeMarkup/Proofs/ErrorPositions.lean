import CodeMarkup.Proofs.Parsing.Derivation
import CodeMarkup.Proofs.Safety.Lines

namespace CodeMarkup

/-!
# Positions of errors

The position of an error is found by going through the source character by character.  Here it is
read off the text before the error instead.

* `Position.after`: the position after a text, from its line feeds and from what follows the last
  of them.
* `Source.position_eq_after`: the position of an offset between two characters.
* `Source.parse_error_located`: every error of a parse covers a span of the source, and has the
  position after the text before it.
-/

namespace Position

/-- The position after a text: its line is one more than the line feeds, and its column one more
    than the characters since the last of them. -/
def after (text : List Char) : Position :=
  ⟨text.count '\n' + 1, (text.reverse.takeWhile (· != '\n')).length + 1⟩

/-- One more character moves the position on. -/
theorem next_after (text : List Char) (c : Char) : (after text).next c = after (text ++ [c]) := by
  unfold after next
  by_cases hc : c = '\n'
  · subst hc
    simp
  · simp [hc]

/-- Going on over more text gives the position after both texts. -/
theorem advance_after (front text rest : List Char) :
    (after front).advance (text ++ rest) (byteLength text) = after (front ++ text) := by
  induction text generalizing front with
  | nil =>
    rw [List.append_nil]
    cases rest <;> rfl
  | cons c text ih =>
    -- the recursion is on a number of bytes, of which a character has at least one
    have hc := c.utf8Size_pos
    obtain ⟨n, hn⟩ : ∃ n, byteLength (c :: text) = n + 1 :=
      ⟨byteLength (c :: text) - 1, by rw [byteLength]; omega⟩
    have hrest : n + 1 - c.utf8Size = byteLength text := by
      rw [← hn, byteLength]
      omega
    rw [hn]
    show ((after front).next c).advance (text ++ rest) (n + 1 - c.utf8Size) = _
    rw [next_after, hrest, ih, List.append_assoc, List.singleton_append]

end Position

namespace Source

variable {source : Source}

/-- The position of an offset between two characters is the one after the text before it. -/
theorem position_eq_after {before rest : List Char} (h : source.chars = before ++ rest) :
    source.position (byteLength before) = .after before := by
  rw [position, h]
  exact Position.advance_after [] before rest

/-- What has failed with some error has no other result. -/
theorem eq_error {ε α : Type} [DecidableEq ε] {result : Except ε α} {error : ε}
    (h : (match result with | .error found => decide (found = error) | .ok _ => false) = true) :
    result = .error error := by
  cases result with
  | error found => rw [of_decide_eq_true h]
  | ok a => cases h

/-- **Errors are where they say.**  The error of a parse that fails covers a span of the source, and
    its position counts the line feeds before that span and the characters since the last of them.
    The lookup among the starts of lines gives the same position.  It makes no difference whether
    the error was found in a token, by the grammar or within an interpolation. -/
theorem parse_error_located (source : Source) (entry : EntryPoint) (error : ParseError)
    (h : source.parse entry = .error error) :
    error.span.start ≤ error.span.stop ∧ error.span.stop ≤ source.size
      ∧ source.IsBoundary error.span.start ∧ source.IsBoundary error.span.stop
      ∧ (∃ before rest, source.chars = before ++ rest ∧ byteLength before = error.span.start
        ∧ error.position source
          = ⟨before.count '\n' + 1, (before.reverse.takeWhile (· != '\n')).length + 1⟩)
      ∧ Checked.position source error.span.start = some (error.position source) := by
  have hsound := source.parse_isParsed entry
  rw [h] at hsound
  obtain ⟨hle, hstart, hstop⟩ := hsound.hasSpan
  have hlookup := Checked.position_eq source error.span.start
  obtain ⟨before, rest, hchars, hbefore⟩ := hstart
  refine ⟨hle, hstop.le_size, hsound.hasSpan.start_boundary, hstop, ?_, hlookup⟩
  refine ⟨before, rest, hchars, hbefore, ?_⟩
  rw [ParseError.position, ← hbefore]
  exact position_eq_after hchars

/-- A template in a template, with a character of two bytes before the place of an operand that is
    missing. -/
def missingOperand : Source :=
  .ofText "`é\n $\x7b `b\n $\x7bé +\x7d c` \x7d`"

/-- An error two interpolations deep is on the third line of the whole source. -/
theorem parse_error_located_interpolation :
    missingOperand.parse .expression = .error ⟨.unexpected "expression" .eof, ⟨18, 18⟩⟩
      ∧ ∃ before rest, missingOperand.chars = before ++ rest ∧ byteLength before = 18
        ∧ (⟨3, 7⟩ : Position)
          = ⟨before.count '\n' + 1, (before.reverse.takeWhile (· != '\n')).length + 1⟩ := by
  have herror : missingOperand.parse .expression
      = .error ⟨.unexpected "expression" .eof, ⟨18, 18⟩⟩ := eq_error (by decide +kernel)
  have hposition : ParseError.position ⟨.unexpected "expression" .eof, ⟨18, 18⟩⟩ missingOperand
      = ⟨3, 7⟩ := by decide +kernel
  obtain ⟨_, _, _, _, ⟨before, rest, hchars, hbefore, hafter⟩, _⟩ :=
    parse_error_located _ _ _ herror
  rw [hposition] at hafter
  exact ⟨herror, before, rest, hchars, hbefore, hafter⟩

end Source

end CodeMarkup
