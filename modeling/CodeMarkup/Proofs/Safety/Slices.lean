import CodeMarkup.Comment
import CodeMarkup.Proofs.Lexing.Layout
import CodeMarkup.Proofs.Safety.Lines

namespace CodeMarkup

/-!
# Cutting texts out of a source

Tokens and comments hold texts of the source, and an operator is looked up in all that is left of
the text that is read.  Here these texts are cut out of the source at their offsets, which fails
where an offset is out of range or inside a character.  None of the cuts fails, and each gives the
text that the scan has passed.

* `Checked.tokensIn_eq`: the tokens of a range that can be cut out.
* `Checked.comments_eq`: the comments of a source.
-/

/-- The text of a literal without its quotes, and the spelling of any other token. -/
def TokenKind.content : TokenKind → String
  | .char text | .string text | .template text => text
  | kind => kind.spelling

namespace Checked

/-- Cuts a span out of the source, where a text is expected. -/
def cut (source : Source) (span : Span) (expected : List Char) : Option Unit := do
  let text ← source.slice? span
  guard (text = expected)

/-- The span from which the content of a token is cut. -/
def contentSpan (kind : TokenKind) (span : Span) : Option Span :=
  match kind with
  | .char _ | .string _ | .template _ => do return ⟨span.start + 1, ← minus span.stop 1⟩
  | _ => some span

/-- The tokens of a text that stands between two offsets of the source. -/
def tokensFrom (source : Source) (stop offset : Nat) (text : List Char) :
    Option (Except ParseError (List Token)) := do
  let piece := Piece.scan text
  let start := offset + byteLength piece.trivia
  let span : Span := ⟨start, start + byteLength piece.text⟩
  cut source ⟨start, stop⟩ (piece.text ++ piece.rest)
  cut source span piece.text
  match piece.outcome with
  | .error fault => return .error ⟨fault, span⟩
  | .ok kind =>
    cut source (← contentSpan kind span) kind.content.toList
    if _h : piece.text = [] then return .ok [⟨kind, span⟩]
    else
      let later ← tokensFrom source stop span.stop piece.rest
      return later.map (⟨kind, span⟩ :: ·)
termination_by text.length
decreasing_by exact Piece.length_scan_rest_lt _h

/-- The tokens of a range of the source. -/
def tokensIn (source : Source) (range : Span) : Option (Except ParseError (List Token)) := do
  tokensFrom source range.stop range.start (← source.slice? range)

/-- The comments of the part of the source that starts at `offset`. -/
def commentsFrom (source : Source) (offset : Nat) (text : List Char) : Option (List Comment) :=
  match text with
  | [] => some []
  | c :: text =>
    let stretch := Stretch.scan c text
    let span : Span := ⟨offset, offset + byteLength stretch.text⟩
    let later := commentsFrom source span.stop stretch.rest
    match stretch with
    | .code _ _ => later
    | .comment kind opening content _ _ => do
      let start := offset + byteLength opening
      let content ← source.slice? ⟨start, start + byteLength content⟩
      return ⟨kind, String.ofList content, span, source.extent span⟩ :: (← later)
termination_by text.length
decreasing_by exact Stretch.length_scan_rest_lt _ _

/-- The comments of a source. -/
def comments (source : Source) : Option (List Comment) :=
  commentsFrom source 0 source.chars

/-! ### Tokens -/

theorem cut_eq {source : Source} {span : Span} {text : List Char} (h : source.HasText span text) :
    cut source span text = some () := by
  rw [cut, Source.slice?_eq_some h]
  simp [guard]

/-- The content of a literal starts after its first quote and stops before its last. -/
theorem enclosed_hasText {source : Source} {span : Span} {content : List Char} (quote : Char)
    (hquote : quote.utf8Size = 1) (h : source.HasText span ([quote] ++ content ++ [quote])) :
    ∃ inner, (do return ⟨span.start + 1, ← minus span.stop 1⟩ : Option Span) = some inner
      ∧ source.HasText inner content := by
  have hpart := h.part [quote] content [quote]
  obtain ⟨_, _, _, _, hstop⟩ := h
  simp only [byteLength_append, byteLength, hquote] at hpart hstop
  have hinner : span.start + (1 + 0 + byteLength content) = span.stop - 1 := by omega
  rw [hinner] at hpart
  refine ⟨⟨span.start + 1, span.stop - 1⟩, ?_, hpart⟩
  rw [minus_eq (by omega)]
  rfl

theorem contentSpan_hasText {source : Source} {kind : TokenKind} {span : Span} {text : List Char}
    (hspelling : kind.spelling.toList = text) (h : source.HasText span text) :
    ∃ inner, contentSpan kind span = some inner
      ∧ source.HasText inner kind.content.toList := by
  subst hspelling
  cases kind with
  | char text =>
    apply enclosed_hasText '\'' rfl
    simpa [TokenKind.spelling, TokenKind.content] using h
  | string text =>
    apply enclosed_hasText '"' rfl
    simpa [TokenKind.spelling, TokenKind.content] using h
  | template text =>
    apply enclosed_hasText '`' rfl
    simpa [TokenKind.spelling, TokenKind.content] using h
  | _ => exact ⟨span, rfl, h⟩

/-- The tokens of a text are cut from it one after another.  The induction carries along that what
    is left of the text stands in the source up to the same offset. -/
theorem tokensFrom_eq {source : Source} {stop : Nat} (offset : Nat) (text : List Char)
    (h : source.HasText ⟨offset, stop⟩ text) :
    tokensFrom source stop offset text = some (CodeMarkup.tokensFrom offset text) := by
  have hspelled := Piece.scan_spelling text
  have hahead : source.HasText ⟨offset + byteLength (Piece.scan text).trivia, stop⟩
      ((Piece.scan text).text ++ (Piece.scan text).rest) := by
    have hsplit : source.HasText ⟨offset, stop⟩ ((Piece.scan text).trivia
        ++ ((Piece.scan text).text ++ (Piece.scan text).rest)) := by
      rwa [← List.append_assoc, Piece.scan_append]
    exact hsplit.split.2
  rw [tokensFrom, CodeMarkup.tokensFrom]
  dsimp only
  rw [cut_eq hahead, Option.bind_eq_bind, Option.bind_some, cut_eq hahead.split.1, Option.bind_some]
  cases houtcome : (Piece.scan text).outcome with
  | error fault => rfl
  | ok kind =>
    rw [houtcome] at hspelled
    obtain ⟨inner, hinner, hcontent⟩ := contentSpan_hasText hspelled.1 hahead.split.1
    dsimp only
    rw [hinner, Option.bind_eq_bind, Option.bind_some, cut_eq hcontent, Option.bind_some]
    by_cases hend : (Piece.scan text).text = []
    · rw [dif_pos hend, dif_pos hend]
      rfl
    · rw [dif_neg hend, dif_neg hend, tokensFrom_eq _ _ hahead.split.2]
      rfl
termination_by text.length
decreasing_by exact Piece.length_scan_rest_lt hend

/-- Once a range can be cut out, nothing else fails. -/
theorem tokensIn_eq {source : Source} {range : Span} {text : List Char}
    (h : source.HasText range text) : tokensIn source range = source.tokensIn? range := by
  rw [tokensIn, Source.tokensIn?, Source.slice?_eq_some h]
  exact tokensFrom_eq _ _ h

/-! ### Comments -/

theorem commentsFrom_eq {source : Source} {stop : Nat} : ∀ (offset : Nat) (text : List Char),
    source.HasText ⟨offset, stop⟩ text →
      commentsFrom source offset text = some (source.commentsFrom offset text)
  | offset, [], _ => by rw [commentsFrom, Source.commentsFrom]
  | offset, c :: text, h => by
    rw [← Stretch.scan_append c text] at h
    have hlater := commentsFrom_eq _ _ h.split.2
    have hfront := h.split.1
    rw [commentsFrom, Source.commentsFrom]
    dsimp only
    rw [hlater]
    cases hscan : Stretch.scan c text with
    | code _ _ => rfl
    | comment kind opening content closing rest =>
      -- the content stands between the opening and the closing
      rw [hscan, Stretch.text, List.append_assoc] at hfront
      dsimp only
      rw [Source.slice?_eq_some hfront.split.2.split.1]
      rfl
termination_by _ text => text.length
decreasing_by exact Stretch.length_scan_rest_lt _ _

theorem comments_eq (source : Source) : comments source = some source.comments :=
  commentsFrom_eq 0 source.chars source.hasText_chars

end Checked

end CodeMarkup
