import CodeMarkup.Scan.Delimited
import CodeMarkup.Scan.Number

namespace CodeMarkup

/-!
# One token

The token at the head of a text that starts with neither a blank nor a comment.
-/

/-- The operator signs, each before its own beginnings.  No sign here starts with `>`. -/
def operatorSigns : List String :=
  ["<<=", "<<", "<=", "<", "==", "=", "!=", "!", "&&", "&=", "&", "||", "|=", "|", "^=", "^",
    "++", "+=", "+", "--", "-=", "-", "*=", "*", "/=", "/", "%=", "%", "~"]

namespace Lexeme

/-- A literal between two copies of a quote, given its body and what follows the body. -/
def enclosed (quote : Char) (body : List Char × List Char) (make : String → TokenKind)
    (unclosed : Fault) : Lexeme :=
  match body with
  | (inner, close :: rest) =>
    if close = quote then
      ⟨quote :: inner ++ [quote], rest, .ok (make (String.ofList inner))⟩
    else ⟨quote :: inner, close :: rest, .error unclosed⟩
  | (inner, []) => ⟨quote :: inner, [], .error unclosed⟩

/-- The longest operator sign at the head of a text. -/
def operator (c : Char) (text : List Char) : Lexeme :=
  match operatorSigns.find? (·.toList.isPrefixOf (c :: text)) with
  | some sign => ⟨sign.toList, (c :: text).drop sign.length, .ok (.operator sign)⟩
  | none => ⟨[c], text, .error (.unexpectedCharacter c)⟩

/-- The token that starts with a sign. -/
def sign (c : Char) (text : List Char) : Lexeme :=
  match c, text with
  | '(', _ => ⟨[c], text, .ok .leftParen⟩
  | ')', _ => ⟨[c], text, .ok .rightParen⟩
  | '{', _ => ⟨[c], text, .ok .leftBrace⟩
  | '}', _ => ⟨[c], text, .ok .rightBrace⟩
  | '[', _ => ⟨[c], text, .ok .leftBracket⟩
  | ']', _ => ⟨[c], text, .ok .rightBracket⟩
  | ';', _ => ⟨[c], text, .ok .semicolon⟩
  | ',', _ => ⟨[c], text, .ok .comma⟩
  | '@', _ => ⟨[c], text, .ok .at⟩
  | '?', _ => ⟨[c], text, .ok .question⟩
  | '>', _ => ⟨[c], text, .ok (.operator ">")⟩
  | '.', '.' :: '.' :: rest => ⟨['.', '.', '.'], rest, .ok .ellipsis⟩
  | '.', _ => ⟨[c], text, .ok .dot⟩
  | ':', ':' :: rest => ⟨[':', ':'], rest, .ok .doubleColon⟩
  | ':', _ => ⟨[c], text, .ok .colon⟩
  | '-', '>' :: rest => ⟨['-', '>'], rest, .ok .arrow⟩
  | _, _ => operator c text

/-- The token at the head of a text. -/
def scan : List Char → Lexeme
  | [] => ⟨[], [], .ok .eof⟩
  | c :: text =>
    if isWordStart c then
      let word := (c :: text).takeWhile isWordPart
      ⟨word, (c :: text).dropWhile isWordPart, .ok (.ofWord (String.ofList word))⟩
    else if startsNumber c text then number (c :: text)
    else if c = '"' then enclosed c (spanQuoted c text) .string .unterminatedString
    else if c = '\'' then enclosed c (spanQuoted c text) .char .unterminatedChar
    else if c = '`' then enclosed c (spanTemplate 0 text) .template .unterminatedTemplate
    else sign c text

/-! ### Nothing is lost, and something is taken -/

theorem enclosed_append {quote : Char} {body : List Char × List Char} {make : String → TokenKind}
    {unclosed : Fault} {text : List Char} (h : body.1 ++ body.2 = text) :
    (enclosed quote body make unclosed).text ++ (enclosed quote body make unclosed).rest
      = quote :: text := by
  obtain ⟨inner, rest⟩ := body
  cases rest with
  | nil => simpa [enclosed] using h
  | cons close rest =>
    simp only [enclosed]
    split
    next hc => subst hc; simpa using h
    next => simpa using h

theorem enclosed_text_pos {quote : Char} {body : List Char × List Char}
    {make : String → TokenKind} {unclosed : Fault} :
    0 < (enclosed quote body make unclosed).text.length := by
  unfold enclosed
  split
  · split <;> simp
  · simp

theorem operator_append (c : Char) (text : List Char) :
    (operator c text).text ++ (operator c text).rest = c :: text := by
  unfold operator
  split
  next sign h =>
    have h' := List.find?_some h
    obtain ⟨rest, h'⟩ := List.isPrefixOf_iff_prefix.1 h'
    simp [← h', ← String.length_toList]
  next => rfl

theorem operator_text_pos (c : Char) (text : List Char) :
    0 < (operator c text).text.length := by
  unfold operator
  split
  next sign h =>
    have hmem := List.mem_of_find?_eq_some h
    have hall : ∀ s ∈ operatorSigns, 0 < s.toList.length := by decide
    exact hall sign hmem
  next => simp

theorem sign_append (c : Char) (text : List Char) :
    (sign c text).text ++ (sign c text).rest = c :: text := by
  unfold sign
  split <;> first | rfl | exact operator_append _ _

theorem sign_text_pos (c : Char) (text : List Char) : 0 < (sign c text).text.length := by
  unfold sign
  split <;> first | exact Nat.zero_lt_succ _ | exact operator_text_pos _ _

/-- The characters taken and the characters left make up the text. -/
theorem scan_append (text : List Char) : (scan text).text ++ (scan text).rest = text := by
  cases text with
  | nil => rfl
  | cons c text =>
    simp only [scan]
    split
    · simp only [List.takeWhile_append_dropWhile]
    · split
      · exact number_append _
      · split
        · exact enclosed_append (spanQuoted_append _ _)
        · split
          · exact enclosed_append (spanQuoted_append _ _)
          · split
            · exact enclosed_append (spanTemplate_append _ _)
            · exact sign_append _ _

/-- A scan takes at least one character, unless the text has ended. -/
theorem scan_text_pos (c : Char) (text : List Char) : 0 < (scan (c :: text)).text.length := by
  simp only [scan]
  split
  next h => simp [isWordPart_of_isWordStart h]
  next =>
    split
    next h => exact number_text_pos h
    next =>
      split
      · exact enclosed_text_pos
      · split
        · exact enclosed_text_pos
        · split
          · exact enclosed_text_pos
          · exact sign_text_pos _ _

/-- What is left is shorter than the text, unless the text has ended. -/
theorem length_scan_rest_lt (c : Char) (text : List Char) :
    (scan (c :: text)).rest.length < (c :: text).length := by
  have h := congrArg List.length (scan_append (c :: text))
  have hpos := scan_text_pos c text
  rw [List.length_append] at h
  omega

end Lexeme

end CodeMarkup
