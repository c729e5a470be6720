import CodeMarkup.ParseError
import CodeMarkup.Scan.Word

namespace CodeMarkup

/-!
# Numbers

Numerals are decimal, or have one of the marks `0x`, `0X`, `0b`, `0B` followed by hexadecimal
digits. Underscores separate digits.  A decimal numeral may have a fraction, an exponent and a
suffix; a word that runs into a numeral makes the whole of it invalid.
-/

/-- Whether a character is a decimal digit of a numeral. -/
def isDecimal (c : Char) : Bool :=
  '0' ≤ c && c ≤ '9'

/-- A decimal digit or a separator. -/
def isDecimalPart (c : Char) : Bool :=
  isDecimal c || c == '_'

/-- A hexadecimal digit or a separator. -/
def isHexPart (c : Char) : Bool :=
  isDecimal c || ('a' ≤ c && c ≤ 'f') || ('A' ≤ c && c ≤ 'F') || c == '_'

/-- The mark of a radix. -/
def isRadixMark (c : Char) : Bool :=
  c == 'x' || c == 'X' || c == 'b' || c == 'B'

/-- A fraction at the head of a text.  A point belongs to the numeral if a digit follows, or if
    neither a name nor another point does: `1.` is a numeral, `1.size` starts a member access. -/
def spanFraction : List Char → List Char × List Char
  | '.' :: c :: text =>
    if isDecimal c then
      ('.' :: (c :: text).takeWhile isDecimalPart, (c :: text).dropWhile isDecimalPart)
    else if isWordStart c || c == '.' then ([], '.' :: c :: text)
    else (['.'], c :: text)
  | ['.'] => (['.'], [])
  | text => ([], text)

/-- The mark of an exponent at the head of a text, with its sign. -/
def spanExponentMark : List Char → List Char × List Char
  | e :: text =>
    if e == 'e' || e == 'E' then
      match text with
      | s :: text => if s == '+' || s == '-' then ([e, s], text) else ([e], s :: text)
      | [] => ([e], [])
    else ([], e :: text)
  | [] => ([], [])

theorem spanFraction_append (text : List Char) :
    (spanFraction text).1 ++ (spanFraction text).2 = text := by
  fun_cases spanFraction text <;> simp [List.takeWhile_append_dropWhile, *]

theorem spanExponentMark_append (text : List Char) :
    (spanExponentMark text).1 ++ (spanExponentMark text).2 = text := by
  fun_cases spanExponentMark text <;> simp [*]

/-- What the scan of one construct takes, leaves and makes of it. -/
structure Lexeme where
  /-- The characters taken. -/
  text : List Char
  /-- The characters left. -/
  rest : List Char
  /-- The token they spell, or what is wrong with them. -/
  outcome : Except Fault TokenKind

namespace Lexeme

/-- A numeral whose digits are known.  Its suffix settles the kind, and nothing that may continue a
    name may follow. -/
def ofDigits (digits rest : List Char) (isFloating : Bool) : Lexeme :=
  let (body, rest, make) : List Char × List Char × (String → TokenKind) :=
    match rest with
    | c :: after =>
      if (c == 'l' || c == 'L') && !isFloating then (digits ++ [c], after, TokenKind.long)
      else if c == 'f' || c == 'F' || c == 'd' || c == 'D' then
        (digits ++ [c], after, TokenKind.floating)
      else (digits, rest, if isFloating then TokenKind.floating else TokenKind.integer)
    | [] => (digits, [], if isFloating then TokenKind.floating else TokenKind.integer)
  match rest.takeWhile isWordPart with
  | [] => ⟨body, rest, .ok (make (String.ofList body))⟩
  | word =>
    ⟨body ++ word, rest.dropWhile isWordPart,
      .error (.invalidNumber (String.ofList (body ++ word)))⟩

theorem ofDigits_append (digits rest : List Char) (isFloating : Bool) :
    (ofDigits digits rest isFloating).text ++ (ofDigits digits rest isFloating).rest
      = digits ++ rest := by
  unfold ofDigits
  split
  next body rest' make h =>
    have h' : body ++ rest' = digits ++ rest := by
      revert h
      cases rest with
      | nil => simp only [Prod.mk.injEq]; rintro ⟨rfl, rfl, _⟩; rfl
      | cons c after =>
        dsimp only
        split
        · simp only [Prod.mk.injEq]; rintro ⟨rfl, rfl, _⟩; simp
        · split
          · simp only [Prod.mk.injEq]; rintro ⟨rfl, rfl, _⟩; simp
          · simp only [Prod.mk.injEq]; rintro ⟨rfl, rfl, _⟩; rfl
    split
    · exact h'
    · rw [List.append_assoc, List.takeWhile_append_dropWhile, h']

theorem length_le_ofDigits (digits rest : List Char) (isFloating : Bool) :
    digits.length ≤ (ofDigits digits rest isFloating).text.length := by
  unfold ofDigits
  split
  next body rest' make h =>
    have h' : digits.length ≤ body.length := by
      revert h
      cases rest with
      | nil => simp only [Prod.mk.injEq]; rintro ⟨rfl, rfl, _⟩; exact Nat.le_refl _
      | cons c after =>
        dsimp only
        split
        · simp only [Prod.mk.injEq]; rintro ⟨rfl, rfl, _⟩; simp
        · split
          · simp only [Prod.mk.injEq]; rintro ⟨rfl, rfl, _⟩; simp
          · simp only [Prod.mk.injEq]; rintro ⟨rfl, rfl, _⟩; exact Nat.le_refl _
    split
    · exact h'
    · simp only [List.length_append]
      omega

/-- A decimal numeral. -/
def decimal (text : List Char) : Lexeme :=
  let whole := text.takeWhile isDecimalPart
  let (fraction, rest) := spanFraction (text.dropWhile isDecimalPart)
  let (mark, rest) := spanExponentMark rest
  if mark.isEmpty then ofDigits (whole ++ fraction) rest (!fraction.isEmpty)
  else
    let digits := rest.takeWhile isDecimal
    let body := whole ++ fraction ++ mark ++ digits
    if digits.isEmpty then ⟨body, rest, .error (.invalidNumber (String.ofList body))⟩
    else ofDigits body (rest.dropWhile isDecimal) true

/-- A numeral in any of its forms. -/
def number (text : List Char) : Lexeme :=
  match text with
  | '0' :: mark :: rest =>
    if isRadixMark mark then
      ofDigits ('0' :: mark :: rest.takeWhile isHexPart) (rest.dropWhile isHexPart) false
    else decimal text
  | _ => decimal text

/-- Whether a numeral starts here: with a digit, or with a point before one. -/
def startsNumber (c : Char) (text : List Char) : Bool :=
  isDecimal c || (c == '.' && text.head?.any isDecimal)

theorem decimal_append (text : List Char) : (decimal text).text ++ (decimal text).rest = text := by
  have h₁ := List.takeWhile_append_dropWhile (p := isDecimalPart) (l := text)
  have h₂ := spanFraction_append (text.dropWhile isDecimalPart)
  have h₃ := spanExponentMark_append (spanFraction (text.dropWhile isDecimalPart)).2
  unfold decimal
  dsimp only
  split
  next hm =>
    rw [List.isEmpty_iff] at hm
    rw [hm, List.nil_append] at h₃
    rw [ofDigits_append, List.append_assoc, h₃, h₂, h₁]
  next =>
    split
    next hd =>
      rw [List.isEmpty_iff] at hd
      simp only [hd, List.append_nil, List.append_assoc, h₃, h₂, h₁]
    next =>
      rw [ofDigits_append]
      simp only [List.append_assoc, List.takeWhile_append_dropWhile, h₃, h₂]

theorem number_append (text : List Char) : (number text).text ++ (number text).rest = text := by
  unfold number
  split
  · split
    · rw [ofDigits_append]
      simp [List.takeWhile_append_dropWhile]
    · exact decimal_append _
  · exact decimal_append _

/-- Where a numeral starts, at least one character is taken. -/
theorem decimal_text_pos {c : Char} {text : List Char} (h : startsNumber c text = true) :
    0 < (decimal (c :: text)).text.length := by
  have hpos : 0 < ((c :: text).takeWhile isDecimalPart
      ++ (spanFraction ((c :: text).dropWhile isDecimalPart)).1).length := by
    cases hc : isDecimalPart c with
    | true => simp [hc]
    | false =>
      have hd : isDecimal c = false := by
        cases hd : isDecimal c
        · rfl
        · simp [isDecimalPart, hd] at hc
      simp only [startsNumber, hd, Bool.false_or, Bool.and_eq_true, beq_iff_eq] at h
      obtain ⟨rfl, h⟩ := h
      cases text with
      | nil => simp at h
      | cons d text =>
        have hd' : isDecimal d = true := by simpa using h
        simp [List.takeWhile_cons, List.dropWhile_cons, hc, spanFraction, hd']
  unfold decimal
  dsimp only
  split
  · exact Nat.lt_of_lt_of_le hpos (length_le_ofDigits _ _ _)
  · split
    · simp only [List.length_append] at hpos ⊢
      omega
    · refine Nat.lt_of_lt_of_le ?_ (length_le_ofDigits _ _ _)
      simp only [List.length_append] at hpos ⊢
      omega

theorem number_text_pos {c : Char} {text : List Char} (h : startsNumber c text = true) :
    0 < (number (c :: text)).text.length := by
  unfold number
  split
  · split
    · exact Nat.lt_of_lt_of_le (by simp) (length_le_ofDigits _ _ _)
    · exact decimal_text_pos h
  · exact decimal_text_pos h

end Lexeme

end CodeMarkup
