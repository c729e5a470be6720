namespace CodeMarkup.Settings

/-!
# Scalars of a settings file

Settings are written in TOML.  Only booleans mean anything in a settings file, but the other scalars
may stand where they are passed over, so their forms are recognized too.

* `basicString?`, `literalString?`: strings on one line, which also serve as keys.
* `afterBlock?`: strings over several lines, which are only passed over.
* `isNumber`, `isDateTime`: numbers, dates and times.
-/

/-! ### Strings -/

/-- Whether a character may stand in a string or a comment: no control but the tab. -/
def isPlain (c : Char) : Bool :=
  c == '\t' || (32 ≤ c.toNat && c.toNat != 127)

/-- The value of a hexadecimal digit. -/
def hexValue? (c : Char) : Option Nat :=
  if '0' ≤ c && c ≤ '9' then some (c.toNat - '0'.toNat)
  else if 'a' ≤ c && c ≤ 'f' then some (c.toNat - 'a'.toNat + 10)
  else if 'A' ≤ c && c ≤ 'F' then some (c.toNat - 'A'.toNat + 10)
  else none

/-- The character with a number written in hexadecimal digits. -/
def charOfHex? (digits : List Char) : Option Char := do
  let value ← digits.foldlM (fun n c => do return 16 * n + (← hexValue? c)) 0
  if value.isValidChar then some (Char.ofNat value) else none

/-- The character that a short escape stands for. -/
def shortEscape? : Char → Option Char
  | 'b' => some '\x08'
  | 't' => some '\t'
  | 'n' => some '\n'
  | 'f' => some '\x0c'
  | 'r' => some '\r'
  | '"' => some '"'
  | '\\' => some '\\'
  | _ => none

/-- The text of a string in double quotes, after the opening one, and what follows it. -/
def basicString? : List Char → Option (List Char × List Char)
  | [] => none
  | '"' :: rest => some ([], rest)
  | '\\' :: 'u' :: a :: b :: c :: d :: rest => do
    let e ← charOfHex? [a, b, c, d]
    let (text, rest) ← basicString? rest
    return (e :: text, rest)
  | '\\' :: 'U' :: a :: b :: c :: d :: e :: f :: g :: h :: rest => do
    let e ← charOfHex? [a, b, c, d, e, f, g, h]
    let (text, rest) ← basicString? rest
    return (e :: text, rest)
  | '\\' :: c :: rest => do
    let e ← shortEscape? c
    let (text, rest) ← basicString? rest
    return (e :: text, rest)
  | c :: rest => do
    if isPlain c && c != '\\' then
      let (text, rest) ← basicString? rest
      return (c :: text, rest)
    else none

/-- The text of a string in single quotes, after the opening one, and what follows it. -/
def literalString? : List Char → Option (List Char × List Char)
  | [] => none
  | '\'' :: rest => some ([], rest)
  | c :: rest => do
    if isPlain c then
      let (text, rest) ← literalString? rest
      return (c :: text, rest)
    else none

/-- Up to two further quotes after three that close a string over several lines belong to it. -/
def afterQuotes (quote : Char) : List Char → List Char
  | a :: b :: rest =>
    if a = quote then if b = quote then rest else b :: rest else a :: b :: rest
  | [a] => if a = quote then [] else [a]
  | [] => []

/-- Whether only blanks stand before the end of the line. -/
def endsLineAfterBlanks (text : List Char) : Bool :=
  match text.dropWhile fun c => c == ' ' || c == '\t' with
  | '\n' :: _ => true
  | '\r' :: '\n' :: _ => true
  | _ => false

/-- What follows a string over several lines, after its opening quotes.  Escapes count only in one
    of double quotes, where a backslash may also end a line. -/
def afterBlock? (quote : Char) : List Char → Option (List Char)
  | [] => none
  | '\\' :: 'u' :: a :: b :: c :: d :: rest =>
    if quote = '"' then do
      discard (charOfHex? [a, b, c, d])
      afterBlock? quote rest
    else afterBlock? quote ('u' :: a :: b :: c :: d :: rest)
  | '\\' :: 'U' :: a :: b :: c :: d :: e :: f :: g :: h :: rest =>
    if quote = '"' then do
      discard (charOfHex? [a, b, c, d, e, f, g, h])
      afterBlock? quote rest
    else afterBlock? quote ('U' :: a :: b :: c :: d :: e :: f :: g :: h :: rest)
  | '\\' :: c :: rest =>
    if quote = '"' then
      if (shortEscape? c).isSome then afterBlock? quote rest
      else if endsLineAfterBlanks (c :: rest) then afterBlock? quote (c :: rest)
      else none
    else afterBlock? quote (c :: rest)
  | '\r' :: '\n' :: rest => afterBlock? quote rest
  | a :: b :: c :: rest =>
    if a = quote && b = quote && c = quote then some (afterQuotes quote rest)
    else if isPlain a || a = '\n' then afterBlock? quote (b :: c :: rest)
    else none
  | _ :: _ => none

/-! ### Numbers -/

/-- Whether digits stand in a row with single underscores between them. -/
def areDigits (isDigit : Char → Bool) : List Char → Bool
  | [] => false
  | [c] => isDigit c
  | a :: '_' :: b :: rest => isDigit a && areDigits isDigit (b :: rest)
  | a :: b :: rest => isDigit a && areDigits isDigit (b :: rest)

/-- Whether a character is a decimal digit. -/
def isDigit (c : Char) : Bool :=
  '0' ≤ c && c ≤ '9'

/-- A number without its sign. -/
def unsigned : List Char → List Char
  | '+' :: rest => rest
  | '-' :: rest => rest
  | text => text

/-- The number that digits in a base stand for; underscores count for nothing. -/
def valueIn (base : Nat) (digits : List Char) : Nat :=
  digits.foldl (fun n c => match hexValue? c with
    | some d => base * n + d
    | none => n) 0

/-- Whether a text is a decimal integer without its sign: no zero before other digits. -/
def isPlainInteger (text : List Char) : Bool :=
  areDigits isDigit text && (text.length == 1 || text.head? != some '0')

/-- The greatest integer that a settings file can hold. -/
def greatestInteger : Nat :=
  0x7fffffffffffffff

/-- Whether a text is an integer of 64 bits. -/
def isInteger (text : List Char) : Bool :=
  match text with
  | '0' :: 'x' :: rest =>
    areDigits (fun c => (hexValue? c).isSome) rest && valueIn 16 rest ≤ greatestInteger
  | '0' :: 'o' :: rest =>
    areDigits (fun c => '0' ≤ c && c ≤ '7') rest && valueIn 8 rest ≤ greatestInteger
  | '0' :: 'b' :: rest =>
    areDigits (fun c => c == '0' || c == '1') rest && valueIn 2 rest ≤ greatestInteger
  | '-' :: rest => isPlainInteger rest && valueIn 10 rest ≤ greatestInteger + 1
  | _ => isPlainInteger (unsigned text) && valueIn 10 (unsigned text) ≤ greatestInteger

/-- Whether a text is an exponent with its mark. -/
def isExponent : List Char → Bool
  | e :: rest => (e == 'e' || e == 'E') && areDigits isDigit (unsigned rest)
  | [] => false

/-- Whether a text is a fraction with its point, and possibly an exponent. -/
def isFraction : List Char → Bool
  | '.' :: rest =>
    let digits := rest.takeWhile fun c => isDigit c || c == '_'
    let exponent := rest.dropWhile fun c => isDigit c || c == '_'
    areDigits isDigit digits && (exponent.isEmpty || isExponent exponent)
  | _ => false

/-- Whether a text is a number with a fraction or an exponent, or no finite number. -/
def isFloat (text : List Char) : Bool :=
  let body := unsigned text
  let whole := body.takeWhile fun c => isDigit c || c == '_'
  let rest := body.dropWhile fun c => isDigit c || c == '_'
  body == "inf".toList || body == "nan".toList
    || (isPlainInteger whole && (isFraction rest || isExponent rest))

/-- Whether a text is a number. -/
def isNumber (text : List Char) : Bool :=
  isInteger text || isFloat text

/-! ### Dates and times -/

/-- The value of two digits. -/
def twoDigits? (a b : Char) : Option Nat :=
  if isDigit a && isDigit b then some (valueIn 10 [a, b]) else none

/-- The days of a month. -/
def daysIn (year month : Nat) : Nat :=
  if month = 2 then
    if year % 4 = 0 && (year % 100 != 0 || year % 400 = 0) then 29 else 28
  else if month = 4 || month = 6 || month = 9 || month = 11 then 30
  else 31

/-- What follows a date. -/
def afterDate? : List Char → Option (List Char)
  | a :: b :: c :: d :: '-' :: e :: f :: '-' :: g :: h :: rest => do
    let year := 100 * (← twoDigits? a b) + (← twoDigits? c d)
    let month ← twoDigits? e f
    let day ← twoDigits? g h
    if 1 ≤ month && month ≤ 12 && 1 ≤ day && day ≤ daysIn year month then some rest else none
  | _ => none

/-- What follows a time. -/
def afterTime? : List Char → Option (List Char)
  | a :: b :: ':' :: c :: d :: ':' :: e :: f :: rest => do
    let hour ← twoDigits? a b
    let minute ← twoDigits? c d
    let second ← twoDigits? e f
    if hour ≤ 23 && minute ≤ 59 && second ≤ 60 then
      match rest with
      | '.' :: g :: rest => if isDigit g then some (rest.dropWhile isDigit) else none
      | _ => some rest
    else none
  | _ => none

/-- Whether a text is the distance from universal time. -/
def isZone : List Char → Bool
  | ['Z'] | ['z'] => true
  | [sign, a, b, ':', c, d] =>
    (sign == '+' || sign == '-') && (twoDigits? a b).any (· ≤ 23) && (twoDigits? c d).any (· ≤ 59)
  | _ => false

/-- Whether a text is a date, a time or both. -/
def isDateTime (text : List Char) : Bool :=
  match afterDate? text with
  | some [] => true
  | some (sep :: time) =>
    (sep == 'T' || sep == 't' || sep == ' ')
      && (afterTime? time).any fun rest => rest.isEmpty || isZone rest
  | none => afterTime? text == some []

end CodeMarkup.Settings
