import CodeMarkup.Proofs.Terms.Lexing

namespace CodeMarkup

/-!
# The grammar of numbers

The scan of a number goes by what follows: a point belongs to the number before a digit and before
most signs, and not before a name.  The words it accepts have a grammar that does not look ahead.

* `suffixKind?`: the suffixes of a number, and what they make of it.
* `SpellsNumber`: the words that are numbers.
* `SpellsNumber.number_eq`: such a word is scanned as a whole, unless a name or a point follows.
* `spellsNumber_of_number`: the scan accepts no other words.
-/

/-! ### Classes of characters -/

/-- Digits and separators continue a word. -/
theorem isWordPart_of_isHexPart {c : Char} (h : isHexPart c = true) : isWordPart c = true := by
  have hascii : c.toNat < 128 := by
    simp only [isHexPart, isDecimal, Bool.or_eq_true, Bool.and_eq_true, decide_eq_true_eq,
      beq_iff_eq, Char.le_def, UInt32.le_iff_toNat_le] at h
    rcases h with ((⟨-, h⟩ | ⟨-, h⟩) | ⟨-, h⟩) | rfl
    · exact Nat.lt_of_le_of_lt h (by decide)
    · exact Nat.lt_of_le_of_lt h (by decide)
    · exact Nat.lt_of_le_of_lt h (by decide)
    · decide
  have hall : ∀ n ∈ List.range 128, isHexPart (Char.ofNat n) = true →
      isWordPart (Char.ofNat n) = true := by decide +kernel
  have hc := hall c.toNat (List.mem_range.2 hascii)
  rw [Char.ofNat_toNat] at hc
  exact hc h

theorem isHexPart_of_isDecimalPart {c : Char} (h : isDecimalPart c = true) :
    isHexPart c = true := by
  simp only [isDecimalPart, isHexPart, Bool.or_eq_true] at h ⊢
  grind

theorem isDecimalPart_of_isDecimal {c : Char} (h : isDecimal c = true) :
    isDecimalPart c = true := by
  rw [isDecimalPart, h, Bool.true_or]

/-- A text does not go on with a character of a class. -/
def EndsRun (p : Char → Bool) (rest : List Char) : Prop :=
  ∀ c ∈ rest.head?, p c = false

namespace EndsRun

variable {p q : Char → Bool} {front rest : List Char}

theorem mono (h : EndsRun q rest) (hpq : ∀ c, p c = true → q c = true) : EndsRun p rest := by
  intro c hc
  by_contra hp
  exact absurd (h c hc) (by simp [hpq c (Bool.of_not_eq_false hp)])

theorem append (hfront : ∀ c ∈ front, p c = false) (hrest : EndsRun p rest) :
    EndsRun p (front ++ rest) := by
  cases front with
  | nil => exact hrest
  | cons c front =>
    rintro _ ⟨⟩
    exact hfront c List.mem_cons_self

theorem left (h : EndsRun p (front ++ rest)) : EndsRun p front := by
  cases front with
  | nil => simp [EndsRun]
  | cons c front => exact h

end EndsRun

theorem endsRun_dropWhile (p : Char → Bool) (text : List Char) :
    EndsRun p (text.dropWhile p) := by
  intro c hc
  have h := List.head?_dropWhile_not p text
  rw [Option.mem_def.1 hc] at h
  simpa using h

theorem endsRun_of_takeWhile {p : Char → Bool} {rest : List Char} (h : rest.takeWhile p = []) :
    EndsRun p rest := by
  have hends := endsRun_dropWhile p rest
  have happ := List.takeWhile_append_dropWhile (p := p) (l := rest)
  rw [h, List.nil_append] at happ
  rwa [happ] at hends

/-! ### Suffixes -/

/-- The suffixes of a number, and what they make of it. -/
def suffixKind? (isFloating : Bool) : List Char → Option (String → TokenKind)
  | [] => some (if isFloating then .floating else .integer)
  | [c] =>
    if (c == 'l' || c == 'L') && !isFloating then some .long
    else if c == 'f' || c == 'F' || c == 'd' || c == 'D' then some .floating
    else none
  | _ => none

/-- A suffix is one of a few letters, or none. -/
theorem mem_of_suffixKind? {isFloating : Bool} {suffix : List Char} {make : String → TokenKind}
    (h : suffixKind? isFloating suffix = some make) :
    suffix = [] ∨ ∃ c ∈ ['l', 'L', 'f', 'F', 'd', 'D'], suffix = [c] := by
  unfold suffixKind? at h
  split at h
  · exact .inl rfl
  · next c =>
    refine .inr ⟨c, ?_, rfl⟩
    split at h
    · next hc =>
      simp only [Bool.and_eq_true, Bool.or_eq_true, beq_iff_eq] at hc
      rcases hc.1 with rfl | rfl <;> decide
    · split at h
      · next hc =>
        simp only [Bool.or_eq_true, beq_iff_eq] at hc
        rcases hc with ((rfl | rfl) | rfl) | rfl <;> decide
      · cases h
  · cases h

/-- What no letter of a suffix is. -/
theorem suffixKind?_all {isFloating : Bool} {suffix : List Char} {make : String → TokenKind}
    (h : suffixKind? isFloating suffix = some make) {p : Char → Bool}
    (hp : ['l', 'L', 'f', 'F', 'd', 'D'].any p = false) : ∀ c ∈ suffix, p c = false := by
  rcases mem_of_suffixKind? h with rfl | ⟨letter, hletter, rfl⟩
  · simp
  · intro c hc
    rw [List.mem_singleton.1 hc]
    exact Bool.eq_false_iff.2 (List.any_eq_false.1 hp letter hletter)

namespace Lexeme

/-- Digits with a suffix after which the word ends are a number. -/
theorem ofDigits_eq {isFloating : Bool} {digits suffix rest : List Char}
    {make : String → TokenKind} (hsuffix : suffixKind? isFloating suffix = some make)
    (hrest : EndsWord rest) :
    ofDigits digits (suffix ++ rest) isFloating
      = ⟨digits ++ suffix, rest, .ok (make (String.ofList (digits ++ suffix)))⟩ := by
  have hnone : rest.takeWhile isWordPart = [] := (@span_run isWordPart [] rest rfl hrest).1
  unfold suffixKind? at hsuffix
  split at hsuffix
  · cases hsuffix
    rw [List.nil_append, List.append_nil]
    cases rest with
    | nil => rfl
    | cons c rest =>
      -- what follows is no letter, so that it is no suffix
      have hletter : ∀ letter, isWordPart letter = true → (c == letter) = false := by
        intro letter hletter
        rw [beq_eq_false_iff_ne]
        rintro rfl
        exact absurd (hrest c rfl) (by simp [hletter])
      simp only [ofDigits, hletter 'l' (by decide), hletter 'L' (by decide),
        hletter 'f' (by decide), hletter 'F' (by decide), hletter 'd' (by decide),
        hletter 'D' (by decide), Bool.or_self, Bool.false_and, Bool.false_eq_true, if_false, hnone]
  · rw [List.singleton_append, ofDigits]
    split at hsuffix
    · next hlong =>
      cases hsuffix
      simp only [if_pos hlong, hnone]
    · next hlong =>
      split at hsuffix
      · next hfloating =>
        cases hsuffix
        simp only [if_neg hlong, if_pos hfloating, hnone]
      · cases hsuffix
  · cases hsuffix

/-- Digits are a number only with a suffix after which the word ends. -/
theorem ofDigits_eq_ok {isFloating : Bool} {digits text word rest : List Char} {kind : TokenKind}
    (h : ofDigits digits text isFloating = ⟨word, rest, .ok kind⟩) :
    EndsWord rest ∧ ∃ suffix make, suffixKind? isFloating suffix = some make
      ∧ text = suffix ++ rest ∧ word = digits ++ suffix ∧ kind = make (String.ofList word) := by
  unfold ofDigits at h
  split at h
  next body after make hparts =>
    have hsuffix : ∃ suffix, suffixKind? isFloating suffix = some make ∧ text = suffix ++ after
        ∧ body = digits ++ suffix := by
      cases text with
      | nil =>
        cases hparts
        exact ⟨[], rfl, rfl, (List.append_nil _).symm⟩
      | cons c text =>
        dsimp only at hparts
        split at hparts
        · next hlong =>
          cases hparts
          exact ⟨[c], if_pos hlong, rfl, rfl⟩
        · next hlong =>
          split at hparts
          · next hfloating =>
            cases hparts
            exact ⟨[c], (if_neg hlong).trans (if_pos hfloating), rfl, rfl⟩
          · cases hparts
            exact ⟨[], rfl, rfl, (List.append_nil _).symm⟩
    obtain ⟨suffix, hkind, htext, hbody⟩ := hsuffix
    split at h
    · next hnone =>
      cases h
      exact ⟨endsRun_of_takeWhile hnone, suffix, make, hkind, htext, hbody, rfl⟩
    · cases h

end Lexeme

/-! ### Fractions and exponents -/

/-- The texts of a fraction: nothing, a point, or a point and digits. -/
inductive IsFraction : List Char → Prop where
  | none : IsFraction []
  | point : IsFraction ['.']
  | digits {d : Char} {more : List Char} (hd : isDecimal d = true)
      (hmore : more.all isDecimalPart = true) : IsFraction ('.' :: d :: more)

/-- The marks of an exponent, with their signs. -/
def exponentMarks : List (List Char) :=
  [['e'], ['E'], ['e', '+'], ['E', '+'], ['e', '-'], ['E', '-']]

/-- The texts of an exponent: nothing, or a mark and digits. -/
inductive IsExponent : List Char → Prop where
  | none : IsExponent []
  | digits {mark digits : List Char} (hmark : mark ∈ exponentMarks)
      (hdigits : digits.all isDecimal = true) (hne : digits ≠ []) : IsExponent (mark ++ digits)

section

variable {p : Char → Bool} {fraction exponent rest : List Char}

theorem IsFraction.endsRun (h : IsFraction fraction) (hp : p '.' = false) (hrest : EndsRun p rest) :
    EndsRun p (fraction ++ rest) := by
  cases h with
  | none => exact hrest
  | point =>
    rintro _ ⟨⟩
    exact hp
  | digits =>
    rintro _ ⟨⟩
    exact hp

theorem endsRun_exponentMark {mark : List Char} (h : mark ∈ exponentMarks)
    (hp : p 'e' = false ∧ p 'E' = false) : EndsRun p (mark ++ rest) := by
  obtain ⟨hlower, hupper⟩ := hp
  simp only [exponentMarks, List.mem_cons, List.not_mem_nil, or_false] at h
  rcases h with rfl | rfl | rfl | rfl | rfl | rfl
  all_goals
    rintro _ ⟨⟩
    assumption

theorem IsExponent.endsRun (h : IsExponent exponent) (hp : p 'e' = false ∧ p 'E' = false)
    (hrest : EndsRun p rest) : EndsRun p (exponent ++ rest) := by
  cases h with
  | none => exact hrest
  | digits hmark =>
    rw [List.append_assoc]
    exact endsRun_exponentMark hmark hp

/-- A fraction is taken as a whole, unless digits follow it, or a point, or a name follows a point
    that has no digits. -/
theorem IsFraction.spanFraction_eq (h : IsFraction fraction)
    (hrest : EndsRun isDecimalPart rest) (hpoint : EndsRun (· == '.') rest)
    (hword : fraction = ['.'] → EndsRun isWordStart rest) :
    spanFraction (fraction ++ rest) = (fraction, rest) := by
  cases h with
  | none =>
    cases rest with
    | nil => rfl
    | cons c rest =>
      have hdot : c ≠ '.' := by simpa using hpoint c rfl
      simp [spanFraction, hdot]
  | point =>
    cases rest with
    | nil => rfl
    | cons c rest =>
      have hdecimal : isDecimal c = false := hrest.mono (fun _ => isDecimalPart_of_isDecimal) c rfl
      have hstart : isWordStart c = false := hword rfl c rfl
      have hdot : (c == '.') = false := hpoint c rfl
      simp [spanFraction, hdecimal, hstart, hdot]
  | @digits d more hd hmore =>
    have hall : (d :: more).all isDecimalPart = true := by
      simp [isDecimalPart_of_isDecimal hd, hmore]
    obtain ⟨htake, hdrop⟩ := span_run hall hrest
    rw [List.cons_append] at htake hdrop
    rw [List.cons_append, List.cons_append, spanFraction, if_pos hd, htake, hdrop]

/-- The mark of an exponent is taken with its sign. -/
theorem spanExponentMark_eq {mark : List Char} (h : mark ∈ exponentMarks)
    (hrest : EndsRun (fun c => c == '+' || c == '-') rest) :
    spanExponentMark (mark ++ rest) = (mark, rest) := by
  have hplain : ∀ e : Char, (e == 'e' || e == 'E') = true →
      spanExponentMark (e :: rest) = ([e], rest) := by
    intro e he
    cases rest with
    | nil => simp [spanExponentMark, he]
    | cons s rest => simp [spanExponentMark, he, hrest s rfl]
  simp only [exponentMarks, List.mem_cons, List.not_mem_nil, or_false] at h
  rcases h with rfl | rfl | rfl | rfl | rfl | rfl
  · exact hplain 'e' rfl
  · exact hplain 'E' rfl
  all_goals rfl

theorem spanExponentMark_of_endsRun (h : EndsRun (fun c => c == 'e' || c == 'E') rest) :
    spanExponentMark rest = ([], rest) := by
  cases rest with
  | nil => rfl
  | cons c rest => simp [spanExponentMark, h c rfl]

end

/-! ### Words -/

/-- Whether a number starts with a text: with a digit, or with a point before one. -/
def startsNumeral : List Char → Bool
  | [] => false
  | c :: text => Lexeme.startsNumber c text

/-- The words that are numbers, and what they are: hexadecimal digits after the mark of a radix, or
    decimal digits with a fraction and an exponent, each with a suffix.  A point without digits ends
    the word. -/
inductive SpellsNumber : List Char → (String → TokenKind) → Prop where
  | radix {mark : Char} {digits suffix : List Char} {make : String → TokenKind}
      (hmark : isRadixMark mark = true) (hdigits : digits.all isHexPart = true)
      (hsuffix : suffixKind? false suffix = some make) (hend : EndsRun isHexPart suffix) :
      SpellsNumber ('0' :: mark :: (digits ++ suffix)) make
  | decimal {whole fraction exponent suffix : List Char} {make : String → TokenKind}
      (hwhole : whole.all isDecimalPart = true) (hfraction : IsFraction fraction)
      (hexponent : IsExponent exponent)
      (hsuffix : suffixKind? (!fraction.isEmpty || !exponent.isEmpty) suffix = some make)
      (hstart : startsNumeral (whole ++ fraction) = true)
      (hpoint : fraction = ['.'] → exponent = [] ∧ suffix = []) :
      SpellsNumber (whole ++ (fraction ++ (exponent ++ suffix))) make

theorem startsNumeral_append {front : List Char} (h : startsNumeral front = true)
    (rest : List Char) : startsNumeral (front ++ rest) = true := by
  cases front with
  | nil => cases h
  | cons c front =>
    cases front with
    | nil =>
      have hc : isDecimal c = true := by simpa [startsNumeral, Lexeme.startsNumber] using h
      simp [startsNumeral, Lexeme.startsNumber, hc]
    | cons d front => exact h

theorem SpellsNumber.startsNumeral {word : List Char} {make : String → TokenKind}
    (h : SpellsNumber word make) : startsNumeral word = true := by
  cases h with
  | radix => rfl
  | decimal _ _ _ _ hstart =>
    rw [← List.append_assoc]
    exact startsNumeral_append hstart _

namespace Lexeme

/-- Without the mark of a radix a number is decimal. -/
theorem number_eq_decimal {text : List Char}
    (h : ∀ mark rest, text = '0' :: mark :: rest → isRadixMark mark = false) :
    number text = decimal text := by
  unfold number
  split
  · next mark rest => rw [h mark rest rfl, if_neg Bool.false_ne_true]
  · rfl

/-- The parts of a decimal number are found where they are, if neither a name nor a point follows
    them. -/
theorem decimal_eq {whole fraction exponent suffix rest : List Char} {make : String → TokenKind}
    (hwhole : whole.all isDecimalPart = true) (hfraction : IsFraction fraction)
    (hexponent : IsExponent exponent)
    (hsuffix : suffixKind? (!fraction.isEmpty || !exponent.isEmpty) suffix = some make)
    (hpoint : fraction = ['.'] → exponent = [] ∧ suffix = []) (hrest : EndsWord rest)
    (hdot : EndsRun (· == '.') rest) :
    decimal (whole ++ (fraction ++ (exponent ++ (suffix ++ rest))))
      = ⟨whole ++ (fraction ++ (exponent ++ suffix)), rest,
        .ok (make (String.ofList (whole ++ (fraction ++ (exponent ++ suffix)))))⟩ := by
  have hdigits : EndsRun isDecimalPart rest :=
    EndsRun.mono hrest fun _ hc => isWordPart_of_isHexPart (isHexPart_of_isDecimalPart hc)
  -- no part can be mistaken for digits of the part before it
  have hlater : EndsRun isDecimalPart (exponent ++ (suffix ++ rest)) :=
    hexponent.endsRun (by decide) (.append (suffixKind?_all hsuffix (by decide)) hdigits)
  have hpast : EndsRun (· == '.') (exponent ++ (suffix ++ rest)) :=
    hexponent.endsRun (by decide) (.append (suffixKind?_all hsuffix (by decide)) hdot)
  have hname : fraction = ['.'] → EndsRun isWordStart (exponent ++ (suffix ++ rest)) := by
    intro hbare
    obtain ⟨rfl, rfl⟩ := hpoint hbare
    exact EndsRun.mono hrest fun _ => isWordPart_of_isWordStart
  obtain ⟨htake, hdrop⟩ := span_run hwhole (hfraction.endsRun (by decide) hlater)
  unfold decimal
  rw [htake, hdrop, hfraction.spanFraction_eq hlater hpast hname]
  dsimp only
  cases hexponent with
  | none =>
    have hmark : EndsRun (fun c => c == 'e' || c == 'E') (suffix ++ rest) := by
      refine .append (suffixKind?_all hsuffix (by decide)) (EndsRun.mono hrest fun c hc => ?_)
      simp only [Bool.or_eq_true, beq_iff_eq] at hc
      rcases hc with rfl | rfl <;> decide
    rw [List.nil_append, spanExponentMark_of_endsRun hmark]
    rw [List.isEmpty_nil, Bool.not_true, Bool.or_false] at hsuffix
    rw [if_pos List.isEmpty_nil, ofDigits_eq hsuffix hrest, List.nil_append, List.append_assoc]
  | @digits mark digits hmark hdecimal hne =>
    have hnonempty : (mark ++ digits).isEmpty = false := by simp [hne]
    have hmarked : ∀ mark ∈ exponentMarks, mark.isEmpty = false := by decide
    have hsign : EndsRun (fun c => c == '+' || c == '-') (digits ++ (suffix ++ rest)) := by
      cases digits with
      | nil => exact absurd rfl hne
      | cons d digits =>
        have hd : isDecimal d = true := List.all_eq_true.1 hdecimal d List.mem_cons_self
        rintro _ ⟨⟩
        simp only [Bool.or_eq_false_iff, beq_eq_false_iff_ne]
        constructor <;>
          rintro rfl <;>
          cases hd
    have hafter : EndsRun isDecimal (suffix ++ rest) :=
      .append (suffixKind?_all hsuffix (by decide))
        (EndsRun.mono hdigits fun _ => isDecimalPart_of_isDecimal)
    obtain ⟨hall, hnone⟩ := span_run hdecimal hafter
    rw [hnonempty, Bool.not_false, Bool.or_true] at hsuffix
    rw [List.append_assoc, spanExponentMark_eq hmark hsign]
    dsimp only
    rw [hmarked mark hmark, if_neg Bool.false_ne_true, hall, hnone,
      if_neg (by rw [List.isEmpty_iff]; exact hne), ofDigits_eq hsuffix hrest]
    simp only [List.append_assoc]

end Lexeme

/-- **A number is a word.**  The scan takes the whole of it, if neither a name nor a point
    follows. -/
theorem SpellsNumber.number_eq {word rest : List Char} {make : String → TokenKind}
    (h : SpellsNumber word make) (hrest : EndsWord rest) (hdot : EndsRun (· == '.') rest) :
    Lexeme.number (word ++ rest) = ⟨word, rest, .ok (make (String.ofList word))⟩ := by
  cases h with
  | @radix mark digits suffix make hmark hdigits hsuffix hend =>
    have hafter : EndsRun isHexPart (suffix ++ rest) := by
      cases suffix with
      | nil => exact EndsRun.mono hrest fun _ => isWordPart_of_isHexPart
      | cons c suffix => exact hend
    obtain ⟨htake, hdrop⟩ := span_run hdigits hafter
    rw [List.cons_append, List.cons_append, List.append_assoc, Lexeme.number, if_pos hmark,
      htake, hdrop, Lexeme.ofDigits_eq hsuffix hrest]
    rfl
  | @decimal whole fraction exponent suffix make hwhole hfraction hexponent hsuffix hstart hpoint =>
    have hmark : ∀ mark, isRadixMark mark = true → isWordPart mark = true
        ∧ isDecimalPart mark = false := by
      intro mark hmark
      simp only [isRadixMark, Bool.or_eq_true, beq_iff_eq] at hmark
      rcases hmark with ((rfl | rfl) | rfl) | rfl <;> decide
    have hradix : EndsRun isRadixMark (fraction ++ (exponent ++ (suffix ++ rest))) :=
      hfraction.endsRun (by decide) (hexponent.endsRun (by decide)
        (.append (suffixKind?_all hsuffix (by decide))
          (EndsRun.mono hrest fun mark h => (hmark mark h).1)))
    simp only [List.append_assoc]
    rw [Lexeme.number_eq_decimal,
      Lexeme.decimal_eq hwhole hfraction hexponent hsuffix hpoint hrest hdot]
    intro mark after htext
    -- the second character belongs to the digits, or is the first one after them
    cases whole with
    | nil =>
      cases hfraction with
      | none => cases hstart
      | point => simp at htext
      | digits => simp at htext
    | cons c whole =>
      cases whole with
      | nil =>
        obtain ⟨-, htext⟩ : c = '0' ∧ fraction ++ (exponent ++ (suffix ++ rest)) = mark :: after :=
          List.cons.inj htext
        exact hradix mark (by rw [htext]; rfl)
      | cons d whole =>
        obtain ⟨-, htext⟩ := List.cons.inj htext
        obtain ⟨rfl, -⟩ := List.cons.inj htext
        have hd : isDecimalPart d = true := List.all_eq_true.1 hwhole d (by simp)
        by_contra hnot
        rw [(hmark d (Bool.of_not_eq_false hnot)).2] at hd
        cases hd

/-! ### What the scan accepts -/

theorem isFraction_spanFraction (text : List Char) : IsFraction (spanFraction text).1 := by
  fun_cases spanFraction text with
  | case1 c text hc =>
    rw [List.takeWhile_cons_of_pos (isDecimalPart_of_isDecimal hc)]
    exact .digits hc List.all_takeWhile
  | case2 => exact .none
  | case3 => exact .point
  | case4 => exact .point
  | case5 => exact .none

/-- No name follows a point without digits. -/
theorem endsRun_spanFraction {text : List Char} (h : (spanFraction text).1 = ['.']) :
    EndsRun isWordStart (spanFraction text).2 := by
  revert h
  fun_cases spanFraction text with
  | case1 c text hc =>
    rw [List.takeWhile_cons_of_pos (isDecimalPart_of_isDecimal hc)]
    simp
  | case2 => simp
  | case3 c text _ hc =>
    rintro - _ ⟨⟩
    simp only [Bool.or_eq_true, not_or, Bool.not_eq_true] at hc
    exact hc.1
  | case4 => simp [EndsRun]
  | case5 => simp

/-- An exponent has a mark, which a name could start with, or there is none. -/
theorem spanExponentMark_cases (text : List Char) :
    spanExponentMark text = ([], text)
      ∨ (spanExponentMark text).1 ∈ exponentMarks ∧ ¬EndsRun isWordStart text := by
  have hletter : ∀ (e : Char) (text : List Char), (e == 'e' || e == 'E') = true →
      (e = 'e' ∨ e = 'E') ∧ ¬EndsRun isWordStart (e :: text) := by
    intro e text he
    simp only [Bool.or_eq_true, beq_iff_eq] at he
    refine ⟨he, fun hends => absurd (hends e rfl) ?_⟩
    rcases he with rfl | rfl <;> decide
  fun_cases spanExponentMark text with
  | case1 e he s text hs =>
    obtain ⟨he, hname⟩ := hletter e (s :: text) he
    simp only [Bool.or_eq_true, beq_iff_eq] at hs
    refine .inr ⟨?_, hname⟩
    dsimp only
    rcases he with rfl | rfl <;> rcases hs with rfl | rfl <;> decide
  | case2 e he s text hs =>
    obtain ⟨he, hname⟩ := hletter e (s :: text) he
    refine .inr ⟨?_, hname⟩
    dsimp only
    rcases he with rfl | rfl <;> decide
  | case3 e he =>
    obtain ⟨he, hname⟩ := hletter e [] he
    refine .inr ⟨?_, hname⟩
    rcases he with rfl | rfl <;> decide
  | case4 => exact .inl rfl
  | case5 => exact .inl rfl

/-- A number that starts with a point has digits after it. -/
theorem startsNumeral_parts {c : Char} {text : List Char}
    (h : Lexeme.startsNumber c text = true) :
    startsNumeral ((c :: text).takeWhile isDecimalPart
      ++ (spanFraction ((c :: text).dropWhile isDecimalPart)).1) = true := by
  rw [Lexeme.startsNumber, Bool.or_eq_true] at h
  rcases h with hc | h
  · rw [List.takeWhile_cons_of_pos (isDecimalPart_of_isDecimal hc)]
    simp [startsNumeral, Lexeme.startsNumber, hc]
  · simp only [Bool.and_eq_true, beq_iff_eq] at h
    obtain ⟨rfl, hdigit⟩ := h
    cases text with
    | nil => cases hdigit
    | cons d text =>
      have hd : isDecimal d = true := hdigit
      have hpoint : ¬isDecimalPart '.' = true := by decide
      rw [List.takeWhile_cons_of_neg hpoint, List.dropWhile_cons_of_neg hpoint, spanFraction,
        if_pos hd, List.takeWhile_cons_of_pos (isDecimalPart_of_isDecimal hd)]
      simp [startsNumeral, Lexeme.startsNumber, hd]

theorem spellsNumber_of_decimal {c : Char} {text word rest : List Char} {kind : TokenKind}
    (hstart : Lexeme.startsNumber c text = true)
    (h : Lexeme.decimal (c :: text) = ⟨word, rest, .ok kind⟩) :
    EndsWord rest ∧ ∃ make, SpellsNumber word make ∧ kind = make (String.ofList word) := by
  have hwhole : ((c :: text).takeWhile isDecimalPart).all isDecimalPart = true := List.all_takeWhile
  have hfraction := isFraction_spanFraction ((c :: text).dropWhile isDecimalPart)
  have hname := @endsRun_spanFraction ((c :: text).dropWhile isDecimalPart)
  have hbegin := startsNumeral_parts hstart
  unfold Lexeme.decimal at h
  generalize (c :: text).takeWhile isDecimalPart = whole at h hwhole hbegin
  generalize spanFraction ((c :: text).dropWhile isDecimalPart) = split
    at h hfraction hname hbegin
  obtain ⟨fraction, later⟩ := split
  dsimp only at h hfraction hname hbegin
  rcases spanExponentMark_cases later with hnone | ⟨hmark, hletter⟩
  · rw [hnone] at h
    dsimp only at h
    rw [if_pos List.isEmpty_nil] at h
    obtain ⟨hends, suffix, make, hsuffix, hlater, rfl, hkind⟩ := Lexeme.ofDigits_eq_ok h
    have hpoint : fraction = ['.'] → ([] : List Char) = [] ∧ suffix = [] := by
      intro hbare
      -- a suffix would be a name after the point
      have hletters : ['l', 'L', 'f', 'F', 'd', 'D'].all isWordStart = true := by decide
      rcases mem_of_suffixKind? hsuffix with rfl | ⟨letter, hletter, rfl⟩
      · exact ⟨rfl, rfl⟩
      · have hnot := hname hbare letter (by rw [hlater]; rfl)
        rw [List.all_eq_true.1 hletters letter hletter] at hnot
        cases hnot
    have hspells := SpellsNumber.decimal hwhole hfraction .none (by simpa using hsuffix) hbegin
      hpoint
    rw [List.nil_append, ← List.append_assoc] at hspells
    exact ⟨hends, make, hspells, hkind⟩
  · have hmarked : ∀ mark ∈ exponentMarks, mark.isEmpty = false := by decide
    rw [hmarked _ hmark, if_neg Bool.false_ne_true] at h
    generalize spanExponentMark later = split at h hmark
    obtain ⟨mark, digits⟩ := split
    dsimp only at h hmark
    split at h
    · cases h
    · next hne =>
      rw [List.isEmpty_iff] at hne
      obtain ⟨hends, suffix, make, hsuffix, -, rfl, hkind⟩ := Lexeme.ofDigits_eq_ok h
      have hfloating :
          (!fraction.isEmpty || !(mark ++ digits.takeWhile isDecimal).isEmpty) = true := by
        simp [hne]
      have hspells := SpellsNumber.decimal hwhole hfraction (.digits hmark List.all_takeWhile hne)
        (by rw [hfloating]; exact hsuffix) hbegin fun hbare => absurd (hname hbare) hletter
      refine ⟨hends, make, ?_, hkind⟩
      simpa only [List.append_assoc] using hspells

/-- **Only words are numbers.**  What the scan accepts as a number is spelled as one, and no name
    follows. -/
theorem spellsNumber_of_number {c : Char} {text word rest : List Char} {kind : TokenKind}
    (hstart : Lexeme.startsNumber c text = true)
    (h : Lexeme.number (c :: text) = ⟨word, rest, .ok kind⟩) :
    EndsWord rest ∧ ∃ make, SpellsNumber word make ∧ kind = make (String.ofList word) := by
  unfold Lexeme.number at h
  split at h
  next mark text htext =>
    split at h
    · next hmark =>
      obtain ⟨hends, suffix, make, hsuffix, hlater, rfl, hkind⟩ := Lexeme.ofDigits_eq_ok h
      have hend := endsRun_dropWhile isHexPart text
      rw [hlater] at hend
      exact ⟨hends, make, .radix hmark List.all_takeWhile hsuffix hend.left, hkind⟩
    · exact spellsNumber_of_decimal hstart h
  next => exact spellsNumber_of_decimal hstart h

end CodeMarkup
