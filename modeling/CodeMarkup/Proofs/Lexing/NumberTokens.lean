import CodeMarkup.Proofs.Lexing.Layout
import CodeMarkup.Proofs.Lexing.Spacing

namespace CodeMarkup

/-!
# Number tokens

The texts of the tokens that are numbers.  A decimal numeral is checked as it is read.  After the
mark of a radix any hexadecimal digits and separators are taken, be it none or digits of another
radix, so that some texts are numbers that stand for none.

* `IsWhole`, `IsMalformed`, `IsFloating`: the texts of whole numbers, the texts that are taken for
  whole numbers all the same, and the texts of floating-point numbers.
* `TokenKind.IsNumeral`, `TokenKind.HasWrongDigits`: number tokens with such texts and their
  suffixes; `TokenKind.IsFormed` is one or the other.
* `Lexes.numbers`: every number token of a run is formed, and no name follows it.
* `SpellsNumber.tokenKinds?`: a word that is a number is one token.
* `Source.numbers_formed`: the number tokens of a source are numerals, unless the digits of one are
  wrong, and formed numbers are tokens.
-/

/-! ### Forms -/

/-- Whether a token is a number. -/
def TokenKind.isNumber : TokenKind → Bool
  | .integer _ | .long _ | .floating _ => true
  | _ => false

/-- Whether a character is a digit of the radix that a mark stands for. -/
def isRadixDigit (mark c : Char) : Bool :=
  if mark == 'b' || mark == 'B' then c == '0' || c == '1' else isHexPart c && c != '_'

/-- Digits of a radix, at least one, and separators. -/
structure IsRadixBody (mark : Char) (body : List Char) : Prop where
  digits : ∀ c ∈ body, isRadixDigit mark c = true ∨ c = '_'
  some_digit : ∃ c ∈ body, isRadixDigit mark c = true

/-- The texts of whole numbers: a decimal digit followed by digits and separators, or the mark of a
    radix with digits of this radix. -/
inductive IsWhole : List Char → Prop where
  | decimal {d : Char} {more : List Char} (hd : isDecimal d = true)
      (hmore : more.all isDecimalPart = true) : IsWhole (d :: more)
  | radix {mark : Char} {body : List Char} (hmark : isRadixMark mark = true)
      (hbody : IsRadixBody mark body) : IsWhole ('0' :: mark :: body)

/-- Texts that are taken for whole numbers without being any: after the mark of a radix there is no
    digit, or a hexadecimal digit that is none of this radix. -/
inductive IsMalformed : List Char → Prop where
  | mk {mark : Char} {body : List Char} (hmark : isRadixMark mark = true)
      (hbody : body.all isHexPart = true) (hnot : ¬IsRadixBody mark body) :
      IsMalformed ('0' :: mark :: body)

/-- The texts of floating-point numbers: decimal digits with a fraction, an exponent or a suffix.  A
    point without digits after it ends the number. -/
inductive IsFloating : List Char → Prop where
  | mk {whole fraction exponent suffix : List Char} (hwhole : whole.all isDecimalPart = true)
      (hstart : startsNumeral (whole ++ fraction) = true) (hfraction : IsFraction fraction)
      (hexponent : IsExponent exponent)
      (hsuffix : suffix = [] ∨ ∃ c ∈ ['f', 'F', 'd', 'D'], suffix = [c])
      (hmarked : fraction ≠ [] ∨ exponent ≠ [] ∨ suffix ≠ [])
      (hpoint : fraction = ['.'] → exponent = [] ∧ suffix = []) :
      IsFloating (whole ++ (fraction ++ (exponent ++ suffix)))

namespace TokenKind

/-- Number tokens with the texts that numbers of their kind have.  Tokens of other kinds meet
    this. -/
def IsNumeral : TokenKind → Prop
  | .integer text => IsWhole text.toList
  | .long text => ∃ digits letter, text.toList = digits ++ [letter]
      ∧ (letter = 'l' ∨ letter = 'L') ∧ IsWhole digits
  | .floating text => IsFloating text.toList
  | _ => True

/-- Tokens that are taken for whole numbers without being any. -/
def HasWrongDigits : TokenKind → Prop
  | .integer text => IsMalformed text.toList
  | .long text => ∃ digits letter, text.toList = digits ++ [letter]
      ∧ (letter = 'l' ∨ letter = 'L') ∧ IsMalformed digits
  | _ => False

/-- Numerals, and what is taken for numerals. -/
def IsFormed (kind : TokenKind) : Prop :=
  kind.IsNumeral ∨ kind.HasWrongDigits

end TokenKind

theorem isHexPart_of_isRadixDigit {mark c : Char} (h : isRadixDigit mark c = true) :
    isHexPart c = true := by
  unfold isRadixDigit at h
  split at h
  · rw [Bool.or_eq_true, beq_iff_eq, beq_iff_eq] at h
    rcases h with rfl | rfl <;> decide
  · exact (Bool.and_eq_true_iff.1 h).1

theorem IsRadixBody.all_isHexPart {mark : Char} {body : List Char} (h : IsRadixBody mark body) :
    body.all isHexPart = true := by
  refine List.all_eq_true.2 fun c hc => ?_
  rcases h.digits c hc with hdigit | rfl
  · exact isHexPart_of_isRadixDigit hdigit
  · decide

theorem isDecimalPart_of_isRadixMark {mark : Char} (h : isRadixMark mark = true) :
    isDecimalPart mark = false := by
  simp only [isRadixMark, Bool.or_eq_true, beq_iff_eq] at h
  rcases h with ((rfl | rfl) | rfl) | rfl <;> decide

/-- After the mark of a radix, hexadecimal digits and separators are all that is asked for. -/
theorem isWhole_or_isMalformed_radix {mark : Char} {body : List Char}
    (hmark : isRadixMark mark = true) :
    (IsWhole ('0' :: mark :: body) ∨ IsMalformed ('0' :: mark :: body))
      ↔ body.all isHexPart = true := by
  constructor
  · rintro (hwhole | hmalformed)
    · cases hwhole with
      | decimal hd hmore =>
        rw [List.all_cons, isDecimalPart_of_isRadixMark hmark] at hmore
        cases hmore
      | radix _ hbody => exact hbody.all_isHexPart
    · cases hmalformed with
      | mk _ hbody _ => exact hbody
  · intro hbody
    by_cases hradix : IsRadixBody mark body
    · exact .inl (.radix hmark hradix)
    · exact .inr (.mk hmark hbody hradix)

/-- No malformed text is that of a whole number. -/
theorem IsMalformed.not_isWhole {text : List Char} (h : IsMalformed text) : ¬IsWhole text := by
  cases h with
  | mk hmark _ hnot =>
    intro hwhole
    cases hwhole with
    | decimal hd hmore =>
      rw [List.all_cons, isDecimalPart_of_isRadixMark hmark] at hmore
      cases hmore
    | radix _ hbody => exact hnot hbody

namespace TokenKind

variable {kind : TokenKind}

theorem HasWrongDigits.isNumber (h : kind.HasWrongDigits) : kind.isNumber = true := by
  cases kind with
  | integer | long => rfl
  | _ => cases h

/-- No token with wrong digits is a numeral. -/
theorem HasWrongDigits.not_isNumeral (h : kind.HasWrongDigits) : ¬kind.IsNumeral := by
  cases kind with
  | integer text => exact IsMalformed.not_isWhole h
  | long text =>
    obtain ⟨digits, letter, htext, -, hmalformed⟩ := h
    rintro ⟨digits', letter', htext', -, hwhole⟩
    obtain ⟨rfl, -⟩ := List.append_inj' (htext.symm.trans htext') rfl
    exact hmalformed.not_isWhole hwhole
  | _ => cases h

end TokenKind

/-! ### Words that are numbers -/

/-- A decimal numeral without fraction, exponent and suffix. -/
theorem isWhole_of_startsNumeral {whole : List Char} (hwhole : whole.all isDecimalPart = true)
    (hstart : startsNumeral whole = true) : IsWhole whole := by
  cases whole with
  | nil => cases hstart
  | cons d more =>
    rw [List.all_cons, Bool.and_eq_true] at hwhole
    rw [startsNumeral, Lexeme.startsNumber, Bool.or_eq_true] at hstart
    rcases hstart with hd | hpoint
    · exact .decimal hd hwhole.2
    · obtain ⟨hdot, -⟩ := Bool.and_eq_true_iff.1 hpoint
      rw [eq_of_beq hdot] at hwhole
      exact absurd hwhole.1 (by decide)

/-- What a suffix makes of a number. -/
theorem suffixKind?_cases {isFloating : Bool} {suffix : List Char} {make : String → TokenKind}
    (h : suffixKind? isFloating suffix = some make) :
    (isFloating = false ∧ suffix = [] ∧ make = .integer)
      ∨ (isFloating = false ∧ (∃ c, (c = 'l' ∨ c = 'L') ∧ suffix = [c]) ∧ make = .long)
      ∨ ((isFloating = true ∨ suffix ≠ [])
        ∧ (suffix = [] ∨ ∃ c ∈ ['f', 'F', 'd', 'D'], suffix = [c]) ∧ make = .floating) := by
  unfold suffixKind? at h
  split at h
  · cases isFloating with
    | false => exact .inl ⟨rfl, rfl, (Option.some.inj h).symm⟩
    | true => exact .inr (.inr ⟨.inl rfl, .inl rfl, (Option.some.inj h).symm⟩)
  · next c =>
    split at h
    · next hlong =>
      rw [Bool.and_eq_true, Bool.or_eq_true, beq_iff_eq, beq_iff_eq, Bool.not_eq_true'] at hlong
      exact .inr (.inl ⟨hlong.2, ⟨c, hlong.1, rfl⟩, (Option.some.inj h).symm⟩)
    · split at h
      · next hfloating =>
        refine .inr (.inr ⟨.inr (List.cons_ne_nil _ _), .inr ⟨c, ?_, rfl⟩,
          (Option.some.inj h).symm⟩)
        simp only [Bool.or_eq_true, beq_iff_eq] at hfloating
        rcases hfloating with ((rfl | rfl) | rfl) | rfl <;> decide
      · cases h
  · cases h

/-- Words that are numbers have one of the forms. -/
theorem SpellsNumber.isFormed {word : List Char} {make : String → TokenKind}
    (h : SpellsNumber word make) :
    (make (String.ofList word)).isNumber = true ∧ (make (String.ofList word)).IsFormed := by
  cases h with
  | @radix mark digits suffix make hmark hdigits hsuffix hend =>
    have hform := (isWhole_or_isMalformed_radix hmark).2 hdigits
    rcases suffixKind?_cases hsuffix with
      ⟨-, rfl, rfl⟩ | ⟨-, ⟨c, hc, rfl⟩, rfl⟩ | ⟨hmarked, hletter, rfl⟩
    · refine ⟨rfl, ?_⟩
      rw [TokenKind.IsFormed, TokenKind.IsNumeral, TokenKind.HasWrongDigits, String.toList_ofList,
        List.append_nil]
      exact hform
    · have htext : (String.ofList ('0' :: mark :: (digits ++ [c]))).toList
          = '0' :: mark :: digits ++ [c] := String.toList_ofList
      exact ⟨rfl, hform.imp (⟨_, c, htext, hc, ·⟩) (⟨_, c, htext, hc, ·⟩)⟩
    · -- the other suffixes are digits here
      rcases hletter with rfl | ⟨c, hc, rfl⟩
      · rcases hmarked with hfalse | hne
        · cases hfalse
        · exact absurd rfl hne
      · have hhex : ['f', 'F', 'd', 'D'].all isHexPart = true := by decide
        have hnot := hend c rfl
        rw [List.all_eq_true.1 hhex c hc] at hnot
        cases hnot
  | @decimal whole fraction exponent suffix make hwhole hfraction hexponent hsuffix hstart hpoint =>
    -- without fraction and exponent the number is whole
    have hbare : (!fraction.isEmpty || !exponent.isEmpty) = false →
        fraction = [] ∧ exponent = [] := by simp
    rcases suffixKind?_cases hsuffix with
      ⟨hnone, rfl, rfl⟩ | ⟨hnone, ⟨c, hc, rfl⟩, rfl⟩ | ⟨hmarked, hletter, rfl⟩
    · obtain ⟨rfl, rfl⟩ := hbare hnone
      simp only [List.append_nil] at hstart ⊢
      refine ⟨rfl, .inl ?_⟩
      rw [TokenKind.IsNumeral, String.toList_ofList]
      exact isWhole_of_startsNumeral hwhole hstart
    · obtain ⟨rfl, rfl⟩ := hbare hnone
      rw [List.append_nil] at hstart
      refine ⟨rfl, .inl ⟨whole, c, ?_, hc, isWhole_of_startsNumeral hwhole hstart⟩⟩
      rw [String.toList_ofList]
      rfl
    · refine ⟨rfl, .inl ?_⟩
      rw [TokenKind.IsNumeral, String.toList_ofList]
      refine .mk hwhole hstart hfraction hexponent hletter ?_ hpoint
      simpa [or_assoc] using hmarked

/-- A whole number with a suffix that only such numbers have, or none. -/
theorem spellsNumber_of_isWhole {digits suffix : List Char} {make : String → TokenKind}
    (h : IsWhole digits ∨ IsMalformed digits) (hsuffix : suffixKind? false suffix = some make)
    (hend : EndsRun isHexPart suffix) : SpellsNumber (digits ++ suffix) make := by
  -- both forms with a mark are read in the same way
  have hradix : ∀ {mark body}, isRadixMark mark = true → body.all isHexPart = true →
      SpellsNumber ('0' :: mark :: body ++ suffix) make :=
    fun hmark hbody => .radix hmark hbody hsuffix hend
  rcases h with hwhole | hmalformed
  · cases hwhole with
    | @decimal d more hd hmore =>
      have hall : (d :: more).all isDecimalPart = true := by
        rw [List.all_cons, isDecimalPart_of_isDecimal hd, hmore]
        rfl
      have hstart : startsNumeral (d :: more ++ []) = true := by
        rw [List.append_nil, startsNumeral, Lexeme.startsNumber, hd, Bool.true_or]
      have hpoint : ([] : List Char) ≠ ['.'] := (List.cons_ne_nil _ _).symm
      exact .decimal hall .none .none hsuffix hstart fun h => absurd h hpoint
    | radix hmark hbody => exact hradix hmark hbody.all_isHexPart
  · cases hmalformed with
    | mk hmark hbody _ => exact hradix hmark hbody

/-- Formed number tokens are spelled by words that are numbers. -/
theorem TokenKind.IsFormed.spellsNumber {kind : TokenKind} (h : kind.IsFormed)
    (hnumber : kind.isNumber = true) :
    ∃ make, SpellsNumber kind.spelling.toList make ∧ make kind.spelling = kind := by
  cases kind with
  | integer text =>
    refine ⟨.integer, ?_, rfl⟩
    have hend : EndsRun isHexPart [] := by simp [EndsRun]
    have hspells := spellsNumber_of_isWhole h rfl hend
    rwa [List.append_nil] at hspells
  | long text =>
    obtain ⟨digits, letter, htext, hletter, hform⟩ : ∃ digits letter,
        text.toList = digits ++ [letter] ∧ (letter = 'l' ∨ letter = 'L')
          ∧ (IsWhole digits ∨ IsMalformed digits) := by
      rcases h with ⟨digits, letter, htext, hletter, hwhole⟩ | ⟨digits, letter, htext, hletter, hnot⟩
      · exact ⟨digits, letter, htext, hletter, .inl hwhole⟩
      · exact ⟨digits, letter, htext, hletter, .inr hnot⟩
    refine ⟨.long, ?_, rfl⟩
    rw [spelling, htext]
    rcases hletter with rfl | rfl <;>
      exact spellsNumber_of_isWhole hform rfl (by rintro _ ⟨⟩; decide)
  | floating text =>
    refine ⟨.floating, ?_, rfl⟩
    have hform : IsFloating text.toList := h.resolve_right id
    rw [spelling]
    generalize text.toList = word at hform
    cases hform with
    | @mk whole fraction exponent suffix hwhole hstart hfraction hexponent hsuffix hmarked hpoint =>
      refine .decimal hwhole hfraction hexponent ?_ hstart hpoint
      rcases hsuffix with rfl | ⟨c, hc, rfl⟩
      · have hmarked : (!fraction.isEmpty || !exponent.isEmpty) = true := by
          simpa [Decidable.or_iff_not_imp_left] using hmarked
        rw [hmarked]
        rfl
      · simp only [List.mem_cons, List.not_mem_nil, or_false] at hc
        rcases hc with rfl | rfl | rfl | rfl <;> simp [suffixKind?]
  | _ => cases hnumber

/-! ### Number tokens of a text -/

/-- A number token is scanned as a number. -/
theorem Lexeme.number_of_scan {text word rest : List Char} {kind : TokenKind}
    (h : scan text = ⟨word, rest, .ok kind⟩) (hnumber : kind.isNumber = true) :
    EndsWord rest ∧ ∃ make, SpellsNumber word make ∧ kind = make (String.ofList word) := by
  cases text with
  | nil =>
    cases h
    cases hnumber
  | cons c text =>
    rw [scan] at h
    split at h
    · cases h
      unfold TokenKind.ofWord at hnumber
      split at hnumber <;> cases hnumber
    · split at h
      · next hstart => exact spellsNumber_of_number hstart h
      · split at h
        · obtain ⟨_, _, _, rfl⟩ := enclosed_eq_ok h
          cases hnumber
        · split at h
          · obtain ⟨_, _, _, rfl⟩ := enclosed_eq_ok h
            cases hnumber
          · split at h
            · obtain ⟨_, _, _, rfl⟩ := enclosed_eq_ok h
              cases hnumber
            · have hsign : ∀ kind, (sign c text).outcome = .ok kind → kind.isNumber = false := by
                intro kind hkind
                unfold sign at hkind
                split at hkind
                case h_17 =>
                  unfold operator at hkind
                  split at hkind <;> cases hkind
                  rfl
                all_goals
                  cases hkind
                  rfl
              rw [hsign kind (by rw [h])] at hnumber
              cases hnumber

/-- **Runs.**  The number tokens of a run are formed, and what follows them does not go on with a
    word. -/
theorem Lexes.numbers {source : Source} {offset stop : Nat} {text : List Char}
    {tokens : List Token} (h : Lexes offset text tokens)
    (htext : source.HasText ⟨offset, stop⟩ text) :
    ∀ token ∈ tokens, token.kind.isNumber = true → token.kind.IsFormed
      ∧ ∃ rest, source.slice? ⟨token.span.stop, stop⟩ = some rest ∧ EndsWord rest := by
  induction h with
  | mark =>
    intro token htoken hnumber
    rw [List.mem_singleton.1 htoken] at hnumber
    cases hnumber
  | @token offset start stop' text trivia after rest kind tokens hgap hlexeme _ hstart hstop _ ih =>
    obtain ⟨-, -, hafter⟩ := htext.isGap hgap
    have hspelled := Lexeme.scan_append after
    rw [hlexeme] at hspelled
    rw [← hspelled] at hafter
    obtain ⟨-, hback⟩ := hafter.split
    rw [← hstart, ← hstop] at hback
    refine List.forall_mem_cons.2 ⟨fun hnumber => ?_, ih hback⟩
    obtain ⟨hends, make, hspells, hkind⟩ := Lexeme.number_of_scan hlexeme hnumber
    have hformed := hspells.isFormed.2
    rw [← hkind] at hformed
    exact ⟨hformed, rest, Source.slice?_eq_some hback, hends⟩

/-- Neither a name nor a gap starts like a number. -/
theorem head_of_startsNumeral {c : Char} {text : List Char}
    (h : startsNumeral (c :: text) = true) :
    isWordStart c = false ∧ isBlank c = false ∧ c ≠ '/' := by
  rw [startsNumeral, Lexeme.startsNumber, Bool.or_eq_true] at h
  rcases h with hdigit | hpoint
  · have hpart := isHexPart_of_isDecimalPart (isDecimalPart_of_isDecimal hdigit)
    refine ⟨?_, isBlank_of_isWordPart (isWordPart_of_isHexPart hpart), ?_⟩
    · have hrange : 48 ≤ c.toNat ∧ c.toNat ≤ 57 := by
        simpa [isDecimal, Char.le_def, UInt32.le_iff_toNat_le] using hdigit
      have hall : ∀ n ∈ List.range 58, 48 ≤ n → isWordStart (Char.ofNat n) = false := by
        decide +kernel
      have hc := hall c.toNat (List.mem_range.2 (by omega)) hrange.1
      rwa [Char.ofNat_toNat] at hc
    · rintro rfl
      cases hdigit
  · rw [eq_of_beq (Bool.and_eq_true_iff.1 hpoint).1]
    decide

/-- **A number is one token.**  The tokens of a word that is a number are this number and the
    mark. -/
theorem SpellsNumber.tokenKinds? {word : List Char} {make : String → TokenKind}
    (h : SpellsNumber word make) : tokenKinds? word = some [make (String.ofList word), .eof] := by
  have hend : EndsWord [] := by simp [EndsWord]
  have hnumber := h.number_eq hend (by simp [EndsRun])
  have hstart := h.startsNumeral
  rw [List.append_nil] at hnumber
  cases word with
  | nil => cases hstart
  | cons c text =>
    obtain ⟨hword, hblank, hslash⟩ := head_of_startsNumeral hstart
    have hgap : Gap.scan (c :: text) = ⟨[], [], c :: text⟩ := by
      rw [Gap.scan_cons hslash, hblank, if_neg Bool.false_ne_true]
    have hscan : Lexeme.scan (c :: text)
        = ⟨c :: text, [], .ok (make (String.ofList (c :: text)))⟩ := by
      have hnumeral : Lexeme.startsNumber c text = true := hstart
      rw [Lexeme.scan, hword, if_neg Bool.false_ne_true, if_pos hnumeral, hnumber]
    rw [tokenKinds?_token hgap hscan (List.cons_ne_nil _ _), tokenKinds?_nil]
    rfl

/-- **Number tokens.**  In a source that has tokens, the number tokens are numerals that no name
    follows, unless there is one that has no digits of its radix, or digits of another, after the
    mark of the radix.  With or without such digits, number tokens are formed, and the token of each
    formed text is that number. -/
theorem Source.numbers_formed (source : Source) (tokens : List Token)
    (h : source.tokens = .ok tokens) :
    ((∀ token ∈ tokens, token.kind.isNumber = true → token.kind.IsNumeral
        ∧ source.textOf token.span = token.kind.spelling
        ∧ ∃ rest, source.slice? ⟨token.span.stop, source.size⟩ = some rest ∧ EndsWord rest)
      ↔ ∀ token ∈ tokens, ¬token.kind.HasWrongDigits)
    ∧ (∀ token ∈ tokens, token.kind.isNumber = true → token.kind.IsFormed
      ∧ source.textOf token.span = token.kind.spelling
      ∧ ∃ rest, source.slice? ⟨token.span.stop, source.size⟩ = some rest ∧ EndsWord rest)
    ∧ ∀ kind : TokenKind, kind.isNumber = true → kind.IsFormed →
      ∃ tokens, (Source.ofText kind.spelling).tokens = .ok tokens
        ∧ tokens.map (·.kind) = [kind, .eof] := by
  have hformed : ∀ token ∈ tokens, token.kind.isNumber = true → token.kind.IsFormed
      ∧ source.textOf token.span = token.kind.spelling
      ∧ ∃ rest, source.slice? ⟨token.span.stop, source.size⟩ = some rest ∧ EndsWord rest := by
    intro token htoken hnumber
    obtain ⟨hkind, hrest⟩ :=
      (lexes_of_tokensFrom h).numbers source.hasText_chars token htoken hnumber
    exact ⟨hkind, textOf_token h token htoken, hrest⟩
  refine ⟨⟨fun hnumerals token htoken hwrong => ?_, fun hright token htoken hnumber => ?_⟩,
    hformed, fun kind hnumber hkind => ?_⟩
  · exact hwrong.not_isNumeral (hnumerals token htoken hwrong.isNumber).1
  · obtain ⟨hkind, hafter⟩ := hformed token htoken hnumber
    exact ⟨hkind.resolve_right (hright token htoken), hafter⟩
  · obtain ⟨make, hspells, hmake⟩ := hkind.spellsNumber hnumber
    have hkinds := hspells.tokenKinds?
    rw [String.ofList_toList, hmake] at hkinds
    show ∃ tokens, tokensFrom 0 kind.spelling.toList = .ok tokens ∧ _
    rw [CodeMarkup.tokenKinds?] at hkinds
    cases htokens : tokensFrom 0 kind.spelling.toList with
    | error error =>
      rw [htokens] at hkinds
      cases hkinds
    | ok tokens =>
      rw [htokens] at hkinds
      exact ⟨tokens, rfl, Option.some.inj hkinds⟩

/-- A digit of another radix after the mark, which makes no numeral, before a number with a point,
    an exponent and a suffix; and a mark without digits before a suffix. -/
theorem numbers_formed_wrong_digits :
    ∃ tokens, (Source.ofText "0b2 1.5e+3f;").tokens = .ok tokens
      ∧ (∃ token ∈ tokens, token.kind = .integer "0b2" ∧ ¬IsWhole "0b2".toList)
      ∧ ¬(∀ token ∈ tokens, token.kind.isNumber = true → token.kind.IsNumeral
        ∧ (Source.ofText "0b2 1.5e+3f;").textOf token.span = token.kind.spelling
        ∧ ∃ rest, (Source.ofText "0b2 1.5e+3f;").slice? ⟨token.span.stop, 12⟩ = some rest
          ∧ EndsWord rest)
      ∧ IsFloating "1.5e+3f".toList
      ∧ ∃ others, (Source.ofText "0x_L").tokens = .ok others
        ∧ others.map (·.kind) = [.long "0x_L", .eof] := by
  have htokens : (Source.ofText "0b2 1.5e+3f;").tokens = .ok
      [⟨.integer "0b2", ⟨0, 3⟩⟩, ⟨.floating "1.5e+3f", ⟨4, 11⟩⟩, ⟨.semicolon, ⟨11, 12⟩⟩,
        ⟨.eof, ⟨12, 12⟩⟩] := by decide +kernel
  obtain ⟨hiff, hformed, htoken⟩ := Source.numbers_formed _ _ htokens
  have hwrong : ¬IsRadixBody 'b' ['2'] := by
    rintro ⟨hdigits, -⟩
    exact absurd (hdigits '2' List.mem_cons_self) (by decide)
  have hnone : ¬IsRadixBody 'x' ['_'] := by
    rintro ⟨-, c, hc, hdigit⟩
    rw [List.mem_singleton.1 hc] at hdigit
    cases hdigit
  have hmalformed : IsMalformed "0b2".toList := .mk rfl rfl hwrong
  have hfloating := hformed ⟨.floating "1.5e+3f", ⟨4, 11⟩⟩
    (List.mem_cons_of_mem _ List.mem_cons_self) rfl
  refine ⟨_, htokens, ⟨_, List.mem_cons_self, rfl, hmalformed.not_isWhole⟩, fun hnumerals => ?_,
    hfloating.1.resolve_right id,
    htoken (.long "0x_L") rfl (.inr ⟨['0', 'x', '_'], 'L', rfl, .inr rfl, .mk rfl rfl hnone⟩)⟩
  exact hiff.1 hnumerals _ List.mem_cons_self hmalformed

end CodeMarkup
