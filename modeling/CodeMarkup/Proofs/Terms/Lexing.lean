import CodeMarkup.Proofs.Trivia.Markup
import CodeMarkup.Text.Join
import Mathlib.Data.List.TakeWhile

namespace CodeMarkup

/-!
# Terms and their tokens

A term is an expression of names, strings and calls.  It is written with a comma and a blank between
arguments, and with nothing else between its tokens.

* `tokenKinds?`: the kinds of the tokens of a text, wherever the text stands.
* `Term.write`, `Term.kinds`: the text of a term, and the kinds of its tokens.
* `Term.IsWritable`: the names of a term are words, and its strings end where they should.
* `Term.IsWritable.tokenKinds?_write`: a term that is written lexes to its tokens, whatever follows
  it that does not go on with a word.
-/

/-! ### Kinds of tokens -/

/-- The kinds of the tokens of a text, the mark included, unless the text is at fault. -/
def tokenKinds? (text : List Char) : Option (List TokenKind) :=
  (tokensFrom 0 text).toOption.map (·.map Token.kind)

/-- The kinds of tokens do not depend on where their text stands. -/
theorem tokenKinds?_eq (offset : Nat) (text : List Char) :
    tokenKinds? text = (tokensFrom offset text).toOption.map (·.map Token.kind) := by
  rw [← Nat.zero_add offset, tokensFrom_add, tokenKinds?]
  cases tokensFrom 0 text with
  | error error => rfl
  | ok tokens =>
    show some (tokens.map Token.kind) = some ((tokens.map (·.shift offset)).map Token.kind)
    rw [List.map_map]
    rfl

theorem tokenKinds?_nil : tokenKinds? [] = some [.eof] := by
  rw [tokenKinds?, tokensFrom]
  simp [Piece.scan, Gap.scan, Lexeme.scan, Except.toOption]

/-- The first token of a text, and those of what follows it. -/
theorem tokenKinds?_token {text trivia after word rest : List Char} {kind : TokenKind}
    (hgap : Gap.scan text = ⟨trivia, [], after⟩)
    (hlexeme : Lexeme.scan after = ⟨word, rest, .ok kind⟩) (hword : word ≠ []) :
    tokenKinds? text = (tokenKinds? rest).map (kind :: ·) := by
  have hpiece : Piece.scan text = ⟨trivia, word, rest, .ok kind⟩ := by
    rw [Piece.scan, hgap]
    dsimp only
    rw [hlexeme]
    rfl
  rw [tokenKinds?, tokensFrom, hpiece]
  dsimp only
  rw [dif_neg hword, tokenKinds?_eq (0 + byteLength trivia + byteLength word) rest]
  cases tokensFrom (0 + byteLength trivia + byteLength word) rest <;> rfl

/-! ### Gaps -/

theorem Gap.scan_cons {c : Char} (hslash : c ≠ '/') (text : List Char) :
    scan (c :: text) = if isBlank c then (scan text).push [c] else ⟨[], [], c :: text⟩ := by
  rw [scan]
  · exact fun _ hc => absurd hc hslash
  · exact fun _ hc => absurd hc hslash

/-- A blank at the head of a text is not among its tokens. -/
theorem tokenKinds?_blank {c : Char} (hc : isBlank c = true) (text : List Char) :
    tokenKinds? (c :: text) = tokenKinds? text := by
  have hslash : c ≠ '/' := by
    rintro rfl
    cases hc
  have hpiece : Piece.scan (c :: text)
      = { Piece.scan text with trivia := c :: (Piece.scan text).trivia } := by
    unfold Piece.scan
    rw [Gap.scan_cons hslash, if_pos hc]
    dsimp only [Gap.push]
    by_cases hclosed : (Gap.scan text).unclosed.isEmpty = true
    · rw [if_pos hclosed, if_pos hclosed]
      rfl
    · rw [if_neg hclosed, if_neg hclosed]
      rfl
  rw [tokenKinds?_eq 0, tokenKinds?_eq c.utf8Size text, tokensFrom,
    tokensFrom.eq_def c.utf8Size, hpiece]
  dsimp only
  rw [byteLength, Nat.zero_add]

/-- A run of code points that covers a number. -/
theorem Ranges.exists_run_of_covers {ranges : Ranges} {n : Nat} (h : ranges.covers n = true) :
    ∃ run ∈ ranges, n ∈ List.range' run.1 (run.2 + 1 - run.1) := by
  fun_induction covers ranges n with
  | case1 => cases h
  | case2 => cases h
  | case3 low high rest n hlow hhigh =>
    refine ⟨(low, high), List.mem_cons_self, ?_⟩
    rw [List.mem_range'_1]
    dsimp only
    omega
  | case4 low high rest n hlow hhigh ih =>
    obtain ⟨run, hrun, hn⟩ := ih h
    exact ⟨run, List.mem_cons_of_mem _ hrun, hn⟩

/-- No blank is a letter or a numeral, and none is one of the signs that a word may hold. -/
theorem isBlank_of_isWordPart {c : Char} (h : isWordPart c = true) : isBlank c = false := by
  have hdisjoint : ∀ run ∈ blankRanges, ∀ n ∈ List.range' run.1 (run.2 + 1 - run.1),
      letterRanges.covers n = false ∧ numeralRanges.covers n = false ∧ n ≠ '_'.toNat
        ∧ n ≠ '$'.toNat := by decide +kernel
  by_contra hblank
  obtain ⟨run, hrun, hn⟩ := Ranges.exists_run_of_covers (Bool.of_not_eq_false hblank)
  obtain ⟨hletter, hnumeral, hunderscore, hdollar⟩ := hdisjoint run hrun _ hn
  rw [isWordPart, isLetter, isNumeral, hletter, hnumeral, Bool.false_or, Bool.false_or,
    Bool.or_eq_true, beq_iff_eq, beq_iff_eq] at h
  rcases h with rfl | rfl
  · exact hunderscore rfl
  · exact hdollar rfl

/-! ### Words, signs and strings -/

/-- A text that does not go on with a word. -/
def EndsWord (rest : List Char) : Prop :=
  ∀ c ∈ rest.head?, isWordPart c = false

/-- Whether a text is a word. -/
def isWord (text : String) : Bool :=
  text.toList.head?.any isWordStart && text.toList.all isWordPart

/-- Characters of a class at the head of a text, from the first to the last. -/
theorem span_run {p : Char → Bool} {front rest : List Char} (hfront : front.all p = true)
    (hrest : ∀ c ∈ rest.head?, p c = false) :
    (front ++ rest).takeWhile p = front ∧ (front ++ rest).dropWhile p = rest := by
  have hparts : ∀ c ∈ front, p c = true := List.all_eq_true.1 hfront
  rw [List.takeWhile_append_of_pos hparts, List.dropWhile_append_of_pos hparts]
  cases rest with
  | nil => exact ⟨List.append_nil front, rfl⟩
  | cons c rest =>
    have hc : ¬p c = true := by
      rw [hrest c rfl]
      exact Bool.false_ne_true
    rw [List.takeWhile_cons_of_neg hc, List.dropWhile_cons_of_neg hc]
    exact ⟨List.append_nil front, rfl⟩

namespace TokenKind

theorem ofWord_eq_identifier {word : String} (h : (ofWord word).isIdentifier = true) :
    ofWord word = .identifier word := by
  unfold ofWord at h ⊢
  split
  · next heq =>
    rw [heq] at h
    cases h
  · rfl

theorem ofWord_eq_keyword {word : String} (h : (ofWord word).isPrimitive = true) :
    ∃ keyword : Keyword, ofWord word = .keyword keyword ∧ keyword.isPrimitive = true
      ∧ keyword.text = word := by
  have hspelling := spelling_ofWord word
  cases hkind : ofWord word with
  | keyword keyword =>
    rw [hkind] at h hspelling
    exact ⟨keyword, rfl, h, hspelling⟩
  | _ =>
    rw [hkind] at h
    cases h

end TokenKind

theorem tokenKinds?_word {word : String} {rest : List Char} (hword : isWord word = true)
    (hrest : EndsWord rest) :
    tokenKinds? (word.toList ++ rest) = (tokenKinds? rest).map (.ofWord word :: ·) := by
  obtain ⟨hstart, hparts⟩ := Bool.and_eq_true_iff.1 hword
  obtain ⟨htake, hdrop⟩ := span_run hparts hrest
  cases hchars : word.toList with
  | nil =>
    rw [hchars] at hstart
    cases hstart
  | cons c chars =>
    rw [hchars] at hstart htake hdrop
    have hc : isWordStart c = true := hstart
    have hslash : c ≠ '/' := by
      rintro rfl
      cases hc
    have hgap : Gap.scan (c :: chars ++ rest) = ⟨[], [], c :: chars ++ rest⟩ := by
      rw [List.cons_append, Gap.scan_cons hslash,
        isBlank_of_isWordPart (isWordPart_of_isWordStart hc)]
      rfl
    have hlexeme : Lexeme.scan (c :: chars ++ rest) = ⟨c :: chars, rest, .ok (.ofWord word)⟩ := by
      rw [List.cons_append] at htake hdrop ⊢
      rw [Lexeme.scan, if_pos hc]
      dsimp only
      rw [htake, hdrop, ← hchars, String.ofList_toList]
    exact tokenKinds?_token hgap hlexeme (List.cons_ne_nil _ _)

/-- A character that is a token by itself. -/
theorem tokenKinds?_sign {c : Char} {kind : TokenKind} (hslash : c ≠ '/')
    (hblank : isBlank c = false) {rest : List Char}
    (hlexeme : Lexeme.scan (c :: rest) = ⟨[c], rest, .ok kind⟩) :
    tokenKinds? (c :: rest) = (tokenKinds? rest).map (kind :: ·) := by
  have hgap : Gap.scan (c :: rest) = ⟨[], [], c :: rest⟩ := by
    rw [Gap.scan_cons hslash, hblank]
    rfl
  exact tokenKinds?_token hgap hlexeme (List.cons_ne_nil _ _)

theorem tokenKinds?_leftParen (rest : List Char) :
    tokenKinds? ('(' :: rest) = (tokenKinds? rest).map (.leftParen :: ·) :=
  tokenKinds?_sign (by decide) (by decide) rfl

theorem tokenKinds?_rightParen (rest : List Char) :
    tokenKinds? (')' :: rest) = (tokenKinds? rest).map (.rightParen :: ·) :=
  tokenKinds?_sign (by decide) (by decide) rfl

theorem tokenKinds?_comma (rest : List Char) :
    tokenKinds? (',' :: rest) = (tokenKinds? rest).map (.comma :: ·) :=
  tokenKinds?_sign (by decide) (by decide) rfl

/-- A text that a quote after it ends, and no quote inside it. -/
def IsStringBody (text : List Char) : Prop :=
  spanQuoted '"' (text ++ ['"']) = (text, ['"'])

theorem spanQuoted_cons {quote c : Char} (hc : c ≠ '\\') (text : List Char) :
    spanQuoted quote (c :: text) =
      if c = '\n' ∨ c = quote then ([], c :: text)
      else (c :: (spanQuoted quote text).1, (spanQuoted quote text).2) := by
  rw [spanQuoted]
  exact fun _ _ h => absurd h hc

/-- A literal ends at the same quote, whatever follows that. -/
theorem spanQuoted_closed {quote : Char} {text inner rest : List Char} (hquote : quote ≠ '\\')
    (h : spanQuoted quote text = (inner, quote :: rest)) (after : List Char) :
    spanQuoted quote (inner ++ quote :: after) = (inner, quote :: after) := by
  induction text using spanQuoted.induct quote generalizing inner with
  | case1 => cases h
  | case2 c text ih =>
    rw [spanQuoted] at h
    obtain ⟨rfl, hrest⟩ := Prod.mk.inj h
    rw [List.cons_append, List.cons_append, spanQuoted, ih (Prod.ext rfl hrest)]
  | case3 c text hbackslash hstop =>
    have hc : c ≠ '\\' := by
      rintro rfl
      rcases hstop with hstop | hstop
      · cases hstop
      · exact hquote hstop.symm
    rw [spanQuoted_cons hc, if_pos hstop] at h
    obtain ⟨rfl, -⟩ := Prod.mk.inj h
    exact (spanQuoted_cons hquote after).trans (if_pos (.inr rfl))
  | case4 c text hbackslash hstop ih =>
    by_cases hc : c = '\\'
    · -- a backslash at the end of the text would leave no quote
      subst hc
      cases text with
      | nil =>
        rw [spanQuoted, if_neg hstop] at h
        · cases h
        · exact hbackslash
      | cons c text => exact absurd rfl (hbackslash c text rfl)
    · rw [spanQuoted_cons hc, if_neg hstop] at h
      obtain ⟨rfl, hrest⟩ := Prod.mk.inj h
      rw [List.cons_append, spanQuoted_cons hc, if_neg hstop, ih (Prod.ext rfl hrest)]

theorem tokenKinds?_string {content : String} (h : IsStringBody content.toList)
    (rest : List Char) :
    tokenKinds? ((TokenKind.string content).spelling.toList ++ rest)
      = (tokenKinds? rest).map (.string content :: ·) := by
  have hspelling : (TokenKind.string content).spelling.toList ++ rest
      = '"' :: (content.toList ++ '"' :: rest) := by
    simp [TokenKind.spelling]
  have hgap : Gap.scan ('"' :: (content.toList ++ '"' :: rest))
      = ⟨[], [], '"' :: (content.toList ++ '"' :: rest)⟩ :=
    Gap.scan_cons (by decide) _
  have hlexeme : Lexeme.scan ('"' :: (content.toList ++ '"' :: rest))
      = ⟨'"' :: content.toList ++ ['"'], rest, .ok (.string content)⟩ := by
    have hscan : ∀ text, Lexeme.scan ('"' :: text)
        = Lexeme.enclosed '"' (spanQuoted '"' text) .string .unterminatedString := fun _ => rfl
    rw [hscan, spanQuoted_closed (by decide) h rest, Lexeme.enclosed, if_pos rfl,
      String.ofList_toList]
  rw [hspelling]
  exact tokenKinds?_token hgap hlexeme (List.cons_ne_nil _ _)

/-! ### Terms -/

/-- An expression of names, strings and calls. -/
inductive Term where
  | name (word : String)
  | text (content : String)
  | call (function : String) (arguments : List Term)

namespace Term

mutual

/-- The text of a term. -/
def write : Term → String
  | .name word => word
  | .text content => (TokenKind.string content).spelling
  | .call function arguments => function ++ "(" ++ joinWith ", " (writeAll arguments) ++ ")"

/-- The texts of terms. -/
def writeAll : List Term → List String
  | [] => []
  | term :: terms => term.write :: writeAll terms

end

mutual

/-- The kinds of the tokens of a term. -/
def kinds : Term → List TokenKind
  | .name word => [.ofWord word]
  | .text content => [.string content]
  | .call function arguments =>
    .ofWord function :: .leftParen :: (kindsAll arguments ++ [.rightParen])

/-- The kinds of the tokens of terms with commas between them. -/
def kindsAll : List Term → List TokenKind
  | [] => []
  | term :: terms => term.kinds ++ kindsAfter terms

/-- The kinds of the tokens of terms with a comma before each of them. -/
def kindsAfter : List Term → List TokenKind
  | [] => []
  | term :: terms => .comma :: (term.kinds ++ kindsAfter terms)

end

mutual

/-- How deep the expressions of a term are nested. -/
def depth : Term → Nat
  | .name _ | .text _ => 1
  | .call _ arguments => 1 + depthAll arguments

/-- The depth of the deepest of some terms. -/
def depthAll : List Term → Nat
  | [] => 0
  | term :: terms => max term.depth (depthAll terms)

end

/-- A term whose text is made of its tokens: its names are words that may start an expression, those
    of calls are not reserved, and its strings hold no quote that ends them. -/
inductive IsWritable : Term → Prop where
  | name {word : String} (hword : isWord word = true)
      (hkind : (TokenKind.ofWord word).isIdentifier = true
        ∨ (TokenKind.ofWord word).isPrimitive = true) : IsWritable (.name word)
  | text {content : String} (hcontent : IsStringBody content.toList) : IsWritable (.text content)
  | call {function : String} {arguments : List Term} (hword : isWord function = true)
      (hkind : (TokenKind.ofWord function).isIdentifier = true)
      (harguments : ∀ term ∈ arguments, IsWritable term) : IsWritable (.call function arguments)

/-! ### The tokens of a text -/

/-- The text of a call, up to what follows it. -/
theorem write_call_append (function : String) (arguments : List Term) (rest : List Char) :
    (call function arguments).write.toList ++ rest
      = function.toList
        ++ '(' :: ((joinWith ", " (writeAll arguments)).toList ++ ')' :: rest) := by
  simp [write]

/-- The texts of two terms or more. -/
theorem joinWith_writeAll (term next : Term) (terms : List Term) (rest : List Char) :
    (joinWith ", " (writeAll (term :: next :: terms))).toList ++ rest
      = term.write.toList
        ++ ',' :: ' ' :: ((joinWith ", " (writeAll (next :: terms))).toList ++ rest) := by
  simp [writeAll, joinWith]

/-- Terms with commas between them lex to their tokens if each of them does. -/
theorem tokenKinds?_writeAll {terms : List Term}
    (hterms : ∀ term ∈ terms, ∀ rest, EndsWord rest →
      tokenKinds? (term.write.toList ++ rest) = (tokenKinds? rest).map (term.kinds ++ ·))
    {rest : List Char} (hrest : EndsWord rest) :
    tokenKinds? ((joinWith ", " (writeAll terms)).toList ++ rest)
      = (tokenKinds? rest).map (kindsAll terms ++ ·) := by
  induction terms with
  | nil => exact Option.map_id'.symm
  | cons term terms ih =>
    cases terms with
    | nil =>
      rw [kindsAll, kindsAfter, List.append_nil]
      exact hterms term List.mem_cons_self rest hrest
    | cons next terms =>
      have hcomma : ∀ text, EndsWord (',' :: text) := by
        rintro text c ⟨⟩
        decide
      rw [joinWith_writeAll, hterms term List.mem_cons_self _ (hcomma _), tokenKinds?_comma,
        tokenKinds?_blank (by decide),
        ih fun other hother => hterms other (List.mem_cons_of_mem _ hother), kindsAll, kindsAll,
        kindsAfter]
      simp only [Option.map_map, Function.comp_def, List.append_assoc, List.cons_append]

/-- **Terms lex to their tokens.**  What follows a term may be anything that does not go on with a
    word. -/
theorem IsWritable.tokenKinds?_write {term : Term} (h : term.IsWritable) {rest : List Char}
    (hrest : EndsWord rest) :
    tokenKinds? (term.write.toList ++ rest) = (tokenKinds? rest).map (term.kinds ++ ·) := by
  induction h generalizing rest with
  | name hword _ => exact tokenKinds?_word hword hrest
  | text hcontent => exact tokenKinds?_string hcontent rest
  | @call function arguments hword _ _ ih =>
    have hopen : ∀ text, EndsWord ('(' :: text) := by
      rintro text c ⟨⟩
      decide
    have hclose : EndsWord (')' :: rest) := by
      rintro c ⟨⟩
      decide
    rw [write_call_append, tokenKinds?_word hword (hopen _), tokenKinds?_leftParen,
      tokenKinds?_writeAll (fun term hterm rest hrest => ih term hterm hrest) hclose,
      tokenKinds?_rightParen, kinds]
    simp [Function.comp_def]

/-! ### Depths -/

mutual

/-- The text of a term is at least as long as the term is deep, but for one character. -/
theorem depth_le (term : Term) : term.depth ≤ byteLength term.write.toList + 1 := by
  cases term with
  | name word =>
    rw [depth]
    omega
  | text content =>
    rw [depth]
    omega
  | call function arguments =>
    have harguments := depthAll_le arguments
    have hwrite := congrArg byteLength (write_call_append function arguments [])
    have hparen := Char.utf8Size_pos '('
    simp only [List.append_nil, byteLength_append, byteLength] at hwrite
    rw [depth, hwrite]
    omega

theorem depthAll_le (terms : List Term) :
    depthAll terms ≤ byteLength (joinWith ", " (writeAll terms)).toList + 1 := by
  match terms with
  | [] =>
    rw [depthAll]
    omega
  | [term] =>
    have hterm := depth_le term
    simpa [depthAll, writeAll, joinWith] using hterm
  | term :: next :: terms =>
    have hterm := depth_le term
    have hterms := depthAll_le (next :: terms)
    have hwrite := congrArg byteLength (joinWith_writeAll term next terms [])
    simp only [List.append_nil, byteLength_append, byteLength] at hwrite
    rw [depthAll, hwrite]
    omega

end

end Term

end CodeMarkup
