import CodeMarkup.Grammar.Interpolation
import CodeMarkup.Lexer
import CodeMarkup.Proofs.Offsets

namespace CodeMarkup

/-!
# Token streams in a source

What the tokens of a text say about the text.

* `Lexeme.scan_spelling`: a token is spelled by the characters it was read from.
* `InOrder`: tokens that stand in a source one after another, each at its spelling.
* `tokensFrom_inOrder`: the tokens of a text are in order and end with their mark.
* `tokensFrom_add`: the tokens of a text do not depend on where it stands, except for their spans.
* `interpolations_located`: the interpolations of a template lie inside its text, in order.
-/

/-- Whether a fault says something about a text.  The others stand for the bounds of a definition,
    which no text meets. -/
def Fault.isGenuine : Fault → Bool
  | .exhausted | .reversedSlice => false
  | _ => true

/-! ### Spellings -/

/-- What a scan has to say of the characters it takes: a token is spelled by them, and a fault is
    one of the text. -/
def Lexeme.IsSpelled (lexeme : Lexeme) : Prop :=
  match lexeme.outcome with
  | .ok kind => kind.spelling.toList = lexeme.text ∧ (kind = .eof → lexeme.text = [])
  | .error fault => fault.isGenuine = true

theorem TokenKind.spelling_ofWord (text : String) : (TokenKind.ofWord text).spelling = text := by
  unfold ofWord
  split
  -- a word that is found in the list of keywords is the text of the keyword
  · next word h => simpa [Keyword.ofText?, spelling] using List.find?_some h
  · rfl

theorem TokenKind.ofWord_ne_eof (text : String) : TokenKind.ofWord text ≠ .eof := by
  unfold ofWord
  split <;> simp

namespace Lexeme

theorem isSpelled_ok {text rest : List Char} {kind : TokenKind}
    (hspelling : kind.spelling.toList = text) (hkind : kind ≠ .eof) :
    IsSpelled ⟨text, rest, .ok kind⟩ :=
  ⟨hspelling, fun h => absurd h hkind⟩

theorem ofDigits_isSpelled (digits rest : List Char) (isFloating : Bool) :
    (ofDigits digits rest isFloating).IsSpelled := by
  unfold ofDigits
  split
  next body rest' make h =>
    -- whatever the suffix, the kind keeps the text it is made from
    have hmake : ∀ text, (make text).spelling = text ∧ make text ≠ .eof := by
      intro text
      revert h
      cases rest with
      | nil =>
        simp only [Prod.mk.injEq]
        rintro ⟨_, _, rfl⟩
        cases isFloating <;> simp [TokenKind.spelling]
      | cons c after =>
        dsimp only
        split
        · simp only [Prod.mk.injEq]
          rintro ⟨_, _, rfl⟩
          simp [TokenKind.spelling]
        · split
          · simp only [Prod.mk.injEq]
            rintro ⟨_, _, rfl⟩
            simp [TokenKind.spelling]
          · simp only [Prod.mk.injEq]
            rintro ⟨_, _, rfl⟩
            cases isFloating <;> simp [TokenKind.spelling]
    split
    · obtain ⟨hspelling, heof⟩ := hmake (String.ofList body)
      exact isSpelled_ok (by rw [hspelling, String.toList_ofList]) heof
    · rfl

theorem number_isSpelled (text : List Char) : (number text).IsSpelled := by
  have hdecimal : ∀ text, (decimal text).IsSpelled := by
    intro text
    unfold decimal
    dsimp only
    split
    · exact ofDigits_isSpelled _ _ _
    · split
      · rfl
      · exact ofDigits_isSpelled _ _ _
  unfold number
  split
  · split
    · exact ofDigits_isSpelled _ _ _
    · exact hdecimal _
  · exact hdecimal _

/-- A literal between quotes whose token is found ends at its quote. -/
theorem enclosed_eq_ok {quote : Char} {body : List Char × List Char} {make : String → TokenKind}
    {unclosed : Fault} {text rest : List Char} {kind : TokenKind}
    (h : enclosed quote body make unclosed = ⟨text, rest, .ok kind⟩) :
    ∃ inner, body = (inner, quote :: rest) ∧ text = quote :: inner ++ [quote]
      ∧ kind = make (String.ofList inner) := by
  unfold enclosed at h
  split at h
  · next inner close after =>
    split at h
    · next hclose =>
      subst hclose
      cases h
      exact ⟨inner, rfl, rfl, rfl⟩
    · cases h
  · cases h

/-- A literal between quotes is spelled by its quotes and its text. -/
theorem enclosed_isSpelled {quote : Char} {body : List Char × List Char}
    {make : String → TokenKind} {unclosed : Fault}
    (hmake : ∀ text, (make text).spelling.toList = quote :: text.toList ++ [quote])
    (heof : ∀ text, make text ≠ .eof) (hfault : unclosed.isGenuine = true) :
    (enclosed quote body make unclosed).IsSpelled := by
  unfold enclosed
  split
  · split
    · exact isSpelled_ok (by rw [hmake, String.toList_ofList]) (heof _)
    · exact hfault
  · exact hfault

theorem sign_isSpelled (c : Char) (text : List Char) : (sign c text).IsSpelled := by
  have hoperator : ∀ c text, (operator c text).IsSpelled := by
    intro c text
    unfold operator
    split
    · exact isSpelled_ok rfl nofun
    · rfl
  unfold sign
  split <;> first | exact isSpelled_ok (by decide) nofun | exact hoperator _ _

/-- A token is spelled by the characters it was read from. -/
theorem scan_spelling (text : List Char) : (scan text).IsSpelled := by
  cases text with
  | nil => exact ⟨rfl, fun _ => rfl⟩
  | cons c text =>
    simp only [scan]
    split
    · exact isSpelled_ok (by rw [TokenKind.spelling_ofWord, String.toList_ofList])
        (TokenKind.ofWord_ne_eof _)
    · split
      · exact number_isSpelled _
      · split
        · next h =>
          subst h
          exact enclosed_isSpelled (by simp [TokenKind.spelling]) (by simp) rfl
        · split
          · next h =>
            subst h
            exact enclosed_isSpelled (by simp [TokenKind.spelling]) (by simp) rfl
          · split
            · next h =>
              subst h
              exact enclosed_isSpelled (by simp [TokenKind.spelling]) (by simp) rfl
            · exact sign_isSpelled _ _

end Lexeme

/-- The piece at the head of a text is spelled by its characters; it is empty only at the end. -/
theorem Piece.scan_spelling (text : List Char) :
    match (Piece.scan text).outcome with
    | .ok kind => kind.spelling.toList = (Piece.scan text).text
        ∧ (kind = .eof ↔ (Piece.scan text).text = [])
        ∧ ((Piece.scan text).text = [] → (Piece.scan text).rest = [])
    | .error fault => fault.isGenuine = true := by
  have hspelled := Lexeme.scan_spelling (Gap.scan text).rest
  rw [Piece.scan]
  dsimp only
  by_cases hclosed : (Gap.scan text).unclosed.isEmpty
  · simp only [if_pos hclosed]
    rw [Lexeme.IsSpelled] at hspelled
    -- a token is empty only where the text has ended
    have hend : (Lexeme.scan (Gap.scan text).rest).text = [] → (Gap.scan text).rest = [] := by
      intro hnil
      cases hrest : (Gap.scan text).rest with
      | nil => rfl
      | cons c rest =>
        have hpos := Lexeme.scan_text_pos c rest
        rw [← hrest, hnil] at hpos
        exact absurd hpos (Nat.lt_irrefl _)
    cases h : (Lexeme.scan (Gap.scan text).rest).outcome with
    | error fault =>
      rw [h] at hspelled
      exact hspelled
    | ok kind =>
      rw [h] at hspelled
      refine ⟨hspelled.1, ⟨hspelled.2, fun hnil => ?_⟩, fun hnil => ?_⟩
      · rw [hend hnil] at h
        cases h
        rfl
      · rw [hend hnil]
        rfl
  -- an open comment, whose fault is one of the text
  · simp only [if_neg hclosed]
    rfl

/-! ### Tokens in order -/

/-- A token that stands in a source where its span says. -/
structure Token.IsPlaced (source : Source) (token : Token) : Prop where
  hasText : source.HasText token.span token.kind.spelling.toList
  start_lt : token.span.start < token.span.stop
  kind_ne : token.kind ≠ .eof

/-- Tokens that stand one after another between two offsets of a source. -/
inductive InOrder (source : Source) : Nat → List Token → Nat → Prop where
  | nil {lo hi : Nat} (h : lo ≤ hi) : InOrder source lo [] hi
  | cons {lo hi : Nat} {token : Token} {rest : List Token} (hstart : lo ≤ token.span.start)
      (htoken : token.IsPlaced source) (hrest : InOrder source token.span.stop rest hi) :
      InOrder source lo (token :: rest) hi

/-- An error that says what is wrong with a text, and at a span of it. -/
structure ParseError.IsSound (source : Source) (error : ParseError) : Prop where
  genuine : error.fault.isGenuine = true
  hasSpan : source.HasSpan error.span

/-- What reading a span of a source gives: tokens in order and their mark, or a sound error. -/
def IsTokenStream (source : Source) (span : Span) : Except ParseError (List Token) → Prop
  | .ok tokens =>
    ∃ body, tokens = body ++ [⟨.eof, .point span.stop⟩] ∧ InOrder source span.start body span.stop
  | .error error => error.IsSound source

theorem InOrder.le {source : Source} {lo hi : Nat} {tokens : List Token}
    (h : InOrder source lo tokens hi) : lo ≤ hi := by
  induction h with
  | nil h => exact h
  | cons hstart htoken _ ih =>
    have := htoken.start_lt
    omega

theorem InOrder.mono {source : Source} {lo lo' hi : Nat} {tokens : List Token}
    (h : InOrder source lo tokens hi) (hle : lo' ≤ lo) : InOrder source lo' tokens hi := by
  cases h with
  | nil h => exact .nil (by omega)
  | cons hstart htoken hrest => exact .cons (by omega) htoken hrest

theorem InOrder.lt_stop_last {source : Source} {lo hi : Nat} {tokens : List Token} {last : Token}
    (h : InOrder source lo tokens hi) (hlast : tokens.getLast? = some last) :
    lo < last.span.stop := by
  induction h with
  | nil => cases hlast
  | @cons lo hi token rest hstart htoken _ ih =>
    have hlt := htoken.start_lt
    -- the last token is this one if no other follows, and else the last of the others
    rcases List.eq_nil_or_concat rest with rfl | ⟨init, final, rfl⟩
    · obtain rfl : token = last := Option.some.inj hlast
      omega
    · rw [List.concat_eq_append, ← List.cons_append, List.getLast?_concat] at hlast
      have := ih (by rw [List.concat_eq_append, List.getLast?_concat, hlast])
      omega

/-- **Reading a text.**  The tokens of a text that stands in a source are in order and end with
    their mark at the end of the text. -/
theorem tokensFrom_inOrder {source : Source} (offset : Nat) (text : List Char)
    (htext : source.HasText ⟨offset, offset + byteLength text⟩ text) :
    IsTokenStream source ⟨offset, offset + byteLength text⟩ (tokensFrom offset text) := by
  have happ := Piece.scan_append text
  have hspelled := Piece.scan_spelling text
  have hlen := congrArg byteLength happ
  simp only [byteLength_append] at hlen
  -- the text of the piece stands at its span
  have hpiece : source.HasText
      ⟨offset + byteLength (Piece.scan text).trivia,
        offset + byteLength (Piece.scan text).trivia + byteLength (Piece.scan text).text⟩
      (Piece.scan text).text := by
    have h : source.HasText
        ⟨offset + byteLength (Piece.scan text).trivia,
          offset + byteLength ((Piece.scan text).trivia ++ (Piece.scan text).text)⟩ _ :=
      Source.HasText.part _ _ (Piece.scan text).rest (happ.symm ▸ htext)
    rwa [byteLength_append, ← Nat.add_assoc] at h
  rw [tokensFrom]
  dsimp only
  split
  next fault h =>
    rw [h] at hspelled
    exact ⟨hspelled, hpiece.hasSpan⟩
  next kind h =>
    rw [h] at hspelled
    obtain ⟨hspelling, heof, hend⟩ := hspelled
    split
    next hnil =>
      -- an empty piece is the mark; no text is left after it, so it stands at the end
      rw [hnil, hend hnil] at hlen
      simp only [byteLength, Nat.add_zero] at hlen
      refine ⟨[], ?_, .nil (Nat.le_add_right _ _)⟩
      rw [heof.2 hnil, hnil, byteLength, Nat.add_zero, hlen]
      rfl
    next hne =>
      have hstop : offset + byteLength (Piece.scan text).trivia + byteLength (Piece.scan text).text
          + byteLength (Piece.scan text).rest = offset + byteLength text := by omega
      -- the other pieces are read from the text that stands where this piece stops
      have hrest : source.HasText
          ⟨offset + byteLength (Piece.scan text).trivia + byteLength (Piece.scan text).text,
            offset + byteLength (Piece.scan text).trivia + byteLength (Piece.scan text).text
              + byteLength (Piece.scan text).rest⟩ (Piece.scan text).rest := by
        have h : source.HasText
            ⟨offset + byteLength ((Piece.scan text).trivia ++ (Piece.scan text).text),
              offset + byteLength ((Piece.scan text).trivia ++ (Piece.scan text).text
                ++ (Piece.scan text).rest)⟩ _ :=
          Source.HasText.part _ _ [] (by rw [List.append_nil, happ]; exact htext)
        simpa only [byteLength_append, ← Nat.add_assoc] using h
      have ih := tokensFrom_inOrder _ _ hrest
      have hpos := byteLength_pos hne
      rw [hstop] at ih
      cases hmore : tokensFrom
          (offset + byteLength (Piece.scan text).trivia + byteLength (Piece.scan text).text)
          (Piece.scan text).rest with
      | error error => rw [hmore] at ih; exact ih
      | ok tokens =>
        rw [hmore] at ih
        obtain ⟨body, rfl, hbody⟩ := ih
        refine ⟨_ :: body, rfl, .cons (Nat.le_add_right _ _) ⟨?_, ?_, ?_⟩ hbody⟩
        · rw [hspelling]
          exact hpiece
        · exact Nat.lt_add_of_pos_right hpos
        · exact fun hkind => hne (heof.1 hkind)
termination_by text.length
decreasing_by exact Piece.length_scan_rest_lt (by assumption)

/-- The tokens of the text at a span stand within the span. -/
theorem Source.HasText.isTokenStream {source : Source} {span : Span} {text : List Char}
    (h : source.HasText span text) : IsTokenStream source span (tokensFrom span.start text) := by
  have hspan : span = ⟨span.start, span.start + byteLength text⟩ := by
    obtain ⟨_, _, _, _, hlen⟩ := h
    rw [← hlen]
  have hstream := tokensFrom_inOrder span.start text (hspan ▸ h)
  rwa [← hspan] at hstream

theorem Source.hasText_chars (source : Source) : source.HasText ⟨0, source.size⟩ source.chars :=
  ⟨[], [], by simp, rfl, (Nat.zero_add _).symm⟩

/-- The tokens of a source stand in it, and end with their mark. -/
theorem Source.tokens_isTokenStream (source : Source) :
    IsTokenStream source ⟨0, source.size⟩ source.tokens :=
  source.hasText_chars.isTokenStream

/-! ### Texts at another offset -/

/-- The error moved towards the end of the text. -/
def ParseError.shift (error : ParseError) (distance : Nat) : ParseError :=
  { error with span := error.span.shift distance }

/-- What reading a text gives, moved towards the end of the text. -/
def shiftTokens (distance : Nat) : Except ParseError (List Token) → Except ParseError (List Token)
  | .ok tokens => .ok (tokens.map (·.shift distance))
  | .error error => .error (error.shift distance)

/-- The tokens of a text that stands further on are the same ones, moved. -/
theorem tokensFrom_add (offset distance : Nat) (text : List Char) :
    tokensFrom (offset + distance) text = shiftTokens distance (tokensFrom offset text) := by
  -- every span is made from the offset at which the piece before it stops
  have hspan : ∀ n k, (⟨offset + distance + n, offset + distance + n + k⟩ : Span)
      = Span.shift ⟨offset + n, offset + n + k⟩ distance := by
    intro n k
    rw [Span.shift, Span.mk.injEq]
    dsimp only
    omega
  rw [tokensFrom, tokensFrom.eq_def offset]
  dsimp only
  cases (Piece.scan text).outcome with
  | error fault =>
    dsimp only
    rw [hspan]
    rfl
  | ok kind =>
    dsimp only
    split
    · rw [hspan]
      rfl
    · next hne =>
      have hstop : offset + distance + byteLength (Piece.scan text).trivia
          + byteLength (Piece.scan text).text
          = offset + byteLength (Piece.scan text).trivia + byteLength (Piece.scan text).text
            + distance := by omega
      rw [hspan, hstop, tokensFrom_add _ distance (Piece.scan text).rest]
      -- what the other pieces give is moved, whether it is an error or tokens
      cases tokensFrom _ (Piece.scan text).rest <;> rfl
termination_by text.length
decreasing_by exact Piece.length_scan_rest_lt (by assumption)

/-! ### Interpolations -/

/-- Ranges that stand in a text one after another from an offset on. -/
def AreLocated (raw : List Char) : Nat → List (Option Span) → Prop
  | _, [] => True
  | lo, none :: rest => AreLocated raw lo rest
  | lo, some range :: rest =>
    lo ≤ range.start
      ∧ (∃ front middle back, raw = front ++ middle ++ back
        ∧ byteLength front = range.start ∧ byteLength (front ++ middle) = range.stop)
      ∧ AreLocated raw range.stop rest

theorem AreLocated.mono {raw : List Char} {lo lo' : Nat} {ranges : List (Option Span)}
    (h : AreLocated raw lo ranges) (hle : lo' ≤ lo) : AreLocated raw lo' ranges := by
  induction ranges with
  | nil => trivial
  | cons range rest ih =>
    cases range with
    | none => exact ih h
    | some range => exact ⟨Nat.le_trans hle h.1, h.2⟩

/-- Every range that is located in a text covers a part of it. -/
theorem AreLocated.exists_part {raw : List Char} {lo : Nat} {ranges : List (Option Span)}
    {range : Span} (h : AreLocated raw lo ranges) (hmem : some range ∈ ranges) :
    ∃ front middle back, raw = front ++ middle ++ back
      ∧ byteLength front = range.start ∧ byteLength (front ++ middle) = range.stop := by
  induction ranges generalizing lo with
  | nil => cases hmem
  | cons first rest ih =>
    rcases List.mem_cons.1 hmem with rfl | hlater
    · exact h.2.1
    · cases first with
      | none => exact ih h hlater
      | some first => exact ih h.2.2 hlater

/-- Where the search for interpolations stands in a text: how much of it has been passed, and where
    the open expression starts. -/
def TemplateMode.IsAt (raw : List Char) (offset : Nat) (text : List Char) : TemplateMode → Prop
  | .plain => ∃ front, raw = front ++ text ∧ byteLength front = offset
  | .inside origin _ => ∃ front inner, raw = front ++ inner ++ text
      ∧ byteLength front = origin ∧ byteLength (front ++ inner) = offset

/-- No range that is still to be found starts before this offset. -/
def TemplateMode.lowest (offset : Nat) : TemplateMode → Nat
  | .plain => offset
  | .inside origin _ => origin

/-- In either mode the search may pass a character. -/
theorem TemplateMode.IsAt.pass {raw text : List Char} {offset : Nat} {mode : TemplateMode}
    (passed : List Char) (h : mode.IsAt raw offset (passed ++ text)) :
    mode.IsAt raw (offset + byteLength passed) text := by
  cases mode with
  | plain =>
    obtain ⟨front, rfl, rfl⟩ := h
    exact ⟨front ++ passed, by rw [List.append_assoc], byteLength_append _ _⟩
  | inside origin depth =>
    obtain ⟨front, inner, rfl, rfl, rfl⟩ := h
    exact ⟨front, inner ++ passed, by simp only [List.append_assoc], rfl,
      by simp only [byteLength_append, Nat.add_assoc]⟩

/-- The search in progress finds ranges that stand in the text one after another. -/
theorem interpolationsFrom_located (raw : List Char) (offset : Nat) (mode : TemplateMode)
    (text : List Char) (h : mode.IsAt raw offset text) :
    AreLocated raw (mode.lowest offset) (interpolationsFrom offset mode text) := by
  -- each case passes one character or two, and moves the offset by their bytes
  fun_induction interpolationsFrom offset mode text with
  | case1 => trivial
  | case2 offset c text ih =>
    have h' := h.pass ['\\', c]
    rw [show byteLength ['\\', c] = 1 + c.utf8Size by simp [byteLength]; rfl,
      ← Nat.add_assoc] at h'
    exact (ih h').mono (by simp only [TemplateMode.lowest]; omega)
  | case3 offset text ih =>
    obtain ⟨front, rfl, hfront⟩ := h.pass ['$', '{']
    have hfront' : byteLength front = offset + 2 := hfront
    exact (ih ⟨front, [], by simp, hfront', by simpa using hfront'⟩).mono (Nat.le_add_right _ _)
  | case4 offset c text _ _ ih =>
    have h' := h.pass [c]
    rw [show byteLength [c] = c.utf8Size by simp [byteLength]] at h'
    exact (ih h').mono (Nat.le_add_right _ _)
  | case5 => trivial
  | case6 offset origin depth text ih =>
    obtain ⟨front, inner, hraw, hfront, hinner⟩ := h.pass ['{']
    exact ih ⟨front, inner, hraw, hfront, hinner⟩
  | case7 offset origin depth text hdepth hbrace ih =>
    have h' := h.pass ['}']
    obtain ⟨front, inner, hraw, hfront, hinner⟩ := h
    -- the closing brace: what has been passed since the opening one is a range
    refine ⟨Nat.le_refl _, ⟨front, inner, _, hraw, hfront, hinner⟩, ?_⟩
    obtain ⟨front', inner', hraw', _, hinner'⟩ := h'
    exact (ih ⟨front' ++ inner', hraw', hinner'⟩).mono (Nat.le_add_right _ _)
  | case8 offset origin depth text hdepth hbrace ih =>
    obtain ⟨front, inner, hraw, hfront, hinner⟩ := h.pass ['}']
    exact ih ⟨front, inner, hraw, hfront, hinner⟩
  | case9 offset origin depth c text _ _ ih =>
    obtain ⟨front, inner, hraw, hfront, hinner⟩ := h.pass [c]
    exact ih ⟨front, inner, hraw, hfront, by rw [hinner]; simp [byteLength]⟩

/-- The interpolations of a template stand in its text, in order. -/
theorem interpolations_located (raw : List Char) : AreLocated raw 0 (interpolations raw) :=
  interpolationsFrom_located raw 0 .plain raw ⟨[], rfl, rfl⟩

end CodeMarkup
