import CodeMarkup.Proofs.Parsing.Outcome

namespace CodeMarkup

/-!
# Leaves and their spelling

A leaf of a syntax tree keeps its spelling, and the source has this text at the span of the leaf.

* `Literal.spelling`, `NodeKind.spelling?`: the text of a literal, and that of a form which is all
  spelling, such as a name or a word of the grammar.
* `NodeKind.IsSpelled`: a form whose spelling, if it has one, stands at a span.
* `TokenKind.Spells`: forms that have the spelling of one token.
* `Source.HasText.append`: texts that touch make one text.
-/

/-- The text of a literal.  Characters and strings keep what is between their quotes. -/
def Literal.spelling : Literal → String
  | .integer text | .long text | .double text => text
  | .char text => "'" ++ text ++ "'"
  | .string text => "\"" ++ text ++ "\""
  | .boolean true => "true"
  | .boolean false => "false"
  | .null => "null"

/-- The text of a form that holds all of it: a name, a literal, a template between its quotes, or a
    word of the grammar that stands by itself. -/
def NodeKind.spelling? : NodeKind → Option String
  | .simpleName name => some name
  | .literal value => some value.spelling
  | .template raw _ => some ("`" ++ raw ++ "`")
  | .primitiveType word => some word.text
  | .voidType => some "void"
  | .thisExpr none => some "this"
  | .superExpr none => some "super"
  | _ => none

/-- A form whose spelling is the text at a span. -/
def NodeKind.IsSpelled (source : Source) (span : Span) (kind : NodeKind) : Prop :=
  ∀ text, kind.spelling? = some text → source.HasText span text.toList

/-- A form that has the spelling of a token. -/
def TokenKind.Spells (token : TokenKind) (kind : NodeKind) : Prop :=
  kind.spelling? = some token.spelling

variable {source : Source} {kind : NodeKind} {span : Span}

/-- Nothing is asked of a form that is made of other parts. -/
theorem NodeKind.IsSpelled.none (h : kind.spelling? = none) : kind.IsSpelled source span := by
  intro text htext
  rw [h] at htext
  cases htext

theorem NodeKind.IsSpelled.of_hasText {text : String} (h : kind.spelling? = some text)
    (htext : source.HasText span text.toList) : kind.IsSpelled source span := by
  intro text' htext'
  rw [h] at htext'
  cases htext'
  exact htext

/-! ### Texts that touch -/

/-- Two beginnings of one text with the same number of bytes are the same. -/
theorem eq_of_byteLength_eq {a b text : List Char} (ha : a <+: text) (hb : b <+: text)
    (h : byteLength a = byteLength b) : a = b := by
  -- one of them begins the other, and what the other has more has no bytes
  have heq : ∀ {a b : List Char}, a <+: b → byteLength a = byteLength b → a = b := by
    rintro a _ ⟨rest, rfl⟩ h
    cases rest with
    | nil => rw [List.append_nil]
    | cons c rest =>
      have hpos := byteLength_pos (List.cons_ne_nil c rest)
      rw [byteLength_append] at h
      omega
  rcases List.prefix_or_prefix_of_prefix ha hb with hab | hba
  · exact heq hab h
  · exact (heq hba h.symm).symm

/-- **Texts that touch make one text.** -/
theorem Source.HasText.append {start mid stop : Nat} {front back : List Char}
    (h : source.HasText ⟨start, mid⟩ front) (h' : source.HasText ⟨mid, stop⟩ back) :
    source.HasText ⟨start, stop⟩ (front ++ back) := by
  obtain ⟨before, after, hchars, hstart, hmid⟩ := h
  obtain ⟨before', after', hchars', hstart', hstop⟩ := h'
  dsimp only at hstart hmid hstart' hstop
  -- both spans cut the source at the same place
  have hfirst : before ++ front <+: source.chars := ⟨after, hchars.symm⟩
  have hsecond : before' <+: source.chars := ⟨back ++ after', by rw [hchars', List.append_assoc]⟩
  have hsame : before' = before ++ front := by
    refine eq_of_byteLength_eq hsecond hfirst ?_
    rw [byteLength_append]
    omega
  refine ⟨before, after', ?_, hstart, ?_⟩
  · rw [hchars', hsame]
    simp only [List.append_assoc]
  · rw [byteLength_append]
    dsimp only
    omega

theorem TokenKind.spelling_of_word {token : TokenKind} {text : String}
    (h : token.word? = some text) : token.spelling = text := by
  cases token <;> cases h <;> rfl

/-- A word that a dash joins to what stands before it. -/
theorem Source.HasText.join {start : Nat} {name text : String} {before dash word : Token}
    (h : source.HasText ⟨start, before.span.stop⟩ name.toList)
    (hdash : dash.IsPlaced source) (hword : word.IsPlaced source)
    (hkind : dash.kind = .operator "-") (htext : word.kind.word? = some text)
    (hbefore : before.touches dash = true) (hafter : dash.touches word = true) :
    source.HasText ⟨start, word.span.stop⟩ (name ++ "-" ++ text).toList := by
  have hstop : before.span.stop = dash.span.start := eq_of_beq hbefore
  have hstop' : dash.span.stop = word.span.start := eq_of_beq hafter
  have hspelling : word.kind.spelling = text := TokenKind.spelling_of_word htext
  -- the three texts stand one after another without a gap
  have hmiddle : source.HasText ⟨before.span.stop, dash.span.stop⟩ "-".toList := by
    have := hdash.hasText
    rwa [hkind, show dash.span = ⟨before.span.stop, dash.span.stop⟩ by rw [hstop]] at this
  have hlast : source.HasText ⟨dash.span.stop, word.span.stop⟩ text.toList := by
    have := hword.hasText
    rwa [hspelling, show word.span = ⟨dash.span.stop, word.span.stop⟩ by rw [hstop']] at this
  rw [String.toList_append, String.toList_append]
  exact (h.append hmiddle).append hlast

/-! ### Single tokens -/

namespace State

variable {s t : State}

theorem current_spells (s : State) {token : TokenKind} (h : kindAt s.rest 0 = token)
    (hkind : token.Spells kind) : s.current.kind.Spells kind := by
  rw [← s.kindAt_rest_zero, h]
  exact hkind

/-- The next token stands where the state starts. -/
theorem IsValid.hasText_current (h : s.IsValid source) (hrest : s.rest ≠ []) :
    source.HasText ⟨s.start, s.current.span.stop⟩ s.current.kind.spelling.toList :=
  (h.current_isPlaced hrest).1.hasText

/-- Over a single token, a form with its spelling is spelled. -/
theorem IsValid.isSpelled (h : s.IsValid source) (hrest : s.rest ≠ [])
    (hstop : t.previousStop = s.current.span.stop) (hkind : s.current.kind.Spells kind) :
    kind.IsSpelled source (t.spanFrom s.start) := by
  obtain ⟨hplaced, -⟩ := h.current_isPlaced hrest
  have hspan : t.spanFrom s.start = s.current.span := by
    have hle : s.start ≤ s.current.span.stop := Nat.le_of_lt hplaced.start_lt
    rw [spanFrom, hstop, Nat.max_eq_left hle]
    rfl
  rw [hspan]
  exact NodeKind.IsSpelled.of_hasText hkind hplaced.hasText

end State

end CodeMarkup
