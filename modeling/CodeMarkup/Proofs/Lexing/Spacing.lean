import CodeMarkup.Proofs.Lexing.Comments
import CodeMarkup.Proofs.Lexing.Numerals
import CodeMarkup.Proofs.Lexing.Templates

namespace CodeMarkup

/-!
# Tokens apart from each other

The scan of a token looks at what follows it: the longest sign is taken, a point belongs to a number
or not, a slash may start a comment.  Where a blank follows, none of this matters: the characters of
a token are that token again.

* `Lexeme.scan_before_blank`: the scan of a token that a blank follows.
* `Gap.scan_before_blank`: no gap stands before it.
* `Source.tokens_respaced`: the tokens of a source, with blanks of any choice between them, have the
  same kinds.
-/

/-! ### Literals -/

/-- What is taken from the body of a template starts like the body. -/
theorem exists_cons_of_spanTemplate {depth : Nat} {text inner rest after more : List Char}
    (h : spanTemplate depth text = (inner, '`' :: rest))
    (hbrace : inner ++ '`' :: after = '{' :: more) : ∃ tail, text = '{' :: tail := by
  have happ := spanTemplate_append depth text
  rw [h] at happ
  cases inner with
  | nil => cases hbrace
  | cons c inner =>
    obtain ⟨rfl, -⟩ := List.cons.inj hbrace
    exact ⟨_, happ.symm⟩

/-- A template ends at the same backtick, whatever follows that. -/
theorem spanTemplate_closed {depth : Nat} {text inner rest : List Char}
    (h : spanTemplate depth text = (inner, '`' :: rest)) (after : List Char) :
    spanTemplate depth (inner ++ '`' :: after) = (inner, '`' :: after) := by
  fun_induction spanTemplate depth text generalizing inner with
  | case1 => cases h
  | case2 depth c text ih =>
    obtain ⟨rfl, hrest⟩ := Prod.mk.inj h
    rw [List.cons_append, List.cons_append, spanTemplate, ih (Prod.ext rfl hrest)]
  | case3 depth text ih =>
    obtain ⟨rfl, hrest⟩ := Prod.mk.inj h
    rw [List.cons_append, List.cons_append, spanTemplate, ih (Prod.ext rfl hrest)]
  | case4 =>
    obtain ⟨rfl, -⟩ := Prod.mk.inj h
    simp [spanTemplate]
  | case5 c text hescape hopen hc ih =>
    obtain ⟨rfl, hrest⟩ := Prod.mk.inj h
    have hclosed : spanTemplate 0 text = ((spanTemplate 0 text).1, '`' :: rest) :=
      Prod.ext rfl hrest
    have hslash := Template.ne_backslash hescape
      (Template.ne_nil_of_spanTemplate (by rw [hclosed]; simp))
    rw [List.cons_append, spanTemplate, if_neg hc, ih hclosed]
    · exact fun _ _ h => absurd h hslash
    · intro more hdollar hbrace
      obtain ⟨tail, htail⟩ := exists_cons_of_spanTemplate hclosed hbrace
      exact hopen tail hdollar htail
  | case6 depth c text hescape hopen depth' =>
    rename_i ih
    obtain ⟨rfl, hrest⟩ := Prod.mk.inj h
    have hclosed : spanTemplate depth' text = ((spanTemplate depth' text).1, '`' :: rest) :=
      Prod.ext rfl hrest
    have hslash := Template.ne_backslash hescape
      (Template.ne_nil_of_spanTemplate (by rw [hclosed]; simp))
    rw [List.cons_append, spanTemplate]
    · show (c :: (spanTemplate depth' _).1, (spanTemplate depth' _).2) = _
      rw [ih hclosed]
    · exact fun _ _ h => absurd h hslash
    · intro more hdollar hbrace
      obtain ⟨tail, htail⟩ := exists_cons_of_spanTemplate hclosed hbrace
      exact hopen tail hdollar htail

namespace Lexeme

variable {c d : Char} {text word rest : List Char} {kind : TokenKind}

/-- A literal whose body ends at the same quote, whatever follows, is the same token. -/
theorem enclosed_before {quote : Char} {span : List Char → List Char × List Char}
    {make : String → TokenKind} {unclosed : Fault} {more : List Char}
    (hspan : ∀ inner, span text = (inner, quote :: rest) →
      ∀ after, span (inner ++ quote :: after) = (inner, quote :: after))
    (h : enclosed quote (span text) make unclosed = ⟨quote :: more, rest, .ok kind⟩)
    (after : List Char) :
    enclosed quote (span (more ++ after)) make unclosed = ⟨quote :: more, after, .ok kind⟩ := by
  obtain ⟨inner, hbody, hword, hkind⟩ := enclosed_eq_ok h
  obtain rfl : more = inner ++ [quote] := by simpa using hword
  rw [List.append_assoc, List.singleton_append, hspan inner hbody after, enclosed, if_pos rfl,
    hkind]
  rfl

/-! ### Signs -/

/-- The longest sign is the same one if a character follows that no sign holds. -/
theorem operator_before_blank (hd : isBlank d = true) (after : List Char)
    (h : operator c text = ⟨word, rest, .ok kind⟩) :
    ∃ s ∈ operatorSigns, ∃ more, s.toList = c :: more ∧ word = c :: more
      ∧ operator c (more ++ d :: after) = ⟨word, d :: after, .ok kind⟩ := by
  have hblank : ∀ s ∈ operatorSigns, s.toList ≠ [] ∧ s.toList.any isBlank = false := by decide
  unfold operator at h
  split at h
  · next s hfind =>
    cases h
    have hmem := List.mem_of_find?_eq_some hfind
    obtain ⟨hbegins, front, back, hsigns, hfront⟩ := List.find?_eq_some_iff_append.1 hfind
    have hbegins := List.isPrefixOf_iff_prefix.1 hbegins
    obtain ⟨more, hmore⟩ : ∃ more, s.toList = c :: more := by
      obtain ⟨tail, htail⟩ := hbegins
      obtain ⟨first, more, hs⟩ := List.exists_cons_of_ne_nil (hblank s hmem).1
      rw [hs] at htail
      obtain ⟨rfl, -⟩ := List.cons.inj htail
      exact ⟨more, hs⟩
    have hagain : operatorSigns.find? (·.toList.isPrefixOf (s.toList ++ d :: after)) = some s := by
      refine List.find?_eq_some_iff_append.2
        ⟨List.isPrefixOf_iff_prefix.2 (List.prefix_append _ _), front, back, hsigns, ?_⟩
      intro other hother
      have hnot := hfront other hother
      have hother : other ∈ operatorSigns := by
        rw [hsigns]
        exact List.mem_append_left _ hother
      rw [Bool.not_eq_true', ← Bool.not_eq_true, List.isPrefixOf_iff_prefix] at hnot ⊢
      intro hlonger
      rcases List.prefix_or_prefix_of_prefix hlonger (List.prefix_append s.toList (d :: after))
        with hshort | ⟨tail, htail⟩
      · exact hnot (hshort.trans hbegins)
      · -- a longer sign would go on with the blank
        cases tail with
        | nil =>
          rw [List.append_nil] at htail
          exact hnot (htail ▸ hbegins)
        | cons e tail =>
          rw [← htail, List.prefix_append_right_inj] at hlonger
          obtain ⟨rfl, -⟩ := List.cons_prefix_cons.1 hlonger
          have he : isBlank e = false := Bool.eq_false_iff.2
            (List.any_eq_false.1 (hblank other hother).2 e (by rw [← htail]; simp))
          rw [hd] at he
          cases he
    refine ⟨s, hmem, more, hmore, hmore, ?_⟩
    rw [operator, ← List.cons_append, ← hmore, hagain]
    simp [← String.length_toList]
  · cases h

/-- A sign that is no token of its own is looked up. -/
theorem sign_eq_operator
    (hc : c ∉ ['(', ')', '{', '}', '[', ']', ';', ',', '@', '?', '>', '.', ':'])
    (hnext : text.head? ≠ some '>') : sign c text = operator c text := by
  unfold sign
  split <;> simp_all

theorem sign_before_blank (hd : isBlank d = true) (after : List Char)
    (h : sign c text = ⟨word, rest, .ok kind⟩) :
    ∃ more, word = c :: more ∧ sign c (more ++ d :: after) = ⟨word, d :: after, .ok kind⟩ := by
  have hne : ∀ s : Char, isBlank s = false → d ≠ s := by
    rintro s hs rfl
    rw [hd] at hs
    cases hs
  unfold sign at h
  split at h
  case h_17 =>
    obtain ⟨s, hs, more, hmore, hword, hagain⟩ := operator_before_blank hd after h
    have hfree : ∀ s ∈ operatorSigns, '>' ∉ s.toList ∧ s.toList.head?.all
        (· ∉ ['(', ')', '{', '}', '[', ']', ';', ',', '@', '?', '>', '.', ':']) = true := by decide
    obtain ⟨harrow, hhead⟩ := hfree s hs
    rw [hmore] at harrow hhead
    refine ⟨more, hword, ?_⟩
    rw [sign_eq_operator (of_decide_eq_true hhead), hagain]
    cases more with
    | nil => simpa using hne '>' (by decide)
    | cons e more => simpa using fun he => harrow (by simp [he])
  case h_13 =>
    cases h
    exact ⟨[], rfl, by simp [sign, hne '.' (by decide)]⟩
  case h_15 =>
    cases h
    exact ⟨[], rfl, by simp [sign, hne ':' (by decide)]⟩
  -- the others are found by their own characters
  all_goals
    cases h
    exact ⟨_, rfl, rfl⟩

/-! ### Tokens -/

/-- **A token before a blank.**  The characters of a token, with a blank after them, are scanned as
    that token. -/
theorem scan_before_blank (h : scan text = ⟨word, rest, .ok kind⟩) (hword : word ≠ [])
    (hd : isBlank d = true) (after : List Char) :
    scan (word ++ d :: after) = ⟨word, d :: after, .ok kind⟩ := by
  have hends : EndsWord (d :: after) := by
    rintro _ ⟨⟩
    by_contra hpart
    rw [isBlank_of_isWordPart (Bool.of_not_eq_false hpart)] at hd
    cases hd
  have hpoint : EndsRun (· == '.') (d :: after) := by
    rintro _ ⟨⟩
    rw [beq_eq_false_iff_ne]
    rintro rfl
    cases hd
  have happ := scan_append text
  rw [h] at happ
  obtain ⟨c, more, rfl⟩ := List.exists_cons_of_ne_nil hword
  obtain ⟨text, rfl⟩ : ∃ tail, text = c :: tail := ⟨_, happ.symm⟩
  rw [List.cons_append]
  rw [scan] at h ⊢
  split at h
  · next hstart =>
    simp only [mk.injEq, Except.ok.injEq] at h
    obtain ⟨hwhole, -, rfl⟩ := h
    have hall : (c :: more).all isWordPart = true := by
      rw [← hwhole]
      exact List.all_takeWhile
    obtain ⟨htake, hdrop⟩ := span_run hall hends
    rw [List.cons_append] at htake hdrop
    rw [if_pos hstart, hwhole]
    dsimp only
    rw [htake, hdrop]
  · next hstart =>
    rw [if_neg hstart]
    split at h
    · next hnumber =>
      obtain ⟨-, make, hspells, rfl⟩ := spellsNumber_of_number hnumber h
      have hagain : startsNumber c (more ++ d :: after) = true :=
        startsNumeral_append hspells.startsNumeral (d :: after)
      rw [if_pos hagain]
      exact hspells.number_eq hends hpoint
    · next hnumber =>
      have hagain : ¬startsNumber c (more ++ d :: after) = true := by
        obtain ⟨-, rfl⟩ := List.cons.inj happ
        have hword : ∀ c, isDecimal c = true → isWordPart c = true := fun _ hc =>
          isWordPart_of_isHexPart (isHexPart_of_isDecimalPart (isDecimalPart_of_isDecimal hc))
        have hdigit : isDecimal d = false := EndsRun.mono hends hword d rfl
        cases more <;> simp_all [startsNumber]
      rw [if_neg hagain]
      split at h
      · next hquote =>
        rw [if_pos hquote]
        exact enclosed_before (fun _ => spanQuoted_closed (by rw [hquote]; decide)) h _
      · next hquote =>
        rw [if_neg hquote]
        split at h
        · next hquote =>
          rw [if_pos hquote]
          exact enclosed_before (fun _ => spanQuoted_closed (by rw [hquote]; decide)) h _
        · next hquote =>
          rw [if_neg hquote]
          split at h
          · next hquote =>
            subst hquote
            exact enclosed_before (fun _ => spanTemplate_closed) h _
          · next hquote =>
            rw [if_neg hquote]
            obtain ⟨_, hword, hsign⟩ := sign_before_blank hd after h
            obtain ⟨-, rfl⟩ := List.cons.inj hword
            exact hsign

end Lexeme

/-! ### Gaps -/

namespace Gap

/-- A gap ends before something that is not blank. -/
theorem endsRun_rest (text : List Char) : EndsRun isBlank (scan text).rest := by
  fun_induction scan text with
  | case1 => simp [EndsRun]
  | case2 text ih => exact ih
  | case3 => simp [EndsRun]
  | case4 text hclosed ih => exact ih
  | case5 c text hline hblock hc ih => exact ih
  | case6 c text hline hblock hc =>
    rintro _ ⟨⟩
    exact Bool.of_not_eq_true hc

theorem scan_eq_self {text : List Char} (hblank : EndsRun isBlank text)
    (hcomment : ¬StartsComment text) : scan text = ⟨[], [], text⟩ := by
  unfold scan
  split
  · rfl
  · exact absurd (.inl ⟨_, rfl⟩) hcomment
  · exact absurd (.inr ⟨_, rfl⟩) hcomment
  · next c text _ _ => rw [hblank c rfl, if_neg Bool.false_ne_true]

/-- No gap stands before the characters of a token, also where a blank follows them. -/
theorem scan_before_blank {text trivia word rest : List Char} {d : Char}
    (h : scan text = ⟨trivia, [], word ++ rest⟩) (hword : word ≠ []) (hd : isBlank d = true)
    (after : List Char) : scan (word ++ d :: after) = ⟨[], [], word ++ d :: after⟩ := by
  have hblank := endsRun_rest text
  have hcomment := not_startsComment_rest text (by rw [h])
  rw [h] at hblank hcomment
  cases word with
  | nil => exact absurd rfl hword
  | cons c more =>
    refine scan_eq_self hblank ?_
    cases more with
    | nil =>
      -- a slash before a blank starts no comment
      rintro (⟨tail, htail⟩ | ⟨tail, htail⟩)
      all_goals
        simp only [List.cons_append, List.nil_append, List.cons.injEq] at htail
        obtain ⟨-, rfl, -⟩ := htail
        cases hd
    | cons e more =>
      simpa [StartsComment, List.cons_prefix_cons] using hcomment

end Gap

/-! ### Sources -/

/-- Blanks at the head of a text are not among its tokens. -/
theorem tokenKinds?_blanks {blanks : List Char} (h : ∀ c ∈ blanks, isBlank c = true)
    (text : List Char) : tokenKinds? (blanks ++ text) = tokenKinds? text := by
  induction blanks with
  | nil => rfl
  | cons c blanks ih =>
    obtain ⟨hc, hblanks⟩ := List.forall_mem_cons.1 h
    rw [List.cons_append, tokenKinds?_blank hc, ih hblanks]

/-- The texts of tokens, each with blanks after it. -/
def respaced (texts blanks : List (List Char)) : List Char :=
  (List.zipWith (· ++ ·) texts blanks).flatten

/-- **Runs.**  The tokens of a run, with blanks after each of them, are the tokens of their text. -/
theorem Lexes.tokenKinds?_respaced {offset : Nat} {text : List Char} {tokens : List Token}
    (h : Lexes offset text tokens) {blanks : List (List Char)}
    (hlength : blanks.length + 1 = tokens.length)
    (hblanks : ∀ blank ∈ blanks, blank ≠ [] ∧ ∀ c ∈ blank, isBlank c = true) :
    tokenKinds? (respaced (tokens.map (·.kind.spelling.toList)) blanks)
      = some (tokens.map (·.kind)) := by
  induction h generalizing blanks with
  | mark =>
    obtain rfl : blanks = [] := by simpa using hlength
    exact tokenKinds?_nil
  | @token offset start stop text trivia after rest kind tokens hgap hlexeme hkind _ _ hrest ih =>
    cases blanks with
    | nil =>
      obtain rfl : tokens = [] := by simpa using hlength
      cases hrest
    | cons blank blanks =>
      obtain ⟨⟨hne, hblank⟩, hlater⟩ := List.forall_mem_cons.1 hblanks
      obtain ⟨d, more, rfl⟩ := List.exists_cons_of_ne_nil hne
      have hd : isBlank d = true := hblank d List.mem_cons_self
      have happ := Lexeme.scan_append after
      rw [hlexeme] at happ
      rw [← happ] at hgap
      have hfirst : ∀ later, tokenKinds? (kind.spelling.toList ++ d :: later)
          = (tokenKinds? (d :: later)).map (kind :: ·) := fun later =>
        tokenKinds?_token (Gap.scan_before_blank hgap hkind hd later)
          (Lexeme.scan_before_blank hlexeme hkind hd later) hkind
      rw [respaced, List.map_cons, List.zipWith_cons_cons, List.flatten_cons, List.append_assoc,
        List.cons_append, hfirst, ← List.cons_append, tokenKinds?_blanks hblank]
      exact congrArg _ (ih (by simpa using hlength) hlater)

/-- The tokens of a source are spelled by its characters. -/
theorem Source.textOf_token {source : Source} {tokens : List Token}
    (h : source.tokens = .ok tokens) :
    ∀ token ∈ tokens, source.textOf token.span = token.kind.spelling := by
  have hstream := source.tokens_isTokenStream
  rw [h] at hstream
  obtain ⟨body, rfl, hbody⟩ := hstream
  have htext : ∀ token : Token, source.HasText token.span token.kind.spelling.toList →
      source.textOf token.span = token.kind.spelling := by
    intro token htoken
    rw [textOf, slice?_eq_some htoken, Option.getD_some, String.ofList_toList]
  refine List.forall_mem_append.2 ⟨fun token hmem => ?_, List.forall_mem_singleton.2 ?_⟩
  · exact htext token (hbody.mem token hmem).2.2.hasText
  · exact htext _ ⟨source.chars, [], by simp [TokenKind.spelling], rfl, rfl⟩

/-- **Tokens delimit themselves.**  Take the texts of the tokens of a source, without the blanks and
    comments between them, and put blanks of any choice after each.  The text that results has
    tokens of the same kinds, with the same payloads. -/
theorem Source.tokens_respaced (source : Source) (tokens : List Token)
    (h : source.tokens = .ok tokens) (blanks : List (List Char))
    (hlength : blanks.length + 1 = tokens.length)
    (hblanks : ∀ blank ∈ blanks, blank ≠ [] ∧ ∀ c ∈ blank, isBlank c = true) :
    ∃ others, (Source.mk (respaced (tokens.map fun token => (source.textOf token.span).toList)
        blanks)).tokens = .ok others
      ∧ others.map (·.kind) = tokens.map (·.kind) := by
  have htexts : tokens.map (fun token => (source.textOf token.span).toList)
      = tokens.map (·.kind.spelling.toList) :=
    List.map_congr_left fun token hmem => by rw [textOf_token h token hmem]
  have hkinds := (lexes_of_tokensFrom h).tokenKinds?_respaced hlength hblanks
  rw [htexts]
  generalize respaced (tokens.map (·.kind.spelling.toList)) blanks = text at hkinds
  show ∃ others, tokensFrom 0 text = .ok others ∧ _
  rw [tokenKinds?] at hkinds
  cases htokens : tokensFrom 0 text with
  | error error =>
    rw [htokens] at hkinds
    cases hkinds
  | ok others =>
    rw [htokens] at hkinds
    exact ⟨others, rfl, Option.some.inj hkinds⟩

/-- A number before a point and a name, a point before a number with a point, a number that ends
    with its point: each needs its neighbour to be read as it is, or a blank. -/
theorem tokens_respaced_points :
    ∃ others, (Source.ofText "1 .\na\u2003.  .2\t-> 1. ; ").tokens = .ok others
      ∧ others.map (·.kind) = [.integer "1", .dot, .identifier "a", .dot, .floating ".2", .arrow,
        .floating "1.", .semicolon, .eof] := by
  have htokens : (Source.ofText "1.a..2->1.;").tokens = .ok
      [⟨.integer "1", ⟨0, 1⟩⟩, ⟨.dot, ⟨1, 2⟩⟩, ⟨.identifier "a", ⟨2, 3⟩⟩, ⟨.dot, ⟨3, 4⟩⟩,
        ⟨.floating ".2", ⟨4, 6⟩⟩, ⟨.arrow, ⟨6, 8⟩⟩, ⟨.floating "1.", ⟨8, 10⟩⟩,
        ⟨.semicolon, ⟨10, 11⟩⟩, ⟨.eof, ⟨11, 11⟩⟩] := by decide +kernel
  have hblanks : [[' '], ['\n'], ['\u2003'], [' ', ' '], ['\t'], [' '], [' '], [' ']].all
      (fun blank => !blank.isEmpty && blank.all isBlank) = true := by decide
  exact Source.tokens_respaced _ _ htokens _ rfl fun blank hblank => by
    simpa using List.all_eq_true.1 hblanks blank hblank

end CodeMarkup
