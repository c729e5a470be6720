import CodeMarkup.Comment
import CodeMarkup.Proofs.Lexing.Layout

namespace CodeMarkup

/-!
# Comments between tokens

Tokens and comments are found by separate passes over a text.  Where the first pass succeeds, the
two see the same comments.

* `isPlain`: characters over which the search for comments passes one by one.
* `Lexeme.commentsFrom_eq`: the search passes over a token as a whole.
* `Source.IsFilledBy`: a span that holds blanks and comments only.
* `IsTrivia.findsAll`: in a gap the search finds all there is but blanks.
* `Source.comments_fill_gaps`: the comments of a source are what fills the gaps between its tokens.
-/

/-! ### Plain characters -/

/-- A character that opens neither a literal nor a comment. -/
def isPlain (c : Char) : Bool :=
  !(['`', '"', '\'', '/'].contains c)

/-- A class of characters is plain if it has none of the characters that open something. -/
theorem isPlain_of_class {f : Char → Bool} {c : Char} (h : f c = true)
    (hf : ['`', '"', '\'', '/'].any f = false) : isPlain c = true := by
  by_contra hc
  simp only [isPlain, Bool.not_eq_true, Bool.not_eq_false', List.contains_iff_mem] at hc
  have hany : ['`', '"', '\'', '/'].any f = true := List.any_eq_true.2 ⟨c, hc, h⟩
  rw [hf] at hany
  cases hany

theorem isPlain_of_isBlank {c : Char} (h : isBlank c = true) : isPlain c = true :=
  isPlain_of_class h (by decide)

theorem isPlain_of_isWordPart {c : Char} (h : isWordPart c = true) : isPlain c = true :=
  isPlain_of_class h (by decide)

/-- Two slashes, or a slash and a star, at the head of a text. -/
def StartsComment (text : List Char) : Prop :=
  ['/', '/'] <+: text ∨ ['/', '*'] <+: text

namespace Stretch

theorem scan_plain {c : Char} (h : isPlain c = true) (text : List Char) :
    scan c text = .code [c] text := by
  unfold scan
  split
  case h_8 => rfl
  -- the other branches are for characters that open something
  all_goals exact absurd h (by decide)

/-- A slash that opens no comment is a character like others. -/
theorem scan_slash {text : List Char} (h : ¬ StartsComment ('/' :: text)) :
    scan '/' text = .code ['/'] text := by
  cases text with
  | nil => rfl
  | cons d text =>
    have hline : d ≠ '/' := by
      rintro rfl
      exact h (.inl ⟨text, rfl⟩)
    have hblock : d ≠ '*' := by
      rintro rfl
      exact h (.inr ⟨text, rfl⟩)
    unfold scan
    split <;> simp_all

end Stretch

namespace Source

variable {source : Source} {offset : Nat}

theorem commentsFrom_code {c : Char} {text taken rest : List Char}
    (h : Stretch.scan c text = .code taken rest) :
    source.commentsFrom offset (c :: text)
      = source.commentsFrom (offset + byteLength taken) rest := by
  rw [commentsFrom]
  simp only [h, Stretch.text, Stretch.rest]

theorem commentsFrom_comment {c : Char} {kind : CommentKind}
    {text opening content closing rest : List Char} {stop : Nat}
    (h : Stretch.scan c text = .comment kind opening content closing rest)
    (hstop : stop = offset + byteLength (opening ++ content ++ closing)) :
    source.commentsFrom offset (c :: text)
      = ⟨kind, String.ofList content, ⟨offset, stop⟩, source.extent ⟨offset, stop⟩⟩
        :: source.commentsFrom stop rest := by
  subst hstop
  rw [commentsFrom]
  simp only [h, Stretch.text, Stretch.rest]

/-- The search passes over plain characters. -/
theorem commentsFrom_plain {text : List Char} (h : ∀ c ∈ text, isPlain c = true)
    (rest : List Char) :
    source.commentsFrom offset (text ++ rest)
      = source.commentsFrom (offset + byteLength text) rest := by
  induction text generalizing offset with
  | nil => rfl
  | cons c text ih =>
    have hc : isPlain c = true := h c (by simp)
    have htext : ∀ d ∈ text, isPlain d = true := fun d hd => h d (by simp [hd])
    rw [List.cons_append, commentsFrom_code (Stretch.scan_plain hc _), ih htext]
    simp [byteLength, Nat.add_assoc]

end Source

/-! ### Tokens -/

namespace Lexeme

/-- After its digits a numeral has letters only: a suffix, or a word that runs into it. -/
theorem mem_ofDigits {digits rest : List Char} {isFloating : Bool} {c : Char}
    (hc : c ∈ (ofDigits digits rest isFloating).text) : c ∈ digits ∨ isWordPart c = true := by
  revert hc
  unfold ofDigits
  split
  next body rest' make hbody =>
    have hsuffix : c ∈ body → c ∈ digits ∨ isWordPart c = true := by
      revert hbody
      cases rest with
      | nil =>
        simp only [Prod.mk.injEq]
        rintro ⟨rfl, -, -⟩ hc
        exact .inl hc
      | cons d after =>
        dsimp only
        have hadd : isWordPart d = true → c ∈ digits ++ [d] →
            c ∈ digits ∨ isWordPart c = true := by
          intro hd hc
          rcases List.mem_append.1 hc with hc | hc
          · exact .inl hc
          · exact .inr (List.mem_singleton.1 hc ▸ hd)
        split
        next hd =>
          simp only [Prod.mk.injEq]
          rintro ⟨rfl, -, -⟩
          apply hadd
          simp only [Bool.and_eq_true, Bool.or_eq_true, beq_iff_eq] at hd
          rcases hd.1 with rfl | rfl <;> decide
        next =>
          split
          next hd =>
            simp only [Prod.mk.injEq]
            rintro ⟨rfl, -, -⟩
            apply hadd
            simp only [Bool.or_eq_true, beq_iff_eq] at hd
            rcases hd with ((rfl | rfl) | rfl) | rfl <;> decide
          next =>
            simp only [Prod.mk.injEq]
            rintro ⟨rfl, -, -⟩ hc
            exact .inl hc
    split
    · exact hsuffix
    · intro hc
      rcases List.mem_append.1 hc with hc | hc
      · exact hsuffix hc
      · exact .inr (List.mem_takeWhile_imp hc)

theorem ofDigits_plain {digits : List Char} (h : ∀ c ∈ digits, isPlain c = true)
    (rest : List Char) (isFloating : Bool) :
    ∀ c ∈ (ofDigits digits rest isFloating).text, isPlain c = true := by
  intro c hc
  rcases mem_ofDigits hc with hc | hc
  · exact h c hc
  · exact isPlain_of_isWordPart hc

theorem spanFraction_plain (text : List Char) :
    ∀ c ∈ (spanFraction text).1, isPlain c = true := by
  intro c hc
  have hdigit : isDecimalPart c = true → isPlain c = true := fun h => isPlain_of_class h (by decide)
  revert hc
  fun_cases spanFraction text with
  | case1 d text hd =>
    intro hc
    rcases List.mem_cons.1 hc with rfl | hc
    · decide
    · exact hdigit (List.mem_takeWhile_imp hc)
  | case2 => simp
  | case3 =>
    intro hc
    rw [List.mem_singleton.1 hc]
    decide
  | case4 =>
    intro hc
    rw [List.mem_singleton.1 hc]
    decide
  | case5 => simp

theorem spanExponentMark_plain (text : List Char) :
    ∀ c ∈ (spanExponentMark text).1, isPlain c = true := by
  have hmark : ∀ e : Char, (e == 'e' || e == 'E') = true → isPlain e = true := by
    intro e he
    simp only [Bool.or_eq_true, beq_iff_eq] at he
    rcases he with rfl | rfl <;> decide
  have hsign : ∀ s : Char, (s == '+' || s == '-') = true → isPlain s = true := by
    intro s hs
    simp only [Bool.or_eq_true, beq_iff_eq] at hs
    rcases hs with rfl | rfl <;> decide
  fun_cases spanExponentMark text with
  | case1 e he s text hs => simp [hmark e he, hsign s hs]
  | case2 e he s text hs => simp [hmark e he]
  | case3 e he => simp [hmark e he]
  | case4 => simp
  | case5 => simp

theorem decimal_plain (text : List Char) : ∀ c ∈ (decimal text).text, isPlain c = true := by
  have hdigit : ∀ c, isDecimal c = true → isPlain c = true :=
    fun c h => isPlain_of_class h (by decide)
  have hpart : ∀ c, isDecimalPart c = true → isPlain c = true :=
    fun c h => isPlain_of_class h (by decide)
  have hwhole : ∀ c ∈ text.takeWhile isDecimalPart, isPlain c = true :=
    fun c hc => hpart c (List.mem_takeWhile_imp hc)
  have hfraction := spanFraction_plain (text.dropWhile isDecimalPart)
  have hmark := spanExponentMark_plain (spanFraction (text.dropWhile isDecimalPart)).2
  have hdigits : ∀ rest : List Char, ∀ c ∈ rest.takeWhile isDecimal, isPlain c = true :=
    fun rest c hc => hdigit c (List.mem_takeWhile_imp hc)
  unfold decimal
  dsimp only
  split
  · apply ofDigits_plain
    intro c hc
    simp only [List.mem_append] at hc
    grind
  · split
    · intro c hc
      simp only [List.mem_append] at hc
      grind
    · apply ofDigits_plain
      intro c hc
      simp only [List.mem_append] at hc
      grind

theorem number_plain (text : List Char) : ∀ c ∈ (number text).text, isPlain c = true := by
  unfold number
  split
  · split
    next mark rest hmark =>
      apply ofDigits_plain
      intro c hc
      simp only [List.mem_cons] at hc
      rcases hc with rfl | rfl | hc
      · decide
      · exact isPlain_of_class hmark (by decide)
      · exact isPlain_of_class (List.mem_takeWhile_imp hc) (by decide)
    next => exact decimal_plain _
  · exact decimal_plain _

/-- A closed literal is the same text for both passes. -/
theorem literal_of_enclosed {quote : Char} {body : List Char × List Char}
    {make : String → TokenKind} {unclosed : Fault} {taken rest : List Char} {kind : TokenKind}
    (h : enclosed quote body make unclosed = ⟨taken, rest, .ok kind⟩) :
    Stretch.literal quote body = .code taken rest := by
  obtain ⟨inner, rfl, rfl, -⟩ := enclosed_eq_ok h
  rfl

/-- The form of a token without quotes: plain characters, after one that may be a slash. -/
def isCode : List Char → Bool
  | [] => false
  | c :: more => (isPlain c || c == '/') && more.all isPlain

theorem isCode_of_plain {text : List Char} (hpos : 0 < text.length)
    (h : ∀ c ∈ text, isPlain c = true) : isCode text = true := by
  cases text with
  | nil => exact absurd hpos (Nat.lt_irrefl _)
  | cons c more =>
    have hc := h c (by simp)
    have hmore : more.all isPlain = true := List.all_eq_true.2 fun d hd => h d (by simp [hd])
    simp [isCode, hc, hmore]

theorem sign_isCode {c : Char} {text taken rest : List Char} {kind : TokenKind}
    (h : sign c text = ⟨taken, rest, .ok kind⟩) : isCode taken = true := by
  have hoperator : ∀ s ∈ operatorSigns, isCode s.toList = true := by decide
  unfold sign at h
  split at h
  case h_17 =>
    unfold operator at h
    split at h
    next s hs =>
      cases h
      exact hoperator s (List.mem_of_find?_eq_some hs)
    next => cases h
  -- the other branches are for signs of one fixed spelling
  all_goals
    cases h
    decide

theorem commentsFrom_of_isCode {source : Source} {offset : Nat} {text rest : List Char}
    (h : isCode text = true) (hstart : ¬ StartsComment (text ++ rest)) :
    source.commentsFrom offset (text ++ rest)
      = source.commentsFrom (offset + byteLength text) rest := by
  cases text with
  | nil => cases h
  | cons c more =>
    simp only [isCode, Bool.and_eq_true, Bool.or_eq_true, beq_iff_eq, List.all_eq_true] at h
    obtain ⟨hc, hmore⟩ := h
    have hscan : Stretch.scan c (more ++ rest) = .code [c] (more ++ rest) := by
      rcases hc with hc | rfl
      · exact Stretch.scan_plain hc _
      · exact Stretch.scan_slash hstart
    rw [List.cons_append, Source.commentsFrom_code hscan, Source.commentsFrom_plain hmore]
    simp [byteLength, Nat.add_assoc]

/-- **Tokens hide no comment.**  The search for comments passes over a token as a whole, if no
    comment starts where the token does. -/
theorem commentsFrom_eq {source : Source} {offset : Nat} {text taken rest : List Char}
    {kind : TokenKind} (h : scan text = ⟨taken, rest, .ok kind⟩) (hne : taken ≠ [])
    (hstart : ¬ StartsComment text) :
    source.commentsFrom offset text = source.commentsFrom (offset + byteLength taken) rest := by
  cases text with
  | nil =>
    cases h
    exact absurd rfl hne
  | cons c text =>
    have happ := scan_append (c :: text)
    rw [h] at happ
    dsimp only at happ
    -- tokens without quotes are code; the others are literals for both passes
    have hcode : isCode taken = true →
        source.commentsFrom offset (c :: text)
          = source.commentsFrom (offset + byteLength taken) rest := by
      intro hcode
      rw [← happ] at hstart ⊢
      exact commentsFrom_of_isCode hcode hstart
    have hliteral : Stretch.scan c text = .code taken rest →
        source.commentsFrom offset (c :: text)
          = source.commentsFrom (offset + byteLength taken) rest :=
      Source.commentsFrom_code
    have hpos : 0 < taken.length := List.length_pos_iff.2 hne
    simp only [scan] at h
    split at h
    next =>
      cases h
      exact hcode (isCode_of_plain hpos fun d hd =>
        isPlain_of_isWordPart (List.mem_takeWhile_imp hd))
    next =>
      split at h
      next =>
        have hplain := number_plain (c :: text)
        rw [h] at hplain
        exact hcode (isCode_of_plain hpos hplain)
      next =>
        split at h
        next hc =>
          subst hc
          exact hliteral (literal_of_enclosed h)
        next =>
          split at h
          next hc =>
            subst hc
            exact hliteral (literal_of_enclosed h)
          next =>
            split at h
            next hc =>
              subst hc
              exact hliteral (literal_of_enclosed h)
            next => exact hcode (sign_isCode h)

end Lexeme

/-! ### Gaps -/

/-- A gap ends where no comment starts. -/
theorem Gap.not_startsComment_rest (text : List Char) (h : (scan text).unclosed = []) :
    ¬ StartsComment (scan text).rest := by
  fun_induction scan text with
  | case1 => simp [StartsComment]
  | case2 text ih => exact ih h
  | case3 text hopen => simp at h
  | case4 text hclosed ih => exact ih h
  | case5 c text hline hblock hc ih => exact ih h
  | case6 c text hline hblock hc =>
    rintro (⟨more, hmore⟩ | ⟨more, hmore⟩)
    · simp only [List.cons_append, List.cons.injEq] at hmore
      exact hline _ hmore.1.symm hmore.2.symm
    · simp only [List.cons_append, List.cons.injEq] at hmore
      exact hblock _ hmore.1.symm hmore.2.symm

namespace CommentKind

/-- The characters that open a comment. -/
def opening : CommentKind → List Char
  | .line => ['/', '/']
  | .block => ['/', '*']
  | .doc => ['/', '*', '*']

/-- The characters that close a comment. -/
def closing : CommentKind → List Char
  | .line => []
  | .block | .doc => ['*', '/']

/-- What may stand between them: a line comment ends with its line, the others with the first
    `*/`. -/
def Admits : CommentKind → List Char → Prop
  | .line, content => '\n' ∉ content ∧ '\r' ∉ content
  | .block, content | .doc, content => ¬ ['*', '/'] <:+: content

end CommentKind

/-- A closed comment that stands in a source where its span says. -/
structure Comment.IsPlaced (source : Source) (comment : Comment) : Prop where
  hasText : source.HasText comment.span
    (comment.kind.opening ++ comment.content.toList ++ comment.kind.closing)
  admits : comment.kind.Admits comment.content.toList

/-- A span that holds nothing but blanks and the given comments, which stand in it one after
    another. -/
inductive Source.IsFilledBy (source : Source) : Span → List Comment → Prop where
  | nil (offset : Nat) : source.IsFilledBy (.point offset) []
  | blank {start stop : Nat} {c : Char} {comments : List Comment} (hc : isBlank c = true)
      (htext : source.HasText ⟨start, start + byteLength [c]⟩ [c])
      (hmore : source.IsFilledBy ⟨start + byteLength [c], stop⟩ comments) :
      source.IsFilledBy ⟨start, stop⟩ comments
  | comment {start stop : Nat} {comment : Comment} {comments : List Comment}
      (hstart : comment.span.start = start) (hplaced : comment.IsPlaced source)
      (hmore : source.IsFilledBy ⟨comment.span.stop, stop⟩ comments) :
      source.IsFilledBy ⟨start, stop⟩ (comment :: comments)

/-- Whether every carriage return stands before a line feed. -/
def returnsPaired : List Char → Bool
  | [] => true
  | c :: text => (c != '\r' || text.head? == some '\n') && returnsPaired text

theorem returnsPaired_of_append (front : List Char) {back : List Char}
    (h : returnsPaired (front ++ back) = true) : returnsPaired back = true := by
  induction front with
  | nil => exact h
  | cons c front ih =>
    rw [List.cons_append, returnsPaired, Bool.and_eq_true] at h
    exact ih h.2

/-- A line holds no carriage return but one at its end. -/
theorem eq_or_eq_concat_return {content rest : List Char} (hcontent : '\n' ∉ content)
    (h : returnsPaired (content ++ rest) = true) :
    ∃ body, '\r' ∉ body ∧ (content = body ∨ content = body ++ ['\r']) := by
  induction content with
  | nil => exact ⟨[], by simp, .inl rfl⟩
  | cons c content ih =>
    rw [List.mem_cons, not_or] at hcontent
    rw [List.cons_append, returnsPaired, Bool.and_eq_true] at h
    by_cases hc : c = '\r'
    · -- the line feed after it does not belong to the line
      have hnil : content = [] := by
        cases content with
        | nil => rfl
        | cons d content =>
          have hd : d = '\n' := by simpa [hc] using h.1
          exact absurd (by simp [hd]) hcontent.2
      exact ⟨[], by simp, .inr (by simp [hc, hnil])⟩
    · obtain ⟨body, hbody, hends⟩ := ih hcontent.2 h.2
      have hmem : '\r' ∉ c :: body := by
        rw [List.mem_cons, not_or]
        exact ⟨fun heq => hc heq.symm, hbody⟩
      rcases hends with rfl | rfl
      · exact ⟨c :: content, hmem, .inl rfl⟩
      · exact ⟨c :: body, hmem, .inr rfl⟩

/-- A text without `*/` is the body of the comment that it is closed in. -/
theorem spanBlock_of_not_infix {content : List Char} (h : ¬ ['*', '/'] <:+: content)
    (rest : List Char) :
    spanBlock (content ++ '*' :: '/' :: rest) = (content, '*' :: '/' :: rest) := by
  induction content with
  | nil => rfl
  | cons c content ih =>
    have hcontent : ¬ ['*', '/'] <:+: content :=
      fun hinfix => h (List.infix_cons_iff.2 (.inr hinfix))
    have hopen : ∀ text, c = '*' → content ++ '*' :: '/' :: rest = '/' :: text → False := by
      rintro text rfl htext
      cases content with
      | nil => simp at htext
      | cons d content =>
        simp only [List.cons_append, List.cons.injEq] at htext
        exact h ⟨[], content, by simp [htext.1]⟩
    rw [List.cons_append, spanBlock.eq_3 _ _ hopen, ih hcontent]

/-- A closed comment between `/*` and `*/`, as the search for comments finds it. -/
theorem Stretch.scan_block {content : List Char} (h : ¬ ['*', '/'] <:+: content)
    (rest : List Char) :
    ∃ kind inner, scan '/' ('*' :: (content ++ '*' :: '/' :: rest))
        = .comment kind kind.opening inner kind.closing rest
      ∧ kind.opening ++ inner ++ kind.closing = '/' :: '*' :: (content ++ ['*', '/'])
      ∧ kind.Admits inner := by
  have hspan := spanBlock_of_not_infix h rest
  cases content with
  | nil => exact ⟨.block, [], rfl, rfl, h⟩
  | cons c content =>
    by_cases hc : c = '*'
    · subst hc
      -- another star opens a documentation comment, and no slash can follow it
      have hcontent : ¬ ['*', '/'] <:+: content :=
        fun hinfix => h (List.infix_cons_iff.2 (.inr hinfix))
      have hspan' := spanBlock_of_not_infix hcontent rest
      refine ⟨.doc, content, ?_, rfl, hcontent⟩
      cases content with
      | nil => rfl
      | cons d content =>
        have hd : d ≠ '/' := by
          rintro rfl
          exact h ⟨[], content, rfl⟩
        have hscan : scan '/' ('*' :: ('*' :: d :: content ++ '*' :: '/' :: rest))
            = blockComment .doc ['/', '*', '*'] (d :: content ++ '*' :: '/' :: rest) := by
          simp [scan, hd]
        rw [hscan, blockComment, hspan']
        rfl
    · have hscan : scan '/' ('*' :: (c :: content ++ '*' :: '/' :: rest))
          = blockComment .block ['/', '*'] (c :: content ++ '*' :: '/' :: rest) := by
        simp [scan, hc]
      refine ⟨.block, c :: content, ?_, rfl, h⟩
      rw [hscan, blockComment, hspan]
      rfl

/-- A line comment, as the search for comments finds it. -/
theorem Stretch.scan_line {content rest : List Char} (h : CommentKind.line.Admits content)
    (hend : ∀ c ∈ rest.head?, endsLine c = true) :
    scan '/' ('/' :: (content ++ rest)) = .comment .line ['/', '/'] content [] rest := by
  have hcontent : ∀ c ∈ content, (!endsLine c) = true := by
    intro c hc
    have hfeed : c ≠ '\n' := by
      rintro rfl
      exact h.1 hc
    have hreturn : c ≠ '\r' := by
      rintro rfl
      exact h.2 hc
    simp [endsLine, hfeed, hreturn]
  have hrest : rest.takeWhile (!endsLine ·) = [] ∧ rest.dropWhile (!endsLine ·) = rest := by
    cases rest with
    | nil => exact ⟨rfl, rfl⟩
    | cons c rest =>
      have hc : endsLine c = true := hend c rfl
      simp [hc]
  simp only [scan, List.takeWhile_append_of_pos hcontent, List.dropWhile_append_of_pos hcontent,
    hrest, List.append_nil]

/-- From an offset on, the search finds in a gap all there is but blanks, and goes on after it. -/
def Source.FindsAll (source : Source) (offset : Nat) (gap after : List Char) : Prop :=
  ∃ found, source.IsFilledBy ⟨offset, offset + byteLength gap⟩ found
    ∧ source.commentsFrom offset (gap ++ after)
      = found ++ source.commentsFrom (offset + byteLength gap) after

namespace Source.FindsAll

variable {source : Source} {offset stop : Nat} {more after : List Char}

theorem blank {c : Char} (hc : isBlank c = true)
    (htext : source.HasText ⟨offset, stop⟩ ([c] ++ (more ++ after)))
    (hmore : source.FindsAll (offset + byteLength [c]) more after) :
    source.FindsAll offset ([c] ++ more) after := by
  obtain ⟨found, hfilled, heq⟩ := hmore
  have hcode := Stretch.scan_plain (isPlain_of_isBlank hc) (more ++ after)
  unfold FindsAll
  rw [byteLength_append, ← Nat.add_assoc, List.append_assoc]
  refine ⟨found, .blank hc htext.split.1 hfilled, ?_⟩
  rw [List.singleton_append, commentsFrom_code hcode, heq]

theorem comment {kind : CommentKind} {c : Char} {text written inner : List Char}
    (hscan : Stretch.scan c text = .comment kind kind.opening inner kind.closing (more ++ after))
    (hwritten : kind.opening ++ inner ++ kind.closing = written)
    (happ : written ++ (more ++ after) = c :: text) (hadmits : kind.Admits inner)
    (htext : source.HasText ⟨offset, stop⟩ (written ++ (more ++ after)))
    (hmore : source.FindsAll (offset + byteLength written) more after) :
    source.FindsAll offset (written ++ more) after := by
  obtain ⟨found, hfilled, heq⟩ := hmore
  have hfirst : source.commentsFrom offset (c :: text) = _ :: _ :=
    commentsFrom_comment hscan (congrArg (offset + byteLength ·) hwritten.symm)
  unfold FindsAll
  rw [byteLength_append, ← Nat.add_assoc, List.append_assoc, happ, hfirst, heq]
  refine ⟨_, .comment rfl ⟨?_, ?_⟩ hfilled, rfl⟩
  · simpa [hwritten] using htext.split.1
  · simpa using hadmits

end Source.FindsAll

/-- **Gaps hide no comment.**  In blanks and comments the search finds all comments there are, if
    carriage returns stand before line feeds only. -/
theorem IsTrivia.findsAll {source : Source} {after gap : List Char} (h : IsTrivia after gap)
    {offset stop : Nat} (htext : source.HasText ⟨offset, stop⟩ (gap ++ after))
    (hreturns : returnsPaired (gap ++ after) = true) : source.FindsAll offset gap after := by
  induction h generalizing offset with
  | nil => exact ⟨[], .nil offset, rfl⟩
  | @blank c more hc hmore ih =>
    have htext' : source.HasText ⟨offset, stop⟩ ([c] ++ (more ++ after)) := htext
    exact .blank hc htext' (ih htext'.split.2 (returnsPaired_of_append [c] hreturns))
  | @line content more hcontent hend hmore ih =>
    have hline : returnsPaired (content ++ (more ++ after)) = true := by
      have happ : '/' :: '/' :: (content ++ more) ++ after
          = ['/', '/'] ++ (content ++ (more ++ after)) := by simp
      rw [happ] at hreturns
      exact returnsPaired_of_append _ hreturns
    obtain ⟨body, hbody, hends⟩ := eq_or_eq_concat_return hcontent hline
    have hstops : ∀ c ∈ (more ++ after).head?, Stretch.endsLine c = true := by
      intro c hc
      rw [hend c hc]
      rfl
    rcases hends with rfl | rfl
    · -- the comment reaches to the line feed for both passes
      have happ : '/' :: '/' :: (content ++ more) ++ after
          = '/' :: '/' :: content ++ (more ++ after) := by simp
      rw [happ] at htext
      have hmore' := ih htext.split.2 (returnsPaired_of_append _ hline)
      have hadmits : CommentKind.line.Admits content := ⟨hcontent, hbody⟩
      exact .comment (Stretch.scan_line hadmits hstops) (List.append_nil _) rfl hadmits htext hmore'
    · -- the carriage return at its end is a blank for the search, and part of the gap as well
      have hfeed : '\n' ∉ body := fun hmem => hcontent (List.mem_append_left _ hmem)
      have hadmits : CommentKind.line.Admits body := ⟨hfeed, hbody⟩
      have happ : '/' :: '/' :: (body ++ ['\r'] ++ more) ++ after
          = '/' :: '/' :: body ++ (['\r'] ++ more ++ after) := by simp
      rw [happ] at htext
      have hback := htext.split.2
      rw [List.append_assoc] at hback
      have hmore' := ih hback.split.2 (returnsPaired_of_append _ hline)
      have hblank := Source.FindsAll.blank (by decide) hback hmore'
      have hscan : Stretch.scan '/' ('/' :: (body ++ (['\r'] ++ more ++ after)))
          = .comment .line ['/', '/'] body [] (['\r'] ++ more ++ after) :=
        Stretch.scan_line hadmits (by simp [Stretch.endsLine])
      have hwritten : ['/', '/'] ++ body ++ [] = '/' :: '/' :: body := List.append_nil _
      have hfound := Source.FindsAll.comment hscan hwritten rfl hadmits htext hblank
      simpa using hfound
  | @block content more hcontent hmore ih =>
    obtain ⟨kind, inner, hscan, hwritten, hadmits⟩ := Stretch.scan_block hcontent (more ++ after)
    have happ : '/' :: '*' :: (content ++ '*' :: '/' :: more)
        = '/' :: '*' :: (content ++ ['*', '/']) ++ more := by simp
    rw [happ] at hreturns ⊢
    rw [happ, List.append_assoc] at htext
    rw [List.append_assoc] at hreturns
    exact .comment hscan hwritten (by simp) hadmits htext
      (ih htext.split.2 (returnsPaired_of_append _ hreturns))

/-! ### Whole texts -/

/-- **The two passes agree.**  Along a run over a text, the comments found are those that fill its
    gaps. -/
theorem Lexes.findsAll {source : Source} {offset stop : Nat} {text : List Char}
    {tokens : List Token} (h : Lexes offset text tokens)
    (htext : source.HasText ⟨offset, stop⟩ text) (hreturns : returnsPaired text = true) :
    ∃ parts, List.Forall₂ source.IsFilledBy (gapsBefore offset tokens) parts
      ∧ parts.flatten = source.commentsFrom offset text := by
  induction h with
  | @mark offset text trivia hgap =>
    obtain ⟨rfl, htrivia⟩ := Gap.scan_closed hgap
    obtain ⟨found, hfilled, heq⟩ := htrivia.findsAll htext hreturns
    refine ⟨[found], .cons hfilled .nil, ?_⟩
    rw [heq, Source.commentsFrom]
    simp
  | @token offset start' stop' text trivia after rest kind tokens hgap hlexeme hne hstart hstop
      hrest ih =>
    have hcomment := Gap.not_startsComment_rest text (by rw [hgap])
    have hspelled := Lexeme.scan_append after
    rw [hgap] at hcomment
    rw [hlexeme] at hspelled
    dsimp only at hcomment hspelled
    obtain ⟨rfl, htrivia⟩ := Gap.scan_closed hgap
    obtain ⟨found, hfilled, heq⟩ := htrivia.findsAll htext hreturns
    have hafter := htext.split.2
    have hpaired := returnsPaired_of_append _ hreturns
    rw [← hspelled] at hafter hpaired
    -- the search goes on after the token, where the run does
    have hback := hafter.split.2
    rw [← hstart, ← hstop] at hback
    obtain ⟨parts, hparts, hflatten⟩ := ih hback (returnsPaired_of_append _ hpaired)
    refine ⟨found :: parts, .cons (hstart ▸ hfilled) hparts, ?_⟩
    rw [heq, Lexeme.commentsFrom_eq hlexeme hne hcomment, ← hstart, ← hstop, ← hflatten,
      List.flatten_cons]

theorem Source.IsFilledBy.contains {source : Source} {span : Span} {comments : List Comment}
    (h : source.IsFilledBy span comments) :
    span.start ≤ span.stop ∧ ∀ comment ∈ comments, span.contains comment.span = true := by
  induction h with
  | nil offset => simp [Span.point]
  | blank hc htext hmore ih =>
    have hle := htext.hasSpan.start_le
    simp only [Span.contains, Bool.and_eq_true, decide_eq_true_eq] at ih hle ⊢
    refine ⟨by omega, fun comment hmem => ?_⟩
    have := ih.2 comment hmem
    omega
  | @comment start stop first comments hstart hplaced hmore ih =>
    have hle := hplaced.hasText.hasSpan.start_le
    simp only [Span.contains, Bool.and_eq_true, decide_eq_true_eq] at ih ⊢
    refine ⟨by omega, fun comment hmem => ?_⟩
    rcases List.mem_cons.1 hmem with rfl | hmem
    · omega
    · have := ih.2 comment hmem
      omega

/-- A gap between tokens in order overlaps none of them. -/
theorem gapsBefore_apart {lo : Nat} {tokens : List Token}
    (hlo : ∀ token ∈ tokens, lo ≤ token.span.start)
    (hspan : ∀ token ∈ tokens, token.span.start ≤ token.span.stop)
    (h : tokens.Pairwise fun a b => a.span.stop ≤ b.span.start) :
    ∀ gap ∈ gapsBefore lo tokens, lo ≤ gap.start
      ∧ ∀ token ∈ tokens, gap.stop ≤ token.span.start ∨ token.span.stop ≤ gap.start := by
  induction tokens generalizing lo with
  | nil => simp [gapsBefore]
  | cons first tokens ih =>
    rw [List.pairwise_cons] at h
    have hfirst := hspan first (by simp)
    have hstart := hlo first (by simp)
    have hothers := ih h.1 (fun token hmem => hspan token (by simp [hmem])) h.2
    intro gap hgap
    rcases List.mem_cons.1 hgap with rfl | hgap
    · refine ⟨Nat.le_refl _, fun token hmem => .inl ?_⟩
      rcases List.mem_cons.1 hmem with rfl | hmem
      · exact Nat.le_refl _
      · exact Nat.le_trans hfirst (h.1 token hmem)
    · obtain ⟨hle, hapart⟩ := hothers gap hgap
      refine ⟨by omega, fun token hmem => ?_⟩
      rcases List.mem_cons.1 hmem with rfl | hmem
      · exact .inr hle
      · exact hapart token hmem

/-- A comment that fills gaps stands in one of them. -/
theorem exists_gap_of_mem {source : Source} {gaps : List Span} {parts : List (List Comment)}
    (h : List.Forall₂ source.IsFilledBy gaps parts) {comment : Comment}
    (hmem : comment ∈ parts.flatten) : ∃ gap ∈ gaps, gap.contains comment.span = true := by
  induction h with
  | nil => simp at hmem
  | @cons gap part gaps parts hfilled _ ih =>
    rw [List.flatten_cons, List.mem_append] at hmem
    rcases hmem with hmem | hmem
    · exact ⟨gap, by simp, hfilled.contains.2 comment hmem⟩
    · obtain ⟨other, hother, hinside⟩ := ih hmem
      exact ⟨other, by simp [hother], hinside⟩

/-- **Comments are what stands between tokens.**  If a source has tokens, and carriage returns
    before line feeds only, then the gaps before its tokens hold nothing but blanks and the comments
    of the source, in order; each comment lies in one of the gaps and overlaps no token. -/
theorem Source.comments_fill_gaps (source : Source) (tokens : List Token)
    (hreturns : returnsPaired source.chars = true) (h : source.tokens = .ok tokens) :
    (∃ parts, List.Forall₂ source.IsFilledBy (gapsBefore 0 tokens) parts
      ∧ parts.flatten = source.comments)
    ∧ ∀ comment ∈ source.comments,
      (∃ gap ∈ gapsBefore 0 tokens, gap.contains comment.span = true)
      ∧ ∀ token ∈ tokens,
        comment.span.stop ≤ token.span.start ∨ token.span.stop ≤ comment.span.start := by
  have htext := source.hasText_chars
  have hlexes : Lexes 0 source.chars tokens := lexes_of_tokensFrom h
  have hstream : IsTokenStream source ⟨0, source.size⟩ (.ok tokens) :=
    h ▸ source.tokens_isTokenStream
  obtain ⟨parts, hparts, hflatten⟩ := hlexes.findsAll htext hreturns
  refine ⟨⟨parts, hparts, hflatten⟩, ?_⟩
  intro comment hcomment
  rw [comments, ← hflatten] at hcomment
  obtain ⟨gap, hgap, hinside⟩ := exists_gap_of_mem hparts hcomment
  refine ⟨⟨gap, hgap, hinside⟩, ?_⟩
  intro token htoken
  -- a token apart from the gap is apart from what lies in the gap
  have hapart := (gapsBefore_apart (fun token _ => Nat.zero_le _) hstream.start_le hstream.pairwise
    gap hgap).2 token htoken
  simp only [Span.contains, Bool.and_eq_true, decide_eq_true_eq] at hinside
  omega

/-- Comments around a string with two slashes in it, the last one before a carriage return. -/
theorem comments_fill_gaps_string :
    returnsPaired (Source.ofText "a /* b */ + \"//\" // c\r\n").chars = true
      ∧ (Source.ofText "a /* b */ + \"//\" // c\r\n").comments.map (·.content) = [" b ", " c"]
      ∧ ∃ parts, List.Forall₂ (Source.ofText "a /* b */ + \"//\" // c\r\n").IsFilledBy
          [⟨0, 0⟩, ⟨1, 10⟩, ⟨11, 12⟩, ⟨16, 23⟩] parts
        ∧ parts.flatten = (Source.ofText "a /* b */ + \"//\" // c\r\n").comments := by
  have hreturns : returnsPaired (Source.ofText "a /* b */ + \"//\" // c\r\n").chars = true := by
    decide
  have htokens : (Source.ofText "a /* b */ + \"//\" // c\r\n").tokens.toOption = some
      [⟨.identifier "a", ⟨0, 1⟩⟩, ⟨.operator "+", ⟨10, 11⟩⟩, ⟨.string "//", ⟨12, 16⟩⟩,
        ⟨.eof, ⟨23, 23⟩⟩] := by decide +kernel
  refine ⟨hreturns, by decide +kernel, ?_⟩
  cases h : (Source.ofText "a /* b */ + \"//\" // c\r\n").tokens with
  | error error =>
    rw [h] at htokens
    cases htokens
  | ok tokens =>
    rw [h] at htokens
    cases htokens
    exact (Source.comments_fill_gaps _ _ hreturns h).1

end CodeMarkup
