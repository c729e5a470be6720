import CodeMarkup.Proofs.TokenStream
import Mathlib.Data.List.Forall2
import Mathlib.Data.List.TakeWhile

namespace CodeMarkup

/-!
# The layout of a text

How tokens, and the blanks and comments between them, make up a text.

* `IsTrivia`: blanks and comments, given the text that follows them.
* `Lexes`: the run of a scan over a whole text, one constructor for each kind of piece.
* `gapsBefore`: the spans between the tokens of a list.
* `Source.tokensIn_lossless`: the tokens of a range and the gaps between them are the range.
-/

/-! ### Blanks and comments -/

/-- Blanks and comments that stand before `after`.  A line comment reaches to a line feed or to the
    end of the text, a block comment to the first `*/`. -/
inductive IsTrivia (after : List Char) : List Char → Prop where
  | nil : IsTrivia after []
  | blank {c : Char} {more : List Char} (hc : isBlank c = true) (hmore : IsTrivia after more) :
      IsTrivia after (c :: more)
  | line {content more : List Char} (hcontent : '\n' ∉ content)
      (hend : ∀ c ∈ (more ++ after).head?, c = '\n') (hmore : IsTrivia after more) :
      IsTrivia after ('/' :: '/' :: (content ++ more))
  | block {content more : List Char} (hcontent : ¬ ['*', '/'] <:+: content)
      (hmore : IsTrivia after more) :
      IsTrivia after ('/' :: '*' :: (content ++ '*' :: '/' :: more))

/-- The body of a block comment ends before the first `*/`. -/
theorem not_infix_spanBlock (text : List Char) : ¬ ['*', '/'] <:+: (spanBlock text).1 := by
  fun_induction spanBlock text with
  | case1 => simp
  | case2 text => simp
  | case3 c text hopen ih =>
    intro h
    rcases List.infix_cons_iff.1 h with hhead | htail
    · -- the two characters at the head would have ended the body there
      obtain ⟨rfl, more, hmore⟩ : c = '*' ∧ ∃ more, '/' :: more = (spanBlock text).1 := by
        obtain ⟨more, hmore⟩ := hhead
        simp only [List.cons_append, List.nil_append, List.cons.injEq] at hmore
        exact ⟨hmore.1.symm, more, hmore.2⟩
      have happ := spanBlock_append text
      rw [← hmore] at happ
      exact hopen _ rfl happ.symm
    · exact ih htail

theorem head?_dropWhile_ne {stop : Char} (text : List Char) :
    ∀ c ∈ (text.dropWhile (· ≠ stop)).head?, c = stop := by
  intro c hc
  have h := List.head?_dropWhile_not (fun c : Char => decide (c ≠ stop)) text
  rw [Option.mem_def.1 hc] at h
  simpa using h

namespace Gap

/-- What a gap takes are blanks and comments. -/
theorem scan_isTrivia (text : List Char) :
    IsTrivia ((scan text).unclosed ++ (scan text).rest) (scan text).trivia := by
  fun_induction scan text with
  | case1 => exact .nil
  | case2 text ih =>
    have happ := scan_append (text.dropWhile (· ≠ '\n'))
    simp only [push]
    refine .line ?_ ?_ ih
    · intro h
      have hstop := List.mem_takeWhile_imp h
      simp at hstop
    · rw [← List.append_assoc, happ]
      exact head?_dropWhile_ne text
  | case3 text h => exact .nil
  | case4 text h ih =>
    simp only [push, List.cons_append, List.append_assoc, List.nil_append]
    exact .block (not_infix_spanBlock text) ih
  | case5 c text hline hblock hc ih => exact .blank hc ih
  | case6 c text hline hblock hc => exact .nil

/-- A closed gap: blanks and comments, and what follows them. -/
theorem scan_closed {text trivia after : List Char} (h : scan text = ⟨trivia, [], after⟩) :
    text = trivia ++ after ∧ IsTrivia after trivia := by
  have happ := scan_append text
  have htrivia := scan_isTrivia text
  rw [h] at happ htrivia
  simp only [List.append_nil, List.nil_append] at happ htrivia
  exact ⟨happ.symm, htrivia⟩

end Gap

/-! ### The run of a scan -/

/-- The tokens of a text that starts at an offset: a gap and a token, again and again, and at last
    a gap and the mark. -/
inductive Lexes : Nat → List Char → List Token → Prop where
  | mark {offset : Nat} {text trivia : List Char} (hgap : Gap.scan text = ⟨trivia, [], []⟩) :
      Lexes offset text [⟨.eof, .point (offset + byteLength trivia)⟩]
  | token {offset start stop : Nat} {text trivia after rest : List Char} {kind : TokenKind}
      {tokens : List Token} (hgap : Gap.scan text = ⟨trivia, [], after⟩)
      (hlexeme : Lexeme.scan after = ⟨kind.spelling.toList, rest, .ok kind⟩)
      (hkind : kind.spelling.toList ≠ []) (hstart : start = offset + byteLength trivia)
      (hstop : stop = start + byteLength kind.spelling.toList) (hrest : Lexes stop rest tokens) :
      Lexes offset text (⟨kind, ⟨start, stop⟩⟩ :: tokens)

/-- A piece with a token is a closed gap and a lexeme. -/
theorem Piece.scan_eq_ok {text : List Char} {kind : TokenKind}
    (h : (Piece.scan text).outcome = .ok kind) :
    Gap.scan text = ⟨(Piece.scan text).trivia, [], (Gap.scan text).rest⟩
      ∧ Lexeme.scan (Gap.scan text).rest
        = ⟨(Piece.scan text).text, (Piece.scan text).rest, .ok kind⟩ := by
  unfold Piece.scan at h ⊢
  dsimp only at h ⊢
  by_cases hclosed : (Gap.scan text).unclosed.isEmpty
  · simp only [if_pos hclosed] at h ⊢
    have hnil : (Gap.scan text).unclosed = [] := List.isEmpty_iff.1 hclosed
    constructor
    · rw [← hnil]
    · rw [← h]
  · rw [if_neg hclosed] at h
    cases h

/-- **Runs.**  The tokens of a text are those of a run over it. -/
theorem lexes_of_tokensFrom {offset : Nat} {text : List Char} {tokens : List Token}
    (h : tokensFrom offset text = .ok tokens) : Lexes offset text tokens := by
  rw [tokensFrom] at h
  dsimp only at h
  have hspelled := Piece.scan_spelling text
  cases hpiece : (Piece.scan text).outcome with
  | error fault =>
    rw [hpiece] at h
    cases h
  | ok kind =>
    rw [hpiece] at h hspelled
    obtain ⟨hspelling, heof, hend⟩ := hspelled
    obtain ⟨hgap, hlexeme⟩ := Piece.scan_eq_ok hpiece
    dsimp only at h
    split at h
    next hnil =>
      -- an empty piece: the gap reaches to the end, where the mark stands
      cases h
      have happ := Lexeme.scan_append (Gap.scan text).rest
      rw [hlexeme, hnil, hend hnil] at happ
      rw [← happ] at hgap
      rw [heof.2 hnil, hnil]
      exact .mark hgap
    next hne =>
      cases hmore : tokensFrom
          (offset + byteLength (Piece.scan text).trivia + byteLength (Piece.scan text).text)
          (Piece.scan text).rest with
      | error error =>
        rw [hmore] at h
        cases h
      | ok later =>
        rw [hmore] at h
        cases h
        rw [← hspelling] at hlexeme hne hmore ⊢
        exact .token hgap hlexeme hne rfl rfl (lexes_of_tokensFrom hmore)
termination_by text.length
decreasing_by exact Piece.length_scan_rest_lt (by assumption)

/-! ### Gaps -/

/-- The spans before each of some tokens, the first of which starts at `lo`. -/
def gapsBefore : Nat → List Token → List Span
  | _, [] => []
  | lo, token :: tokens => ⟨lo, token.span.start⟩ :: gapsBefore token.span.stop tokens

/-- A text in two parts stands at two spans, one after the other. -/
theorem Source.HasText.split {source : Source} {start stop : Nat} {front back : List Char}
    (h : source.HasText ⟨start, stop⟩ (front ++ back)) :
    source.HasText ⟨start, start + byteLength front⟩ front
      ∧ source.HasText ⟨start + byteLength front, stop⟩ back := by
  obtain ⟨before, after, hchars, hstart, hstop⟩ := h
  have hlen := byteLength_append front back
  dsimp only at hstart hstop
  constructor
  · refine ⟨before, back ++ after, ?_, hstart, rfl⟩
    rw [hchars]
    simp only [List.append_assoc]
  · refine ⟨before ++ front, after, ?_, ?_, ?_⟩
    · rw [hchars]
      simp only [List.append_assoc]
    · rw [byteLength_append, hstart]
    · show stop = start + byteLength front + byteLength back
      omega

/-- The text at a span of a range that ends at `stop`, if the span holds nothing but blanks and
    comments. -/
def Source.IsGap (source : Source) (stop : Nat) (span : Span) (gap : List Char) : Prop :=
  source.slice? span = some gap
    ∧ ∃ after, source.slice? ⟨span.stop, stop⟩ = some after ∧ IsTrivia after gap

/-- The text of gaps and tokens in turn. -/
def interleave (gaps : List (List Char)) (tokens : List Token) : List Char :=
  (List.zipWith (fun gap token => gap ++ token.kind.spelling.toList) gaps tokens).flatten

/-- What a gap takes from a text stands before what it leaves. -/
theorem Source.HasText.isGap {source : Source} {start stop : Nat}
    {text trivia after : List Char} (h : source.HasText ⟨start, stop⟩ text)
    (hgap : Gap.scan text = ⟨trivia, [], after⟩) :
    text = trivia ++ after
      ∧ source.IsGap stop ⟨start, start + byteLength trivia⟩ trivia
      ∧ source.HasText ⟨start + byteLength trivia, stop⟩ after := by
  obtain ⟨rfl, htrivia⟩ := Gap.scan_closed hgap
  obtain ⟨hfront, hback⟩ := h.split
  exact ⟨rfl, ⟨slice?_eq_some hfront, after, slice?_eq_some hback, htrivia⟩, hback⟩

/-- **Nothing is lost.**  The gaps of a run hold blanks and comments, and with the spellings of the
    tokens they make up the text. -/
theorem Lexes.interleaves {source : Source} {offset stop : Nat} {text : List Char}
    {tokens : List Token} (h : Lexes offset text tokens)
    (htext : source.HasText ⟨offset, stop⟩ text) :
    ∃ gaps, List.Forall₂ (source.IsGap stop) (gapsBefore offset tokens) gaps
      ∧ text = interleave gaps tokens := by
  induction h with
  | @mark offset text trivia hgap =>
    obtain ⟨happ, hisGap, -⟩ := htext.isGap hgap
    refine ⟨[trivia], .cons hisGap .nil, ?_⟩
    rw [happ]
    simp [interleave, TokenKind.spelling]
  | @token offset start' stop' text trivia after rest kind tokens hgap hlexeme _ hstart hstop
      _ ih =>
    obtain ⟨happ, hisGap, hafter⟩ := htext.isGap hgap
    have hspelled := Lexeme.scan_append after
    rw [hlexeme] at hspelled
    dsimp only at hspelled
    rw [← hspelled] at hafter
    obtain ⟨-, hback⟩ := hafter.split
    rw [← hstart, ← hstop] at hback
    obtain ⟨gaps, hgaps, hrest⟩ := ih hback
    refine ⟨trivia :: gaps, .cons (hstart ▸ hisGap) hgaps, ?_⟩
    rw [happ, ← hspelled, hrest]
    simp [interleave]

/-! ### Tokens of a range -/

/-- A span between characters has a text. -/
theorem Source.HasSpan.exists_hasText {source : Source} {span : Span} (h : source.HasSpan span) :
    ∃ text, source.HasText span text := by
  obtain ⟨front, rest, hfront, hstart⟩ := h.start_boundary
  obtain ⟨whole, after, hwhole, hstop⟩ := h.stop_boundary
  have hle := h.start_le
  have hprefix : front <+: source.chars := ⟨rest, hfront.symm⟩
  have hprefix' : whole <+: source.chars := ⟨after, hwhole.symm⟩
  rcases List.prefix_or_prefix_of_prefix hprefix hprefix' with ⟨text, rfl⟩ | ⟨text, rfl⟩
  · refine ⟨text, front, after, hwhole, hstart, ?_⟩
    rw [byteLength_append] at hstop
    omega
  · -- the end comes first only if both ends are one
    rw [byteLength_append] at hstart
    have hzero : byteLength text = 0 := by omega
    have hnil : text = [] := by
      by_contra hne
      have := byteLength_pos hne
      omega
    subst hnil
    refine ⟨[], whole, after, ?_, ?_, ?_⟩
    · simpa using hwhole
    · rw [byteLength] at hstart
      omega
    · rw [byteLength]
      omega

theorem InOrder.mem {source : Source} {lo hi : Nat} {tokens : List Token}
    (h : InOrder source lo tokens hi) :
    ∀ token ∈ tokens, lo ≤ token.span.start ∧ token.span.stop ≤ hi ∧ token.IsPlaced source := by
  induction h with
  | nil => simp
  | @cons lo hi token rest hstart htoken hrest ih =>
    have hlt := htoken.start_lt
    have hle := hrest.le
    intro other hother
    rcases List.mem_cons.1 hother with rfl | hother
    · exact ⟨hstart, hle, htoken⟩
    · obtain ⟨hfrom, hto, hplaced⟩ := ih other hother
      exact ⟨by omega, hto, hplaced⟩

theorem InOrder.pairwise {source : Source} {lo hi : Nat} {tokens : List Token}
    (h : InOrder source lo tokens hi) :
    tokens.Pairwise fun a b => a.span.stop ≤ b.span.start := by
  induction h with
  | nil => exact .nil
  | cons _ _ hrest ih =>
    refine List.pairwise_cons.2 ⟨?_, ih⟩
    intro other hother
    exact (hrest.mem other hother).1

/-- The tokens of a span, its mark included, stand one after another. -/
theorem IsTokenStream.pairwise {source : Source} {span : Span} {tokens : List Token}
    (h : IsTokenStream source span (.ok tokens)) :
    tokens.Pairwise fun a b => a.span.stop ≤ b.span.start := by
  obtain ⟨body, rfl, hbody⟩ := h
  refine List.pairwise_append.2 ⟨hbody.pairwise, List.pairwise_singleton _ _, ?_⟩
  intro token hmem last hlast
  rw [List.mem_singleton.1 hlast]
  exact (hbody.mem token hmem).2.1

theorem IsTokenStream.start_le {source : Source} {span : Span} {tokens : List Token}
    (h : IsTokenStream source span (.ok tokens)) :
    ∀ token ∈ tokens, token.span.start ≤ token.span.stop := by
  obtain ⟨body, rfl, hbody⟩ := h
  intro token hmem
  rcases List.mem_append.1 hmem with hmem | hmem
  · exact Nat.le_of_lt (hbody.mem token hmem).2.2.start_lt
  · rw [List.mem_singleton.1 hmem]
    exact Nat.le_refl _

/-- **Tokens lose nothing.**  If a range of a source has tokens, they are tokens with a text and one
    mark at the end of the range.  Each token stands in the range at its spelling, none overlaps the
    next, and the gaps before them hold blanks and comments; gaps and spellings make up the text of
    the range. -/
theorem Source.tokensIn_lossless (source : Source) (range : Span) (hrange : source.HasSpan range) :
    ∃ text result, source.slice? range = some text ∧ source.tokensIn? range = some result
      ∧ ∀ tokens, result = .ok tokens →
        (∃ body, tokens = body ++ [⟨.eof, .point range.stop⟩]
          ∧ ∀ token ∈ body, token.kind ≠ .eof ∧ token.span.start < token.span.stop
            ∧ range.contains token.span = true
            ∧ source.IsBoundary token.span.start ∧ source.IsBoundary token.span.stop
            ∧ source.slice? token.span = some token.kind.spelling.toList)
        ∧ (tokens.Pairwise fun a b => a.span.stop ≤ b.span.start)
        ∧ ∃ gaps, List.Forall₂ (source.IsGap range.stop) (gapsBefore range.start tokens) gaps
          ∧ text = interleave gaps tokens := by
  obtain ⟨text, htext⟩ := hrange.exists_hasText
  have hslice := slice?_eq_some htext
  have hstream := htext.isTokenStream
  refine ⟨text, tokensFrom range.start text, hslice, ?_, ?_⟩
  · rw [tokensIn?, hslice]
    rfl
  · intro tokens htokens
    rw [htokens] at hstream
    have hpairwise := hstream.pairwise
    obtain ⟨body, rfl, hbody⟩ := hstream
    refine ⟨⟨body, rfl, ?_⟩, hpairwise, (lexes_of_tokensFrom htokens).interleaves htext⟩
    intro token hmem
    obtain ⟨hstart, hstop, hplaced⟩ := hbody.mem token hmem
    have hspan := hplaced.hasText.hasSpan
    refine ⟨hplaced.kind_ne, hplaced.start_lt, ?_, hspan.start_boundary, hspan.stop_boundary,
      slice?_eq_some hplaced.hasText⟩
    simp [Span.contains, hstart, hstop]

/-- The expression of an interpolation, with a comment in it and after a character of two bytes. -/
theorem tokensIn_lossless_interpolation :
    ∃ gaps, List.Forall₂ ((Source.ofText "`é$\x7ba /* b */+c\x7d`").IsGap 16)
        [⟨5, 5⟩, ⟨6, 14⟩, ⟨15, 15⟩, ⟨16, 16⟩] gaps
      ∧ "a /* b */+c".toList = interleave gaps
        [⟨.identifier "a", ⟨5, 6⟩⟩, ⟨.operator "+", ⟨14, 15⟩⟩, ⟨.identifier "c", ⟨15, 16⟩⟩,
          ⟨.eof, ⟨16, 16⟩⟩] := by
  have hrange : (Source.ofText "`é$\x7ba /* b */+c\x7d`").HasSpan ⟨5, 16⟩ :=
    ⟨by decide, ⟨"`é$\x7b".toList, "a /* b */+c\x7d`".toList, by decide, by decide⟩,
      ⟨"`é$\x7ba /* b */+c".toList, "\x7d`".toList, by decide, by decide⟩⟩
  have htext : (Source.ofText "`é$\x7ba /* b */+c\x7d`").slice? ⟨5, 16⟩
      = some "a /* b */+c".toList := by decide
  have htokens : ((Source.ofText "`é$\x7ba /* b */+c\x7d`").tokensIn? ⟨5, 16⟩).bind (·.toOption)
      = some [⟨.identifier "a", ⟨5, 6⟩⟩, ⟨.operator "+", ⟨14, 15⟩⟩, ⟨.identifier "c", ⟨15, 16⟩⟩,
        ⟨.eof, ⟨16, 16⟩⟩] := by decide +kernel
  obtain ⟨text, result, hslice, hresult, h⟩ := Source.tokensIn_lossless _ _ hrange
  rw [htext] at hslice
  cases hslice
  rw [hresult] at htokens
  cases result with
  | error error => cases htokens
  | ok tokens =>
    cases htokens
    exact (h _ rfl).2.2

end CodeMarkup
