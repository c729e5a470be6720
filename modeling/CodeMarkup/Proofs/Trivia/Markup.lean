import CodeMarkup.Grammar.Markup
import CodeMarkup.Proofs.Trivia.Agreement

namespace CodeMarkup

open Parser

/-!
# Markup, side by side

Tags and json containers read the tokens of both texts.  A template reads its own text a second
time, at an offset that depends on what stands before it.

* `tokensFrom_alike`: the tokens of a text look the same wherever it stands.
* `Grammar.template_agree`: templates of the same text hold the same expressions.
* `Grammar.tag_agree`, `Grammar.jsonDocument_agree`: the other productions.
-/

/-! ### Texts at another offset -/

namespace Alike

/-- Tokens look the same wherever they are moved. -/
theorem map_shift (tokens : List Token) (m n : Nat) :
    Alike (tokens.map (·.shift m)) (tokens.map (·.shift n)) := by
  have htouches : ∀ (x y : Token) (k : Nat), (x.shift k).touches (y.shift k) = x.touches y := by
    intro x y k
    show (x.span.stop + k == y.span.start + k) = (x.span.stop == y.span.start)
    rw [Bool.eq_iff_iff, beq_iff_eq, beq_iff_eq, Nat.add_right_cancel_iff]
  induction tokens with
  | nil => exact .nil
  | cons x rest ih =>
    refine .cons rfl ?_ ih
    cases rest with
    | nil => rfl
    | cons y rest => exact (htouches x y m).trans (htouches x y n).symm

end Alike

/-- The tokens of a text at two offsets look alike, or their faults are the same. -/
theorem tokensFrom_alike (m n : Nat) (text : List Char) :
    match tokensFrom m text, tokensFrom n text with
    | .ok xs, .ok ys => Alike xs ys
    | .error error, .error error' => error.fault = error'.fault
    | _, _ => False := by
  -- both are the tokens of the text at the very start, moved
  rw [← Nat.zero_add m, ← Nat.zero_add n, tokensFrom_add, tokensFrom_add]
  cases tokensFrom 0 text with
  | error error => rfl
  | ok tokens => exact .map_shift tokens m n

namespace Grammar

variable {a b : Source} {p q : Productions} {s t : State}

/-! ### Tags -/

theorem markupName_agree (expected : String) :
    Agree a b Eq (markupName expected) (markupName expected) := by
  refine .peek fun kind => ?_
  split
  · exact unexpected_agree _
  · refine advance_agree.seq fun _ => ?_
    refine extendEq_agree (fun name s t h => ?_) _
    -- a dash is part of the name only if it touches the tokens on both of its sides
    have hprevious := h.previous
    have hrest := h.rest
    rw [agreeAt_get, agreeAt_ahead]
    generalize s.previous = before at hprevious ⊢
    generalize t.previous = before' at hprevious ⊢
    generalize s.rest = xs at hprevious hrest ⊢
    generalize t.rest = ys at hprevious hrest ⊢
    cases before with
    | none =>
      cases before' with
      | none => exact Agree.pure rfl s t h
      | some before' => cases hprevious
    | some before =>
      cases before' with
      | none => cases hprevious
      | some before' =>
        cases hrest with
        | nil => exact Agree.pure rfl s t h
        | @cons dash dash' _ _ hdash hnext hrest =>
          cases hrest with
          | nil => exact Agree.pure rfl s t h
          | @cons word word' _ _ hword _ _ =>
            -- on the left of the dash is the token taken last, on its right the one after it
            have hbefore : before.touches dash = before'.touches dash' := Option.some.inj hprevious
            have hafter : dash.touches word = dash'.touches word' := hnext
            dsimp only
            rw [hdash, hbefore, hafter, hword]
            split
            · split
              · exact advanceTwo_agree.seq (fun _ => .pure rfl) s t h
              · exact Agree.pure rfl s t h
            · exact Agree.pure rfl s t h

theorem moreAttributes_agree : Agree a b Eq moreAttributes moreAttributes := by
  refine .ahead fun xs ys h => ?_
  rw [h.kindAt_eq, h.kindAt_eq]
  exact .pure rfl

theorem jsonKey_agree : Agree a b Eq jsonKey jsonKey := by
  refine .start fun m n hmn => .peek fun kind => ?_
  split
  · refine advance_agree.seq fun _ => ?_
    exact (pushFrom_agree hmn _).seq fun key => .pure rfl
  · refine (markupName_agree _).seq fun name => ?_
    exact (pushFrom_agree hmn _).seq fun key => .pure rfl

section

variable (hp : ∀ construct, Agree a b Eq (p construct) (q construct))

include hp

theorem tagAttribute_agree : Agree a b Eq (tagAttribute p) (tagAttribute q) := by
  refine .start fun m n hmn => ?_
  refine (markupName_agree _).seq fun name => ?_
  refine (optional_agree (accept_agree _) (hp .unary)).seq fun value => ?_
  exact pushFrom_agree hmn _

theorem tagBody_agree (name : String) : Agree a b Eq (tagBody p name) (tagBody q name) := by
  refine .start fun m n hmn => ?_
  refine (many_agree (ahead_agree fun xs ys h => ?_) ?_).seq fun children => pushFrom_agree hmn _
  · rw [h.startsClosingTag_eq]
  · refine atEnd_agree.branch (unexpected_agree _) ?_
    refine (hp .expression).seq fun child => ?_
    refine Agree.seq ?_ fun _ => .pure rfl
    exact (accept_agree _).mapEq

theorem tag_agree : Agree a b Eq (tag p) (tag q) := by
  refine nested_agree (.start fun m n hmn => ?_)
  refine (expect_agree _).seq fun _ => ?_
  refine (markupName_agree _).seq fun name => ?_
  refine (many_agree moreAttributes_agree (tagAttribute_agree hp)).seq fun attributes => ?_
  refine (accept_agree _).branch ?_ ?_
  -- the closing tag names the opening one or fails, at its own span in each text
  · refine (tagBody_agree hp name).seq fun body => ?_
    refine advanceTwo_agree.seq fun _ => ?_
    refine .start fun m' n' hmn' => ?_
    refine (markupName_agree _).seq fun closing => ?_
    split
    · refine (expect_agree _).seq fun _ => ?_
      exact pushFrom_agree hmn _
    · exact fun s t h => fail_agree _ _ _ s t h
  · refine advanceTwo_agree.seq fun _ => ?_
    exact pushFrom_agree hmn _

/-! ### Json containers -/

theorem jsonEntriesWithin_agree (rounds : Nat) (keys : List String) :
    Agree a b Eq (jsonEntriesWithin p rounds keys) (jsonEntriesWithin q rounds keys) := by
  induction rounds generalizing keys with
  | zero => exact exhausted_agree
  | succ rounds ih =>
    refine (check_agree _).branch (.pure rfl) ?_
    refine .start fun m n hmn => ?_
    refine jsonKey_agree.seq fun (key, text) => ?_
    dsimp only
    split
    · exact .spanOf fun span span' _ => fail_agree _ span span'
    · refine (expect_agree _).seq fun _ => ?_
      refine (hp .expression).seq fun value => ?_
      refine (pushFrom_agree hmn _).seq fun entry => ?_
      refine (accept_agree _).branch ?_ (.pure rfl)
      exact (ih _).seq fun others => .pure rfl

theorem jsonObject_agree : Agree a b Eq (jsonObject p) (jsonObject q) := by
  refine nested_agree (.start fun m n hmn => ?_)
  refine (expect_agree _).seq fun _ => ?_
  refine .ahead fun xs ys h => ?_
  rw [h.length_eq]
  refine (jsonEntriesWithin_agree hp _ []).seq fun entries => ?_
  refine (expect_agree _).seq fun _ => ?_
  exact pushFrom_agree hmn _

theorem jsonArray_agree : Agree a b Eq (jsonArray p) (jsonArray q) := by
  refine nested_agree (.start fun m n hmn => ?_)
  refine (expect_agree _).seq fun _ => ?_
  refine (listUntil_agree (.start fun m' n' hmn' => ?_)).seq fun entries => ?_
  · refine (hp .expression).seq fun value => ?_
    exact pushFrom_agree hmn' _
  · refine (expect_agree _).seq fun _ => ?_
    exact pushFrom_agree hmn _

theorem jsonDocument_agree : Agree a b Eq (jsonDocument p) (jsonDocument q) := by
  refine .peek fun kind => ?_
  split
  · exact jsonObject_agree hp
  · exact jsonArray_agree hp
  · exact unexpected_agree _

end

/-! ### Templates -/

/-- A production on other tokens agrees if it does so from the states at the head of them, since the
    tokens at hand are gone on with after it. -/
theorem onTokens_agree {tokens tokens' : List Token} {x y : Parser NodeId} (h : Twin a b s t)
    (hx : AgreeAt a b { State.ofTokens tokens with nodes := s.nodes, levels := s.levels }
      { State.ofTokens tokens' with nodes := t.nodes, levels := t.levels } Eq x y) :
    AgreeAt a b s t Eq (onTokens tokens x) (onTokens tokens' y) := by
  unfold AgreeAt onTokens at *
  dsimp only
  generalize x a _ = left at hx ⊢
  generalize y b _ = right at hx ⊢
  cases hx with
  | exhaustedLeft h => exact .exhaustedLeft h
  | exhaustedRight h => exact .exhaustedRight h
  | tooDeep h hdeeper => exact .tooDeep h hdeeper
  | fail h => exact .fail h
  | ok hxy htwin hleft hright =>
    refine .ok hxy ?_ hleft hright
    -- the tokens and levels of the outer run come back, with the nodes of the inner one
    rw [hleft, hright]
    exact h.withNodes htwin.kinds htwin.nodes_eq

/-- A list of computations, of which each agrees wherever the levels are those at the start. -/
theorem mapM_agree {α : Type} {f g : α → Parser NodeId} {levels levels' : List Nat}
    (items : List α)
    (hf : ∀ item ∈ items, ∀ s t, Twin a b s t → s.levels = levels → t.levels = levels' →
      AgreeAt a b s t Eq (f item) (g item)) :
    ∀ s t, Twin a b s t → s.levels = levels → t.levels = levels' →
      AgreeAt a b s t Eq (items.mapM f) (items.mapM g) := by
  induction items with
  | nil =>
    intro s t h _ _
    rw [List.mapM_nil, List.mapM_nil]
    exact Agree.pure rfl s t h
  | cons item items ih =>
    intro s t h hleft hright
    have hfirst := hf item List.mem_cons_self s t h hleft hright
    rw [List.mapM_cons, List.mapM_cons]
    refine hfirst.bind fun first first' s' t' hvalue h' hleft' hright' => ?_
    subst hvalue
    have hothers := ih (fun item hitem => hf item (List.mem_cons_of_mem _ hitem)) s' t' h'
      (hleft'.trans hleft) (hright'.trans hright)
    refine hothers.bind fun others others' s' t' hvalue h' _ _ => ?_
    subst hvalue
    exact Agree.pure rfl s' t' h'

/-- The states at the head of the tokens of a text that lies inside a template.  All levels start
    before it. -/
theorem twin_ofTokens {xs ys : List Token} {range range' : Span} (h : Twin a b s t)
    (hxs : InOrder a range.start xs range.stop) (hys : InOrder b range'.start ys range'.stop)
    (hrange : a.HasSpan range) (hrange' : b.HasSpan range') (halike : Alike xs ys)
    (hlevels : ∀ level ∈ s.levels, level < range.start)
    (hlevels' : ∀ level ∈ t.levels, level < range'.start)
    (hsame : a = b → range = range' ∧ xs = ys) :
    Twin a b ⟨[], xs, range.stop, s.nodes, s.levels⟩
      ⟨[], ys, range'.stop, t.nodes, t.levels⟩ := by
  have hbefore : ∀ level ∈ s.levels,
      level < (⟨[], xs, range.stop, s.nodes, s.levels⟩ : State).start :=
    fun level hlevel => Nat.lt_of_lt_of_le (hlevels level hlevel) (State.le_start hxs)
  have hbefore' : ∀ level ∈ t.levels,
      level < (⟨[], ys, range'.stop, t.nodes, t.levels⟩ : State).start :=
    fun level hlevel => Nat.lt_of_lt_of_le (hlevels' level hlevel) (State.le_start hys)
  refine ⟨⟨hxs.mono (Nat.zero_le _), nofun, hrange.stop_boundary, ?_⟩,
    ⟨hys.mono (Nat.zero_le _), nofun, hrange'.stop_boundary, ?_⟩, halike, rfl,
    ⟨s.levels.length - t.levels.length, ?_⟩, h.kinds, fun hab => ?_⟩
  · exact fun level hlevel => Nat.le_of_lt (hbefore level hlevel)
  · exact fun level hlevel => Nat.le_of_lt (hbefore' level hlevel)
  · refine (map_levels_eq hbefore).trans ?_
    rw [map_levels_eq hbefore', List.replicate_append_replicate,
      Nat.add_sub_cancel' h.length_levels_le]
  · obtain ⟨rfl, rfl⟩ := hsame hab
    exact ⟨s.levels, by rw [h.nodes_eq hab]⟩

section

variable (hp : ∀ construct, Agree a b Eq (p construct) (q construct))

include hp

/-- The expressions in ranges of the two sources that have the same text. -/
theorem interpolation_agree {range range' : Span} {text : List Char} (h : Twin a b s t)
    (htext : a.HasText range text) (htext' : b.HasText range' text)
    (hlevels : ∀ level ∈ s.levels, level < range.start)
    (hlevels' : ∀ level ∈ t.levels, level < range'.start) (hrange : a = b → range = range') :
    AgreeAt a b s t Eq (interpolation p range) (interpolation q range') := by
  have hstream := htext.isTokenStream
  have hstream' := htext'.isTokenStream
  have halike := tokensFrom_alike range.start range'.start text
  unfold interpolation
  rw [agreeAt_read, Source.tokensIn?, Source.slice?_eq_some htext, Option.map_some,
    Source.tokensIn?, Source.slice?_eq_some htext', Option.map_some]
  -- reading may fail at the first offset only if it does at the second
  cases htokens : tokensFrom range.start text with
  | error error =>
    cases htokens' : tokensFrom range'.start text with
    | error error' =>
      rw [htokens, htokens'] at halike
      exact .fail halike
    | ok tokens' =>
      rw [htokens, htokens'] at halike
      exact halike.elim
  | ok tokens =>
    cases htokens' : tokensFrom range'.start text with
    | error error' =>
      rw [htokens, htokens'] at halike
      exact halike.elim
    | ok tokens' =>
      rw [htokens, htokens'] at halike
      rw [htokens] at hstream
      rw [htokens'] at hstream'
      obtain ⟨xs, rfl, hxs⟩ := hstream
      obtain ⟨ys, rfl, hys⟩ := hstream'
      -- one text has the same tokens in the same range
      have hsame : a = b → range = range' ∧ xs = ys := by
        intro hab
        have hrange := hrange hab
        rw [← hrange, htokens, Except.ok.injEq, hrange] at htokens'
        exact ⟨hrange, List.append_cancel_right htokens'⟩
      -- from here on the inner tokens are the only ones that either run sees
      refine onTokens_agree h ?_
      rw [State.ofTokens_concat, State.ofTokens_concat]
      have hinner := twin_ofTokens h hxs hys htext.hasSpan htext'.hasSpan halike.of_concat hlevels
        hlevels' hsame
      have hwhole := (hp .expression).seq fun expression =>
        expectEnd_agree.seq fun _ => Agree.pure (rfl : expression = expression)
      exact hwhole _ _ hinner

theorem template_agree {raw : String} (h : Twin a b s t) (hkind : s.current.kind = .template raw) :
    AgreeAt a b s t Eq (template p raw) (template q raw) := by
  obtain ⟨hraw, -⟩ := h.left.template_hasText hkind
  obtain ⟨hraw', -⟩ := h.right.template_hasText (h.kind_eq ▸ hkind)
  unfold template
  rw [agreeAt_get]
  refine (advance_agree s t h).bind fun _ _ s' t' _ h' hleft hright => ?_
  refine (mapM_agree _ (fun range hrange s' t' h' hleft hright => ?_) s' t' h' hleft hright).bind
    fun parts parts' s' t' hparts h' _ _ => ?_
  · cases range with
    | none => exact fail_agree _ _ _ s' t' h'
    | some range =>
      obtain ⟨front, middle, back, hsplit, hfront, hmiddle⟩ :=
        (interpolations_located raw.toList).exists_part hrange
      -- an interpolation is the same part of the text in both sources, at another offset
      have hpart : ∀ {source : Source} {offset : Nat},
          source.HasText ⟨offset, offset + byteLength raw.toList⟩ raw.toList →
          source.HasText (range.shift offset) middle := by
        intro source offset htext
        rw [hsplit] at htext
        have hpart := htext.part front middle back
        rwa [hfront, hmiddle, Nat.add_comm, Nat.add_comm _ range.stop] at hpart
      have hsame : a = b → range.shift (s.start + 1) = range.shift (t.start + 1) :=
        fun hab => by rw [h.start_eq hab]
      refine interpolation_agree hp h' (hpart hraw) (hpart hraw') (fun level hlevel => ?_)
        (fun level hlevel => ?_) hsame
      -- the levels were there when the quote was, which stands before every interpolation
      · have hle := h.left.levels_le level (hleft ▸ hlevel)
        show level < range.start + (s.start + 1)
        omega
      · have hle := h.right.levels_le level (hright ▸ hlevel)
        show level < range.start + (t.start + 1)
        omega
  · subst hparts
    refine push_agree _ (fun hab => ?_) (fun _ => rfl) s' t' h'
    obtain ⟨levels, rfl⟩ := h.same hab
    rfl

end

end Grammar

end CodeMarkup
