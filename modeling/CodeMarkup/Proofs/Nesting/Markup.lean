import CodeMarkup.Grammar.Markup
import CodeMarkup.Proofs.Nesting.Types

namespace CodeMarkup.Grammar

open CodeMarkup.Parser

/-!
# Braces of markup

Tags, json containers and templates.  The expressions of a template are read by a parse of their
own: the tokens at hand stay where they are, and only the levels matter.

* `tag_fits`, `jsonObject_fits`, `jsonArray_fits`: containers, each with a level of its own.
* `template_closes`: a template, whose token is no brace.
-/

variable {p : Productions} {source : Source} {s t u : State} {k c : Nat}

/-! ### Tags -/

theorem markupName_fits (expected : String) : Fits c (markupName expected) := by
  intro source s k hs
  unfold markupName
  rw [closesAt_peek]
  split
  · exact unexpected_closes expected source s k hs
  · next first hword =>
    refine .advance hs (ne_leftBrace_of_read rfl hword) (extend_fits (fun name => ?_) first)
    intro source s k hs
    rw [closesAt_get, closesAt_ahead]
    split
    · next before dash word more _ hmore =>
      split
      · next htouch =>
        split
        · next text htext =>
          -- the two tokens ahead are a dash and a word
          have hdash : dash.kind = .operator "-" := by
            simp only [Bool.and_eq_true, beq_iff_eq] at htouch
            exact htouch.1.1
          have hfirst : kindAt s.rest 0 ≠ .leftBrace := by
            rw [hmore]
            show dash.kind ≠ _
            rw [hdash]
            nofun
          have hsecond : kindAt s.rest 1 ≠ .leftBrace := by
            rw [hmore]
            exact ne_leftBrace_of_read rfl htext
          exact .advanceTwo hs hfirst hsecond (.pure _)
        · exact Closes.pure none source s k hs
      · exact Closes.pure none source s k hs
    · exact Closes.pure none source s k hs

theorem startsClosingTag_kinds {tokens : List Token} (h : startsClosingTag tokens = true) :
    kindAt tokens 0 ≠ .leftBrace ∧ kindAt tokens 1 ≠ .leftBrace := by
  match tokens with
  | [] | [_] => cases h
  | a :: b :: _ =>
    simp only [startsClosingTag, Bool.and_eq_true, beq_iff_eq] at h
    show a.kind ≠ _ ∧ b.kind ≠ _
    simp [h.1.1, h.1.2]

/-- The body of a tag ends before the closing half. -/
theorem tagBody_stops {name : String} {id : NodeId} (h : tagBody p name source s = .ok id t) :
    startsClosingTag t.rest = true := by
  obtain ⟨origin, _, -, h⟩ := bind_eq_ok h
  obtain ⟨children, u, hmany, hpush⟩ := bind_eq_ok h
  have hstop : (!startsClosingTag u.rest) = false := manyWithin_stops (fun _ _ => rfl) hmany
  cases hpush
  simpa using hstop

section

variable (hp : p.Fit)

include hp

theorem tagAttribute_fits : Fits (c + 2) (tagAttribute p) := by
  apply Closes.bind start_fits
  intro origin
  apply Closes.bind (markupName_fits _)
  intro name
  refine Closes.bind (optional_fits (accept_fits nofun) hp.unary) fun value => ?_
  exact pushFrom_fits _ _

theorem tagBody_fits (name : String) : Fits c (tagBody p name) := by
  apply Closes.bind start_fits
  intro origin
  refine Closes.bind (many_fits test_fits ?_) fun children => pushFrom_fits _ _
  refine Closes.branch atEnd_fits (unexpected_closes _) ?_
  apply Closes.bind hp.expression
  intro child
  exact Closes.bind (Closes.discard (accept_fits nofun)) fun _ => .pure child

/-- The closing half of a tag, after its body. -/
theorem tagEnd_fits (name : String) (origin : Nat) (attributes : List NodeId) :
    Fits c (do
      let body ← tagBody p name
      advanceTwo
      let closeStart ← start
      let closing ← markupName "closing tag name"
      if closing == name then
        expect (.operator ">")
        pushFrom origin (.tag name attributes (some body))
      else fail (.mismatchedClosingTag name closing) ((← get).spanFrom closeStart)) := by
  intro source s k hs
  refine .bind (tagBody_fits hp name source s k hs) fun body t hrun ht => ?_
  obtain ⟨hfirst, hsecond⟩ := startsClosingTag_kinds (tagBody_stops hrun)
  refine .advanceTwo (ht.allows hs) hfirst hsecond ?_
  apply Closes.bind start_fits
  intro closeStart
  apply Closes.bind (markupName_fits _)
  intro closing
  split
  · exact Closes.token nofun (pushFrom_fits _ _)
  · exact Closes.bind get_fits fun _ => fail_closes _ _

theorem tag_fits : Fits c (tag p) := by
  apply nested_fits
  apply Closes.bind start_fits
  intro origin
  refine Closes.token nofun ?_
  apply Closes.bind (markupName_fits _)
  intro name
  -- after the attributes the tag is either open or closed at once
  refine Closes.manyWhile (fun s => !(kindAt s.rest 0 == .operator "/"
      && kindAt s.rest 1 == .operator ">") && kindAt s.rest 0 != .operator ">")
    (fun _ _ => rfl) (fun hs _ => tagAttribute_fits hp _ _ _ hs) ?_
  intro attributes source s k hs hend id t h
  obtain ⟨found, u, haccept, hrest⟩ := bind_eq_ok h
  obtain ⟨rfl, hkind, rfl⟩ | ⟨rfl, hkind, rfl⟩ := accept_eq_ok haccept
  · have hpasses := advance_passesBraces hs (by simp [hkind])
    exact hpasses.trans
      (tagEnd_fits hp name origin attributes source _ k (hpasses.allows hs) id t hrest)
  · rw [← State.kindAt_rest_zero] at hkind
    simp only [Bool.and_eq_false_iff, Bool.not_eq_false', Bool.and_eq_true, beq_iff_eq,
      bne_eq_false_iff_eq, hkind, or_false] at hend
    exact ClosesAt.advanceTwo (f := fun _ => pushFrom origin (.tag name attributes none)) hs
      (by simp [hend.1]) (by simp [hend.2]) (pushFrom_fits _ _) id t hrest

end

/-! ### Json containers -/

theorem jsonKey_fits : Fits c jsonKey := by
  intro source s k hs
  unfold jsonKey
  rw [closesAt_start, closesAt_peek]
  split
  · next literal text hliteral =>
    refine .advance hs (ne_leftBrace_of_read rfl hliteral) ?_
    exact Closes.bind (pushFrom_fits _ _) fun key => .pure _
  · refine Closes.bind (markupName_fits _) (fun name => ?_) source s k hs
    exact Closes.bind (pushFrom_fits _ _) fun key => .pure _

section

variable (hp : p.Fit)

include hp

theorem jsonEntriesWithin_fits (rounds : Nat) (keys : List String) :
    Fits c (jsonEntriesWithin p rounds keys) := by
  induction rounds generalizing keys with
  | zero => exact exhausted_closes
  | succ rounds ih =>
    refine Closes.branch (check_fits _) (.pure _) ?_
    apply Closes.bind start_fits
    intro origin
    apply Closes.bind jsonKey_fits
    rintro ⟨key, text⟩
    dsimp only
    split
    · exact Closes.bind (spanOf_fits key) fun span => fail_closes _ _
    · refine Closes.token nofun ?_
      apply Closes.bind hp.expression
      intro value
      apply Closes.bind (pushFrom_fits _ _)
      intro entry
      refine Closes.branch (accept_fits nofun) ?_ (.pure _)
      exact Closes.bind (ih _) fun others => .pure _

theorem jsonObject_fits : Fits c (jsonObject p) := by
  apply nested_fits
  apply Closes.bind start_fits
  intro origin
  apply Closes.opening
  apply Closes.bind ahead_fits
  intro tokens
  apply Closes.bind (jsonEntriesWithin_fits hp _ _)
  intro entries
  exact Closes.closing (pushFrom_fits _ _)

theorem jsonArray_fits : Fits c (jsonArray p) := by
  apply nested_fits
  apply Closes.bind start_fits
  intro origin
  refine Closes.token nofun ?_
  refine Closes.bind (listUntil_fits nofun ?_) fun entries =>
    Closes.token nofun (pushFrom_fits _ _)
  apply Closes.bind start_fits
  intro entryStart
  exact Closes.bind hp.expression fun value => pushFrom_fits _ _

theorem jsonDocument_fits : Fits c (jsonDocument p) := by
  apply Closes.bind (peek_fits 0)
  intro kind
  split
  · exact jsonObject_fits hp
  · exact jsonArray_fits hp
  · exact unexpected_closes _

end

/-! ### Templates -/

/-- Computations one after another that leave the levels as they are. -/
theorem mapM_closes {α : Type} {f : α → Parser NodeId} {levels : List Nat} (items : List α)
    (hf : ∀ item ∈ items, ∀ t : State, t.IsValid source → t.levels = levels →
      ClosesAt source t k 0 (f item)) :
    ∀ t : State, t.IsValid source → t.levels = levels → ClosesAt source t k 0 (items.mapM f) := by
  induction items with
  | nil =>
    intro t ht _ ids u h
    rw [List.mapM_nil] at h
    cases h
    exact .refl ht
  | cons item items ih =>
    intro t ht hlevels
    rw [List.mapM_cons]
    refine .bind (hf item List.mem_cons_self t ht hlevels) fun first u _ hu => ?_
    have hothers := ih (fun item hitem => hf item (List.mem_cons_of_mem _ hitem)) u hu.valid
      (hu.levels_eq.trans hlevels)
    refine .bind hothers fun others v _ hv => ?_
    intro ids w h
    cases h
    exact .refl hv.valid

section

variable (hp : p.Fit)

include hp

/-- The expression in a range of the source that starts after all levels do. -/
theorem interpolation_closes {range : Span} {text : List Char} (ht : t.IsValid source)
    (htext : source.HasText range text) (hlevels : ∀ level ∈ t.levels, level ≤ range.start) :
    ClosesAt source t k 0 (interpolation p range) := by
  intro id u h
  have hstream := htext.isTokenStream
  obtain ⟨_, _, hread, h⟩ := bind_eq_ok h
  cases hread
  rw [Source.tokensIn?, Source.slice?_eq_some htext, Option.map_some] at h
  cases htokens : tokensFrom range.start text with
  | error error =>
    rw [htokens] at h
    cases h
  | ok tokens =>
    rw [htokens] at h hstream
    obtain ⟨inside, rfl, hinside⟩ := hstream
    dsimp only [onTokens] at h
    rw [State.ofTokens_concat] at h
    -- the inner run starts after all levels, and leaves them as they are
    have hvalid : State.IsValid source ⟨[], inside, range.stop, t.nodes, t.levels⟩ := by
      refine ⟨hinside.mono (Nat.zero_le _), nofun, htext.hasSpan.stop_boundary, ?_⟩
      intro level hlevel
      exact Nat.le_trans (hlevels level hlevel) (State.le_start hinside)
    have hinner := Closes.bind hp.expression
      (fun expression => Closes.bind (expectEnd_fits (c := 0)) fun _ => .pure expression)
      source _ _ ⟨hvalid, Nat.le_refl _, Nat.le_add_right _ _⟩
    split at h
    · next a after hrun =>
      cases h
      have hafter : after.levels = t.levels := (hinner _ after hrun).levels_eq
      refine ⟨⟨[], rfl, .nil k⟩, ?_, hafter, rfl, .inl rfl⟩
      exact ⟨ht.inOrder, ht.previous_boundary, ht.stop_boundary, hafter ▸ ht.levels_le⟩
    · cases h

theorem template_closes {raw : String} (hs : s.Allows source k c)
    (hkind : s.current.kind = .template raw) : ClosesAt source s k 0 (template p raw) := by
  obtain ⟨hraw, -⟩ := hs.valid.template_hasText hkind
  have hadvance : ClosesAt source s k 0 advance := by
    intro _ t h
    cases h
    exact advance_passesBraces hs (by simp [hkind])
  unfold template
  rw [closesAt_get]
  refine .bind hadvance fun _ t _ ht => ?_
  refine .bind (mapM_closes _ (fun range hrange u hu hlevels => ?_) t ht.valid ht.levels_eq)
    fun parts u _ hu => push_fits _ _ _ source u k (hu.allows (ht.allows hs))
  cases range with
  | none =>
    intro id v h
    cases h
  | some range =>
    obtain ⟨front, middle, back, hsplit, hfront, hmiddle⟩ :=
      (interpolations_located raw.toList).exists_part hrange
    have hpart : source.HasText (range.shift (s.start + 1)) middle := by
      rw [hsplit] at hraw
      have hpart := hraw.part front middle back
      rwa [hfront, hmiddle, Nat.add_comm, Nat.add_comm _ range.stop] at hpart
    refine interpolation_closes hp hu hpart fun level hlevel => ?_
    -- the levels were there when the quote was, which stands before every interpolation
    have hle := hs.valid.levels_le level (hlevels ▸ hlevel)
    show level ≤ range.start + (s.start + 1)
    omega

end

end CodeMarkup.Grammar
