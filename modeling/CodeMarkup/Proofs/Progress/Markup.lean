import CodeMarkup.Grammar.Markup
import CodeMarkup.Proofs.Progress.Rules

namespace CodeMarkup

/-!
# Progress of markup

Tags, json containers and templates.  The expressions in a template are read from tokens of their
own, cut out of the source; the text of the template bounds what these weigh, and the token of the
template weighs more than its text.

* `Source.weight_tokensIn?`: the tokens of a range weigh no more than the range is long.
* `Grammar.interpolation_moves`: an interpolation leaves the tokens at hand where they are.
* `Grammar.template_builds`: a template takes its token.
-/

/-! ### Tokens of a range -/

theorem Token.IsPlaced.weight_le {source : Source} {token : Token} (h : token.IsPlaced source) :
    token.span.start + token.weight ≤ token.span.stop := by
  unfold weight
  split
  · next raw hkind =>
    -- a template is spelled by its text between two quotes
    obtain ⟨_, _, _, _, hstop⟩ := h.hasText
    rw [hkind, TokenKind.spelling, String.toList_append, String.toList_append, byteLength_append,
      byteLength_append] at hstop
    have hquote : byteLength "`".toList = 1 := by decide
    omega
  · exact h.start_lt

theorem InOrder.weight_le {source : Source} {lo hi : Nat} {tokens : List Token}
    (h : InOrder source lo tokens hi) : lo + totalWeight tokens ≤ hi := by
  induction h with
  | nil hle => exact hle
  | cons hstart htoken _ ih =>
    have hweight := htoken.weight_le
    rw [totalWeight_cons]
    omega

/-- The tokens of a range weigh no more than the range is long. -/
theorem Source.weight_tokensIn? {source : Source} {range : Span} {tokens : List Token}
    (h : source.tokensIn? range = some (.ok tokens)) :
    (State.ofTokens tokens).weight ≤ range.stop - range.start := by
  obtain ⟨text, hslice, htokens⟩ := Option.map_eq_some_iff.1 h
  have hstream := (hasText_of_slice? hslice).isTokenStream
  rw [htokens] at hstream
  obtain ⟨body, rfl, hbody⟩ := hstream
  have hweight := hbody.weight_le
  rw [State.ofTokens_concat]
  show totalWeight body ≤ _
  omega

/-- An error in the tokens of a range is one of the text. -/
theorem Source.tokensIn?_ne_exhausted {source : Source} {range : Span} {error : ParseError}
    (h : source.tokensIn? range = some (.error error)) : error.fault ≠ .exhausted := by
  obtain ⟨text, hslice, htokens⟩ := Option.map_eq_some_iff.1 h
  have hstream := (hasText_of_slice? hslice).isTokenStream
  rw [htokens] at hstream
  intro hfault
  have hgenuine := hstream.genuine
  rw [hfault] at hgenuine
  cases hgenuine

/-- The token of a template weighs more than its text. -/
theorem State.lt_weight_of_template {s : State} {raw : String}
    (h : s.current.kind = .template raw) : byteLength raw.toList < s.weight := by
  unfold current at h
  unfold weight
  cases hrest : s.rest with
  | nil =>
    rw [hrest] at h
    cases h
  | cons token rest =>
    rw [hrest] at h
    have hkind : token.kind = .template raw := h
    rw [totalWeight_cons, Token.weight, hkind]
    dsimp only
    omega

namespace Grammar

open Parser

variable {full : Prop} {p : Productions} {source : Source} {s t : State}

/-! ### Tags -/

theorem markupName_took {expected : String} :
    Moves full source s (markupName expected) fun _ => s.Took := by
  refine .ask rfl ?_
  split
  · exact moves_unexpected
  · next first hword =>
    refine (advance_took (State.rest_ne_nil_of_read rfl hword)).bind fun _ t _ h => ?_
    refine extend_moves (fun _ _ _ hu h => h.trans_grows hu) (fun name t _ h => ?_) h
    refine .ask rfl (.ask rfl ?_)
    split
    · next before dash word rest hprevious hrest =>
      split
      · split
        · have hne : t.rest ≠ [] := hrest ▸ List.cons_ne_nil _ _
          exact (advanceTwo_took hne).bind fun _ u hu htook =>
            .pure ⟨htook, h.trans_grows hu⟩
        · exact .pure trivial
      · exact .pure trivial
    · exact .pure trivial

theorem tagAttribute_builds (hp : Supplies full p source s 0) :
    Moves full source s (tagAttribute p) (Builds s) := by
  refine .ask rfl (markupName_took.bind fun name t _ h => ?_)
  refine h.andThen (optional_moves (accept_guards (by nofun) fun u hu => ?_)) fun _ _ h _ =>
    pushFrom_builds h
  exact (hp.buildsAfter (h.trans_grows hu.toGrows)).any

/-- The expressions of a body; there may be none. -/
theorem tagBody_moves {name : String} (hp : Supplies full p source s 5) :
    Moves full source s (tagBody p name) fun _ _ => True := by
  refine .ask rfl (.bind (many_moves fun t ht => reading_guards rfl fun _ => .ask rfl ?_)
    fun _ _ _ _ => pushFrom_moves.any)
  split
  · exact moves_unexpected
  · refine .bind ((hp.next ht).took (by decide)) fun child u _ hu => ?_
    exact hu.andThen accept_moves.discard fun _ _ hv _ => .pure hv

theorem tag_builds (hp : Supplies full p source s 0) :
    Moves full source s (tag p) (Builds s) := by
  refine nested_builds fun levels => .ask rfl ((expect_took (by nofun)).bind fun _ t _ h => ?_)
  refine h.andThen markupName_took fun name u h _ => ?_
  refine h.andThen (many_moves fun v hv => reading_guards rfl fun _ =>
    (tagAttribute_builds ((hp.withLevels levels).after (h.trans_grows hv))).took)
    fun attributes v h _ => ?_
  refine h.toGrows.andAccept (by nofun) (fun w h => ?_) ?_
  · refine h.andThen (tagBody_moves ((hp.withLevels levels).after h)) fun body w h _ => ?_
    refine h.andThen advanceTwo_moves fun _ w h _ => .ask rfl ?_
    refine h.andThen markupName_took fun closing w h _ => ?_
    split
    · exact h.andThen (expect_took (by nofun)) fun _ _ h _ => pushFrom_builds h
    · exact .ask rfl (moves_fail (by nofun))
  · exact h.andThen advanceTwo_moves fun _ _ h _ => pushFrom_builds h

/-! ### Json containers -/

theorem jsonKey_builds : Moves full source s jsonKey fun found t => Builds s found.1 t := by
  refine .ask rfl (.ask rfl ?_)
  split
  · next literal text hliteral =>
    refine (advance_took (State.rest_ne_nil_of_read rfl hliteral)).bind fun _ t _ h => ?_
    exact (pushFrom_builds h).bind fun _ _ _ hid => .pure hid
  · refine markupName_took.bind fun name t _ h => ?_
    exact (pushFrom_builds h).bind fun _ _ _ hid => .pure hid

/-- The entries of an object.  A round that is not the last takes a comma. -/
theorem jsonEntries_moves (hp : Supplies full p source s 0) (rounds : Nat) (keys : List String)
    (hrounds : s.rest.length < rounds) :
    Moves full source s (jsonEntriesWithin p rounds keys) fun _ _ => True := by
  induction rounds generalizing s keys with
  | zero => exact absurd hrounds (Nat.not_lt_zero _)
  | succ rounds ih =>
    refine .ask rfl ?_
    split
    · exact .pure trivial
    · refine .ask rfl (jsonKey_builds.bind fun ⟨key, text⟩ t _ h => ?_)
      dsimp only
      split
      · refine .assoc (moves_lookup h.id_lt fun node => ?_)
        exact moves_fail (by nofun)
      · refine h.toTook.andThen (expect_took (by nofun)) fun _ u h _ => ?_
        refine h.andThen (hp.buildsAfter h) fun value u h _ => ?_
        refine h.andThen pushFrom_moves fun entry u h _ => ?_
        refine h.toGrows.andAccept (by nofun) (fun v h => ?_) (.pure trivial)
        have hless := h.length_lt
        exact (ih (hp.after h) _ (by omega)).bind fun _ _ _ _ => .pure trivial

theorem jsonObject_builds (hp : Supplies full p source s 0) :
    Moves full source s (jsonObject p) (Builds s) := by
  refine nested_builds fun levels => .ask rfl ((expect_took (by nofun)).bind fun _ t _ h => ?_)
  refine .ask rfl (h.andThen (jsonEntries_moves ((hp.withLevels levels).after h) _ _
    (Nat.lt_succ_self _)) fun entries u h _ => ?_)
  exact h.andThen (expect_took (by nofun)) fun _ _ h _ => pushFrom_builds h

theorem jsonArray_builds (hp : Supplies full p source s 0) :
    Moves full source s (jsonArray p) (Builds s) := by
  refine nested_builds fun levels => .ask rfl ((expect_took (by nofun)).bind fun _ t _ h => ?_)
  refine h.andThen (listUntil_moves (by nofun) fun u hu => .ask rfl ?_) fun entries u h _ => ?_
  · exact ((hp.withLevels levels).buildsAfter (h.trans_grows hu)).bind fun _ _ _ _ =>
      pushFrom_moves.any
  · exact h.andThen (expect_took (by nofun)) fun _ _ h _ => pushFrom_builds h

theorem jsonDocument_builds (hp : Supplies full p source s 0) :
    Moves full source s (jsonDocument p) (Builds s) := by
  refine .ask rfl ?_
  split
  · exact jsonObject_builds hp
  · exact jsonArray_builds hp
  · exact moves_unexpected

/-! ### Templates -/

/-- The expression in a range that is shorter than what was left. -/
theorem interpolation_moves {rank : Nat} {range : Span} (hp : Supplies full p source s rank)
    (hrange : range.stop - range.start < s.weight) :
    Moves full source t (interpolation p range) fun _ _ => True := by
  refine .ask rfl ?_
  split
  · next tokens htokens =>
    have hweight := Source.weight_tokensIn? htokens
    refine onTokens_moves ?_
    refine .bind (hp .expression _ (.inl (Nat.lt_of_le_of_lt hweight hrange))) fun _ u _ _ => ?_
    refine .bind (P := fun _ _ => True) (.ask rfl ?_) fun _ _ _ _ => .pure trivial
    split
    · exact .pure trivial
    · exact moves_fail (by nofun)
  · next error htokens => exact ⟨.refl t, fun _ => Source.tokensIn?_ne_exhausted htokens⟩
  · exact moves_fail (by nofun)

/-- Items one after another. -/
theorem mapM_moves {α β : Type} {f : α → Parser β} {items : List α}
    (h : ∀ item ∈ items, ∀ u, Moves full source u (f item) fun _ _ => True) :
    Moves full source t (items.mapM f) fun _ _ => True := by
  induction items generalizing t with
  | nil =>
    rw [List.mapM_nil]
    exact .pure trivial
  | cons item items ih =>
    obtain ⟨hitem, hothers⟩ := List.forall_mem_cons.1 h
    rw [List.mapM_cons]
    exact (hitem t).bind fun _ _ _ _ => (ih hothers).bind fun _ _ _ _ => .pure trivial

theorem template_builds {raw : String} {rank : Nat} (hp : Supplies full p source s rank)
    (hkind : s.current.kind = .template raw) :
    Moves full source s (template p raw) (Builds s) := by
  refine .ask rfl ?_
  refine (advance_took (State.rest_ne_nil_of_kind (by simp) hkind)).bind fun _ t _ h => ?_
  refine h.andThen (mapM_moves fun range hmem u => ?_) fun _ _ h _ => push_builds h
  cases range with
  | none => exact moves_fail (by nofun)
  | some range =>
    -- a range lies inside the text, which weighs less than its token
    obtain ⟨front, middle, back, hraw, -, hstop⟩ :=
      (interpolations_located raw.toList).exists_part hmem
    have hlt := State.lt_weight_of_template hkind
    rw [hraw, byteLength_append, hstop] at hlt
    refine interpolation_moves hp ?_
    show range.stop + _ - (range.start + _) < _
    omega

end Grammar

end CodeMarkup
