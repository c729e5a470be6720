import CodeMarkup.Proofs.Nesting.Markup
import CodeMarkup.Proofs.Traces.Types

namespace CodeMarkup.Grammar

open CodeMarkup.Parser

/-!
# Traces of markup

Tags, json containers and templates.  What is read in the expressions of a template is a trace of
its own, inside that of the template.

* `tag_traced`, `jsonObject_traced`, `jsonArray_traced`: containers.
* `template_traced`: a template with its expressions.
-/

variable {p : Productions} {source : Source} {s : State}

/-! ### Tags -/

theorem markupName_traced (expected : String) : Traced 0 (markupName expected) := by
  intro source s
  unfold markupName
  rw [tracedAt_peek]
  split
  · exact unexpected_traced expected source s
  · next first hword =>
    refine .advance (isParen_of_read rfl rfl hword) (extend_traced (fun name => ?_) first)
    intro source s
    rw [tracedAt_get, tracedAt_ahead]
    split
    · next before dash word more _ hmore =>
      split
      · next htouch =>
        split
        · next text htext =>
          -- the two tokens ahead are a dash and a word
          have hfirst : (kindAt s.rest 0).isParen = false := by
            rw [Bool.and_eq_true, Bool.and_eq_true] at htouch
            rw [hmore]
            exact isParen_of_beq htouch.1.1 rfl
          have hsecond : (kindAt s.rest 1).isParen = false := by
            rw [hmore]
            exact isParen_of_read rfl rfl htext
          exact .advanceTwo hfirst hsecond (.pure _)
        · exact Traced.pure none source s
      · exact Traced.pure none source s
    · exact Traced.pure none source s

theorem startsClosingTag_isParen {tokens : List Token} (h : startsClosingTag tokens = true) :
    (kindAt tokens 0).isParen = false ∧ (kindAt tokens 1).isParen = false := by
  match tokens with
  | [] | [_] => cases h
  | a :: b :: _ =>
    rw [startsClosingTag, Bool.and_eq_true, Bool.and_eq_true] at h
    exact ⟨isParen_of_beq h.1.1 rfl, isParen_of_beq h.1.2 rfl⟩

section

variable (hp : p.Traced)

include hp

theorem tagAttribute_traced : Traced 0 (tagAttribute p) := by
  apply Traced.bind start_traced
  intro origin
  apply Traced.bind (markupName_traced _)
  intro name
  refine Traced.bind (optional_traced (accept_traced rfl) (hp.traced _)) fun value => ?_
  exact pushFrom_traced rfl _

theorem tagBody_traced (name : String) : Traced 0 (tagBody p name) := by
  apply Traced.bind start_traced
  intro origin
  refine Traced.bind (many_traced test_traced ?_) fun children => pushFrom_traced rfl _
  refine Traced.branch atEnd_traced (unexpected_traced _) ?_
  apply Traced.bind (hp.traced _)
  intro child
  exact Traced.bind (Traced.discard (accept_traced rfl)) fun _ => .pure child

/-- The closing half of a tag, after its body. -/
theorem tagEnd_traced (name : String) (origin : Nat) (attributes : List NodeId) :
    Traced 0 (do
      let body ← tagBody p name
      advanceTwo
      let closeStart ← start
      let closing ← markupName "closing tag name"
      if closing == name then
        expect (.operator ">")
        pushFrom origin (.tag name attributes (some body))
      else fail (.mismatchedClosingTag name closing) ((← get).spanFrom closeStart)) := by
  intro source s
  refine .bind (tagBody_traced hp name source s) fun body t hrun => ?_
  obtain ⟨hfirst, hsecond⟩ := startsClosingTag_isParen (tagBody_stops hrun)
  refine .advanceTwo hfirst hsecond ?_
  apply Traced.bind start_traced
  intro closeStart
  apply Traced.bind (markupName_traced _)
  intro closing
  split
  · exact Traced.token rfl (pushFrom_traced rfl _)
  · exact Traced.bind get_traced fun _ => fail_traced _ _

theorem tag_traced : Traced 0 (tag p) := by
  apply nested_traced
  apply Traced.bind start_traced
  intro origin
  refine Traced.token rfl ?_
  apply Traced.bind (markupName_traced _)
  intro name
  -- after the attributes the tag is either open or closed at once
  refine Traced.manyWhile (fun s => !(kindAt s.rest 0 == .operator "/"
      && kindAt s.rest 1 == .operator ">") && kindAt s.rest 0 != .operator ">")
    (fun _ _ => rfl) (fun source s _ => tagAttribute_traced hp source s) ?_
  intro attributes source s hend id t h
  obtain ⟨found, u, haccept, hrest⟩ := bind_eq_ok h
  obtain ⟨rfl, hkind, rfl⟩ | ⟨rfl, hkind, rfl⟩ := accept_eq_ok haccept
  · exact advance_trace (isParen_of_eq hkind rfl)
      (tagEnd_traced hp name origin attributes source _ id t hrest)
  · rw [← State.kindAt_rest_zero] at hkind
    simp only [Bool.and_eq_false_iff, Bool.not_eq_false', Bool.and_eq_true, beq_iff_eq,
      bne_eq_false_iff_eq, hkind, or_false] at hend
    exact TracedAt.advanceTwo (f := fun _ => pushFrom origin (.tag name attributes none))
      (isParen_of_eq hend.1 rfl) (isParen_of_eq hend.2 rfl) (pushFrom_traced rfl _) id t hrest

end

/-! ### Json containers -/

theorem jsonKey_traced : Traced 0 jsonKey := by
  intro source s
  unfold jsonKey
  rw [tracedAt_start, tracedAt_peek]
  split
  · next literal text hliteral =>
    refine .advance (isParen_of_read rfl rfl hliteral) ?_
    exact Traced.bind (pushFrom_traced rfl _) fun key => .pure _
  · refine Traced.bind (markupName_traced _) (fun name => ?_) source s
    exact Traced.bind (pushFrom_traced rfl _) fun key => .pure _

section

variable (hp : p.Traced)

include hp

theorem jsonEntriesWithin_traced (rounds : Nat) (keys : List String) :
    Traced 0 (jsonEntriesWithin p rounds keys) := by
  induction rounds generalizing keys with
  | zero => exact exhausted_traced
  | succ rounds ih =>
    refine Traced.branch (check_traced _) (.pure _) ?_
    apply Traced.bind start_traced
    intro origin
    apply Traced.bind jsonKey_traced
    rintro ⟨key, text⟩
    dsimp only
    split
    · exact Traced.bind (spanOf_traced key) fun span => fail_traced _ _
    · refine Traced.token rfl ?_
      apply Traced.bind (hp.traced _)
      intro value
      apply Traced.bind (pushFrom_traced rfl _)
      intro entry
      refine Traced.branch (accept_traced rfl) ?_ (.pure _)
      exact Traced.bind (ih _) fun others => .pure _

theorem jsonObject_traced : Traced 0 (jsonObject p) := by
  apply nested_traced
  apply Traced.bind start_traced
  intro origin
  refine Traced.token rfl ?_
  apply Traced.bind ahead_traced
  intro tokens
  apply Traced.bind (jsonEntriesWithin_traced hp _ _)
  intro entries
  exact Traced.token rfl (pushFrom_traced rfl _)

theorem jsonArray_traced : Traced 0 (jsonArray p) := by
  apply nested_traced
  apply Traced.bind start_traced
  intro origin
  refine Traced.token rfl ?_
  refine Traced.bind (listUntil_traced rfl ?_) fun entries =>
    Traced.token rfl (pushFrom_traced rfl _)
  apply Traced.bind start_traced
  intro entryStart
  exact Traced.bind (hp.traced _) fun value => pushFrom_traced rfl _

theorem jsonDocument_traced : Traced 0 (jsonDocument p) := by
  apply Traced.bind (peek_traced 0)
  intro kind
  split
  · exact jsonObject_traced hp
  · exact jsonArray_traced hp
  · exact unexpected_traced _

/-! ### Templates -/

theorem interpolation_traced (range : Span) : Traced 0 (interpolation p range) := by
  apply Traced.bind read_traced
  intro text
  split
  · apply onTokens_traced
    apply Traced.bind (hp.traced _)
    intro expression
    exact Traced.bind expectEnd_traced fun _ => .pure expression
  · exact traced_of_fails fun _ _ => ⟨_, _, rfl⟩
  · exact fail_traced _ _

/-- A template, where it is the next token. -/
theorem template_traced {raw : String} (hkind : kindAt s.rest 0 = .template raw) :
    TracedAt source s 0 (template p raw) := by
  unfold template
  rw [tracedAt_get]
  refine .advance (isParen_of_eq hkind rfl) ?_
  refine Traced.bind (mapM_traced _ fun range => ?_) fun parts => push_traced rfl _ none
  cases range with
  | none => exact fail_traced _ _
  | some range => exact interpolation_traced hp _

end

end CodeMarkup.Grammar
