import CodeMarkup.Grammar.Markup
import CodeMarkup.Proofs.Parsing.Steps

namespace CodeMarkup.Grammar

open CodeMarkup.Parser

/-!
# Markup builds forests

Tags, json containers and templates.  The body of a tag may be empty, and the expressions of a
template are read by a parse of their own, whose tokens lie inside the token of the template.
-/

variable {p : Productions} {source : Source} {s t u : State} {ids : List NodeId} {id : NodeId}
  {rank : Nat}

/-! ### Tags -/

/-- The words of a name and the dashes between them touch, so that the name is one text. -/
theorem markupName_hasText {expected : String} (hs : s.IsSound source) :
    Ensures source s (markupName expected) fun name t => Takes source s [] t
      ∧ source.HasText ⟨s.start, t.previousStop⟩ name.toList := by
  unfold markupName
  rw [ensures_peek]
  split
  · exact ensures_unexpected hs.valid
  · next first hword =>
    have hrest := State.rest_ne_nil_of_read rfl hword
    refine (advance_passes hs hrest).bind fun _ t ⟨h, hstop⟩ => ?_
    have hfirst : source.HasText ⟨s.start, t.previousStop⟩ first.toList := by
      rw [s.kindAt_rest_zero] at hword
      rw [hstop, ← TokenKind.spelling_of_word hword]
      exact hs.valid.hasText_current hrest
    -- each round takes a dash and the word after it
    refine extend_ensures (I := fun name t => Takes source s [] t
      ∧ source.HasText ⟨s.start, t.previousStop⟩ name.toList) (fun name t ⟨h, hname⟩ => ?_)
      ⟨h, hfirst⟩
    rw [ensures_get, ensures_ahead]
    split
    · next before dash word more hprevious hmore =>
      split
      · next hjoined =>
        split
        · next text htext =>
          simp only [Bool.and_eq_true] at hjoined
          obtain ⟨⟨hdash, hbefore⟩, hafter⟩ := hjoined
          have hplaced := h.sound.valid.inOrder
          rw [hmore] at hplaced
          obtain _ | ⟨-, hdashPlaced, _ | ⟨-, hwordPlaced, -⟩⟩ := hplaced
          have hlast : t.previousStop = before.span.stop := by
            rw [State.previousStop, hprevious]
            rfl
          refine (advanceTwo_passes h.sound hmore).bind fun _ u ⟨hu, hstop⟩ => .pure ?_
          refine ⟨⟨h.trans hu.toYields, ?_⟩, hu.leads.length_lt hu.start_lt⟩
          rw [hlast] at hname
          rw [hstop]
          exact hname.join hdashPlaced hwordPlaced (eq_of_beq hdash) htext hbefore hafter
        · exact .pure ⟨h, hname⟩
      · exact .pure ⟨h, hname⟩
    · exact .pure ⟨h, hname⟩

theorem markupName_takes {expected : String} (hs : s.IsSound source) :
    Ensures source s (markupName expected) (fun _ t => Takes source s [] t) :=
  (markupName_hasText hs).mono fun _ _ h => h.1

theorem tagAttribute_makes (hr : Ready p source s 0) :
    Ensures source s (tagAttribute p) (Makes source s) := by
  unfold tagAttribute
  rw [ensures_start]
  refine (markupName_takes hr.sound).bind fun name t h => ?_
  refine h.thenNodes (optional_yields (g := Option.toList) rfl
    (guards_accept h.sound (by decide) fun u hu => ?_))
    fun value u h => pushFrom_makes h rfl rfl trivial (.none rfl)
  exact (hr.makesAfter (h.trans hu.toYields)).yieldsNode

theorem tagBody_wraps {name : String} (hr : Ready p source s 5) :
    Ensures source s (tagBody p name) (Wraps source s) := by
  unfold tagBody
  rw [ensures_start]
  -- the children, each with a comma after it or none
  have hchildren : Ensures source s (many (return !startsClosingTag (← ahead)) do
      if ← atEnd then unexpected ("'</" ++ name ++ ">'")
      else
        let child ← p .expression
        discard (accept .comma)
        return child) fun found t => Yields source s (found.flatMap ([·])) t := by
    refine many_yields hr.sound fun ids t ht => guards_reading ht.sound rfl fun _ => ?_
    rw [ensures_atEnd]
    split
    · exact ensures_unexpected ht.sound.valid
    · have hchild : Ensures source t (p .expression) (Makes source t) :=
        (hr.next ht).makes (by decide)
      refine hchild.bind fun child u h => ?_
      rw [ensures_discard]
      exact h.toYields.thenAccept (by decide) (fun v h => .pure ⟨h.toYields, h.start_lt⟩)
        (.pure ⟨h.toYields, h.start_lt⟩)
  refine hchildren.bind fun children t h => pushFrom_wraps h ?_ rfl trivial (.none rfl)
  show children = _
  simp

theorem tag_makes (hr : Ready p source s 0) : Ensures source s (tag p) (Makes source s) := by
  refine hr.nested fun levels hr => ?_
  rw [ensures_start]
  refine (expect_takes hr.sound (by decide)).bind fun _ t h => ?_
  refine h.toYields.thenToken (markupName_takes h.sound) fun name u h => ?_
  have hattributes : Ensures source u (many moreAttributes (tagAttribute p)) (Yields source u) :=
    many_nodes h.sound fun ids v hv => guards_reading hv.sound rfl fun _ =>
      tagAttribute_makes ((hr.after h).next hv)
  refine h.thenNodes hattributes fun attributes v h => ?_
  refine h.toYields.thenAccept (by decide) (fun w h => ?_) ?_
  · refine (tagBody_wraps (hr.after h)).bind fun body x hbody => ?_
    refine (advanceTwo_yields hbody.sound).bind fun _ y hy => ?_
    rw [ensures_start]
    refine (markupName_takes hy.sound).bind fun closing z hz => ?_
    split
    -- the body may be empty, but the closing tag after it takes tokens
    · have hstart : w.start < z.previousStop :=
        Nat.lt_of_le_of_lt (Nat.le_trans hbody.start_le hy.start_le) hz.taken
      have h' := h.toYields.trans_takes (hbody.takes (hy.trans hz.toYields) hstart)
      refine h'.toYields.thenToken (expect_takes h'.sound (by decide)) fun _ z h => ?_
      exact pushFrom_makes h rfl rfl trivial (.none rfl)
    · rw [ensures_get]
      exact ensures_fail rfl hz.toYields.hasSpan
  · refine h.thenNodes (g := fun _ => []) (advanceTwo_yields h.sound) fun _ w h => ?_
    refine pushFrom_makes h ?_ rfl trivial (.none rfl)
    show attributes ++ [] = _
    simp

/-! ### Json containers -/

theorem keyLiteral?_keyText {kind : TokenKind} {literal : Literal} {text : String}
    (h : keyLiteral? kind = some (literal, text)) :
    (NodeKind.literal literal).keyText? = some text ∧ kind.Spells (.literal literal) := by
  unfold keyLiteral? at h
  split at h <;> cases h <;> exact ⟨rfl, rfl⟩

/-- A key is a node of its own, which has the text of the key. -/
theorem jsonKey_makes (hs : s.IsSound source) :
    Ensures source s jsonKey fun found t =>
      Makes source s found.1 t ∧ (kindIn t.nodes found.1).keyText? = some found.2 := by
  unfold jsonKey
  rw [ensures_start, ensures_peek]
  split
  · next literal text hliteral =>
    have hrest := State.rest_ne_nil_of_read rfl hliteral
    obtain ⟨hkey, hspells⟩ := keyLiteral?_keyText hliteral
    refine (advance_spells hs hrest).bind fun _ t htaken => ?_
    obtain ⟨h, hspelled⟩ := htaken
    have hspelled := hspelled (s.current_spells rfl hspells)
    refine Ensures.bind (pushFrom_makesKind h rfl rfl trivial hspelled) fun key u hmade => ?_
    obtain ⟨h, hkind⟩ := hmade
    refine .pure ⟨h, ?_⟩
    rw [hkind]
    exact hkey
  · refine (markupName_hasText hs).bind fun name t htaken => ?_
    obtain ⟨h, hname⟩ := htaken
    have hspelled : (NodeKind.simpleName name).IsSpelled source (t.spanFrom s.start) := by
      refine NodeKind.IsSpelled.of_hasText rfl ?_
      rwa [State.spanFrom, Nat.max_eq_left (Nat.le_of_lt h.taken)]
    refine Ensures.bind (pushFrom_makesKind h rfl rfl trivial hspelled) fun key u hmade => ?_
    obtain ⟨h, hkind⟩ := hmade
    refine .pure ⟨h, ?_⟩
    rw [hkind]
    rfl

/-- Entries with keys that differ from each other and from the keys before them. -/
structure AreFresh (nodes : Array Node) (keys : List String) (entries : List NodeId) : Prop where
  keyed : ∀ entry ∈ entries, ∃ text ∉ keys, keyIn nodes entry = some text
  nodup : (entries.map (keyIn nodes)).Nodup

namespace AreFresh

variable {nodes : Array Node} {keys : List String} {entries : List NodeId} {entry : NodeId}
  {text : String}

theorem nil (nodes : Array Node) (keys : List String) : AreFresh nodes keys [] :=
  ⟨nofun, List.nodup_nil⟩

theorem cons (hkey : keyIn nodes entry = some text) (htext : text ∉ keys)
    (h : AreFresh nodes (keys ++ [text]) entries) : AreFresh nodes keys (entry :: entries) := by
  refine ⟨fun other hother => ?_, ?_⟩
  · rcases List.mem_cons.1 hother with rfl | hother
    · exact ⟨text, htext, hkey⟩
    · obtain ⟨found, hfound, hkey⟩ := h.keyed other hother
      exact ⟨found, fun hmem => hfound (List.mem_append_left _ hmem), hkey⟩
  · rw [List.map_cons, List.nodup_cons]
    refine ⟨fun hmem => ?_, h.nodup⟩
    -- a later entry with this key would have a key that was there before
    obtain ⟨other, hother, hsame⟩ := List.mem_map.1 hmem
    obtain ⟨found, hfound, hkey'⟩ := h.keyed other hother
    have heq : found = text := Option.some.inj (hkey'.symm.trans (hsame.trans hkey))
    exact hfound (heq ▸ List.mem_append_right _ (List.mem_singleton_self _))

theorem isKeyed (h : AreFresh nodes keys entries) :
    (NodeKind.json false entries).IsKeyed nodes := by
  refine ⟨fun entry hentry => ?_, h.nodup⟩
  obtain ⟨text, _, hkey⟩ := h.keyed entry hentry
  simp [hkey]

end AreFresh

/-- Entries of a json object, one round after another. -/
theorem jsonEntriesWithin_yields (rounds : Nat) (keys : List String) (hr : Ready p source s 0)
    (hlt : s.rest.length < rounds) :
    Ensures source s (jsonEntriesWithin p rounds keys) fun entries t =>
      Yields source s entries t ∧ AreFresh t.nodes keys entries := by
  induction rounds generalizing s keys with
  | zero => exact absurd hlt (Nat.not_lt_zero _)
  | succ rounds ih =>
    unfold jsonEntriesWithin
    rw [ensures_check]
    split
    · exact .pure ⟨.refl hr.sound, .nil _ _⟩
    · rw [ensures_start]
      refine (jsonKey_makes hr.sound).bind fun found t hfound => ?_
      obtain ⟨key, text⟩ := found
      obtain ⟨h, htext⟩ : Makes source s key t ∧ (kindIn t.nodes key).keyText? = some text := hfound
      dsimp only
      split
      · rw [ensures_spanOf (h.ids_lt _ (List.mem_singleton_self _))]
        refine ensures_fail rfl ?_
        -- a key that was there before: the fault is at its node
        show source.HasSpan (spanIn t.nodes key)
        have hspan := h.toYields.hasSpan
        rwa [State.spanFrom, Nat.max_eq_left (Nat.le_of_lt h.taken), ← h.span_eq] at hspan
      · next hnew =>
        have hfresh : text ∉ keys := by simpa using hnew
        refine (expect_takes h.sound (by decide)).bind fun _ u hu => ?_
        refine Ensures.bind (hr.makesAfter (h.trans hu.toYields)) fun value v hv => ?_
        have hparts : Takes source s [key, value] v := (h.trans hu.toYields).trans hv.toYields
        refine Ensures.bind (Ensures.leads (pushFrom_makesKind hparts rfl rfl trivial (.none rfl)))
          fun entry w hentry => ?_
        obtain ⟨hleads, hw, hkind⟩ := hentry
        -- the key has its text still when its entry is made
        have hkey : keyIn w.nodes entry = some text := by
          have hkept := (hu.leads.trans (hv.leads.trans hleads)).nodes_kept
          have hnode : kindIn t.nodes key ≠ .emptyStmt := by
            intro hblank
            rw [hblank] at htext
            cases htext
          rw [keyIn_eq hkind, kindIn_stable hkept hnode]
          exact htext
        refine (Yields.refl hw.sound).thenAccept (by decide) (fun x hx => ?_) ?_
        · have h' : Takes source s [entry] x := hw.toTakes.trans hx.toYields
          have hlen := h'.leads.length_lt h'.start_lt
          refine (ih (keys ++ [text]) (hr.after h') (by omega)).bind fun others y hrest => ?_
          obtain ⟨hy, hothers⟩ := hrest
          refine .pure ⟨h'.toYields.trans hy, .cons ?_ hfresh hothers⟩
          rw [keyIn_stable (hx.leads.trans hy.leads).nodes_kept (by simp [hkey]), hkey]
        · exact .pure ⟨hw.toYields, .cons hkey hfresh (.nil _ _)⟩

theorem jsonObject_makes (hr : Ready p source s 0) :
    Ensures source s (jsonObject p) (Makes source s) := by
  refine hr.nested fun levels hr => ?_
  rw [ensures_start]
  refine (expect_takes hr.sound (by decide)).bind fun _ t h => ?_
  rw [ensures_ahead]
  refine (jsonEntriesWithin_yields _ [] (hr.after h) (Nat.lt_succ_self _)).bind
    fun entries u ⟨hu, hfresh⟩ => ?_
  refine (expect_takes hu.sound (by decide)).bind fun _ v hv => ?_
  have hall : Closes source { s with levels := levels } entries v := by
    simpa using (h.toYields.trans hu).trans_closes hv.closes
  exact pushFrom_closes hall rfl rfl (hfresh.isKeyed.stable hv.leads.nodes_kept) (.none rfl)

theorem jsonArray_makes (hr : Ready p source s 0) :
    Ensures source s (jsonArray p) (Makes source s) := by
  refine hr.nested fun levels hr => ?_
  rw [ensures_start]
  refine (expect_takes hr.sound (by decide)).bind fun _ t h => ?_
  refine Ensures.bind (listUntil_yieldsAll
    (P := fun nodes entry => ∃ value, kindIn nodes entry = .jsonEntry none value) h.sound
    (by decide) (fun _ _ _ hkept ⟨value, hkind⟩ => ⟨value, kindIn_stable_eq hkept hkind nofun⟩)
    fun ids u hu => ?_) fun entries u ⟨hu, hbare⟩ => ?_
  · rw [ensures_start]
    refine Ensures.bind (hr.makesAfter (h.trans hu)) fun value v hv => ?_
    refine Ensures.mono (pushFrom_makesKind hv.toTakes rfl rfl trivial (.none rfl))
      fun _ _ ⟨hw, hkind⟩ => ?_
    exact ⟨hw, value, hkind⟩
  · refine (expect_takes hu.sound (by decide)).bind fun _ v hv => ?_
    have hall : Closes source { s with levels := levels } entries v := by
      simpa using (h.toYields.trans hu).trans_closes hv.closes
    have hkeyed : (NodeKind.json true entries).IsKeyed u.nodes := hbare
    exact pushFrom_closes hall rfl rfl (hkeyed.stable hv.leads.nodes_kept) (.none rfl)

theorem jsonDocument_makes (hr : Ready p source s 0) :
    Ensures source s (jsonDocument p) (Makes source s) := by
  unfold jsonDocument
  rw [ensures_peek]
  split
  · exact jsonObject_makes hr
  · exact jsonArray_makes hr
  · exact ensures_unexpected hr.sound.valid

/-! ### Templates -/

/-- From `t` to `u` the tokens stay where they are, and a row of nodes is there that was made out of
    other tokens, between two offsets. -/
structure Inserts (source : Source) (t : State) (n lo hi : Nat) (ids : List NodeId) (u : State) :
    Prop extends Row u.nodes n lo hi ids where
  leads : t.LeadsTo u
  same : u = { t with nodes := u.nodes }
  arena : IsArena source u.nodes
  accounts : Accounts source u.nodes n ids
  apart : AreApart u.nodes ids

theorem Inserts.isSound {n lo hi : Nat} (h : Inserts source t n lo hi ids u)
    (ht : t.IsSound source) : u.IsSound source :=
  ⟨h.same ▸ ht.valid.withNodes u.nodes, h.arena⟩

/-- The expression in a range of the source that lies inside a template read at `s`. -/
theorem interpolation_inserts {range : Span} {text : List Char} (hr : Ready p source s rank)
    (ht : t.IsSound source) (hlevels : t.levels = s.levels) (htext : source.HasText range text)
    (hstart : s.start < range.start) (hstop : range.stop ≤ s.stop) :
    Ensures source t (interpolation p range) fun id u =>
      Inserts source t t.nodes.size range.start range.stop [id] u := by
  have hstream := htext.isTokenStream
  unfold interpolation
  rw [ensures_read, Source.tokensIn?, Source.slice?_eq_some htext, Option.map_some]
  cases htokens : tokensFrom range.start text with
  | error error =>
    rw [htokens] at hstream
    exact ⟨.refl t, hstream⟩
  | ok tokens =>
    rw [htokens] at hstream
    obtain ⟨body, rfl, hbody⟩ := hstream
    refine ensures_onTokens ?_
    rw [State.ofTokens_concat]
    -- the state in which the expression is read; its levels are those open at the template
    have hinner : range.start ≤ (⟨[], body, range.stop, t.nodes, t.levels⟩ : State).start :=
      State.le_start hbody
    have hsound : State.IsSound source ⟨[], body, range.stop, t.nodes, t.levels⟩ := by
      refine ⟨⟨hbody.mono (Nat.zero_le _), nofun, htext.hasSpan.stop_boundary, ?_⟩, ht.arena⟩
      intro level hlevel
      have := hr.sound.valid.levels_le level (hlevels ▸ hlevel)
      omega
    have hle : (⟨[], body, range.stop, t.nodes, t.levels⟩ : State).start ≤ range.stop :=
      hsound.valid.start_le_stop
    -- less of the source is left than at the template, so expressions are right here
    have hless : range.stop - (⟨[], body, range.stop, t.nodes, t.levels⟩ : State).start
        < s.stop - s.start := by omega
    refine (hr.covers .expression _ hsound (.inl hless)).bind fun id u h => ?_
    refine (ensures_expectEnd h.sound.valid).bind fun _ v ⟨hv, _⟩ => .pure ?_
    subst hv
    have hlast : v.previousStop ≤ range.stop := by
      have hstop : v.stop = range.stop := h.leads.stop_eq
      rw [← hstop]
      exact Nat.le_trans h.sound.valid.previousStop_le_start h.sound.valid.start_le_stop
    refine ⟨h.toRow.mono hinner hlast, ?_, ?_, h.sound.arena, h.accounts, h.apart⟩
    · exact ⟨⟨[], rfl, rfl⟩, rfl, h.leads.levels_eq, h.leads.nodes_kept⟩
    · rw [h.leads.levels_eq]

/-- The expressions of a template, one range after another, in a text that stands at an offset. -/
theorem interpolations_insert {raw : List Char} {offset lo : Nat} {fault : Parser NodeId}
    (ranges : List (Option Span)) (hr : Ready p source s rank) (ht : Takes source s [] t)
    (hraw : source.HasText ⟨offset, offset + byteLength raw⟩ raw) (hstart : s.start < offset)
    (hstop : offset + byteLength raw ≤ s.stop) (hfault : ∀ u Q, Ensures source u fault Q)
    (hlocated : AreLocated raw lo ranges) (hlo : lo ≤ byteLength raw)
    (h : Inserts source t s.nodes.size s.start (offset + lo) ids u) :
    Ensures source u (ranges.mapM fun
        | some range => interpolation p (range.shift offset)
        | none => fault) fun parts v =>
      Inserts source t s.nodes.size s.start (offset + byteLength raw) (ids ++ parts) v := by
  induction ranges generalizing u ids lo with
  | nil =>
    rw [List.mapM_nil]
    refine .pure ?_
    rw [List.append_nil]
    exact ⟨h.toRow.mono (Nat.le_refl _) (by omega), h.leads, h.same, h.arena, h.accounts, h.apart⟩
  | cons range ranges ih =>
    rw [List.mapM_cons]
    cases range with
    | none => exact (hfault u fun _ _ => False).bind fun _ _ hfalse => hfalse.elim
    | some range =>
      obtain ⟨hle, ⟨front, middle, back, rfl, hfront, hmiddle⟩, hrest⟩ := hlocated
      -- the range, moved to where the text of the template stands
      have hpart : source.HasText ⟨range.start + offset, range.stop + offset⟩ middle := by
        have := hraw.part front middle back
        rwa [hfront, hmiddle, Nat.add_comm, Nat.add_comm _ range.stop] at this
      have hsmall := hpart.hasSpan.start_le
      have hwithin : range.stop ≤ byteLength (front ++ middle ++ back) := by
        rw [← hmiddle, byteLength_append _ back]
        exact Nat.le_add_right _ _
      dsimp only at hsmall
      have hlevels : u.levels = s.levels := h.leads.levels_eq.trans ht.leads.levels_eq
      have hbefore : offset + lo ≤ range.start + offset := by omega
      refine (interpolation_inserts hr (h.isSound ht.sound) hlevels hpart (by dsimp only; omega)
        (by dsimp only; omega)).bind fun part v hv => ?_
      -- the expression comes after the row so far, since its range starts after the last
      have hrow : Row v.nodes s.nodes.size s.start (offset + range.stop) (ids ++ [part]) :=
        .append h.arena hv.leads.nodes_kept (Nat.le_trans ht.leads.size_le h.leads.size_le)
          h.toRow (hv.toRow.mono (Nat.le_refl _) (Nat.le_of_eq (Nat.add_comm _ _))) hbefore
          (by dsimp only; omega) (by omega)
      have hapart : AreApart v.nodes (ids ++ [part]) := by
        refine .append (offset + lo) (h.apart.stable h.ids_lt hv.leads.nodes_kept) hv.apart
          (fun id hid => ?_) fun id hid => Nat.le_trans hbefore (hv.ids_inside id hid).1
        rw [spanIn_stable hv.leads.nodes_kept (h.ids_lt id hid)]
        exact (h.ids_inside id hid).2.2
      have hinserts :
          Inserts source t s.nodes.size s.start (offset + range.stop) (ids ++ [part]) v :=
        ⟨hrow, h.leads.trans hv.leads, by rw [hv.same, h.same], hv.arena,
          .append h.arena hv.leads.nodes_kept (Nat.le_trans ht.leads.size_le h.leads.size_le)
            h.accounts hv.accounts, hapart⟩
      refine (ih hrest hwithin hinserts).bind fun parts w hw => .pure ?_
      rwa [List.append_assoc ids] at hw

theorem template_makes {raw : String} (hr : Ready p source s rank)
    (hkind : s.current.kind = .template raw) :
    Ensures source s (template p raw) (Makes source s) := by
  have hrest := State.rest_ne_nil_of_kind (by simp) hkind
  obtain ⟨hplaced, hlast⟩ := hr.sound.valid.current_isPlaced hrest
  obtain ⟨hraw, hstop⟩ := hr.sound.valid.template_hasText hkind
  unfold template
  rw [ensures_get]
  -- the token of the template is taken before its text is read again
  refine (advance_passes hr.sound hrest).bind fun _ t htaken => ?_
  obtain ⟨h, hprevious⟩ := htaken
  have hnone : Inserts source t s.nodes.size s.start (s.start + 1 + 0) [] t :=
    ⟨h.toRow.empty _ _, .refl t, rfl, h.sound.arena, h.accounts, .nil⟩
  refine Ensures.bind (interpolations_insert _ hr h hraw (Nat.lt_succ_self _)
    (by show s.start + 1 + _ ≤ _; omega) (fun u Q => ?_) (interpolations_located raw.toList)
    (Nat.zero_le _) hnone) fun parts u hu => ?_
  · exact ensures_fail rfl hr.sound.valid.hasSpan_current
  · -- the node spans the token, since that is the last one taken
    have hsame : u.previousStop = t.previousStop ∧ u.start = t.start := by
      rw [hu.same]
      exact ⟨rfl, rfl⟩
    have hspan : s.current.span = u.spanFrom s.start := by
      have hle : s.start ≤ s.current.span.stop := Nat.le_of_lt hplaced.start_lt
      rw [State.spanFrom, hsame.1, hprevious, Nat.max_eq_left hle]
      rfl
    have htaken : Takes source s parts u := by
      refine ⟨⟨⟨hu.toRow.mono (Nat.le_refl _) ?_, h.origin, hu.isSound h.sound,
        h.leads.trans hu.leads, hsame.2 ▸ h.start_le, hsame.1 ▸ h.previousStop_le, hu.accounts⟩,
        hu.apart⟩, hsame.1 ▸ h.taken⟩
      show s.start + 1 + _ ≤ _
      omega
    -- the expressions stand before the closing quote
    have hpast : ArePast u.nodes u.previousStop parts := by
      intro part hpart
      have hinside : (spanIn u.nodes part).stop ≤ s.start + 1 + byteLength raw.toList :=
        (hu.ids_inside part hpart).2.2
      exact ⟨hu.ids_lt part hpart, by omega⟩
    have hspelled : (NodeKind.template raw parts).IsSpelled source s.current.span := by
      refine NodeKind.IsSpelled.of_hasText rfl ?_
      have htext := hplaced.hasText
      rwa [hkind] at htext
    rw [hspan] at hspelled ⊢
    exact push_makes htaken rfl (NodeKind.isMarked_none rfl) hpast hspelled

end CodeMarkup.Grammar
