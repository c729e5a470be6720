import CodeMarkup.Proofs.Parsing.Outcome
import CodeMarkup.Proofs.Trivia.Alike

namespace CodeMarkup

/-!
# Two parses side by side

A logic for two computations that run on texts which look alike, or on one text.

* `Twin`: states of the two parses between the same two tokens, with the same nodes made so far.
  The first run may be inside more levels than the second.
* `Agreement`: results of which both are failures with the same fault, or both are successes with
  related values in twin states.  A result that has run out of its bound agrees with every other
  one, since the two texts differ in length and so do the bounds; and so does a run that is nested
  too deep, if it started inside more levels than the other one.
* `Agree`: computations that agree from all twin states.  `Agree.bind` is the rule for sequences,
  and each computation that productions are made of agrees with itself.

On one text, twin states differ in their levels only, so offsets are carried along as equal ones
there: that is what `a = b → m = n` says.
-/

/-! ### Twin states -/

/-- States of two parses between the same two tokens.  Nesting levels that start at the next token
    are the same ones, and so are the forms of the nodes.  The first state may have more levels, all
    of which start before the next token. -/
structure Twin (a b : Source) (s t : State) : Prop where
  left : s.IsValid a
  right : t.IsValid b
  rest : Alike s.rest t.rest
  -- for dashed names, which are joined while a token touches the one taken last
  previous : s.previous.map (fun token => s.rest.head?.any token.touches)
    = t.previous.map fun token => t.rest.head?.any token.touches
  -- a level is compared with the next token only, never with another level
  levels : ∃ more, s.levels.map (· == s.start)
    = t.levels.map (· == t.start) ++ List.replicate more false
  kinds : s.nodes.map Node.kind = t.nodes.map Node.kind
  same : a = b → ∃ levels, s = { t with levels := levels }

/-- Levels that start before a place do not start there. -/
theorem map_levels_eq {levels : List Nat} {start : Nat} (h : ∀ level ∈ levels, level < start) :
    levels.map (· == start) = List.replicate levels.length false := by
  refine List.eq_replicate_iff.2 ⟨List.length_map _, fun found hfound => ?_⟩
  obtain ⟨level, hlevel, rfl⟩ := List.mem_map.1 hfound
  exact beq_eq_false_iff_ne.2 (Nat.ne_of_lt (h level hlevel))

/-- No level starts at the token after the next one. -/
theorem State.IsValid.levels_lt_advance {source : Source} {s : State} (h : s.IsValid source)
    (hrest : s.rest ≠ []) : ∀ level ∈ s.levels, level < s.advance.start := by
  intro level hlevel
  obtain ⟨hvalid, htaken⟩ := h.advance hrest
  have hle := h.levels_le level hlevel
  have hnext := hvalid.previousStop_le_start
  omega

namespace Twin

variable {a b : Source} {s t : State}

theorem kind_eq (h : Twin a b s t) : s.current.kind = t.current.kind := by
  rw [← s.kindAt_rest_zero, ← t.kindAt_rest_zero, h.rest.kindAt_eq]

theorem rest_eq_nil_iff (h : Twin a b s t) : s.rest = [] ↔ t.rest = [] := by
  rw [← List.isEmpty_iff, ← List.isEmpty_iff, h.rest.isEmpty_eq]

theorem length_levels_le (h : Twin a b s t) : t.levels.length ≤ s.levels.length := by
  obtain ⟨more, hlevels⟩ := h.levels
  have hlength := congrArg List.length hlevels
  rw [List.length_map, List.length_append, List.length_map] at hlength
  omega

theorem start_eq (h : Twin a b s t) (hab : a = b) : s.start = t.start := by
  obtain ⟨levels, rfl⟩ := h.same hab
  rfl

theorem spanFrom_eq (h : Twin a b s t) (hab : a = b) (offset : Nat) :
    s.spanFrom offset = t.spanFrom offset := by
  obtain ⟨levels, rfl⟩ := h.same hab
  rfl

theorem nodes_eq (h : Twin a b s t) (hab : a = b) : s.nodes = t.nodes := by
  obtain ⟨levels, rfl⟩ := h.same hab
  rfl

/-- The innermost level starts at the next token in both states or in neither. -/
theorem innermost_iff (h : Twin a b s t) :
    s.levels.head? = some s.start ↔ t.levels.head? = some t.start := by
  obtain ⟨more, hlevels⟩ := h.levels
  have hheads := congrArg List.head? hlevels
  have hhead : ∀ {levels : List Nat} {start : Nat},
      levels.head? = some start ↔ (levels.map (· == start)).head? = some true := by
    intro levels start
    cases levels with
    | nil => exact iff_of_false nofun nofun
    | cons level levels => simp
  rw [hhead, hheads, hhead, List.head?_append]
  -- a level that only the first state has is none of those that start at the next token
  cases (t.levels.map (· == t.start)).head? with
  | some first => exact Iff.rfl
  | none =>
    refine iff_of_false (fun hmore => ?_) nofun
    have hmem := List.mem_of_mem_head? hmore
    cases List.eq_of_mem_replicate hmem

/-- States past the same token are twins whatever their levels are, since all of these start before
    the token that is next then. -/
theorem of_advance (hleft : s.IsValid a) (hright : t.IsValid b) (halike : Alike s.rest t.rest)
    (hrest : s.rest ≠ []) (hlength : t.levels.length ≤ s.levels.length)
    (hkinds : s.nodes.map Node.kind = t.nodes.map Node.kind)
    (hsame : a = b → ∃ levels, s = { t with levels := levels }) :
    Twin a b s.advance t.advance := by
  have hrest' : t.rest ≠ [] := by
    rwa [Ne, ← List.isEmpty_iff, ← halike.isEmpty_eq, List.isEmpty_iff]
  have hlevels := map_levels_eq (hleft.levels_lt_advance hrest)
  have hlevels' := map_levels_eq (hright.levels_lt_advance hrest')
  obtain ⟨hvalid, -⟩ := hleft.advance hrest
  obtain ⟨hvalid', -⟩ := hright.advance hrest'
  cases hcons : s.rest with
  | nil => exact absurd hcons hrest
  | cons x xs =>
    cases hcons' : t.rest with
    | nil => exact absurd hcons' hrest'
    | cons y ys =>
      have hs : s.advance = { s with taken := x :: s.taken, rest := xs } := by
        rw [State.advance, hcons]
      have ht : t.advance = { t with taken := y :: t.taken, rest := ys } := by
        rw [State.advance, hcons']
      have hsame' : a = b → ∃ levels, s.advance = { t.advance with levels := levels } := by
        intro hab
        obtain ⟨levels, rfl⟩ := hsame hab
        refine ⟨levels, ?_⟩
        rw [State.advance, State.advance, hcons']
      rw [hs] at hvalid hlevels hsame' ⊢
      rw [ht] at hvalid' hlevels' hsame' ⊢
      rw [hcons, hcons'] at halike
      cases halike with
      | cons _ htouches halike =>
        refine ⟨hvalid, hvalid', halike, congrArg some htouches,
          ⟨s.levels.length - t.levels.length, ?_⟩, hkinds, hsame'⟩
        rw [hlevels, hlevels', List.replicate_append_replicate, Nat.add_sub_cancel' hlength]

/-- Both states go on past the next token. -/
theorem advance (h : Twin a b s t) : Twin a b s.advance t.advance := by
  by_cases hrest : s.rest = []
  · have hrest' := h.rest_eq_nil_iff.1 hrest
    have hs : s.advance = s := by rw [State.advance, hrest]
    have ht : t.advance = t := by rw [State.advance, hrest']
    rwa [hs, ht]
  · exact .of_advance h.left h.right h.rest hrest h.length_levels_le h.kinds h.same

/-- Both states with other nodes of the same forms. -/
theorem withNodes {nodes nodes' : Array Node} (h : Twin a b s t)
    (hkinds : nodes.map Node.kind = nodes'.map Node.kind) (hnodes : a = b → nodes = nodes') :
    Twin a b { s with nodes := nodes } { t with nodes := nodes' } := by
  refine ⟨h.left.withNodes nodes, h.right.withNodes nodes', h.rest, h.previous, h.levels, hkinds,
    fun hab => ?_⟩
  obtain ⟨levels, rfl⟩ := h.same hab
  exact ⟨levels, by rw [hnodes hab]⟩

/-- One level more, which starts at the next token. -/
theorem openLevel (h : Twin a b s t) :
    Twin a b { s with levels := s.start :: s.levels } { t with levels := t.start :: t.levels } := by
  obtain ⟨more, hlevels⟩ := h.levels
  refine ⟨h.left.withLevels ?_, h.right.withLevels ?_, h.rest, h.previous, ⟨more, ?_⟩, h.kinds,
    fun hab => ?_⟩
  · exact List.forall_mem_cons.2 ⟨Nat.le_refl _, h.left.levels_le⟩
  · exact List.forall_mem_cons.2 ⟨Nat.le_refl _, h.right.levels_le⟩
  · show (s.start == s.start) :: s.levels.map (· == s.start)
      = (t.start == t.start) :: t.levels.map (· == t.start) ++ List.replicate more false
    rw [hlevels, beq_self_eq_true, beq_self_eq_true, List.cons_append]
  · obtain ⟨levels, rfl⟩ := h.same hab
    exact ⟨_, rfl⟩

/-- One level less, where both states have one that was opened. -/
theorem closeLevel (h : Twin a b s t) (hopen : t.levels ≠ []) :
    Twin a b { s with levels := s.levels.tail } { t with levels := t.levels.tail } := by
  obtain ⟨more, hlevels⟩ := h.levels
  refine ⟨h.left.withLevels ?_, h.right.withLevels ?_, h.rest, h.previous, ⟨more, ?_⟩, h.kinds,
    fun hab => ?_⟩
  · exact fun level hlevel => h.left.levels_le level (List.mem_of_mem_tail hlevel)
  · exact fun level hlevel => h.right.levels_le level (List.mem_of_mem_tail hlevel)
  · show s.levels.tail.map (· == s.start)
      = t.levels.tail.map (· == t.start) ++ List.replicate more false
    rw [List.map_tail, List.map_tail, hlevels, List.tail_append_of_ne_nil]
    rwa [Ne, List.map_eq_nil_iff]
  · obtain ⟨levels, rfl⟩ := h.same hab
    exact ⟨_, rfl⟩

end Twin

/-! ### Results and computations that agree -/

/-- Results of two computations that started in `s` and in `t`. -/
inductive Agreement (a b : Source) {α β : Type} (R : α → β → Prop) (s t : State) :
    EStateM.Result ParseError State α → EStateM.Result ParseError State β → Prop where
  | exhaustedLeft {error : ParseError} {s' : State} {result : EStateM.Result ParseError State β}
      (h : error.fault = .exhausted) : Agreement a b R s t (.error error s') result
  | exhaustedRight {error : ParseError} {t' : State} {result : EStateM.Result ParseError State α}
      (h : error.fault = .exhausted) : Agreement a b R s t result (.error error t')
  /-- The first run is nested too deep, and started inside more levels than the second. -/
  | tooDeep {error : ParseError} {s' : State} {result : EStateM.Result ParseError State β}
      (h : error.fault = .nestingTooDeep) (hdeeper : t.levels.length < s.levels.length) :
      Agreement a b R s t (.error error s') result
  | fail {error error' : ParseError} {s' t' : State} (h : error.fault = error'.fault) :
      Agreement a b R s t (.error error s') (.error error' t')
  | ok {x : α} {y : β} {s' t' : State} (h : R x y) (htwin : Twin a b s' t')
      (hleft : s'.levels = s.levels) (hright : t'.levels = t.levels) :
      Agreement a b R s t (.ok x s') (.ok y t')

/-- A weaker relation, and other states to start in that have the same levels. -/
theorem Agreement.imp {a b : Source} {α β : Type} {R P : α → β → Prop} {s t s' t' : State}
    {left : EStateM.Result ParseError State α} {right : EStateM.Result ParseError State β}
    (h : Agreement a b R s' t' left right) (hR : ∀ v w, R v w → P v w)
    (hleft : s'.levels = s.levels) (hright : t'.levels = t.levels) :
    Agreement a b P s t left right := by
  cases h with
  | exhaustedLeft h => exact .exhaustedLeft h
  | exhaustedRight h => exact .exhaustedRight h
  | tooDeep h hdeeper => exact .tooDeep h (hleft ▸ hright ▸ hdeeper)
  | fail h => exact .fail h
  | ok h htwin hleft' hright' =>
    exact .ok (hR _ _ h) htwin (hleft'.trans hleft) (hright'.trans hright)

namespace Parser

variable {a b : Source} {α β γ δ : Type} {R : α → β → Prop} {Q : γ → δ → Prop} {s t : State}

/-- Computations that agree from two states. -/
def AgreeAt (a b : Source) (s t : State) (R : α → β → Prop) (x : Parser α) (y : Parser β) : Prop :=
  Agreement a b R s t (x a s) (y b t)

/-- Computations that agree from all twin states. -/
def Agree (a b : Source) (R : α → β → Prop) (x : Parser α) (y : Parser β) : Prop :=
  ∀ s t, Twin a b s t → AgreeAt a b s t R x y

/-- **Sequences.**  If the first parts agree, and the second ones on related values in twin states
    that have the levels of the first, then so do the sequences. -/
theorem AgreeAt.bind {x : Parser α} {y : Parser β} {f : α → Parser γ} {g : β → Parser δ}
    (hx : AgreeAt a b s t R x y)
    (hf : ∀ v w s' t', R v w → Twin a b s' t' → s'.levels = s.levels → t'.levels = t.levels →
      AgreeAt a b s' t' Q (f v) (g w)) :
    AgreeAt a b s t Q (x >>= f) (y >>= g) := by
  unfold AgreeAt at hx ⊢
  rw [bind_apply, bind_apply]
  generalize x a s = left at hx ⊢
  generalize y b t = right at hx ⊢
  cases hx with
  | exhaustedLeft h => exact .exhaustedLeft h
  | exhaustedRight h => exact .exhaustedRight h
  | tooDeep h hdeeper => exact .tooDeep h hdeeper
  | fail h => exact .fail h
  | ok h htwin hleft hright =>
    -- the levels of the second parts are those of the first, and so those at the start
    exact (hf _ _ _ _ h htwin hleft hright).imp (fun _ _ h => h) hleft hright

namespace Agree

theorem bind {x : Parser α} {y : Parser β} {f : α → Parser γ} {g : β → Parser δ}
    (hx : Agree a b R x y) (hf : ∀ v w, R v w → Agree a b Q (f v) (g w)) :
    Agree a b Q (x >>= f) (y >>= g) :=
  fun s t h => (hx s t h).bind fun v w s' t' hvw h' _ _ => hf v w hvw s' t' h'

/-- Sequences whose first parts give the same value. -/
theorem seq {x y : Parser α} {f : α → Parser γ} {g : α → Parser δ} (hx : Agree a b Eq x y)
    (hf : ∀ v, Agree a b Q (f v) (g v)) : Agree a b Q (x >>= f) (y >>= g) :=
  hx.bind fun v _ h => h ▸ hf v

theorem mono {P : α → β → Prop} {x : Parser α} {y : Parser β} (hx : Agree a b R x y)
    (h : ∀ v w, R v w → P v w) : Agree a b P x y :=
  fun s t htwin => (hx s t htwin).imp h rfl rfl

theorem pure {x : α} {y : β} (h : R x y) : Agree a b R (pure x) (pure y) :=
  fun _ _ htwin => .ok h htwin rfl rfl

theorem map {x : Parser α} {y : Parser β} {f : α → γ} {g : β → δ} (hx : Agree a b R x y)
    (hf : ∀ v w, R v w → Q (f v) (g w)) : Agree a b Q (f <$> x) (g <$> y) :=
  hx.bind fun v w h => .pure (hf v w h)

theorem mapEq {x y : Parser α} {f : α → γ} (hx : Agree a b Eq x y) :
    Agree a b Eq (f <$> x) (f <$> y) :=
  hx.map fun _ _ h => congrArg f h

/-- A branch on a value that both computations give. -/
theorem branch {c d : Parser Bool} {x x' : Parser α} {y y' : Parser β} (hc : Agree a b Eq c d)
    (hyes : Agree a b R x y) (hno : Agree a b R x' y') :
    Agree a b R (c >>= fun found => if found then x else x')
      (d >>= fun found => if found then y else y') := by
  refine hc.seq fun found => ?_
  cases found with
  | true => exact hyes
  | false => exact hno

end Agree

/-! ### Reading the state -/

theorem agreeAt_get {f : State → Parser α} {g : State → Parser β} :
    AgreeAt a b s t R (get >>= f) (get >>= g) ↔ AgreeAt a b s t R (f s) (g t) :=
  Iff.rfl

theorem agreeAt_read {f : Source → Parser α} {g : Source → Parser β} :
    AgreeAt a b s t R (read >>= f) (read >>= g) ↔ AgreeAt a b s t R (f a) (g b) :=
  Iff.rfl

theorem agreeAt_ahead {f : List Token → Parser α} {g : List Token → Parser β} :
    AgreeAt a b s t R (ahead >>= f) (ahead >>= g) ↔ AgreeAt a b s t R (f s.rest) (g t.rest) :=
  Iff.rfl

theorem agreeAt_start {f : Nat → Parser α} {g : Nat → Parser β} :
    AgreeAt a b s t R (start >>= f) (start >>= g) ↔ AgreeAt a b s t R (f s.start) (g t.start) :=
  Iff.rfl

theorem agreeAt_peek {n : Nat} {f : TokenKind → Parser α} {g : TokenKind → Parser β} :
    AgreeAt a b s t R (peek n >>= f) (peek n >>= g)
      ↔ AgreeAt a b s t R (f (kindAt s.rest n)) (g (kindAt t.rest n)) :=
  Iff.rfl

theorem Agree.start {f : Nat → Parser α} {g : Nat → Parser β}
    (h : ∀ m n, (a = b → m = n) → Agree a b R (f m) (g n)) :
    Agree a b R (start >>= f) (start >>= g) :=
  fun s t htwin => agreeAt_start.2 (h s.start t.start htwin.start_eq s t htwin)

theorem Agree.ahead {f : List Token → Parser α} {g : List Token → Parser β}
    (h : ∀ xs ys, Alike xs ys → Agree a b R (f xs) (g ys)) :
    Agree a b R (ahead >>= f) (ahead >>= g) :=
  fun s t htwin => agreeAt_ahead.2 (h s.rest t.rest htwin.rest s t htwin)

theorem Agree.peek {n : Nat} {f : TokenKind → Parser α} {g : TokenKind → Parser β}
    (h : ∀ kind, Agree a b R (f kind) (g kind)) : Agree a b R (peek n >>= f) (peek n >>= g) := by
  intro s t htwin
  rw [agreeAt_peek, htwin.rest.kindAt_eq]
  exact h _ s t htwin

theorem peek_agree (n : Nat) : Agree a b Eq (peek n) (peek n) := by
  intro s t h
  exact .ok (h.rest.kindAt_eq n) h rfl rfl

theorem atEnd_agree : Agree a b Eq atEnd atEnd := by
  intro s t h
  exact .ok h.rest.isEmpty_eq h rfl rfl

theorem check_agree (kind : TokenKind) : Agree a b Eq (check kind) (check kind) := by
  intro s t h
  exact .ok (congrArg (· == kind) h.kind_eq) h rfl rfl

/-- What is said of the tokens ahead, if the same is said of lists that look alike. -/
theorem ahead_agree {f g : List Token → α} (h : ∀ xs ys, Alike xs ys → f xs = g ys) :
    Agree a b Eq (do return f (← ahead)) (do return g (← ahead)) :=
  .ahead fun xs ys halike => .pure (h xs ys halike)

/-! ### Failing -/

theorem fail_agree (fault : Fault) (span span' : Span) :
    Agree a b R (fail fault span) (fail fault span') :=
  fun _ _ _ => .fail rfl

theorem exhausted_agree {y : Parser β} : Agree a b R exhausted y :=
  fun _ _ _ => .exhaustedLeft rfl

theorem agree_exhausted {x : Parser α} : Agree a b R x exhausted :=
  fun _ _ _ => .exhaustedRight rfl

/-- A node that was made in one run was made in the other, with the same form. -/
theorem lookup_agree (id : NodeId) :
    Agree a b (fun node node' => node.kind = node'.kind ∧ (a = b → node = node')) (lookup id)
      (lookup id) := by
  intro s t h
  have hkinds : (s.nodes.map Node.kind)[id]? = (t.nodes.map Node.kind)[id]? := by rw [h.kinds]
  rw [Array.getElem?_map, Array.getElem?_map] at hkinds
  unfold lookup
  rw [agreeAt_get]
  cases hnode : s.nodes[id]? with
  | none => exact exhausted_agree s t h
  | some node =>
    cases hnode' : t.nodes[id]? with
    | none => exact agree_exhausted s t h
    | some node' =>
      rw [hnode, hnode'] at hkinds
      have hkind : node.kind = node'.kind := Option.some.inj hkinds
      refine .ok ⟨hkind, fun hab => ?_⟩ h rfl rfl
      rw [h.nodes_eq hab] at hnode
      exact Option.some.inj (hnode.symm.trans hnode')

theorem kindOf_agree (id : NodeId) : Agree a b Eq (kindOf id) (kindOf id) :=
  (lookup_agree id).map fun _ _ h => h.1

theorem spanOf_agree (id : NodeId) :
    Agree a b (fun span span' => a = b → span = span') (spanOf id) (spanOf id) :=
  (lookup_agree id).map fun _ _ h hab => congrArg Node.span (h.2 hab)

theorem Agree.spanOf {id : NodeId} {f : Span → Parser α} {g : Span → Parser β}
    (h : ∀ span span', (a = b → span = span') → Agree a b R (f span) (g span')) :
    Agree a b R (spanOf id >>= f) (spanOf id >>= g) :=
  (spanOf_agree id).bind fun span span' hspan => h span span' hspan

theorem unexpected_agree (expected : String) :
    Agree a b R (unexpected expected) (unexpected expected) :=
  fun _ _ h => .fail (congrArg (Fault.unexpected expected) h.kind_eq)

theorem expectEnd_agree : Agree a b Eq expectEnd expectEnd := by
  intro s t h
  unfold expectEnd
  rw [agreeAt_get, h.rest.isEmpty_eq]
  split
  · exact .ok rfl h rfl rfl
  · exact .fail (congrArg Fault.trailingInput h.kind_eq)

/-! ### Taking tokens -/

theorem advance_agree : Agree a b Eq advance advance :=
  fun s t h => .ok rfl h.advance s.leadsTo_advance.levels_eq t.leadsTo_advance.levels_eq

theorem advanceTwo_agree : Agree a b Eq advanceTwo advanceTwo :=
  advance_agree.seq fun _ => advance_agree

theorem accept_agree (kind : TokenKind) : Agree a b Eq (accept kind) (accept kind) :=
  .branch (check_agree kind) (advance_agree.seq fun _ => .pure rfl) (.pure rfl)

theorem expect_agree (kind : TokenKind) : Agree a b Eq (expect kind) (expect kind) :=
  .branch (check_agree kind) advance_agree (unexpected_agree _)

theorem identifier_agree (expected : String) :
    Agree a b Eq (identifier expected) (identifier expected) := by
  intro s t h
  unfold identifier
  rw [agreeAt_get, h.kind_eq]
  split
  · exact advance_agree.seq (fun _ => .pure rfl) s t h
  · exact unexpected_agree expected s t h

/-! ### Nesting and nodes -/

/-- A level is opened in both runs or in neither. -/
theorem nested_agree {x : Parser α} {y : Parser β} (hx : Agree a b R x y) :
    Agree a b R (nested x) (nested y) := by
  intro s t h
  unfold AgreeAt nested
  -- a level that starts at the next token is not opened a second time
  by_cases hlevel : s.levels.head? = some s.start
  · rw [if_pos hlevel, if_pos (h.innermost_iff.1 hlevel)]
    exact hx s t h
  · rw [if_neg hlevel, if_neg (mt h.innermost_iff.2 hlevel)]
    have hle := h.length_levels_le
    by_cases hdeep : maxNesting ≤ s.levels.length
    · rw [if_pos hdeep]
      split
      · exact .fail rfl
      · exact .tooDeep rfl (by omega)
    -- the level is open during the inner run only, and is the first to be closed
    · rw [if_neg hdeep, if_neg (by omega)]
      have hinner := hx _ _ h.openLevel
      unfold AgreeAt at hinner
      generalize x a _ = left at hinner ⊢
      generalize y b _ = right at hinner ⊢
      cases hinner with
      | exhaustedLeft h => exact .exhaustedLeft h
      | exhaustedRight h => exact .exhaustedRight h
      | tooDeep h hdeeper => exact .tooDeep h (Nat.lt_of_succ_lt_succ hdeeper)
      | fail h => exact .fail h
      | ok h htwin hleft hright =>
        refine .ok h (htwin.closeLevel ?_) (congrArg List.tail hleft) (congrArg List.tail hright)
        rw [hright]
        exact List.cons_ne_nil _ _

/-- Nodes of the same form get the same number, wherever they stand. -/
theorem push_agree (kind : NodeKind) {span span' : Span} {unannotated unannotated' : Option Nat}
    (hspan : a = b → span = span') (hunannotated : a = b → unannotated = unannotated') :
    Agree a b Eq (push kind span unannotated) (push kind span' unannotated') := by
  intro s t h
  have hsize : s.nodes.size = t.nodes.size := by
    simpa using congrArg Array.size h.kinds
  refine .ok hsize (h.withNodes ?_ fun hab => ?_) rfl rfl
  · rw [Array.map_push, Array.map_push, h.kinds]
  · rw [h.nodes_eq hab, hspan hab, hunannotated hab, hab]

theorem pushFrom_agree {m n : Nat} (hmn : a = b → m = n) (kind : NodeKind) :
    Agree a b Eq (pushFrom m kind) (pushFrom n kind) := by
  intro s t h
  have hspan : a = b → s.spanFrom m = t.spanFrom n := fun hab => hmn hab ▸ h.spanFrom_eq hab m
  exact push_agree kind hspan (fun _ => rfl) s t h

/-! ### Loops -/

section Loops

variable {more more' present present' : Parser Bool} {item item' : Parser α}

theorem manyWithin_agree (hmore : Agree a b Eq more more') (hitem : Agree a b Eq item item')
    (rounds : Nat) :
    Agree a b Eq (manyWithin more item rounds) (manyWithin more' item' rounds) := by
  induction rounds with
  | zero => exact exhausted_agree
  | succ rounds ih =>
    refine hmore.branch ?_ (.pure rfl)
    refine hitem.seq fun first => ?_
    exact ih.seq fun others => .pure rfl

theorem many_agree (hmore : Agree a b Eq more more') (hitem : Agree a b Eq item item') :
    Agree a b Eq (many more item) (many more' item') := by
  refine .ahead fun xs ys h => ?_
  -- the bound of a loop is the number of tokens ahead, which is the same in both runs
  rw [h.length_eq]
  exact manyWithin_agree hmore hitem _

theorem commaSeparated_agree (hitem : Agree a b Eq item item') :
    Agree a b Eq (commaSeparated item) (commaSeparated item') := by
  refine hitem.seq fun first => ?_
  exact (many_agree (accept_agree .comma) hitem).seq fun others => .pure rfl

theorem listUntilWithin_agree (close separator : TokenKind) (hitem : Agree a b Eq item item')
    (rounds : Nat) :
    Agree a b Eq (listUntilWithin close separator item rounds)
      (listUntilWithin close separator item' rounds) := by
  induction rounds with
  | zero => exact exhausted_agree
  | succ rounds ih =>
    refine (check_agree close).branch (.pure rfl) ?_
    refine hitem.seq fun first => ?_
    refine (accept_agree separator).branch ?_ (.pure rfl)
    exact ih.seq fun others => .pure rfl

theorem listUntil_agree {close separator : TokenKind} (hitem : Agree a b Eq item item') :
    Agree a b Eq (listUntil close separator item) (listUntil close separator item') := by
  refine .ahead fun xs ys h => ?_
  rw [h.length_eq]
  exact listUntilWithin_agree close separator hitem _

theorem extendWithin_agree {S : α → β → Prop} {step : α → Parser (Option α)}
    {step' : β → Parser (Option β)}
    (hstep : ∀ v w, S v w → Agree a b (Option.Rel S) (step v) (step' w)) (rounds : Nat) :
    ∀ v w, S v w → Agree a b S (extendWithin step rounds v) (extendWithin step' rounds w) := by
  induction rounds with
  | zero => exact fun _ _ _ => exhausted_agree
  | succ rounds ih =>
    intro v w h
    refine (hstep v w h).bind fun next next' hnext => ?_
    cases hnext with
    | none => exact .pure h
    | some hnext => exact ih _ _ hnext

/-- The steps of a loop may carry values that are related only. -/
theorem extend_agree {S : α → β → Prop} {step : α → Parser (Option α)}
    {step' : β → Parser (Option β)} {v : α} {w : β}
    (hstep : ∀ v w, S v w → Agree a b (Option.Rel S) (step v) (step' w)) (h : S v w) :
    Agree a b S (extend step v) (extend step' w) := by
  refine .ahead fun xs ys halike => ?_
  rw [halike.length_eq]
  exact extendWithin_agree hstep _ v w h

theorem extendEq_agree {step step' : α → Parser (Option α)}
    (hstep : ∀ v, Agree a b Eq (step v) (step' v)) (v : α) :
    Agree a b Eq (extend step v) (extend step' v) := by
  refine extend_agree (fun v w h => ?_) rfl
  subst h
  -- equal options are related by equality of what they hold
  refine (hstep v).mono fun next next' hnext => ?_
  subst hnext
  cases next with
  | none => exact .none
  | some next => exact .some rfl

theorem optional_agree (hpresent : Agree a b Eq present present')
    (hitem : Agree a b Eq item item') :
    Agree a b Eq (optional present item) (optional present' item') :=
  hpresent.branch (hitem.seq fun _ => .pure rfl) (.pure rfl)

theorem optionalList_agree {items items' : Parser (List α)}
    (hpresent : Agree a b Eq present present') (hitems : Agree a b Eq items items') :
    Agree a b Eq (optionalList present items) (optionalList present' items') :=
  hpresent.branch hitems (.pure rfl)

end Loops

end Parser

end CodeMarkup
