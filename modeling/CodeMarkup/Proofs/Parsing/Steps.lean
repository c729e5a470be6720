import CodeMarkup.Grammar.Modifiers
import CodeMarkup.Proofs.Parsing.Forest

namespace CodeMarkup

/-!
# Steps of a production

What the computations that all productions are made of yield, and the rules that follow a production
step by step.  A proof about a production keeps one hypothesis, `Yields s ids t` or `Takes s ids t`,
which says what has been read since the production started at `s`.

* `Yields.thenToken`, `Yields.thenNode`, `Yields.thenNodes`, `Takes.thenNodes`: one more step.
* `Yields.thenLast`, `Yields.thenClosed`, `Closes.thenOptional`: a last step, after which all trees
  are past.
* `many_yields`, `listUntil_yieldsAll`, `commaSeparated_takes`, `extend_ensures`: loops.  Each round
  takes a token, so the bound on their number is never met.
* `nested_makes`: one nesting level deeper.
* `Ready`: the productions at hand are right wherever less of the source is left, and, here, for
  constructs of a lower rank.
-/

open Parser

variable {α β : Type} {source : Source} {s t u : State} {ids new : List NodeId} {id : NodeId}
  {x : Parser α} {f : α → Parser β} {R : β → State → Prop}

/-! ### Tokens -/

theorem advance_takes (hs : s.IsSound source) (hrest : s.rest ≠ []) :
    Ensures source s advance (fun _ t => Takes source s [] t) := by
  obtain ⟨hvalid, htaken⟩ := hs.valid.advance hrest
  have hnodes : s.advance.nodes = s.nodes := by
    unfold State.advance
    split <;> rfl
  have harena : IsArena source s.advance.nodes := hnodes ▸ hs.arena
  -- the token lies between where the last one stopped and where the next one starts
  have hprevious := hs.valid.previousStop_le_start
  have hnext := hvalid.previousStop_le_start
  refine ⟨s.leadsTo_advance, ⟨⟨⟨?_, hs.valid.start_boundary, ⟨hvalid, harena⟩, s.leadsTo_advance,
    Nat.le_trans (Nat.le_of_lt htaken) hnext, Nat.le_trans hprevious (Nat.le_of_lt htaken), ?_⟩,
    .nil⟩, htaken⟩⟩
  · rw [hnodes]
    exact .nil _ _ _
  · rw [hnodes]
    exact .nil _

/-- What has been taken stops where the next token did. -/
theorem advance_passes (hs : s.IsSound source) (hrest : s.rest ≠ []) :
    Ensures source s advance fun _ t =>
      Takes source s [] t ∧ t.previousStop = s.current.span.stop :=
  have htakes := advance_takes hs hrest
  ⟨htakes.1, htakes.2, State.advance_previousStop hrest⟩

/-- Over the token taken, a form with its spelling is spelled. -/
theorem advance_spells (hs : s.IsSound source) (hrest : s.rest ≠ []) :
    Ensures source s advance fun _ t => Takes source s [] t
      ∧ ∀ {kind : NodeKind}, s.current.kind.Spells kind →
        kind.IsSpelled source (t.spanFrom s.start) :=
  (advance_passes hs hrest).mono fun _ _ ⟨htakes, hstop⟩ =>
    ⟨htakes, fun hkind => hs.valid.isSpelled hrest hstop hkind⟩

/-- Past the last token nothing is taken. -/
theorem advance_yields (hs : s.IsSound source) :
    Ensures source s advance (fun _ t => Yields source s [] t) := by
  by_cases hrest : s.rest = []
  · have hsame : s.advance = s := by
      unfold State.advance
      rw [hrest]
    exact ⟨s.leadsTo_advance, hsame.symm ▸ .refl hs⟩
  · exact (advance_takes hs hrest).mono fun _ t ht => ht.toYields

theorem advanceTwo_yields (hs : s.IsSound source) :
    Ensures source s advanceTwo (fun _ t => Yields source s [] t) := by
  unfold advanceTwo
  refine (advance_yields hs).bind fun _ t ht => ?_
  exact (advance_yields ht.sound).mono fun _ u hu => ht.trans hu

theorem advanceTwo_takes (hs : s.IsSound source) (hrest : s.rest ≠ []) :
    Ensures source s advanceTwo (fun _ t => Takes source s [] t) := by
  unfold advanceTwo
  refine (advance_takes hs hrest).bind fun _ t ht => ?_
  exact (advance_yields ht.sound).mono fun _ u hu => ht.trans hu

theorem advanceTwo_passes {first second : Token} {more : List Token} (hs : s.IsSound source)
    (hrest : s.rest = first :: second :: more) :
    Ensures source s advanceTwo fun _ t =>
      Takes source s [] t ∧ t.previousStop = second.span.stop := by
  have htakes := advanceTwo_takes hs (hrest ▸ List.cons_ne_nil _ _)
  refine ⟨htakes.1, htakes.2, ?_⟩
  show s.advance.advance.previousStop = _
  unfold State.advance
  rw [hrest]
  rfl

theorem expect_takes {kind : TokenKind} (hs : s.IsSound source) (hkind : kind ≠ .eof) :
    Ensures source s (expect kind) (fun _ t => Takes source s [] t) := by
  unfold expect
  rw [ensures_check]
  split
  · next h => exact advance_takes hs (State.rest_ne_nil_of_kind hkind (eq_of_beq h))
  · exact ensures_unexpected hs.valid

/-- A name stands where it was taken. -/
theorem identifier_spells {expected : String} (hs : s.IsSound source) :
    Ensures source s (identifier expected) fun name t => Takes source s [] t
      ∧ (NodeKind.simpleName name).IsSpelled source (t.spanFrom s.start) := by
  unfold identifier
  rw [ensures_get]
  split
  · next name h =>
    refine (advance_spells hs (State.rest_ne_nil_of_kind (by simp) h)).bind fun _ t ht => ?_
    refine .pure ⟨ht.1, ht.2 ?_⟩
    rw [h]
    rfl
  · exact ensures_unexpected hs.valid

theorem identifier_takes {expected : String} (hs : s.IsSound source) :
    Ensures source s (identifier expected) (fun _ t => Takes source s [] t) :=
  (identifier_spells hs).mono fun _ _ ht => ht.1

/-! ### One more step -/

theorem Yields.thenToken (h : Yields source s ids t)
    (hx : Ensures source t x (fun _ u => Takes source t [] u))
    (hf : ∀ a u, Takes source s ids u → Ensures source u (f a) R) :
    Ensures source t (x >>= f) R :=
  hx.bind fun a u hu => hf a u (List.append_nil ids ▸ h.trans_takes hu)

/-- A token that ends a construct, after all its trees. -/
theorem Yields.thenLast (h : Yields source s ids t)
    (hx : Ensures source t x (fun _ u => Takes source t [] u))
    (hf : ∀ a u, Closes source s ids u → Ensures source u (f a) R) :
    Ensures source t (x >>= f) R :=
  hx.bind fun a u hu => hf a u (List.append_nil ids ▸ h.trans_closes hu.closes)

theorem Yields.thenNode {x : Parser NodeId} {f : NodeId → Parser β} (h : Yields source s ids t)
    (hx : Ensures source t x (Makes source t))
    (hf : ∀ id u, Takes source s (ids ++ [id]) u → Ensures source u (f id) R) :
    Ensures source t (x >>= f) R :=
  hx.bind fun id u hu => hf id u (h.trans_takes hu.toTakes)

theorem Yields.thenNodes {g : α → List NodeId} (h : Yields source s ids t)
    (hx : Ensures source t x (fun a u => Yields source t (g a) u))
    (hf : ∀ a u, Yields source s (ids ++ g a) u → Ensures source u (f a) R) :
    Ensures source t (x >>= f) R :=
  hx.bind fun a u hu => hf a u (h.trans hu)

theorem Takes.thenNodes {g : α → List NodeId} (h : Takes source s ids t)
    (hx : Ensures source t x (fun a u => Yields source t (g a) u))
    (hf : ∀ a u, Takes source s (ids ++ g a) u → Ensures source u (f a) R) :
    Ensures source t (x >>= f) R :=
  hx.bind fun a u hu => hf a u (h.trans hu)

theorem Yields.thenTaken {x : Parser (List NodeId)} {f : List NodeId → Parser β}
    (h : Yields source s ids t) (hx : Ensures source t x (Takes source t))
    (hf : ∀ new u, Takes source s (ids ++ new) u → Ensures source u (f new) R) :
    Ensures source t (x >>= f) R :=
  hx.bind fun new u hu => hf new u (h.trans_takes hu)

theorem Yields.thenClosed {x : Parser (List NodeId)} {f : List NodeId → Parser β}
    (h : Yields source s ids t) (hx : Ensures source t x (Closes source t))
    (hf : ∀ new u, Closes source s (ids ++ new) u → Ensures source u (f new) R) :
    Ensures source t (x >>= f) R :=
  hx.bind fun new u hu => hf new u (h.trans_closes hu)

theorem Parser.Ensures.takes {x : Parser (List NodeId)} (h : Ensures source s x (Closes source s)) :
    Ensures source s x (Takes source s) :=
  h.mono fun _ _ ht => ht.toTakes

/-- What takes tokens yields what it yields. -/
theorem Parser.Ensures.yields {x : Parser (List NodeId)} (h : Ensures source s x (Takes source s)) :
    Ensures source s x (Yields source s) :=
  h.mono fun _ _ ht => ht.toYields

theorem Parser.Ensures.yieldsNode {x : Parser NodeId} (h : Ensures source s x (Makes source s)) :
    Ensures source s x (fun id t => Yields source s [id] t) :=
  h.mono fun _ _ ht => ht.toYields

/-- A token that may or may not be there. -/
theorem Yields.thenAccept {f : Bool → Parser β} {kind : TokenKind} (h : Yields source s ids t)
    (hkind : kind ≠ .eof) (hyes : ∀ u, Takes source s ids u → Ensures source u (f true) R)
    (hno : Ensures source t (f false) R) :
    Ensures source t (accept kind >>= f) R := by
  unfold accept
  -- the test for the token comes first, then what depends on its answer
  rw [ensures_bind_assoc, ensures_check]
  split
  · next heq =>
    rw [ensures_bind_assoc]
    refine h.thenToken
      (advance_takes h.sound (State.rest_ne_nil_of_kind hkind (eq_of_beq heq))) fun _ u hu => ?_
    exact hyes u hu
  · exact hno

/-! ### Making nodes -/

variable {kind : NodeKind}

/-- A node that meets what its form asks of its parts.  Trees of the stretch that it does not take
    as its children have to be such as may be left out. -/
theorem push_makesSpaced {unannotatedStart : Option Nat} (h : Reads source s ids t)
    (htaken : s.start < t.previousStop) (hsub : kind.children.Sublist ids)
    (hmarked : kind.IsMarked source t.nodes (t.spanFrom s.start) unannotatedStart)
    (hformed : kind.IsFormed t.nodes t.previousStop) (hspaced : kind.IsSpaced t.nodes)
    (hspelled : kind.IsSpelled source (t.spanFrom s.start))
    (hleft : ∀ id ∈ ids, id ∈ kind.children ∨ LeftOut source
      (t.nodes.push (nodeOf source kind (t.spanFrom s.start) unannotatedStart)) id) :
    Ensures source t (push kind (t.spanFrom s.start) unannotatedStart) (Makes source s) :=
  ⟨t.leadsTo_add _, (h.wrapsLeaving hsub hmarked hformed hspaced hspelled hleft).makes htaken⟩

theorem push_makesLeaving {unannotatedStart : Option Nat} (h : Takes source s ids t)
    (hsub : kind.children.Sublist ids)
    (hmarked : kind.IsMarked source t.nodes (t.spanFrom s.start) unannotatedStart)
    (hformed : kind.IsFormed t.nodes t.previousStop)
    (hspelled : kind.IsSpelled source (t.spanFrom s.start))
    (hleft : ∀ id ∈ ids, id ∈ kind.children ∨ LeftOut source
      (t.nodes.push (nodeOf source kind (t.spanFrom s.start) unannotatedStart)) id) :
    Ensures source t (push kind (t.spanFrom s.start) unannotatedStart) (Makes source s) :=
  push_makesSpaced h.toReads h.taken hsub hmarked hformed
    (NodeKind.isSpaced_of_areApart (h.apart.sublist hsub)) hspelled hleft

theorem push_makes {unannotatedStart : Option Nat} (h : Takes source s ids t)
    (hkind : kind.children = ids)
    (hmarked : kind.IsMarked source t.nodes (t.spanFrom s.start) unannotatedStart)
    (hformed : kind.IsFormed t.nodes t.previousStop)
    (hspelled : kind.IsSpelled source (t.spanFrom s.start)) :
    Ensures source t (push kind (t.spanFrom s.start) unannotatedStart) (Makes source s) :=
  ⟨t.leadsTo_add _, (h.toYields.wraps hkind hmarked hformed hspelled).makes h.taken⟩

theorem pushFrom_makes (h : Takes source s ids t) (hkind : kind.children = ids)
    (hbare : kind.annotations = []) (hformed : kind.IsFormed t.nodes t.previousStop)
    (hspelled : kind.IsSpelled source (t.spanFrom s.start)) :
    Ensures source t (pushFrom s.start kind) (Makes source s) :=
  push_makes h hkind (NodeKind.isMarked_none hbare) hformed hspelled

/-- All parts of the node are past. -/
theorem pushFrom_closes (h : Closes source s ids t) (hkind : kind.children = ids)
    (hbare : kind.annotations = []) (hkeyed : kind.IsKeyed t.nodes)
    (hspelled : kind.IsSpelled source (t.spanFrom s.start)) :
    Ensures source t (pushFrom s.start kind) (Makes source s) :=
  pushFrom_makes h.toTakes hkind hbare (NodeKind.isFormed_of_arePast (hkind ▸ h.past) hkeyed)
    hspelled

theorem pushFrom_wraps (h : Yields source s ids t) (hkind : kind.children = ids)
    (hbare : kind.annotations = []) (hformed : kind.IsFormed t.nodes t.previousStop)
    (hspelled : kind.IsSpelled source (t.spanFrom s.start)) :
    Ensures source t (pushFrom s.start kind) (Wraps source s) :=
  ⟨t.leadsTo_add _, h.wraps hkind (NodeKind.isMarked_none hbare) hformed hspelled⟩

/-- The new node has the form it was given. -/
theorem pushFrom_makesKind (h : Takes source s ids t) (hkind : kind.children = ids)
    (hbare : kind.annotations = []) (hformed : kind.IsFormed t.nodes t.previousStop)
    (hspelled : kind.IsSpelled source (t.spanFrom s.start)) :
    Ensures source t (pushFrom s.start kind) fun id u =>
      Makes source s id u ∧ kindIn u.nodes id = kind :=
  ⟨t.leadsTo_add _,
    (h.toYields.wraps hkind (NodeKind.isMarked_none hbare) hformed hspelled).makes h.taken,
    kindIn_push_size _ _⟩

/-- A node over a stretch that takes only the first tree of it as its child. -/
theorem pushFrom_reads {later : List NodeId} (h : Reads source s (id :: later) t)
    (htaken : s.start < t.previousStop) (hkind : kind.children = [id])
    (hbare : kind.annotations = []) (hformed : kind.IsFormed t.nodes t.previousStop)
    (hspelled : kind.IsSpelled source (t.spanFrom s.start)) :
    Ensures source t (pushFrom s.start kind) fun new u => Reads source s (new :: later) u
      ∧ u = t.add (nodeOf source kind (t.spanFrom s.start) none) ∧ new = t.nodes.size :=
  ⟨t.leadsTo_add _, h.wrapFirst htaken hkind hbare hformed hspelled, rfl, rfl⟩

/-- A place past the start of some annotations and past all of them, and not past the token that
    comes next. -/
structure PartsFrom (source : Source) (nodes : Array Node) (annotations : List NodeId)
    (first next offset : Nat) : Prop where
  boundary : source.IsBoundary offset
  annotated : annotations ≠ []
  first_lt : first < offset
  le_next : offset ≤ next
  annotations_le : ∀ id ∈ annotations,
    (spanIn nodes id).start < offset ∧ (spanIn nodes id).stop ≤ offset

/-- The token that comes next after some annotations starts at such a place. -/
theorem Yields.partsFrom (h : Yields source s ids t) (hne : ids ≠ []) :
    PartsFrom source t.nodes ids s.start t.start t.start := by
  have hnext := h.sound.valid.previousStop_le_start
  refine ⟨h.sound.valid.start_boundary, hne, ?_, Nat.le_refl _, fun id hid => ?_⟩
  · obtain ⟨id, hid⟩ := List.exists_mem_of_ne_nil ids hne
    have hinside := h.ids_inside id hid
    omega
  · obtain ⟨-, hstart, hstop⟩ := h.ids_inside id hid
    exact ⟨Nat.lt_of_lt_of_le hstart hnext, Nat.le_trans hstop hnext⟩

theorem PartsFrom.trans {first offset : Nat}
    (h : PartsFrom source t.nodes ids first t.start offset)
    (hids : ∀ id ∈ ids, id < t.nodes.size) (h' : Reads source t new u) :
    PartsFrom source u.nodes ids first u.start offset := by
  refine ⟨h.boundary, h.annotated, h.first_lt, Nat.le_trans h.le_next h'.start_le,
    fun id hid => ?_⟩
  rw [spanIn_stable h'.leads.nodes_kept (hids id hid)]
  exact h.annotations_le id hid

/-- Modifiers that are read from `s` to `t`.  If the place where their annotations end is settled,
    it is the right one. -/
structure Gathers (source : Source) (s : State) (front : Grammar.Modifiers) (t : State) : Prop
    extends Yields source s front.annotations t where
  start_eq : front.start = s.start
  parts : ∀ offset ∈ front.unannotatedStart,
    PartsFrom source t.nodes front.annotations s.start t.start offset

/-- Modifiers that open a declaration at `s`; what they stand in front of goes on at `t`.  The place
    where their annotations end is settled. -/
structure Opens (source : Source) (s : State) (front : Grammar.Modifiers) (t : State) : Prop
    extends Gathers source s front t where
  annotations_nil : front.unannotatedStart = none → front.annotations = []

@[simp] theorem Grammar.Modifiers.settle_annotations (front : Modifiers) (offset : Nat) :
    (front.settle offset).annotations = front.annotations := by
  unfold settle
  split <;> rfl

@[simp] theorem Grammar.Modifiers.settle_start (front : Modifiers) (offset : Nat) :
    (front.settle offset).start = front.start := by
  unfold settle
  split <;> rfl

/-- The next token is where the annotations end, unless that was settled before. -/
theorem Gathers.settle {front : Grammar.Modifiers} (h : Gathers source s front t) :
    Opens source s (front.settle t.start) t := by
  unfold Grammar.Modifiers.settle
  split
  · next hsettled =>
    refine ⟨h, fun hnone => ?_⟩
    rwa [hnone, Option.isSome_none, Bool.or_false, List.isEmpty_iff] at hsettled
  · next hopen =>
    rw [Bool.or_eq_true, not_or, List.isEmpty_iff] at hopen
    refine ⟨⟨h.toYields, h.start_eq, ?_⟩, nofun⟩
    rintro offset ⟨⟩
    exact h.toYields.partsFrom hopen.1

/-- A form that starts with modifiers and goes on with what is read after them. -/
theorem Opens.isMarked {front : Grammar.Modifiers} (hfront : Opens source s front t)
    (h : Reads source t ids u) (htaken : t.start < u.previousStop)
    (hannotations : kind.annotations = front.annotations)
    (hchildren : ∀ child ∈ kind.children, child ∈ front.annotations ∨ child ∈ ids) :
    kind.IsMarked source u.nodes (u.spanFrom s.start) front.unannotatedStart := by
  cases hmark : front.unannotatedStart with
  | none => exact hannotations.trans (hfront.annotations_nil hmark)
  | some offset =>
    have hparts := (hfront.parts offset hmark).trans hfront.ids_lt h
    refine ⟨hparts.boundary, hannotations ▸ hparts.annotated, hparts.first_lt, ?_,
      hannotations ▸ hparts.annotations_le, fun id hid hnot => ?_⟩
    · have hle := (hfront.parts offset hmark).le_next
      exact Nat.lt_of_lt_of_le (Nat.lt_of_le_of_lt hle htaken) (Nat.le_max_left _ _)
    · have hnew := (hchildren id hid).resolve_left (hannotations ▸ hnot)
      exact Nat.le_trans (hfront.parts offset hmark).le_next (h.ids_inside id hnew).1

theorem pushModified_makes {front : Grammar.Modifiers} (hfront : Opens source s front t)
    (h : Takes source t ids u) (hkind : kind.children = front.annotations ++ ids)
    (hannotations : kind.annotations = front.annotations)
    (hformed : kind.IsFormed u.nodes u.previousStop)
    (hspelled : kind.IsSpelled source (u.spanFrom s.start)) :
    Ensures source u (Grammar.pushModified front kind) (Makes source s) := by
  have hmarked := hfront.isMarked h.toReads h.taken hannotations fun child hchild =>
    List.mem_append.1 (hkind ▸ hchild)
  unfold Grammar.pushModified
  rw [ensures_get, hfront.start_eq]
  exact push_makes (hfront.toYields.trans_takes h) hkind hmarked hformed hspelled

/-! ### Optional parts -/

/-- A test that may take tokens, and what holds where it says yes. -/
def Guards (source : Source) (s : State) (present : Parser Bool) (P : State → Prop) : Prop :=
  Ensures source s present fun yes t => Yields source s [] t ∧ (yes = true → P t)

/-- A test that only reads the state. -/
theorem guards_reading {present : Parser Bool} {yes : Bool} {P : State → Prop}
    (hs : s.IsSound source) (hread : present source s = .ok yes s) (h : yes = true → P s) :
    Guards source s present P := by
  unfold Guards Ensures
  rw [hread]
  exact ⟨.refl s, .refl hs, h⟩

theorem guards_check {kind : TokenKind} {P : State → Prop} (hs : s.IsSound source)
    (h : s.current.kind = kind → P s) : Guards source s (check kind) P :=
  guards_reading hs rfl fun hyes => h (eq_of_beq hyes)

theorem guards_accept {kind : TokenKind} {P : State → Prop} (hs : s.IsSound source)
    (hkind : kind ≠ .eof) (h : ∀ t, Takes source s [] t → P t) :
    Guards source s (accept kind) P := by
  unfold Guards accept
  rw [ensures_check]
  split
  · next heq =>
    have hrest := State.rest_ne_nil_of_kind hkind (eq_of_beq heq)
    refine (advance_takes hs hrest).bind fun _ t ht => ?_
    exact .pure ⟨ht.toYields, fun _ => h t ht⟩
  · exact .pure ⟨.refl hs, nofun⟩

/-- An optional part yields the trees of the part, or none. -/
theorem optional_yields {present : Parser Bool} {item : Parser α} {g : Option α → List NodeId}
    (hnone : g none = [])
    (h : Guards source s present fun t =>
      Ensures source t item fun a u => Yields source t (g (some a)) u) :
    Ensures source s (optional present item) fun part t => Yields source s (g part) t := by
  unfold Parser.optional
  refine h.bind fun yes t ⟨ht, hitem⟩ => ?_
  cases yes with
  | false => exact .pure (hnone ▸ ht)
  | true => exact (hitem rfl).bind fun a u hu => .pure (ht.trans hu)

/-- A construct that is closed already may go on with a part that is closed in turn. -/
theorem Closes.thenOptional {present : Parser Bool} {item : Parser α} {g : Option α → List NodeId}
    {f : Option α → Parser β} (hnone : g none = []) (h : Closes source s ids t)
    (hitem : Guards source t present fun u =>
      Ensures source u item fun a v => Closes source u (g (some a)) v)
    (hf : ∀ part u, Closes source s (ids ++ g part) u → Ensures source u (f part) R) :
    Ensures source t (optional present item >>= f) R := by
  refine Ensures.bind (P := fun part u => Closes source s (ids ++ g part) u) ?_ hf
  unfold Parser.optional
  refine hitem.bind fun yes u ⟨hu, hitem⟩ => ?_
  cases yes with
  | false =>
    refine .pure ⟨hnone ▸ h.toTakes.trans hu, ?_⟩
    rw [hnone, List.append_nil]
    exact h.past.mono hu.leads.nodes_kept hu.previousStop_le
  | true =>
    refine (hitem rfl).bind fun a v hv => .pure ?_
    have hclosed := (h.toYields.trans hu).trans_closes hv
    rwa [List.append_nil] at hclosed

theorem optionalList_yields {present : Parser Bool} {items : Parser (List NodeId)}
    (h : Guards source s present fun t => Ensures source t items (Yields source t)) :
    Ensures source s (optionalList present items) (Yields source s) := by
  unfold Parser.optionalList
  refine h.bind fun yes t ⟨ht, hitems⟩ => ?_
  cases yes with
  | false => exact .pure ht
  | true => exact (hitems rfl).mono fun ids u hu => ht.trans hu

/-! ### Loops -/

/-- Items as long as a test says yes.  A round takes a token, whether the test or the item does. -/
theorem many_yields {more : Parser Bool} {item : Parser α} {g : α → List NodeId}
    (hs : s.IsSound source)
    (hround : ∀ ids t, Yields source s ids t → Guards source t more fun u =>
      Ensures source u item fun a v => Yields source u (g a) v ∧ t.start < v.start) :
    Ensures source s (many more item) fun found t => Yields source s (found.flatMap g) t := by
  -- the number of rounds left exceeds the number of tokens left
  have hwithin : ∀ rounds ids t, Yields source s ids t → t.rest.length < rounds →
      Ensures source t (manyWithin more item rounds) fun found u =>
        Yields source t (found.flatMap g) u := by
    intro rounds
    induction rounds with
    | zero => exact fun _ _ _ hlt => absurd hlt (Nat.not_lt_zero _)
    | succ rounds ih =>
      intro ids t ht hlt
      unfold manyWithin
      refine (hround ids t ht).bind fun yes u ⟨hu, hitem⟩ => ?_
      cases yes with
      | false => exact .pure hu
      | true =>
        refine (hitem rfl).bind fun a v ⟨hv, hstart⟩ => ?_
        have htv := hu.trans hv
        have hlen := htv.leads.length_lt hstart
        refine (ih _ v (ht.trans htv) (by omega)).bind fun found w hw => ?_
        exact .pure (htv.trans hw)
  unfold many
  rw [ensures_ahead]
  exact hwithin _ [] s (.refl hs) (Nat.lt_succ_self _)

/-- Nodes as long as a test says yes. -/
theorem many_nodes {more : Parser Bool} {item : Parser NodeId} (hs : s.IsSound source)
    (hround : ∀ ids t, Yields source s ids t →
      Guards source t more fun u => Ensures source u item (Makes source u)) :
    Ensures source s (many more item) (Yields source s) := by
  have hmany := many_yields (g := ([·])) hs fun ids t ht =>
    (hround ids t ht).mono fun yes u ⟨hu, hitem⟩ =>
      ⟨hu, fun hyes => (hitem hyes).mono fun id v hv =>
        ⟨hv.toYields, Nat.lt_of_le_of_lt hu.start_le hv.start_lt⟩⟩
  exact hmany.mono fun found t ht => by simpa using ht

/-- Nodes with commas between them. -/
theorem commaSeparated_takes {item : Parser NodeId} (hs : s.IsSound source)
    (hitem : ∀ ids t, Yields source s ids t → Ensures source t item (Makes source t)) :
    Ensures source s (commaSeparated item) (Takes source s) := by
  unfold commaSeparated
  refine (hitem [] s (.refl hs)).bind fun first t ht => ?_
  have hothers : Ensures source t (many (accept .comma) item) (Yields source t) :=
    many_nodes ht.sound fun ids u hu => guards_accept hu.sound (by decide) fun v hv =>
      hitem _ v (ht.toYields.trans (hu.trans hv.toYields))
  exact hothers.bind fun others u hu => .pure (ht.toTakes.trans hu)

/-- Nodes with separators between them, up to a closing token.  What holds of each node when it is
    made, and stays so, holds of all of them at the end. -/
theorem listUntil_yieldsAll {close separator : TokenKind} {item : Parser NodeId}
    {P : Array Node → NodeId → Prop} (hs : s.IsSound source) (hseparator : separator ≠ .eof)
    (hstable : ∀ nodes more id, nodes.toList <+: more.toList → P nodes id → P more id)
    (hitem : ∀ ids t, Yields source s ids t →
      Ensures source t item fun id u => Makes source t id u ∧ P u.nodes id) :
    Ensures source s (listUntil close separator item) fun ids t =>
      Yields source s ids t ∧ ∀ id ∈ ids, P t.nodes id := by
  -- as before, each round but the last takes a token
  have hwithin : ∀ rounds ids t, Yields source s ids t → t.rest.length < rounds →
      Ensures source t (listUntilWithin close separator item rounds) fun ids u =>
        Yields source t ids u ∧ ∀ id ∈ ids, P u.nodes id := by
    intro rounds
    induction rounds with
    | zero => exact fun _ _ _ hlt => absurd hlt (Nat.not_lt_zero _)
    | succ rounds ih =>
      intro ids t ht hlt
      unfold listUntilWithin
      rw [ensures_check]
      split
      · exact .pure ⟨.refl ht.sound, nofun⟩
      · refine (hitem ids t ht).bind fun first u ⟨hu, hfirst⟩ => ?_
        refine (Yields.refl hu.sound).thenAccept hseparator (fun v hv => ?_) ?_
        · have hnext : Takes source t [first] v := hu.toTakes.trans hv.toYields
          have hlen := hnext.leads.length_lt hnext.start_lt
          refine (ih _ v (ht.trans hnext.toYields) (by omega)).bind fun others w ⟨hw, hothers⟩ => ?_
          refine .pure ⟨hnext.toYields.trans hw, List.forall_mem_cons.2 ⟨?_, hothers⟩⟩
          exact hstable _ _ _ (hv.leads.trans hw.leads).nodes_kept hfirst
        · exact .pure ⟨hu.toYields, List.forall_mem_singleton.2 hfirst⟩
  unfold listUntil
  rw [ensures_ahead]
  exact hwithin _ [] s (.refl hs) (Nat.lt_succ_self _)

theorem listUntil_yields {close separator : TokenKind} {item : Parser NodeId}
    (hs : s.IsSound source) (hseparator : separator ≠ .eof)
    (hitem : ∀ ids t, Yields source s ids t → Ensures source t item (Makes source t)) :
    Ensures source s (listUntil close separator item) (Yields source s) :=
  (listUntil_yieldsAll (P := fun _ _ => True) hs hseparator (fun _ _ _ _ => id) fun ids t ht =>
    (hitem ids t ht).mono fun _ _ hu => ⟨hu, trivial⟩).mono fun _ _ h => h.1

/-- What one step of `Parser.extend` from `a` at `t` has to ensure: it ends the loop with `Q`, or
    takes a token and `I` holds again. -/
def Extends (t : State) (I Q : α → State → Prop) (a : α) : Option α → State → Prop
  | some b, u => I b u ∧ u.rest.length < t.rest.length
  | none, u => Q a u

/-- The value of a step, once a token has been taken. -/
theorem Takes.thenSome {I Q : α → State → Prop} {a : α} (h : Takes source t ids u)
    (hx : Ensures source u x I) : Ensures source u (some <$> x) (Extends t I Q a) :=
  (hx.leads.mono fun _ _ ⟨hleads, hI⟩ => ⟨hI, Nat.lt_of_le_of_lt hleads.rest_suffix.length_le
    (h.leads.length_lt h.start_lt)⟩ : Ensures source u x fun b => Extends t I Q a (some b)).map

/-- A step repeated as long as it yields something.  `I` holds between the rounds. -/
theorem extend_ensures {step : α → Parser (Option α)} {I Q : α → State → Prop} {a : α}
    (hstep : ∀ a t, I a t → Ensures source t (step a) (Extends t I Q a)) (h : I a s) :
    Ensures source s (extend step a) Q := by
  -- the bound is not met: a round that goes on leaves fewer tokens
  have hwithin : ∀ rounds a t, I a t → t.rest.length < rounds →
      Ensures source t (extendWithin step rounds a) Q := by
    intro rounds
    induction rounds with
    | zero => exact fun _ _ _ hlt => absurd hlt (Nat.not_lt_zero _)
    | succ rounds ih =>
      intro a t ha hlt
      unfold extendWithin
      refine (hstep a t ha).bind fun next u hnext => ?_
      cases next with
      | none => exact .pure hnext
      | some b =>
        obtain ⟨hb, hlen⟩ := hnext
        exact ih b u hb (by omega)
  unfold extend
  rw [ensures_ahead]
  exact hwithin _ a s h (Nat.lt_succ_self _)

/-! ### Nesting -/

/-- The levels at both ends of a stretch may be others, as long as they start early enough. -/
theorem Yields.withLevels (h : Yields source s ids t) {levels : List Nat}
    (hlevels : ∀ level ∈ levels, level ≤ t.start) :
    Yields source { s with levels := levels } ids { t with levels := levels } :=
  ⟨⟨h.toRow, h.origin, ⟨h.sound.valid.withLevels hlevels, h.sound.arena⟩,
    ⟨h.leads.taken, h.leads.stop_eq, rfl, h.leads.nodes_kept⟩, h.start_le,
    h.previousStop_le, h.accounts⟩, h.apart⟩

theorem Makes.withLevels (h : Makes source s id t) {levels : List Nat}
    (hlevels : ∀ level ∈ levels, level ≤ t.start) :
    Makes source { s with levels := levels } id { t with levels := levels } :=
  ⟨⟨h.toYields.withLevels hlevels, h.taken⟩, h.id_last, h.span_eq⟩

/-- One level deeper, a production finds the same tokens and nodes; the level it was given is closed
    again whether it succeeds or fails. -/
theorem nested_makes {production : Parser NodeId} (h : Yields source s ids t)
    (hproduction : ∀ levels,
      Yields source { s with levels := levels } ids { t with levels := levels } →
      Ensures source { t with levels := levels } production
        (Makes source { s with levels := levels })) :
    Ensures source t (nested production) (Makes source s) := by
  have hlevels := h.sound.valid.levels_le
  have hs : { s with levels := t.levels } = s := by rw [h.leads.levels_eq]
  unfold Ensures nested
  -- the level is there already if the construct starts where the one around it does
  by_cases hsame : t.levels.head? = some t.start
  · rw [if_pos hsame]
    have hplain := hproduction t.levels (h.withLevels hlevels)
    rw [hs] at hplain
    exact hplain
  · rw [if_neg hsame]
    by_cases hdeep : maxNesting ≤ t.levels.length
    · rw [if_pos hdeep]
      exact ⟨.refl t, rfl, h.sound.valid.hasSpan_current⟩
    · rw [if_neg hdeep]
      -- the new level starts at the next token, no later than that
      have hdeeper := hproduction (t.start :: t.levels) (h.withLevels fun level hlevel => by
        rcases List.mem_cons.1 hlevel with rfl | hlevel
        · exact Nat.le_refl _
        · exact hlevels level hlevel)
      unfold Ensures at hdeeper
      -- closing the level leaves those that were open before
      have hresume : ∀ u, State.LeadsTo { t with levels := t.start :: t.levels } u →
          t.LeadsTo { u with levels := u.levels.tail } := fun u hu =>
        ⟨hu.taken, hu.stop_eq, by rw [hu.levels_eq]; rfl, hu.nodes_kept⟩
      cases hresult : production source { t with levels := t.start :: t.levels } with
      | error error u =>
        rw [hresult] at hdeeper
        exact ⟨hresume u hdeeper.1, hdeeper.2⟩
      | ok id u =>
        rw [hresult] at hdeeper
        refine ⟨hresume u hdeeper.1, ?_⟩
        have hmade := hdeeper.2
        have htail : u.levels.tail = s.levels := by
          rw [hdeeper.1.levels_eq, ← h.leads.levels_eq]
          rfl
        rw [htail]
        refine hmade.withLevels fun level hlevel => ?_
        exact hmade.sound.valid.levels_le level (by
          rw [hdeeper.1.levels_eq]
          exact List.mem_cons_of_mem _ (h.leads.levels_eq.symm ▸ hlevel))

/-! ### The productions at hand -/

/-- A bound on how many constructs may start at one token, each inside the one before. -/
def Nonterminal.rank : Nonterminal → Nat
  | .type | .arrayInitializer => 0
  | .unary | .bodyDeclaration => 1
  | .binary _ => 2
  | .conditional => 3
  | .expression | .elementValue => 4
  | .statement => 5

/-- At `s` productions are right for constructs below a rank, and for all constructs where less of
    the source is left. -/
structure Ready (p : Productions) (source : Source) (s : State) (rank : Nat) : Prop where
  sound : s.IsSound source
  covers : ∀ (construct : Nonterminal) (t : State), t.IsSound source →
    (t.stop - t.start < s.stop - s.start
      ∨ t.stop - t.start ≤ s.stop - s.start ∧ construct.rank < rank) →
    Ensures source t (p construct) (Makes source t)

namespace Ready

variable {p : Productions} {rank : Nat}

theorem makes (hr : Ready p source s rank) {construct : Nonterminal}
    (h : construct.rank < rank) : Ensures source s (p construct) (Makes source s) :=
  hr.covers construct s hr.sound (.inr ⟨Nat.le_refl _, h⟩)

theorem mono (hr : Ready p source s rank) {lower : Nat} (h : lower ≤ rank) :
    Ready p source s lower :=
  ⟨hr.sound, fun construct t ht hless => hr.covers construct t ht <| by
    rcases hless with hless | ⟨hless, hrank⟩
    · exact .inl hless
    · exact .inr ⟨hless, Nat.lt_of_lt_of_le hrank h⟩⟩

/-- Going on, productions stay right. -/
theorem next (hr : Ready p source s rank) (h : Yields source s ids t) : Ready p source t rank := by
  refine ⟨h.sound, fun construct u hu hless => hr.covers construct u hu ?_⟩
  -- less of the source is left from `u` on than from `t` on, and so than from `s` on
  have hstart := h.start_le
  have hstop := h.leads.stop_eq
  omega

/-- Once a token has been taken they are right for all constructs. -/
theorem past (hr : Ready p source s rank) (h : Reads source s ids t)
    (htaken : s.start < t.previousStop) {any : Nat} : Ready p source t any := by
  refine ⟨h.sound, fun construct u hu hless => hr.covers construct u hu ?_⟩
  -- the token taken makes up for any rank
  have hstart := h.sound.valid.previousStop_le_start
  have hle := h.sound.valid.start_le_stop
  have hstop := h.leads.stop_eq
  omega

theorem after (hr : Ready p source s rank) (h : Takes source s ids t) {any : Nat} :
    Ready p source t any :=
  hr.past h.toReads h.taken

theorem makesAfter (hr : Ready p source s rank) (h : Takes source s ids t)
    {construct : Nonterminal} : Ensures source t (p construct) (Makes source t) :=
  (hr.after h).makes (Nat.lt_succ_self construct.rank)

theorem withLevels (hr : Ready p source s rank) {levels : List Nat}
    (h : State.IsSound source { s with levels := levels }) :
    Ready p source { s with levels := levels } rank :=
  ⟨h, hr.covers⟩

/-- A production that starts at `s` may be nested. -/
theorem nested {production : Parser NodeId} (hr : Ready p source s rank)
    (h : ∀ levels, Ready p source { s with levels := levels } rank →
      Ensures source { s with levels := levels } production
        (Makes source { s with levels := levels })) :
    Ensures source s (Parser.nested production) (Makes source s) :=
  nested_makes (.refl hr.sound) fun levels hlevels => h levels (hr.withLevels hlevels.sound)

theorem nestedAfter (hr : Ready p source s rank) (h : Takes source s ids t)
    {construct : Nonterminal} :
    Ensures source t (Parser.nested (p construct)) (Makes source t) :=
  (hr.after h).nested fun _ hr => hr.makes (Nat.lt_succ_self construct.rank)

end Ready

end CodeMarkup
