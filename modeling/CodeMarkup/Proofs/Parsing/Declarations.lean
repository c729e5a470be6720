import CodeMarkup.Grammar.Declarations
import CodeMarkup.Proofs.Parsing.Expressions

namespace CodeMarkup.Grammar

open CodeMarkup.Parser

/-!
# Declarations build forests

A declaration starts with its modifiers.  The productions for what follows them are given the state
`s` where the modifiers start and the state `t` after them.
-/

variable {p : Productions} {source : Source} {s t u v : State} {ids : List NodeId} {rank : Nat}
  {front : Modifiers}

/-! ### Types -/

theorem classDeclaration_makes {isInterface : Bool} (hr : Ready p source t 0)
    (hfront : Opens source s front t) (hrest : t.rest ≠ []) :
    Ensures source t (classDeclaration p front isInterface) (Makes source s) := by
  unfold classDeclaration
  refine (advance_takes hr.sound hrest).bind fun _ u h => ?_
  refine h.toYields.thenToken (identifier_takes h.sound) fun name u h => ?_
  refine h.thenNodes (optionalList_yields (guards_check h.sound fun _ =>
    (typeParameters_takes (hr.after h)).yields)) fun params u h => ?_
  refine h.thenNodes (optionalList_yields (guards_accept h.sound (by decide) fun v hv =>
    (typeList_takes (hr.after (h.trans hv.toYields))).yields)) fun extended u h => ?_
  refine h.thenNodes (optionalList_yields (guards_accept h.sound (by decide) fun v hv =>
    (typeList_takes (hr.after (h.trans hv.toYields))).yields)) fun implemented u h => ?_
  refine h.toYields.thenTaken (classBody_closes (hr.after h)).takes fun found u h => ?_
  refine pushModified_makes hfront h ?_ rfl trivial (.none rfl)
  show front.annotations ++ params ++ extended ++ implemented ++ found = _
  simp

theorem enumConstant_makes (hr : Ready p source s 0) :
    Ensures source s (enumConstant p) (Makes source s) := by
  unfold enumConstant
  refine (modifiers_opens hr).bind fun front t hfront => ?_
  have hr' := hr.next hfront.toYields
  refine (identifier_takes hfront.sound).bind fun name u h => ?_
  refine h.thenNodes (optionalList_yields (guards_check h.sound fun _ =>
    (arguments_closes (hr'.after h)).takes.yields)) fun found v h => ?_
  refine h.thenNodes (optional_yields (g := (·.getD [])) rfl (guards_check h.sound fun _ =>
    (classBody_closes (hr'.after h)).takes.yields)) fun body w h => ?_
  refine pushModified_makes hfront h ?_ rfl trivial (.none rfl)
  show front.annotations ++ found ++ body.getD [] = _
  simp

/-- Constants of an enum, one round after another. -/
theorem enumEntriesWithin_yields (rounds : Nat) (hr : Ready p source s 0)
    (hlt : s.rest.length < rounds) :
    Ensures source s (enumEntriesWithin p rounds) (Yields source s) := by
  induction rounds generalizing s with
  | zero => exact absurd hlt (Nat.not_lt_zero _)
  | succ rounds ih =>
    unfold enumEntriesWithin
    rw [ensures_check, ensures_check]
    split
    · exact .pure (.refl hr.sound)
    · refine (enumConstant_makes hr).bind fun first t h => ?_
      refine h.toYields.thenAccept (by decide) (fun u h => ?_) (.pure h.toYields)
      have hlen := h.leads.length_lt h.start_lt
      refine (ih (hr.after h) (by omega)).bind fun others v hv => ?_
      exact .pure (h.toYields.trans hv)

theorem enumDeclaration_makes (hr : Ready p source t 0) (hfront : Opens source s front t) :
    Ensures source t (enumDeclaration p front) (Makes source s) := by
  unfold enumDeclaration
  refine (expect_takes hr.sound (by decide)).bind fun _ u h => ?_
  refine h.toYields.thenToken (identifier_takes h.sound) fun name u h => ?_
  refine h.thenNodes (optionalList_yields (guards_accept h.sound (by decide) fun v hv =>
    (typeList_takes (hr.after (h.trans hv.toYields))).yields)) fun implemented u h => ?_
  refine h.toYields.thenToken (expect_takes h.sound (by decide)) fun _ u h => ?_
  have hentries : Ensures source u (enumEntries p) (Yields source u) := by
    unfold enumEntries
    rw [ensures_ahead]
    exact enumEntriesWithin_yields _ (hr.after h) (Nat.lt_succ_self _)
  refine h.thenNodes hentries fun entries u h => ?_
  refine h.thenNodes (optionalList_yields (guards_accept h.sound (by decide) fun v hv =>
    members_yields (hr.after (h.trans hv.toYields)))) fun found u h => ?_
  refine h.toYields.thenToken (expect_takes h.sound (by decide)) fun _ u h => ?_
  refine pushModified_makes hfront h ?_ rfl trivial (.none rfl)
  show front.annotations ++ implemented ++ entries ++ found = _
  simp

theorem typeDeclaration_makes (hr : Ready p source t 0) (hfront : Opens source s front t) :
    Ensures source t (typeDeclaration p front) (Makes source s) := by
  refine nested_makes hfront.toYields fun levels h => ?_
  -- the level is opened after the modifiers, and the declaration starts before them
  replace hr := hr.withLevels h.sound
  replace hfront : Opens source { s with levels := levels } front { t with levels := levels } :=
    ⟨⟨h, hfront.start_eq, hfront.parts⟩, hfront.annotations_nil⟩
  rw [ensures_peek]
  split
  · next hkind =>
    have hrest := State.rest_ne_nil_of_kindAt (by decide) hkind
    exact classDeclaration_makes hr hfront hrest
  · next hkind =>
    have hrest := State.rest_ne_nil_of_kindAt (by decide) hkind
    exact classDeclaration_makes hr hfront hrest
  · exact enumDeclaration_makes hr hfront
  · exact ensures_unexpected hr.sound.valid

/-! ### Members -/

theorem parameters_takes (hr : Ready p source s 0) :
    Ensures source s (parameters p) (Takes source s) := by
  unfold parameters
  refine (expect_takes hr.sound (by decide)).bind fun _ t h => ?_
  refine h.thenNodes (listUntil_yields h.sound (by decide) fun ids u hu =>
    parameter_makes ((hr.after h).next hu)) fun found u h => ?_
  exact h.toYields.thenToken (expect_takes h.sound (by decide)) fun _ v h => .pure h

theorem thrownTypes_yields (hr : Ready p source s 0) :
    Ensures source s (thrownTypes p) (Yields source s) :=
  optionalList_yields (guards_accept hr.sound (by decide) fun _ ht =>
    (typeList_takes (hr.after ht)).yields)

theorem constructorDeclaration_makes {typeParams : List NodeId} (hr : Ready p source t 0)
    (hfront : Opens source s front t) (h : Yields source t typeParams u) :
    Ensures source u (constructorDeclaration p front typeParams) (Makes source s) := by
  unfold constructorDeclaration
  refine h.thenToken (identifier_takes h.sound) fun name v h => ?_
  refine h.toYields.thenTaken (parameters_takes (hr.after h)) fun params v h => ?_
  refine h.thenNodes (thrownTypes_yields (hr.after h)) fun thrown v h => ?_
  refine h.toYields.thenNode (block_makes (hr.after h)) fun body v h => ?_
  refine pushModified_makes hfront h ?_ rfl trivial (.none rfl)
  show front.annotations ++ typeParams ++ params ++ thrown ++ [body] = _
  simp

/-- A value after the word `default` at `s`, which a method has instead of a body. -/
structure IsDefault (source : Source) (s : State) (value : NodeId) (t : State) : Prop
    extends Takes source s [value] t where
  word : source.HasText s.current.span Keyword.kwDefault.text.toList
  after : s.current.span.stop ≤ (spanIn t.nodes value).start

/-- The body of a method, or none with the value of a default. -/
theorem methodBody_takes (hr : Ready p source s 0) :
    Ensures source s (methodBody p) fun body t =>
      Takes source s body.toList t ∨ body = none ∧ ∃ value, IsDefault source s value t := by
  unfold methodBody
  refine (Yields.refl hr.sound).thenAccept (by decide) (fun t h => .pure (.inl h)) ?_
  rw [if_neg Bool.false_ne_true]
  unfold accept
  rw [ensures_bind_assoc, ensures_check]
  split
  · next hkind =>
    have hkind := eq_of_beq hkind
    have hrest := State.rest_ne_nil_of_kind (by decide) hkind
    have hword := (hr.sound.valid.current_isPlaced hrest).1.hasText
    rw [hkind] at hword
    rw [ensures_bind_assoc]
    refine (advance_passes hr.sound hrest).bind fun _ t ⟨h, hprevious⟩ => ?_
    have hdefault : Ensures source t (p .elementValue) (Makes source t) := hr.makesAfter h
    show Ensures source t (discard (p .elementValue) >>= _) _
    rw [ensures_discard]
    refine hdefault.bind fun value u hu => ?_
    refine (expect_takes hu.sound (by decide)).bind fun _ v hv => .pure (.inr ⟨rfl, value, ?_⟩)
    refine ⟨h.trans (hu.toYields.trans hv.toYields), hword, ?_⟩
    -- the value starts where the word has been taken
    rw [spanIn_stable hv.leads.nodes_kept (hu.ids_lt _ (List.mem_singleton_self _)), hu.span_eq,
      ← hprevious]
    exact h.sound.valid.previousStop_le_start
  · exact Ensures.map ((block_makes hr).mono fun body t h => .inl h.toTakes)

/-- The value of a default is left out of its method. -/
theorem methodDeclaration_leavesOut {annotations typeParams params thrown row : List NodeId}
    {keywords : List Keyword} {type value : NodeId} {name : String} {start : Option Nat}
    (hrow : Reads source s row t) (hvalue : IsDefault source t value u)
    (hkind : (NodeKind.methodDeclaration annotations keywords typeParams type name params thrown
      none).children = row) :
    LeftOut source (u.nodes.push (nodeOf source (.methodDeclaration annotations keywords typeParams
      type name params thrown none) (u.spanFrom s.start) start)) value := by
  have hlt := hvalue.ids_lt value (List.mem_singleton_self _)
  refine .default hlt (kindIn_push_size _ _) hvalue.word (fun child hchild => ?_) ?_ ?_
  · rw [kindIn_push_size] at hchild
    have hmem : child ∈ row := hkind ▸ hchild
    have hold := hrow.ids_lt child hmem
    have hkept := hvalue.leads.nodes_kept
    rw [spanIn_push_of_lt (Nat.lt_of_lt_of_le hold hvalue.leads.size_le), spanIn_stable hkept hold]
    exact Nat.lt_of_lt_of_le (hrow.ids_inside child hmem).2.1
      hrow.sound.valid.previousStop_le_start
  · rw [spanIn_push_of_lt hlt]
    exact hvalue.after
  · rw [spanIn_push_of_lt hlt, spanIn_push_size]
    exact Nat.le_trans (hvalue.ids_inside value (List.mem_singleton_self _)).2.2
      (Nat.le_max_left _ _)

/-- The type and the parameters of a method, read from `s` to `t`.  Dimensions after the parameters
    have been wrapped around the type `base`, which is apart from them. -/
structure Returns (source : Source) (s : State) (base type : NodeId) (params : List NodeId)
    (t : State) : Prop extends Reads source s (type :: params) t where
  taken : s.start < t.previousStop
  overhangs : Overhangs t.nodes base type params
  apart : AreApart t.nodes (base :: params)
  inside : ∀ id ∈ base :: params, id < t.nodes.size ∧ s.start ≤ (spanIn t.nodes id).start
    ∧ (spanIn t.nodes id).stop ≤ t.previousStop

theorem Returns.of_takes {type : NodeId} {params : List NodeId}
    (h : Takes source s (type :: params) t) : Returns source s type type params t := by
  refine ⟨h.toReads, h.taken, ⟨Nat.le_refl _, .refl, fun hne => absurd rfl hne⟩, h.apart, ?_⟩
  intro id hid
  have hinside := h.ids_inside id hid
  exact ⟨h.ids_lt id hid, hinside.1, hinside.2.2⟩

/-- One more pair of brackets after the parameters. -/
theorem Returns.wrap {base type : NodeId} {params : List NodeId}
    (h : Returns source s base type params t) (hu : Takes source t [] u) :
    Ensures source u (pushFrom s.start (.arrayType type)) fun type v =>
      Returns source s base type params v := by
  have hreads := h.toReads.trans hu.toReads
  rw [List.append_nil] at hreads
  have htaken : s.start < u.previousStop := Nat.lt_of_lt_of_le h.taken hu.previousStop_le
  have hformed : (NodeKind.arrayType type).IsFormed u.nodes u.previousStop :=
    (h.arePast hu).subset (by simp)
  refine (pushFrom_reads hreads htaken rfl rfl hformed (.none rfl)).mono fun new v hnew => ?_
  obtain ⟨hv, rfl, rfl⟩ := hnew
  -- the nodes read before keep their places
  have hkept := hu.leads.nodes_kept.trans (u.leadsTo_add (nodeOf source (.arrayType type)
    (u.spanFrom s.start) none)).nodes_kept
  have hsize := hkept.length_le
  have hlt : type < t.nodes.size := h.ids_lt type List.mem_cons_self
  refine ⟨hv, htaken, ⟨?_, ?_, fun _ param hparam => ?_⟩,
    h.apart.stable (fun id hid => (h.inside id hid).1) hkept, fun id hid => ?_⟩
  · exact Nat.le_trans h.overhangs.base_le (Nat.le_of_lt (Nat.lt_of_lt_of_le hlt hu.leads.size_le))
  · exact .dims (h.overhangs.wrapped.stable hkept) (kindIn_push_size _ _)
  · -- the brackets come after all parameters
    obtain ⟨hparam, -, hstop⟩ := h.inside param (List.mem_cons_of_mem _ hparam)
    rw [spanIn_stable hkept hparam, State.add, spanIn_push_size]
    calc (spanIn t.nodes param).stop ≤ t.start :=
          Nat.le_trans hstop h.sound.valid.previousStop_le_start
      _ < u.previousStop := hu.taken
      _ ≤ max u.previousStop s.start := Nat.le_max_left _ _
  · obtain ⟨hid, hstart, hstop⟩ := h.inside id hid
    rw [spanIn_stable hkept hid]
    exact ⟨Nat.lt_of_lt_of_le hid (by simpa using hsize), hstart,
      Nat.le_trans hstop hu.previousStop_le⟩

/-- A method whose parts have been read meets what its form asks of their places. -/
theorem Returns.isSpaced {front rest annotations typeParams params thrown : List NodeId}
    {keywords : List Keyword} {base type : NodeId} {name : String} {body : Option NodeId}
    (hfront : Yields source s front t) (h : Returns source t base type params u)
    (hrest : Yields source u rest v) (hparts : annotations ++ typeParams = front)
    (hlater : thrown ++ body.toList = rest) :
    (NodeKind.methodDeclaration annotations keywords typeParams type name params thrown
      body).IsSpaced v.nodes := by
  have htype := h.ids_inside type List.mem_cons_self
  have hlt : type < u.nodes.size := h.ids_lt type List.mem_cons_self
  have halone : AreApart u.nodes [type] := List.pairwise_singleton _ _
  subst hparts hlater
  refine ⟨hfront.apart_around h.toReads hrest halone fun id hid => ?_, base, h.overhangs.stable hlt
      (fun id hid => (h.inside id (List.mem_cons_of_mem _ hid)).1) hrest.leads.nodes_kept,
    hfront.apart_around h.toReads hrest h.apart h.inside⟩
  rw [List.mem_singleton.1 hid]
  exact ⟨hlt, htype.1, htype.2.2⟩

/-- A method all of whose parts have been read.  Trees read after them have to be such as may be
    left out. -/
theorem Returns.pushModified_makes {typeParams params thrown left : List NodeId}
    {base type : NodeId} {name : String} {body : Option NodeId} {x y : State}
    (hfront : Opens source s front t) (hparams : Yields source t typeParams u)
    (h : Returns source u base type params v) (hrest : Yields source v (thrown ++ body.toList) x)
    (hafter : Yields source x left y)
    (hleft : ∀ row, Reads source s row x → (NodeKind.methodDeclaration front.annotations
      front.keywords typeParams type name params thrown body).children = row →
      ∀ id ∈ left, LeftOut source (y.nodes.push (nodeOf source (.methodDeclaration
        front.annotations front.keywords typeParams type name params thrown body)
        (y.spanFrom s.start) front.unannotatedStart)) id) :
    Ensures source y (pushModified front (.methodDeclaration front.annotations front.keywords
      typeParams type name params thrown body)) (Makes source s) := by
  have hopened := hfront.toYields.trans hparams
  have hrow := (hopened.toReads.trans h.toReads).trans hrest.toReads
  have hkind : (NodeKind.methodDeclaration front.annotations front.keywords typeParams type name
      params thrown body).children
      = front.annotations ++ typeParams ++ type :: params ++ (thrown ++ body.toList) := by
    simp [NodeKind.children]
  have hspaced : (NodeKind.methodDeclaration front.annotations front.keywords typeParams type name
      params thrown body).IsSpaced x.nodes := h.isSpaced hopened hrest rfl rfl
  have htaken : t.start < y.previousStop := by
    have := hparams.start_le
    have := h.taken
    have := hrest.previousStop_le
    have := hafter.previousStop_le
    omega
  have hmarked : (NodeKind.methodDeclaration front.annotations front.keywords typeParams type name
      params thrown body).IsMarked source y.nodes (y.spanFrom s.start) front.unannotatedStart := by
    have hread := (hparams.toReads.trans h.toReads).trans (hrest.toReads.trans hafter.toReads)
    refine hfront.isMarked hread htaken rfl fun child hchild => ?_
    rw [hkind] at hchild
    simp only [List.mem_append, List.mem_cons] at hchild ⊢
    grind
  unfold pushModified
  rw [ensures_get, hfront.start_eq]
  refine push_makesSpaced (hrow.trans hafter.toReads)
    (Nat.lt_of_le_of_lt hfront.start_le htaken) ?_ hmarked trivial
    (hspaced.stable (fun child hchild => hrow.ids_lt child (hkind ▸ hchild))
      hafter.leads.nodes_kept) (.none rfl) fun id hid => ?_
  · rw [hkind]
    exact List.sublist_append_left _ _
  · rcases List.mem_append.1 hid with hid | hid
    · exact .inl (hkind ▸ hid)
    · exact .inr (hleft _ hrow hkind id hid)

/-- A method, from its parameters on.  Its type starts at `u`, and dimensions after the parameters
    wrap the type from there. -/
theorem methodDeclaration_makes {typeParams : List NodeId} {returnType : NodeId} {name : String}
    (hr : Ready p source u rank) (hfront : Opens source s front t)
    (hparams : Yields source t typeParams u) (h : Takes source u [returnType] v)
    (hspan : (spanIn v.nodes returnType).start = u.start) :
    Ensures source v (methodDeclaration p front typeParams returnType name) (Makes source s) := by
  unfold methodDeclaration
  refine (parameters_takes (hr.after h)).bind fun params w hw => ?_
  -- the parameters add nodes, but the type keeps its span
  have hsame := spanIn_stable hw.leads.nodes_kept (h.ids_lt _ (List.mem_singleton_self _))
  replace h := h.trans hw.toYields
  rw [ensures_spanOf (h.ids_lt _ List.mem_cons_self)]
  show Ensures source w (do
    let returnType ← arrayDims (spanIn w.nodes returnType).start returnType
    _) _
  rw [hsame, hspan]
  have hdims : Ensures source w (arrayDims u.start returnType) fun type x =>
      Returns source u returnType type params x :=
    arrayDims_ensures (fun _ _ h => h.sound) (fun _ _ _ h hu => h.wrap hu) (.of_takes h)
  refine hdims.bind fun type x h => ?_
  have hready : Ready p source x 0 := hr.past h.toReads h.taken
  refine (thrownTypes_yields hready).bind fun thrown y hthrown => ?_
  refine (methodBody_takes (hready.next hthrown)).bind fun body z hz => ?_
  rcases hz with hz | ⟨rfl, value, hvalue⟩
  · exact h.pushModified_makes hfront hparams (hthrown.trans hz.toYields) (.refl hz.sound)
      fun _ _ _ => nofun
  -- all that was read becomes a child of the method, but for the value of its default
  · have hlater : Yields source x (thrown ++ (none : Option NodeId).toList) y := by
      rw [Option.toList_none, List.append_nil]
      exact hthrown
    refine h.pushModified_makes hfront hparams hlater hvalue.toYields
      fun row hrow hkind id hid => ?_
    · rw [List.mem_singleton.1 hid]
      exact methodDeclaration_leavesOut hrow hvalue hkind

/-- A field, from the rest of its first variable on.  The name of that variable starts at `u`. -/
theorem fieldDeclaration_makes {type : NodeId} {name : String} (hr : Ready p source u rank)
    (hfront : Opens source s front t) (htype : Takes source t [type] u)
    (h : Takes source u [] v) :
    Ensures source v (fieldDeclaration p front type name u.start) (Makes source s) := by
  unfold fieldDeclaration
  refine (declaratorRest_makes hr h).bind fun first w h => ?_
  have hothers : Ensures source w (many (accept .comma) (declarator p)) (Yields source w) :=
    many_nodes h.sound fun ids x hx => guards_accept hx.sound (by decide) fun y hy =>
      declarator_makes (hr.next (h.toYields.trans (hx.trans hy.toYields)))
  refine h.toTakes.thenNodes hothers fun others x h => ?_
  refine h.toYields.thenToken (expect_takes h.sound (by decide)) fun _ y h => ?_
  refine pushModified_makes hfront (htype.trans h.toYields) ?_ rfl trivial (.none rfl)
  show front.annotations ++ type :: first :: others = _
  simp

theorem methodOrField_makes {typeParams : List NodeId} (hr : Ready p source t 1)
    (hfront : Opens source s front t) (hparams : Yields source t typeParams u) :
    Ensures source u (methodOrField p front typeParams) (Makes source s) := by
  unfold methodOrField
  refine (typeOrVoid_makes (hr.next hparams)).bind fun type v h => ?_
  rw [ensures_start]
  have hr' := hr.next (hparams.trans h.toYields)
  refine (identifier_takes h.sound).bind fun name w hw => ?_
  rw [ensures_check]
  split
  · have hspan := spanIn_stable hw.leads.nodes_kept (h.ids_lt _ (List.mem_singleton_self _))
    refine methodDeclaration_makes (hr.next hparams) hfront hparams (h.toTakes.trans hw.toYields) ?_
    rw [hspan, h.span_eq]
  · have htype : type < w.nodes.size :=
      Nat.lt_of_lt_of_le (h.ids_lt _ (List.mem_singleton_self _)) hw.leads.size_le
    rw [ensures_kindOf htype]
    split
    · exact ensures_unexpected hw.sound.valid
    · next hfield =>
      -- type parameters are for methods only, so a field has none to leave out
      have hnone : typeParams = [] := by
        rw [Bool.not_eq_true, Bool.or_eq_false_iff, Bool.not_eq_false', List.isEmpty_iff] at hfield
        exact hfield.1
      subst hnone
      exact fieldDeclaration_makes hr' hfront (hparams.trans_takes h.toTakes) hw

theorem bodyDeclaration_makes (hr : Ready p source s 1) :
    Ensures source s (bodyDeclaration p) (Makes source s) := by
  unfold bodyDeclaration
  rw [ensures_start, ensures_ahead]
  split
  · refine (block_makes (hr.mono (Nat.zero_le _))).bind fun body t h => ?_
    exact pushFrom_makes h.toTakes rfl rfl trivial (.none rfl)
  · split
    · next hstatic =>
      have hrest : s.rest ≠ [] :=
        State.rest_ne_nil_of_kindAt (by decide) (eq_of_beq (Bool.and_eq_true_iff.1 hstatic).1)
      refine (advance_takes hr.sound hrest).bind fun _ t h => ?_
      refine h.toYields.thenNode (block_makes (hr.after h)) fun body u h => ?_
      exact pushFrom_makes h rfl rfl trivial (.none rfl)
    · refine (modifiers_opens hr).bind fun front t hfront => ?_
      have hr' := hr.next hfront.toYields
      rw [ensures_peek]
      split
      · exact typeDeclaration_makes (hr'.mono (Nat.zero_le _)) hfront
      · refine (optionalList_yields (guards_check hfront.sound fun _ =>
          (typeParameters_takes (hr'.mono (Nat.zero_le _))).yields)).bind fun typeParams u h => ?_
        rw [ensures_peek, ensures_peek]
        split
        · exact constructorDeclaration_makes (hr'.mono (Nat.zero_le _)) hfront h
        · exact methodOrField_makes hr' hfront h

/-! ### Files -/

theorem packageDeclaration_makes (hr : Ready p source s 0) :
    Ensures source s (packageDeclaration p) (Makes source s) := by
  unfold packageDeclaration
  rw [ensures_start]
  refine (many_nodes hr.sound fun ids t ht => guards_check ht.sound fun _ =>
    annotationUse_makes (hr.next ht)).bind fun annotations t h => ?_
  rw [ensures_start]
  have hfront : Gathers source s { annotations := annotations, start := s.start } t :=
    ⟨h, rfl, nofun⟩
  refine (expect_takes h.sound (by decide)).bind fun _ u h => ?_
  refine h.toYields.thenNode (qualifiedName_makes h.sound) fun name v h => ?_
  refine h.toYields.thenToken (expect_takes h.sound (by decide)) fun _ w h => ?_
  refine pushModified_makes hfront.settle h ?_ ?_ trivial (.none rfl)
  · show annotations ++ [name] = _
    simp
  · rw [Modifiers.settle_annotations]
    rfl

theorem importDeclaration_makes (hs : s.IsSound source) :
    Ensures source s importDeclaration (Makes source s) := by
  unfold importDeclaration
  rw [ensures_start]
  refine (expect_takes hs (by decide)).bind fun _ t h => ?_
  -- from the name on, both forms are alike
  have hrest : ∀ isStatic u, Takes source s [] u → Ensures source u (do
      let name ← qualifiedName
      let isAsterisk := (← peek 0) == .dot && (← peek 1) == .operator "*"
      if isAsterisk then advanceTwo
      expect .semicolon
      pushFrom s.start (.importDeclaration name isStatic isAsterisk)) (Makes source s) := by
    intro isStatic u h
    refine h.toYields.thenNode (qualifiedName_makes h.sound) fun name v h => ?_
    rw [ensures_peek, ensures_peek]
    dsimp only
    split
    · refine h.thenNodes (g := fun _ => []) (advanceTwo_yields h.sound) fun _ w h => ?_
      refine h.toYields.thenToken (expect_takes h.sound (by decide)) fun _ x h => ?_
      exact pushFrom_makes h rfl rfl trivial (.none rfl)
    · refine h.toYields.thenToken (expect_takes h.sound (by decide)) fun _ w h => ?_
      exact pushFrom_makes h rfl rfl trivial (.none rfl)
  exact h.toYields.thenAccept (by decide) (fun u h => hrest true u h) (hrest false t h)

/-- A file may have no tokens at all. -/
theorem compilationUnit_wraps (hr : Ready p source s 0) :
    Ensures source s (compilationUnit p) (Wraps source s) := by
  unfold compilationUnit
  rw [ensures_start]
  refine (optional_yields (g := Option.toList) rfl (guards_reading hr.sound rfl fun _ =>
    (packageDeclaration_makes hr).yieldsNode)).bind fun package t h => ?_
  refine h.thenNodes (many_nodes h.sound fun ids u hu => guards_check hu.sound fun _ =>
    importDeclaration_makes hu.sound) fun imports u h => ?_
  -- types up to the end; a lone semicolon between them makes no node
  have htypes : Ensures source u (many (return !(← atEnd)) do
      if ← accept .semicolon then return none
      else
        let front ← modifiers p
        let type ← typeDeclaration p front
        return some type) fun types v => Yields source u (types.flatMap Option.toList) v := by
    refine many_yields h.sound fun ids v hv => guards_reading hv.sound rfl fun _ => ?_
    refine (Yields.refl hv.sound).thenAccept (by decide) (fun w hw => ?_) ?_
    · exact .pure ⟨hw.toYields, hw.start_lt⟩
    · have hr' := hr.next (h.trans hv)
      rw [if_neg Bool.false_ne_true]
      refine (modifiers_opens hr').bind fun front w hfront => ?_
      refine (typeDeclaration_makes (hr'.next hfront.toYields) hfront).bind fun type x hx => ?_
      exact .pure ⟨hx.toYields, hx.start_lt⟩
  refine h.thenNodes htypes fun types v h => ?_
  refine pushFrom_wraps h ?_ rfl trivial (.none rfl)
  show package.toList ++ imports ++ types.filterMap id = _
  rw [filterMap_id_eq_flatMap]

end CodeMarkup.Grammar
