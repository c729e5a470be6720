import CodeMarkup.Proofs.Lookahead.Locals
import CodeMarkup.Proofs.Spans
import CodeMarkup.Proofs.Trivia.Insensitivity

namespace CodeMarkup

open Parser

/-!
# Entry points that share productions

Tags and json containers are expressions, and blocks are statements.  A parse that starts at the
narrower entry point and one that starts at the wider one reach the same production, through
lookaheads, operators and levels that leave no mark on the tree.

* `Grammar.container`: markup by itself, as it stands among expressions.
* `DelegatesAt`: one production does what another one does, and adds to it only what is no markup.
* `Trails`: operators and choices after a part of an expression, which add nothing to markup.
* `Grammar.derive_expression_delegates`: from expressions down to containers.
* `Grammar.block_deeper`: a block inside one more level, and the same block outside of it.
* `Source.parse_entries_agree`: the trees of entry points that share a production.
-/

/-- Whether a form is a block. -/
def NodeKind.isBlock : NodeKind → Bool
  | .block _ => true
  | _ => false

theorem NodeKind.not_isJson_of_isTag {kind : NodeKind} (h : Grammar.isTag kind = true) :
    kind.isJson = false := by
  cases kind <;> first | rfl | cases h

theorem NodeKind.not_isBlock_of_isKeywordStmt {kind : NodeKind} (h : kind.isKeywordStmt = true) :
    (!kind.isBlock) = true := by
  cases kind <;> first | rfl | cases h

theorem HasForm.eq_false {form : NodeKind → Bool} {s : State} {id : NodeId}
    (h : HasForm (!form ·) s id) : form (kindIn s.nodes id) = false := by
  simpa using h.2

/-- Whether a kind of token opens a tag or a json container. -/
def TokenKind.opensMarkup : TokenKind → Bool
  | .operator "<" | .leftBrace | .leftBracket => true
  | _ => false

theorem TokenKind.opensMarkup_cases {kind : TokenKind} (h : kind.opensMarkup = true) :
    kind = .operator "<" ∨ kind = .leftBrace ∨ kind = .leftBracket := by
  unfold opensMarkup at h
  split at h
  · exact .inl rfl
  · exact .inr (.inl rfl)
  · exact .inr (.inr rfl)
  · cases h

/-! ### Productions around others -/

namespace Parser

variable {source : Source} {s t : State} {x y z : Parser NodeId}

theorem nested_of_open {α : Type} (x : Parser α) (hopen : s.levels.head? = some s.start) :
    nested x source s = x source s :=
  if_pos hopen

/-- What is done where a level is opened. -/
theorem nested_of_room {α : Type} (x : Parser α) (hopen : s.levels.head? ≠ some s.start)
    (hroom : ¬maxNesting ≤ s.levels.length) :
    nested x source s =
      match x source { s with levels := s.start :: s.levels } with
      | .ok a t => .ok a { t with levels := t.levels.tail }
      | .error error t => .error error { t with levels := t.levels.tail } :=
  (if_neg hopen).trans (if_neg hroom)

theorem nested_eq_ok_iff {α : Type} {x : Parser α} {a : α}
    (hopen : s.levels.head? ≠ some s.start) (hroom : ¬maxNesting ≤ s.levels.length) :
    nested x source s = .ok a t ↔ ∃ u, x source { s with levels := s.start :: s.levels } = .ok a u
      ∧ { u with levels := u.levels.tail } = t := by
  rw [nested_of_room x hopen hroom]
  cases x source { s with levels := s.start :: s.levels } with
  | ok b u =>
    constructor
    · rintro ⟨⟩
      exact ⟨u, rfl, rfl⟩
    · rintro ⟨v, ⟨⟩, rfl⟩
      rfl
  | error error u => simp

theorem nested_eq_error_iff {α : Type} {x : Parser α} {error : ParseError}
    (hopen : s.levels.head? ≠ some s.start) (hroom : ¬maxNesting ≤ s.levels.length) :
    nested x source s = .error error t
      ↔ ∃ u, x source { s with levels := s.start :: s.levels } = .error error u
        ∧ { u with levels := u.levels.tail } = t := by
  rw [nested_of_room x hopen hroom]
  cases x source { s with levels := s.start :: s.levels } with
  | ok b u => simp
  | error found u =>
    constructor
    · rintro ⟨⟩
      exact ⟨u, rfl, rfl⟩
    · rintro ⟨v, ⟨⟩, rfl⟩
      rfl

theorem nested_of_tooDeep {α : Type} (x : Parser α) (hopen : s.levels.head? ≠ some s.start)
    (hdeep : maxNesting ≤ s.levels.length) :
    nested x source s = .error ⟨.nestingTooDeep, s.current.span⟩ s :=
  (if_neg hopen).trans (if_pos hdeep)

/-- A level is not opened a second time at the same token. -/
theorem nested_nested {α : Type} (x : Parser α) : nested (nested x) = nested x := by
  funext source s
  by_cases hopen : s.levels.head? = some s.start
  · rw [nested_of_open _ hopen]
  · by_cases hdeep : maxNesting ≤ s.levels.length
    · rw [nested_of_tooDeep _ hopen hdeep, nested_of_tooDeep _ hopen hdeep]
    · rw [nested_of_room _ hopen hdeep, nested_of_room _ hopen hdeep, nested_of_open _ rfl]

/-- From some state, one production does what another one does and adds nothing to markup: where it
    makes markup the other one has made it, and where the other one ends the text, or fails, it does
    the same.  That is asked for only where the next token opens markup. -/
structure DelegatesAt (source : Source) (s : State) (x y : Parser NodeId) : Prop where
  markup : ∀ id t, x source s = .ok id t → (kindIn t.nodes id).isMarkup = true →
    y source s = .ok id t
  ok : ∀ id t, (kindAt s.rest 0).opensMarkup = true → y source s = .ok id t → t.rest = [] →
    x source s = .ok id t
  error : ∀ error t, (kindAt s.rest 0).opensMarkup = true → y source s = .error error t →
    ∃ u, x source s = .error error u

/-- What stands after a part of an expression.  It adds nothing at the end of the text, and where
    markup comes out it has added nothing. -/
structure Trails (f : NodeId → Parser NodeId) : Prop where
  at_end : ∀ {source s} id, s.rest = [] → f id source s = .ok id s
  of_markup : ∀ {source s id found t}, f id source s = .ok found t →
    (kindIn t.nodes found).isMarkup = true → found = id ∧ t = s

namespace DelegatesAt

theorem of_eq (h : x source s = y source s) : DelegatesAt source s x y where
  markup _ _ hx _ := h ▸ hx
  ok _ _ _ hy _ := h ▸ hy
  error _ _ _ hy := ⟨_, h ▸ hy⟩

theorem trans (h : DelegatesAt source s x y) (h' : DelegatesAt source s y z) :
    DelegatesAt source s x z where
  markup id t hx hmarkup := h'.markup id t (h.markup id t hx hmarkup) hmarkup
  ok id t hopens hz hend := h.ok id t hopens (h'.ok id t hopens hz hend) hend
  error error t hopens hz := by
    obtain ⟨u, hy⟩ := h'.error error t hopens hz
    exact h.error error u hopens hy

/-! What is read off the state comes first in a production. -/

theorem start {f : Nat → Parser NodeId} (h : DelegatesAt source s (f s.start) y) :
    DelegatesAt source s (start >>= f) y :=
  (of_eq (start_bind_apply f)).trans h

theorem ahead {f : List Token → Parser NodeId} (h : DelegatesAt source s (f s.rest) y) :
    DelegatesAt source s (ahead >>= f) y :=
  (of_eq (ahead_bind_apply f)).trans h

theorem peek {n : Nat} {f : TokenKind → Parser NodeId}
    (h : DelegatesAt source s (f (kindAt s.rest n)) y) : DelegatesAt source s (peek n >>= f) y :=
  (of_eq (peek_bind_apply n f)).trans h

/-- A production that makes no markup, where none is opened. -/
theorem other {kind : TokenKind} (hx : MakesForm (!·.isMarkup) x) (hkind : kindAt s.rest 0 = kind)
    (hcloses : kind.opensMarkup = false) : DelegatesAt source s x y := by
  rw [← hkind] at hcloses
  refine ⟨fun id t hrun hmarkup => ?_, fun id t hopens => ?_, fun error t hopens => ?_⟩
  · rw [(hx source s id t hrun).eq_false] at hmarkup
    cases hmarkup
  · rw [hcloses] at hopens
    cases hopens
  · rw [hcloses] at hopens
    cases hopens

theorem trailing {f : NodeId → Parser NodeId} (hf : Trails f) :
    DelegatesAt source s (x >>= f) x := by
  refine ⟨fun id t hrun hmarkup => ?_, fun id t _ hx hend => ?_, fun error t _ hx => ⟨t, ?_⟩⟩
  · obtain ⟨first, u, hx, hrest⟩ := bind_eq_ok hrun
    obtain ⟨rfl, rfl⟩ := hf.of_markup hrest hmarkup
    exact hx
  · rw [bind_apply, hx]
    exact hf.at_end id hend
  · rw [bind_apply, hx]

/-- Levels around both productions. -/
theorem nested (h : ∀ u : State, u.rest = s.rest → DelegatesAt source u x y) :
    DelegatesAt source s (nested x) (nested y) := by
  by_cases hopen : s.levels.head? = some s.start
  · have hinner := h s rfl
    exact ((of_eq (nested_of_open x hopen)).trans hinner).trans
      (of_eq (nested_of_open y hopen).symm)
  · by_cases hdeep : maxNesting ≤ s.levels.length
    · refine of_eq ?_
      rw [nested_of_tooDeep _ hopen hdeep, nested_of_tooDeep _ hopen hdeep]
    · have hinner := h { s with levels := s.start :: s.levels } rfl
      refine ⟨fun id t hrun hmarkup => ?_, fun id t hopens hrun hend => ?_,
        fun error t hopens hrun => ?_⟩
      · obtain ⟨u, hx, rfl⟩ := (nested_eq_ok_iff hopen hdeep).1 hrun
        exact (nested_eq_ok_iff hopen hdeep).2 ⟨u, hinner.markup id u hx hmarkup, rfl⟩
      · obtain ⟨u, hy, rfl⟩ := (nested_eq_ok_iff hopen hdeep).1 hrun
        exact (nested_eq_ok_iff hopen hdeep).2 ⟨u, hinner.ok id u hopens hy hend, rfl⟩
      · obtain ⟨u, hy, rfl⟩ := (nested_eq_error_iff hopen hdeep).1 hrun
        obtain ⟨v, hx⟩ := hinner.error error u hopens hy
        exact ⟨_, (nested_eq_error_iff hopen hdeep).2 ⟨v, hx, rfl⟩⟩

end DelegatesAt

theorem trails_of_cases {f : NodeId → Parser NodeId}
    (hcases : ∀ {id source s found t}, f id source s = .ok found t →
      HasForm (!·.isMarkup) t found ∨ (found = id ∧ t = s))
    (hend : ∀ {source s} id, s.rest = [] → f id source s = .ok id s) : Trails f where
  at_end := hend
  of_markup {source s id found t} h hmarkup := by
    refine (hcases h).resolve_left fun hform => ?_
    rw [hform.eq_false] at hmarkup
    cases hmarkup

/-- A loop of which each round makes something that is no markup, or does nothing, as it does at the
    end of the text. -/
theorem trails_extend {step : NodeId → Parser (Option NodeId)}
    (hstep : ∀ {id source s result t}, step id source s = .ok result t →
      (∃ next, result = some next ∧ HasForm (!·.isMarkup) t next) ∨ (result = none ∧ t = s))
    (hend : ∀ {source s} id, s.rest = [] → step id source s = .ok none s) :
    Trails (extend step) := by
  refine trails_of_cases (fun {id source s found t} h => ?_) fun {source s} id h => ?_
  · -- before each round, nothing has been added or what there is now is no markup
    have hloop := extend_stops
      (I := fun u next => HasForm (!·.isMarkup) u next ∨ (next = id ∧ u = s)) (J := fun _ _ => True)
      (fun next result u v hu hround => (hstep hround).imp (fun ⟨other, hother, hform⟩ =>
        ⟨other, hother, .inl hform⟩) fun ⟨hnone, hv⟩ => ⟨hnone, hv, trivial⟩)
      (.inr ⟨rfl, rfl⟩) h
    exact hloop.1
  · unfold extend
    rw [ahead_bind_apply, h]
    unfold extendWithin
    rw [bind_apply, hend id h]
    rfl

end Parser

/-! ### From expressions down to containers -/

namespace Grammar

variable {p : Productions} {source : Source} {s t : State}

/-- A tag or a json container by itself. -/
def container (p : Productions) : Parser NodeId := do
  if (← peek 0) == .operator "<" then tag p else jsonDocument p

theorem isMarkup_of_isBare {kind : NodeKind} (h : kind.isBare = true) : (!kind.isMarkup) = true :=
  (Bool.and_eq_true_iff.1 h).2

theorem container_eq_tag (hkind : kindAt s.rest 0 = .operator "<") :
    container p source s = tag p source s := by
  unfold container
  rw [peek_bind_apply, hkind, if_pos (beq_self_eq_true _)]

theorem container_eq_jsonDocument (hkind : kindAt s.rest 0 ≠ .operator "<") :
    container p source s = jsonDocument p source s := by
  unfold container
  rw [peek_bind_apply, if_neg (mt eq_of_beq hkind)]

theorem container_eq_jsonObject (hkind : kindAt s.rest 0 = .leftBrace) :
    container p source s = jsonObject p source s := by
  rw [container_eq_jsonDocument (by rw [hkind]; nofun), jsonDocument, peek_bind_apply, hkind]

theorem container_eq_jsonArray (hkind : kindAt s.rest 0 = .leftBracket) :
    container p source s = jsonArray p source s := by
  rw [container_eq_jsonDocument (by rw [hkind]; nofun), jsonDocument, peek_bind_apply, hkind]

theorem primary_delegates (hp : p.Traced) : DelegatesAt source s (primary p) (container p) := by
  have hmarkup := @isMarkup_of_isBare
  refine .start (.peek ?_)
  split
  · next form hform =>
    refine .other (.bind fun _ => .pushFrom (hmarkup (singleton?_isBare hform)) _) rfl ?_
    refine Bool.eq_false_iff.2 fun hopens => ?_
    obtain hkind | hkind | hkind := TokenKind.opensMarkup_cases hopens <;>
    · rw [hkind] at hform
      cases hform
  · split
    · next hkind => exact .other ((template_bare _).mono fun _ => hmarkup) hkind rfl
    · next hkind => exact .other ((creation_bare _ _).mono fun _ => hmarkup) hkind rfl
    · next hkind => exact .other ((classLiteral_bare _).mono fun _ => hmarkup) hkind rfl
    · next hkind =>
      split
      · exact .other ((primitivePrimary_bare hp _).mono fun _ => hmarkup) hkind rfl
      · exact .other (.unexpected _) hkind rfl
    · next hkind => exact .other ((namePrimary_bare hp _).mono fun _ => hmarkup) hkind rfl
    · next hkind =>
      refine .other ?_ hkind rfl
      exact .bind fun _ => .bind fun _ => .bind fun _ => .pushFrom rfl _
    · next hkind => exact .of_eq (container_eq_jsonObject hkind).symm
    · next hkind => exact .of_eq (container_eq_jsonArray hkind).symm
    · next hkind => exact .of_eq (container_eq_tag hkind).symm
    · refine .other (.unexpected _) rfl (Bool.eq_false_iff.2 fun hopens => ?_)
      obtain hkind | hkind | hkind := TokenKind.opensMarkup_cases hopens <;> contradiction

theorem suffixed_delegates : DelegatesAt source s (suffixed p) (primary p) := by
  have htrails : Trails (extend (suffix p s.start)) := by
    refine trails_extend (fun h => ?_) fun id h => ?_
    · exact (suffix_cases h).imp_left fun ⟨id, hid, hform⟩ =>
        ⟨id, hid, hform.imp_right isMarkup_of_isBare⟩
    · unfold suffix
      rw [peek_bind_apply, h]
      rfl
  exact .start (.trailing htrails)

theorem unary_delegates : DelegatesAt source s (unary p) (suffixed p) := by
  refine .start (.peek ?_)
  split
  · next op hop =>
    refine .other (.bind fun _ => .bind fun _ => .pushFrom rfl _) rfl ?_
    refine Bool.eq_false_iff.2 fun hopens => ?_
    obtain hkind | hkind | hkind := TokenKind.opensMarkup_cases hopens <;>
    · rw [hkind] at hop
      cases hop
  · refine .ahead ?_
    split
    · next hcast =>
      have hkind := eq_of_beq (Bool.and_eq_true_iff.1 hcast).1
      refine .other ?_ hkind rfl
      exact .bind fun _ => .bind fun _ => .bind fun _ => .bind fun _ => .pushFrom rfl _
    · exact .of_eq rfl

theorem binary_delegates (power : Nat) : DelegatesAt source s (binary p power) (p .unary) := by
  have htrails : Trails (extend (operation p power s.start)) := by
    refine trails_extend (fun h => ?_) fun id h => ?_
    · obtain ⟨hnone, hsame, -⟩ | ⟨_, type, u, hid, -, -, -, hpush⟩
        | ⟨_, symbol, count, op, right, u, v, hid, -, -, -, -, -, -, -, hpush⟩ := operation_cases h
      · exact .inr ⟨hnone, hsame⟩
      · exact .inl ⟨_, hid, MakesForm.pushFrom rfl _ _ _ _ _ hpush⟩
      · exact .inl ⟨_, hid, MakesForm.pushFrom rfl _ _ _ _ _ hpush⟩
    · unfold operation
      rw [ahead_bind_apply, h, if_neg (by decide)]
      rfl
  exact .start (.trailing htrails)

theorem conditional_delegates : DelegatesAt source s (conditional p) (p (.binary 0)) := by
  refine .start (.trailing (trails_of_cases (fun {id source u found t} h => ?_)
    fun {source u} id h => ?_))
  · obtain ⟨hasQuestion, v, haccept, hrun⟩ := bind_eq_ok h
    obtain ⟨rfl, -, -⟩ | ⟨rfl, -, rfl⟩ := accept_eq_ok haccept
    · refine .inl (MakesForm.bind (fun yes => .bind fun _ => .bind fun tokens => ?_) _ _ _ _ hrun)
      split
      · exact .bind fun no => .pushFrom rfl _
      · exact .bind fun no => .pushFrom rfl _
    · cases hrun
      exact .inr ⟨rfl, rfl⟩
  · have hkind : u.current.kind = .eof := by
      rw [← u.kindAt_rest_zero, h]
      rfl
    have haccept : accept .question source u = .ok false u := by
      show (if u.current.kind == .question then _ else _ : Parser Bool) source u = _
      rw [hkind]
      rfl
    rw [bind_apply, haccept]
    rfl

theorem lambda_form : MakesForm (!·.isMarkup) (lambda p) := by
  refine .bind fun origin => .bind fun parenthesized => ?_
  have hrest : ∀ parameters : List NodeId, MakesForm (!·.isMarkup) (do
      expect .arrow
      let body ← if ← check .leftBrace then block p else p .expression
      pushFrom origin (.lambda parameters body parenthesized)) := by
    intro parameters
    refine .bind fun _ => .bind fun hasBlock => ?_
    split
    · exact .bind fun body => .pushFrom rfl _
    · exact .bind fun body => .pushFrom rfl _
  split
  · exact .bind fun found => .bind fun _ => hrest found
  · exact .bind fun only => hrest [only]

theorem expression_delegates : DelegatesAt source s (expression p) (nested (p .conditional)) := by
  refine .nested fun u hrest => .ahead ?_
  split
  · next hlambda =>
    refine .other lambda_form rfl (Bool.eq_false_iff.2 fun hopens => ?_)
    unfold startsLambda at hlambda
    obtain hkind | hkind | hkind := TokenKind.opensMarkup_cases hopens <;>
    · rw [hkind] at hlambda
      cases hlambda
  · refine .start (.trailing (trails_of_cases (fun {id source v found t} h => ?_)
      fun {source v} id h => ?_))
    · rw [ahead_bind_apply] at h
      cases hassign : assignmentAhead? v.rest with
      | some assignment =>
        rw [hassign] at h
        exact .inl (MakesForm.bind (fun _ => .bind fun value => .pushFrom rfl _) _ _ _ _ h)
      | none =>
        rw [hassign] at h
        cases h
        exact .inr ⟨rfl, rfl⟩
    · rw [ahead_bind_apply, h]
      rfl

/-- **From an expression down to a container.**  Five productions lie on the way. -/
theorem derive_expression_delegates (fuel : Nat) :
    DelegatesAt source s (derive (fuel + 5) .expression)
      (nested (container (derive (fuel + 1)))) := by
  refine expression_delegates.trans (.nested fun u _ => ?_)
  refine conditional_delegates.trans ?_
  refine (binary_delegates 0).trans ?_
  refine unary_delegates.trans ?_
  exact suffixed_delegates.trans (primary_delegates (derive_traced (fuel + 1)))

/-- Containers open a level of their own, so another one around them makes no difference. -/
theorem nested_container (hkind : (kindAt s.rest 0).opensMarkup = true) :
    nested (container p) source s = container p source s := by
  have hself : ∀ {x y : Parser NodeId}, x = nested y →
      (∀ u : State, u.rest = s.rest → container p source u = x source u) →
      nested (container p) source s = container p source s := by
    intro x y hx h
    rw [nested_congr h, h s rfl, hx, nested_nested]
  obtain hkind | hkind | hkind := TokenKind.opensMarkup_cases hkind
  · exact hself (x := tag p) rfl fun u hrest => container_eq_tag (hrest ▸ hkind)
  · exact hself (x := jsonObject p) rfl fun u hrest => container_eq_jsonObject (hrest ▸ hkind)
  · exact hself (x := jsonArray p) rfl fun u hrest => container_eq_jsonArray (hrest ▸ hkind)

theorem jsonDocument_isJson : MakesForm NodeKind.isJson (jsonDocument p) := by
  refine .bind fun kind => ?_
  split
  · exact jsonObject_isJson
  · exact jsonArray_isJson
  · exact .unexpected _

theorem kindAt_of_tag {id : NodeId} (h : tag p source s = .ok id t) :
    kindAt s.rest 0 = .operator "<" := by
  obtain ⟨u, v, hrun, hrest, -⟩ := nested_eq_ok h
  obtain ⟨origin, _, hstart, hrun⟩ := bind_eq_ok hrun
  cases hstart
  obtain ⟨_, _, hexpect, -⟩ := bind_eq_ok hrun
  rw [← hrest, u.kindAt_rest_zero]
  exact (expect_eq_ok hexpect).1

theorem kindAt_of_jsonDocument {id : NodeId} (h : jsonDocument p source s = .ok id t) :
    kindAt s.rest 0 = .leftBrace ∨ kindAt s.rest 0 = .leftBracket := by
  rw [jsonDocument, peek_bind_apply] at h
  cases hkind : kindAt s.rest 0 with
  | leftBrace => exact .inl rfl
  | leftBracket => exact .inr rfl
  | _ =>
    rw [hkind] at h
    cases h

theorem opensMarkup_of_container {id : NodeId} (h : container p source s = .ok id t) :
    (kindAt s.rest 0).opensMarkup = true := by
  by_cases hkind : kindAt s.rest 0 = .operator "<"
  · rw [hkind]
    rfl
  · rw [container_eq_jsonDocument hkind] at h
    obtain hkind | hkind := kindAt_of_jsonDocument h <;>
    · rw [hkind]
      rfl

/-! ### Blocks inside one more level -/

/-- Whatever stands before it, a statement that starts with a brace is a block. -/
theorem statement_eq_block (hkind : kindAt s.rest 0 = .leftBrace) :
    statement p source s = nested (block p) source s := by
  refine nested_congr fun u hrest => ?_
  rw [start_bind_apply, peek_bind_apply, peek_bind_apply, hrest, hkind]

theorem plainStmt_form (origin : Nat) :
    MakesForm (!·.isBlock) (plainStmt p origin) := by
  refine .bind fun tokens => ?_
  split
  · exact .bind fun front => .bind fun declaration => .pushFrom rfl _
  · exact .bind fun expression => .bind fun _ => .pushFrom rfl _

/-- Only a brace starts a statement that is a block. -/
theorem kindAt_of_isBlock {id : NodeId} (h : statement p source s = .ok id t)
    (hblock : (kindIn t.nodes id).isBlock = true) : kindAt s.rest 0 = .leftBrace := by
  obtain ⟨u, v, hrun, hrest, -, -, hnodes⟩ := nested_eq_ok h
  rw [start_bind_apply, peek_bind_apply, peek_bind_apply, hrest] at hrun
  have hother : ¬HasForm (!·.isBlock) v id := by
    intro hform
    rw [← hnodes, hform.eq_false] at hblock
    cases hblock
  cases hkind : kindAt s.rest 0 with
  | leftBrace => rfl
  | semicolon =>
    rw [hkind] at hrun
    exact absurd (MakesForm.bind (fun _ => .pushFrom rfl _) _ _ _ _ hrun) hother
  | identifier label =>
    rw [hkind] at hrun
    dsimp only at hrun
    split at hrun
    · exact absurd (MakesForm.bind (fun _ => .bind fun _ => .pushFrom rfl _) _ _ _ _ hrun) hother
    · exact absurd (plainStmt_form _ _ _ _ _ hrun) hother
  | keyword word =>
    rw [hkind] at hrun
    dsimp only at hrun
    cases hbody : keywordStmt? p word (kindAt s.rest 1) with
    | none =>
      rw [hbody] at hrun
      exact absurd (plainStmt_form _ _ _ _ _ hrun) hother
    | some body =>
      rw [hbody] at hrun
      obtain ⟨kind, w, hform, hpush⟩ := bind_eq_ok hrun
      have hkeyword := keywordStmt?_formsStatement hbody _ _ _ _ hform
      have hnot : (!kind.isBlock) = true := NodeKind.not_isBlock_of_isKeywordStmt hkeyword
      exact absurd (MakesForm.pushFrom hnot _ _ _ _ _ hpush) hother
  | _ =>
    rw [hkind] at hrun
    exact absurd (plainStmt_form _ _ _ _ _ hrun) hother

/-- **A block inside one more level.**  It does what the block does outside of it, unless it is
    nested too deep. -/
theorem block_deeper {q : Productions} (hs : s.IsValid source)
    (hp : ∀ construct, Agree source source Eq (p construct) (q construct))
    (hkind : kindAt s.rest 0 = .leftBrace) :
    AgreeAt source source { s with levels := s.start :: s.levels } s Eq (block p) (block q) := by
  have hblock : ∀ (p : Productions) (u : State), u.rest = s.rest →
      block p source u = blockRest p u.start source u.advance := by
    intro p u hrest
    exact expect_bind_apply _ (hrest ▸ hkind)
  have hrest : s.rest ≠ [] := by
    intro hrest
    rw [hrest] at hkind
    cases hkind
  -- past the brace no level starts at the next token, so one more of them is not noticed
  have htwin : Twin source source (State.advance { s with levels := s.start :: s.levels })
      s.advance := by
    refine .of_advance (hs.withLevels ?_) hs (.refl _) hrest (Nat.le_succ _) rfl
      fun _ => ⟨_, rfl⟩
    exact List.forall_mem_cons.2 ⟨Nat.le_refl _, hs.levels_le⟩
  unfold AgreeAt
  rw [hblock p { s with levels := s.start :: s.levels } rfl, hblock q s rfl]
  exact (blockRest_agree hp (fun _ => rfl) _ _ htwin).imp (fun _ _ h => h)
    (State.leadsTo_advance _).levels_eq s.leadsTo_advance.levels_eq

theorem kindAt_of_block {id : NodeId} (h : block p source s = .ok id t) :
    kindAt s.rest 0 = .leftBrace := by
  obtain ⟨origin, _, hstart, hrun⟩ := bind_eq_ok h
  cases hstart
  obtain ⟨_, _, hexpect, -⟩ := bind_eq_ok hrun
  rw [s.kindAt_rest_zero]
  exact (expect_eq_ok hexpect).1

/-- **A statement in braces and the block.**  Where the statement opens a level, each does what the
    other one does, unless a bound is met. -/
theorem statement_block {q : Productions} (hs : s.IsValid source)
    (hp : ∀ construct, Agree source source Eq (p construct) (q construct))
    (hkind : kindAt s.rest 0 = .leftBrace) (hopen : s.levels.head? ≠ some s.start)
    (hroom : ¬maxNesting ≤ s.levels.length) :
    (∀ id t, statement p source s = .ok id t → block q source s = .ok id t
      ∨ ∃ error u, block q source s = .error error u ∧ error.fault = .exhausted)
    ∧ ∀ id t, block q source s = .ok id t → statement p source s = .ok id t
      ∨ ∃ error u, statement p source s = .error error u
        ∧ (error.fault = .nestingTooDeep ∨ error.fault = .exhausted) := by
  have hagree := block_deeper hs hp hkind
  unfold AgreeAt at hagree
  rw [statement_eq_block hkind, nested_of_room _ hopen hroom]
  generalize block p source _ = inside at hagree ⊢
  generalize block q source s = outside at hagree ⊢
  cases hagree with
  | exhaustedLeft h => exact ⟨nofun, fun id t _ => .inr ⟨_, _, rfl, .inr h⟩⟩
  | exhaustedRight h => exact ⟨fun id t _ => .inr ⟨_, _, rfl, h⟩, nofun⟩
  | tooDeep h => exact ⟨nofun, fun id t _ => .inr ⟨_, _, rfl, .inl h⟩⟩
  | fail => exact ⟨nofun, nofun⟩
  | @ok root root' u v h htwin hleft hright =>
    -- the levels of the two runs are those at the start again, and all else is the same
    obtain ⟨levels, rfl⟩ := htwin.same rfl
    have hlevels : levels.tail = v.levels := by
      rw [hright, show levels = s.start :: s.levels from hleft]
      rfl
    have hclosed : { { v with levels := levels } with levels := levels.tail } = v := by
      rw [hlevels]
    subst h
    dsimp only
    rw [hclosed]
    exact ⟨fun id t => .inl, fun id t => .inl⟩

end Grammar

/-! ### Runs on one text -/

theorem Twin.refl {source : Source} {s : State} (hs : s.IsValid source) : Twin source source s s :=
  ⟨hs, hs, .refl _, rfl, ⟨0, (List.append_nil _).symm⟩, rfl, fun _ => ⟨s.levels, rfl⟩⟩

/-- Computations that agree give the same result on one text, unless one of them meets its bound. -/
theorem Parser.Agree.eq_ok {source : Source} {s t : State} {x y : Parser NodeId} {id : NodeId}
    (h : Agree source source Eq x y) (hs : s.IsValid source) (hx : x source s = .ok id t)
    (hbound : ∀ error u, y source s = .error error u → error.fault ≠ .exhausted) :
    y source s = .ok id t := by
  have hrun := h s s (.refl hs)
  unfold AgreeAt at hrun
  rw [hx] at hrun
  generalize y source s = right at hrun hbound
  cases hrun with
  | exhaustedRight h => exact absurd h (hbound _ _ rfl)
  | ok h htwin hleft hright =>
    obtain ⟨levels, rfl⟩ := htwin.same rfl
    have hlevels : levels = _ := hleft.trans hright.symm
    rw [h, hlevels]

/-! ### Trees of a parse -/

namespace Source

variable {source : Source} {tree : Tree}

theorem exists_fuel (source : Source) : ∃ fuel, source.nestingFuel = fuel + 5 :=
  ⟨8 * source.size + 11, by rw [nestingFuel]; omega⟩

/-- **Containers among expressions.**  From an entry point whose production is that of containers of
    some form, the tree is that of the expression, if its root has that form. -/
theorem parse_container_iff (entry : EntryPoint) {form : NodeKind → Bool}
    (hform : ∀ {kind}, form kind = true → kind.isMarkup = true)
    (hmakes : ∀ p, MakesForm form (entry.production p))
    (hproduction : ∀ {p source s id t}, entry.production p source s = .ok id t →
      ∀ q, Grammar.container q source s = entry.production q source s)
    (hcontainer : ∀ {p source s id t}, Grammar.container p source s = .ok id t →
      form (kindIn t.nodes id) = true → entry.production p source s = .ok id t)
    (source : Source) (tree : Tree) :
    source.parse entry = .ok tree
      ↔ source.parse .expression = .ok tree ∧ form (tree.kind tree.root) = true := by
  obtain ⟨fuel, hfuel⟩ := source.exists_fuel
  constructor
  · intro hparse
    obtain ⟨body, htokens, hbody, -⟩ := parse_eq_ok hparse
    obtain ⟨s, hrun, hend, htree⟩ := (parse_eq_ok_iff_run htokens).1 hparse
    have hvalid := (isSound_initial hbody).valid
    have hroot : form (tree.kind tree.root) = true := by
      rw [htree]
      exact (hmakes _ _ _ _ _ hrun).2
    have hopens := Grammar.opensMarkup_of_container ((hproduction hrun _).trans hrun)
    have hsame := hproduction hrun (Grammar.derive (fuel + 1))
    have hnested := @Grammar.nested_container (Grammar.derive (fuel + 1)) source _ hopens
    have hdelegates := @Grammar.derive_expression_delegates source
      { rest := body, stop := source.size } fuel
    rw [← hfuel] at hdelegates
    refine ⟨(parse_eq_ok_iff_run htokens).2 ⟨s, ?_, hend, htree⟩, hroot⟩
    refine hdelegates.ok _ _ hopens (hnested.trans (hsame.trans ?_)) hend
    -- inside the expression the bound is lower; but were it met there, the expression would fail
    refine (entry.production_agree (Grammar.derive_agree _ _)).eq_ok hvalid hrun ?_
    intro error u herror
    obtain ⟨v, houter⟩ := hdelegates.error error u hopens (hnested.trans (hsame.trans herror))
    have hfails : source.parse .expression = .error error := parse_of_error htokens houter
    exact parse_ne_exhausted hfails
  · rintro ⟨hparse, hroot⟩
    obtain ⟨body, htokens, hbody, -⟩ := parse_eq_ok hparse
    obtain ⟨s, hrun, hend, htree⟩ := (parse_eq_ok_iff_run htokens).1 hparse
    have hvalid := (isSound_initial hbody).valid
    have hkind : form (kindIn s.nodes tree.root) = true := by
      rw [htree] at hroot
      exact hroot
    have hdelegates := @Grammar.derive_expression_delegates source
      { rest := body, stop := source.size } fuel
    rw [← hfuel] at hdelegates
    have hnested := hdelegates.markup _ _ hrun (hform hkind)
    obtain ⟨u, v, hinner, hrest, -⟩ := nested_eq_ok hnested
    have hopens := Grammar.opensMarkup_of_container hinner
    rw [hrest] at hopens
    rw [Grammar.nested_container hopens] at hnested
    refine (parse_eq_ok_iff_run htokens).2 ⟨s, ?_, hend, htree⟩
    refine (entry.production_agree (Grammar.derive_agree _ _)).eq_ok hvalid
      (hcontainer hnested hkind) fun error u herror => ?_
    exact parse_ne_exhausted (parse_of_error htokens herror)

theorem parse_tag_iff (source : Source) (tree : Tree) :
    source.parse .tag = .ok tree
      ↔ source.parse .expression = .ok tree ∧ Grammar.isTag (tree.kind tree.root) = true := by
  refine parse_container_iff .tag NodeKind.isMarkup_of_isTag (fun _ => Grammar.tag_isTag)
    (fun h q => Grammar.container_eq_tag (Grammar.kindAt_of_tag h)) ?_ source tree
  intro p source s id t h htag
  by_cases hkind : kindAt s.rest 0 = .operator "<"
  · exact (Grammar.container_eq_tag hkind).symm.trans h
  · rw [Grammar.container_eq_jsonDocument hkind] at h
    have hjson := (Grammar.jsonDocument_isJson _ _ _ _ h).2
    rw [NodeKind.not_isJson_of_isTag htag] at hjson
    cases hjson

theorem parse_json_iff (source : Source) (tree : Tree) :
    source.parse .json = .ok tree
      ↔ source.parse .expression = .ok tree ∧ (tree.kind tree.root).isJson = true := by
  have hsign : ∀ {p source s id t}, Grammar.jsonDocument p source s = .ok id t →
      kindAt s.rest 0 ≠ .operator "<" := by
    intro p source s id t h hkind
    obtain hbrace | hbracket := Grammar.kindAt_of_jsonDocument h
    · cases hkind.symm.trans hbrace
    · cases hkind.symm.trans hbracket
  refine parse_container_iff .json NodeKind.isMarkup_of_isJson
    (fun _ => Grammar.jsonDocument_isJson)
    (fun h q => Grammar.container_eq_jsonDocument (hsign h)) ?_ source tree
  intro p source s id t h hjson
  by_cases hkind : kindAt s.rest 0 = .operator "<"
  · rw [Grammar.container_eq_tag hkind] at h
    have htag := (Grammar.tag_isTag _ _ _ _ h).2
    rw [NodeKind.not_isJson_of_isTag htag] at hjson
    cases hjson
  · exact (Grammar.container_eq_jsonDocument hkind).symm.trans h

/-- The production of statements has blocks inside it, with a lower bound. -/
theorem exists_statement (source : Source) :
    ∃ fuel, EntryPoint.statement.production (Grammar.derive source.nestingFuel)
      = Grammar.statement (Grammar.derive fuel) := by
  obtain ⟨fuel, hfuel⟩ := source.exists_fuel
  refine ⟨fuel + 4, ?_⟩
  rw [hfuel]
  rfl

theorem parse_block_of_statement (hparse : source.parse .statement = .ok tree)
    (hblock : (tree.kind tree.root).isBlock = true) : source.parse .block = .ok tree := by
  obtain ⟨fuel, hfuel⟩ := source.exists_statement
  obtain ⟨body, htokens, hbody, -⟩ := parse_eq_ok hparse
  obtain ⟨s, hrun, hend, htree⟩ := (parse_eq_ok_iff_run htokens).1 hparse
  rw [hfuel] at hrun
  have hkind : kindAt body 0 = .leftBrace := by
    rw [htree] at hblock
    exact Grammar.kindAt_of_isBlock hrun hblock
  obtain ⟨hinside, -⟩ := Grammar.statement_block (isSound_initial hbody).valid
    (Grammar.derive_agree fuel source.nestingFuel) hkind nofun
    (show ¬maxNesting ≤ ([] : List Nat).length by decide)
  obtain hsame | ⟨error, u, herror, hfault⟩ := hinside _ _ hrun
  · exact (parse_eq_ok_iff_run htokens).2 ⟨s, hsame, hend, htree⟩
  · have hfails : source.parse .block = .error error := parse_of_error htokens herror
    exact absurd hfault (parse_ne_exhausted hfails)

theorem parse_statement_of_block (hparse : source.parse .block = .ok tree) :
    source.parse .statement = .ok tree
      ∨ ∃ error, source.parse .statement = .error error ∧ error.fault = .nestingTooDeep := by
  obtain ⟨fuel, hfuel⟩ := source.exists_statement
  obtain ⟨body, htokens, hbody, -⟩ := parse_eq_ok hparse
  obtain ⟨s, hrun, hend, htree⟩ := (parse_eq_ok_iff_run htokens).1 hparse
  have hkind : kindAt body 0 = .leftBrace := Grammar.kindAt_of_block hrun
  obtain ⟨-, houtside⟩ := Grammar.statement_block (isSound_initial hbody).valid
    (Grammar.derive_agree fuel source.nestingFuel) hkind nofun
    (show ¬maxNesting ≤ ([] : List Nat).length by decide)
  rw [← hfuel] at houtside
  obtain hsame | ⟨error, u, herror, hfault⟩ := houtside _ _ hrun
  · exact .inl ((parse_eq_ok_iff_run htokens).2 ⟨s, hsame, hend, htree⟩)
  · have hfails : source.parse .statement = .error error := parse_of_error htokens herror
    exact .inr ⟨error, hfails, hfault.resolve_right (parse_ne_exhausted hfails)⟩

/-- **Entry points that share productions agree.**  A tag is parsed by itself if and only if it is
    parsed as an expression with a tag at its root, and then into the same tree; json containers
    likewise.  A statement that is a block is parsed as a block into the same tree.  What is parsed
    as a block is parsed as a statement into the same tree, unless the level that a statement opens
    is one too many. -/
theorem parse_entries_agree (source : Source) :
    (∀ tree, source.parse .tag = .ok tree
      ↔ source.parse .expression = .ok tree ∧ Grammar.isTag (tree.kind tree.root) = true)
    ∧ (∀ tree, source.parse .json = .ok tree
      ↔ source.parse .expression = .ok tree ∧ (tree.kind tree.root).isJson = true)
    ∧ (∀ tree, source.parse .statement = .ok tree → (tree.kind tree.root).isBlock = true →
      source.parse .block = .ok tree)
    ∧ ∀ tree, source.parse .block = .ok tree → source.parse .statement = .ok tree
      ∨ ∃ error, source.parse .statement = .error error ∧ error.fault = .nestingTooDeep :=
  ⟨source.parse_tag_iff, source.parse_json_iff, fun _ => parse_block_of_statement,
    fun _ => parse_statement_of_block⟩

/-- Blocks inside each other, one more than there are levels. -/
def deepBlocks : Source :=
  .ofText (String.ofList
    (List.replicate (maxNesting + 1) '\x7b' ++ List.replicate (maxNesting + 1) '\x7d'))

/-- As a block the outermost braces open no level, as a statement they do. -/
theorem parse_entries_agree_deep :
    ∃ tree error, deepBlocks.parse .block = .ok tree
      ∧ deepBlocks.parse .statement = .error error ∧ error.fault = .nestingTooDeep := by
  obtain ⟨tree, hparse⟩ : ∃ tree, deepBlocks.parse .block = .ok tree :=
    exists_eq_ok (by decide +kernel)
  have hfails : (deepBlocks.parse .statement).isOk = false := by decide +kernel
  obtain hsame | ⟨error, herror, hfault⟩ := (parse_entries_agree deepBlocks).2.2.2 tree hparse
  · rw [hsame] at hfails
    cases hfails
  · exact ⟨tree, error, hparse, herror, hfault⟩

end Source

end CodeMarkup
