import CodeMarkup.Proofs.Traces.Rules

namespace CodeMarkup

/-!
# Operands of binary operations

The loop over binary operations ends for one of several reasons, and then hands what follows to the
loop around it.  Here is what each of them may still find.

* `HasForm`: a node of a form that passes a test.
* `Ends`: why no operation of some power goes on with the tokens ahead.
* `IsOperand`, `IsLeft`: what the loop over operations has made when it ends, and before each round.
* `Productions.Traced`: productions that leave traces and make such operands.
* `Grammar.operation_step`, `Grammar.binary_run`: one round of the loop, and all of it.
-/

open Parser

/-- A node of a form that passes a test. -/
def HasForm (form : NodeKind → Bool) (s : State) (id : NodeId) : Prop :=
  id < s.nodes.size ∧ form (kindIn s.nodes id) = true

/-- No operation that binds at least as tightly as `power` goes on with some tokens.  The sign `<`
    goes on with nothing where it closes a tag, or where it stands after one. -/
structure Ends (power : Nat) (afterTag : Bool) (tokens : List Token) : Prop where
  instanceOf : kindAt tokens 0 = .keyword .kwInstanceof → Grammar.instanceOfPower < power
  binary : ∀ symbol count op, kindAt tokens 0 ≠ .keyword .kwInstanceof →
    operatorAhead? tokens = some (symbol, count) → BinaryOp.ofSymbol? symbol = some op →
    (symbol = "<" ∧ (startsClosingTag tokens = true ∨ afterTag = true)) ∨ op.power < power

/-- What a loop over the operations of some power has made. -/
structure IsOperand (power : Nat) (s : State) (id : NodeId) : Prop where
  lt_size : id < s.nodes.size
  operand : (kindIn s.nodes id).isOperand = true
  binds : (kindIn s.nodes id).BindsAtLeast power
  ends : Ends power (Grammar.isTag (kindIn s.nodes id)) s.rest

/-- The left operand of an operation that may follow.  If it is a binary operation itself, the loop
    that has made its right operand has ended here. -/
structure IsLeft (power : Nat) (s : State) (id : NodeId) : Prop where
  lt_size : id < s.nodes.size
  operand : (kindIn s.nodes id).isOperand = true
  binds : (kindIn s.nodes id).BindsAtLeast power
  right_ends : ∀ left op right, kindIn s.nodes id = .binary left op right →
    Ends (op.power + 1) (Grammar.isTag (kindIn s.nodes right)) s.rest

/-- Productions that leave traces and make nodes of certain forms.  Binary operations are operands
    of their power. -/
structure Productions.Traced (p : Productions) : Prop where
  traced : ∀ construct, Parser.Traced 0 (p construct)
  operand : ∀ {power source s id t}, p (.binary power) source s = .ok id t → IsOperand power t id
  type : ∀ {source s id t}, p .type source s = .ok id t → HasForm NodeKind.isType t id
  unary : ∀ {source s id t}, p .unary source s = .ok id t → HasForm NodeKind.isPlain t id
  arrayInitializer : ∀ {source s id t}, p .arrayInitializer source s = .ok id t →
    HasForm NodeKind.isArrayInitializer t id

/-! ### Left operands -/

section

variable {s : State}

theorem HasForm.isLeft {id : NodeId} (h : HasForm NodeKind.isPlain s id) (power : Nat) :
    IsLeft power s id := by
  obtain ⟨hlt, hplain⟩ := h
  have hoperation := NodeKind.not_isOperation_of_isPlain hplain
  refine ⟨hlt, Bool.or_eq_true_iff.2 (.inl hplain),
    NodeKind.bindsAtLeast_of_not_isOperation hoperation power, fun left op right hkind => ?_⟩
  rw [hkind] at hplain
  cases hplain

/-- A left operand binds as tightly as a type test that follows it. -/
theorem IsLeft.binds_instanceOf {power : Nat} {left : NodeId} (h : IsLeft power s left)
    (hkind : kindAt s.rest 0 = .keyword .kwInstanceof) :
    (kindIn s.nodes left).BindsAtLeast Grammar.instanceOfPower := by
  have hends := h.right_ends
  cases hform : kindIn s.nodes left with
  | binary _ op right =>
    -- the loop of the right operand has ended before the type test
    have hlt := (hends _ op right hform).instanceOf hkind
    exact Nat.le_of_lt_succ hlt
  | instanceOf _ _ => exact Nat.le_refl _
  | _ => trivial

/-- A left operand binds as tightly as an operator that follows it, or is an exception. -/
theorem IsLeft.binds_binary {power count : Nat} {left : NodeId} {symbol : String} {op : BinaryOp}
    (h : IsLeft power s left) (hkind : kindAt s.rest 0 ≠ .keyword .kwInstanceof)
    (hoperator : operatorAhead? s.rest = some (symbol, count))
    (hop : BinaryOp.ofSymbol? symbol = some op)
    (hmarkup : ¬(symbol = "<" ∧ startsClosingTag s.rest = true)) :
    (kindIn s.nodes left).BindsAtLeast op.power ∨ (kindIn s.nodes left).isInstanceOf = true
      ∨ (kindIn s.nodes left).EndsInTag s.nodes := by
  have hends := h.right_ends
  cases hform : kindIn s.nodes left with
  | binary _ op' right =>
    -- the loop of the right operand has ended before the operator
    rcases (hends _ op' right hform).binary symbol count op hkind hoperator hop with
      ⟨hless, hclosing | htag⟩ | hlooser
    · exact absurd ⟨hless, hclosing⟩ hmarkup
    · exact .inr (.inr htag)
    · exact .inl (Nat.le_of_lt_succ hlooser)
  | instanceOf _ _ => exact .inr (.inl rfl)
  | _ => exact .inl trivial

theorem symbol_eq_of_ofSymbol? {symbol : String} {op : BinaryOp}
    (h : BinaryOp.ofSymbol? symbol = some op) : op.symbol = symbol := by
  unfold BinaryOp.ofSymbol? at h
  have hfound := List.find?_some h
  exact eq_of_beq hfound

/-- An operator that is not taken for markup may follow a left operand. -/
theorem IsLeft.mayFollow {power : Nat} {left : NodeId} {symbol : String} {op : BinaryOp}
    (h : IsLeft power s left) (hop : BinaryOp.ofSymbol? symbol = some op)
    (hmarkup : ¬(symbol = "<" ∧ Grammar.isTag (kindIn s.nodes left) = true)) :
    op.MayFollow s.nodes left := by
  refine ⟨h.lt_size, h.operand, fun hless => ?_⟩
  have hsymbol : "<" = symbol := by
    rw [← symbol_eq_of_ofSymbol? hop, hless]
    rfl
  exact Bool.eq_false_iff.2 fun htag => hmarkup ⟨hsymbol.symm, htag⟩

/-- A node that has just been made may be a left operand. -/
theorem isLeft_add {power : Nat} {node : Node} (hoperand : node.kind.isOperand = true)
    (hbinds : node.kind.BindsAtLeast power)
    (hends : ∀ left op right, node.kind = .binary left op right → right < s.nodes.size
      ∧ Ends (op.power + 1) (Grammar.isTag (kindIn s.nodes right)) s.rest) :
    IsLeft power (s.add node) s.nodes.size := by
  have hkept : s.nodes.toList <+: (s.add node).nodes.toList := (s.leadsTo_add node).nodes_kept
  have hkind : kindIn (s.add node).nodes s.nodes.size = node.kind := kindIn_push_size _ _
  refine ⟨by simp [State.add], by rw [hkind]; exact hoperand, by rw [hkind]; exact hbinds,
    fun left op right hform => ?_⟩
  rw [hkind] at hform
  obtain ⟨hlt, hright⟩ := hends left op right hform
  rw [kindIn_eq_of_lt hkept hlt]
  exact hright

end

namespace Parser

variable {α : Type} {source : Source} {s t : State} {form : NodeKind → Bool} {x : Parser NodeId}

/-! ### Nodes made last -/

/-- A computation that makes a node of a form that passes a test. -/
def MakesForm (form : NodeKind → Bool) (x : Parser NodeId) : Prop :=
  ∀ source s id t, x source s = .ok id t → HasForm form t id

theorem push_eq_ok {kind : NodeKind} {span : Span} {unannotatedStart : Option Nat} {id : NodeId}
    (h : push kind span unannotatedStart source s = .ok id t) :
    id = s.nodes.size ∧ ∃ node : Node, node.kind = kind ∧ t = s.add node := by
  cases h
  exact ⟨rfl, nodeOf source kind span unannotatedStart, rfl, rfl⟩

theorem pushFrom_eq_ok {kind : NodeKind} {start : Nat} {id : NodeId}
    (h : pushFrom start kind source s = .ok id t) :
    id = s.nodes.size ∧ ∃ node : Node, node.kind = kind ∧ t = s.add node :=
  push_eq_ok h

namespace MakesForm

/-- Only the last part of a sequence matters. -/
theorem bind {y : Parser α} {f : α → Parser NodeId} (hf : ∀ a, MakesForm form (f a)) :
    MakesForm form (y >>= f) := by
  intro source s id t h
  obtain ⟨a, u, -, hrest⟩ := bind_eq_ok h
  exact hf a source u id t hrest

theorem mono {form' : NodeKind → Bool} (hx : MakesForm form x)
    (hform : ∀ kind, form kind = true → form' kind = true) : MakesForm form' x :=
  fun source s id t h => (hx source s id t h).imp_right (hform _)

theorem push {kind : NodeKind} (hkind : form kind = true) (span : Span)
    (unannotatedStart : Option Nat) : MakesForm form (push kind span unannotatedStart) := by
  intro source s id t h
  obtain ⟨rfl, node, hnode, rfl⟩ := push_eq_ok h
  refine ⟨by simp [State.add], ?_⟩
  rw [State.add, kindIn_push_size, hnode]
  exact hkind

theorem pushFrom {kind : NodeKind} (hkind : form kind = true) (start : Nat) :
    MakesForm form (pushFrom start kind) :=
  bind fun _ => push hkind _ none

theorem fails (h : ∀ source s, ∃ error t, x source s = .error error t) : MakesForm form x := by
  intro source s id t hrun
  obtain ⟨error, u, herror⟩ := h source s
  rw [herror] at hrun
  cases hrun

theorem unexpected (expected : String) : MakesForm form (unexpected expected) :=
  fails fun _ _ => ⟨_, _, rfl⟩

theorem nested (hx : MakesForm form x) : MakesForm form (nested x) := by
  intro source s id t h
  obtain ⟨u, v, hrun, -, -, -, hnodes⟩ := nested_eq_ok h
  have hplain := hx source u id v hrun
  unfold HasForm at hplain ⊢
  rwa [hnodes] at hplain

/-- A loop that starts with such a node, and goes on with another one or does nothing. -/
theorem extend {step : NodeId → Parser (Option NodeId)}
    (hstep : ∀ a source s result t, step a source s = .ok result t →
      (∃ b, result = some b ∧ HasForm form t b) ∨ (result = none ∧ t = s))
    {first : Parser NodeId} (hfirst : MakesForm form first) :
    MakesForm form (first >>= extend step) := by
  intro source s id t h
  obtain ⟨a, u, ha, hloop⟩ := bind_eq_ok h
  have hends := extend_stops (I := HasForm form) (J := fun _ _ => True)
    (fun a result v w _ hround => (hstep a source v result w hround).imp_right fun ⟨hnone, hsame⟩ =>
      ⟨hnone, hsame, trivial⟩)
    (hfirst source s a u ha) hloop
  exact hends.1

end MakesForm

/-- A round of a loop that goes on with a node of a form that passes a test. -/
def GoesOn (form : NodeKind → Bool) (x : Parser (Option NodeId)) : Prop :=
  ∀ source s result t, x source s = .ok result t → ∃ id, result = some id ∧ HasForm form t id

theorem GoesOn.bind {y : Parser α} {f : α → Parser (Option NodeId)} (hf : ∀ a, GoesOn form (f a)) :
    GoesOn form (y >>= f) := by
  intro source s result t h
  obtain ⟨a, u, -, hrest⟩ := bind_eq_ok h
  exact hf a source u result t hrest

theorem GoesOn.some (hx : MakesForm form x) : GoesOn form (some <$> x) := by
  intro source s result t h
  change (x >>= fun id => pure (Option.some id)) source s = _ at h
  obtain ⟨id, u, hrun, hpure⟩ := bind_eq_ok h
  cases hpure
  exact ⟨id, rfl, hx source s id _ hrun⟩

end Parser

namespace Grammar

variable {p : Productions} {source : Source} {s t : State}

/-! ### Operands without operators -/

theorem typeSegment_isType (origin : Nat) (scope : Option NodeId) :
    MakesForm NodeKind.isType (typeSegment p origin scope) :=
  .bind fun _ => .bind fun _ => .pushFrom rfl _

theorem classType_isType : MakesForm NodeKind.isType (classType p) := by
  refine .bind fun origin => .extend ?_ (typeSegment_isType origin none)
  intro scope source s result t h
  change (if startsMember s.rest = true then
    (advance >>= fun _ => some <$> typeSegment p origin (some scope)) else pure none :
      Parser (Option NodeId)) source s = _ at h
  split at h
  · exact .inl (GoesOn.bind (fun _ => .some (typeSegment_isType _ _)) source s result t h)
  · cases h
    exact .inr ⟨rfl, rfl⟩

theorem arrayDims_isType (origin : Nat) {base : Parser NodeId}
    (hbase : MakesForm NodeKind.isType base) :
    MakesForm NodeKind.isType (base >>= arrayDims origin) := by
  refine .extend ?_ hbase
  intro type source s result t h
  change (if startsDim s.rest = true then
    (advanceTwo >>= fun _ => some <$> pushFrom origin (.arrayType type)) else pure none :
      Parser (Option NodeId)) source s = _ at h
  split at h
  · exact .inl (GoesOn.bind (fun _ => .some (.pushFrom rfl _)) source s result t h)
  · cases h
    exact .inr ⟨rfl, rfl⟩

theorem nonArrayType_isType : MakesForm NodeKind.isType (nonArrayType p) := by
  refine .bind fun kind => ?_
  split
  · split
    · exact .bind fun _ => .bind fun _ => .pushFrom rfl _
    · exact .unexpected _
  · exact classType_isType
  · exact .unexpected _

theorem type_isType : MakesForm NodeKind.isType (type p) :=
  .nested (.bind fun origin => arrayDims_isType origin nonArrayType_isType)

theorem arrayInitializer_form : MakesForm NodeKind.isArrayInitializer (arrayInitializer p) :=
  .nested (.bind fun _ => .bind fun _ => .bind fun _ => .bind fun _ => .pushFrom rfl _)

theorem tag_isTag : MakesForm isTag (tag p) := by
  refine .nested (.bind fun origin => .bind fun _ => .bind fun name => .bind fun attributes =>
    .bind fun opened => ?_)
  split
  · refine .bind fun body => .bind fun _ => .bind fun closeStart => .bind fun closing => ?_
    split
    · exact .bind fun _ => .pushFrom rfl _
    · exact .bind fun _ => .fails fun _ _ => ⟨_, _, rfl⟩
  · exact .bind fun _ => .pushFrom rfl _

theorem jsonObject_isJson : MakesForm NodeKind.isJson (jsonObject p) :=
  .nested (.bind fun _ => .bind fun _ => .bind fun _ => .bind fun _ => .bind fun _ =>
    .pushFrom rfl _)

theorem jsonArray_isJson : MakesForm NodeKind.isJson (jsonArray p) :=
  .nested (.bind fun _ => .bind fun _ => .bind fun _ => .bind fun _ => .pushFrom rfl _)

theorem template_bare (raw : String) : MakesForm NodeKind.isBare (template p raw) :=
  .bind fun _ => .bind fun _ => .bind fun _ => .push rfl _ none

theorem creation_bare (scope : Option NodeId) (origin : Nat) :
    MakesForm NodeKind.isBare (creation p scope origin) := by
  refine .bind fun _ => .bind fun type => .bind fun isArray => ?_
  split
  · refine .bind fun dims => .bind fun init => ?_
    split
    · exact .unexpected _
    · exact .pushFrom rfl _
  · exact .bind fun _ => .bind fun _ => .pushFrom rfl _

theorem classLiteral_bare (type : Parser NodeId) :
    MakesForm NodeKind.isBare (classLiteral type) :=
  .bind fun _ => .bind fun _ => .bind fun _ => .bind fun _ => .pushFrom rfl _

theorem singleton?_cases {kind : TokenKind} {form : NodeKind} (h : singleton? kind = some form) :
    form = .thisExpr none ∨ form = .superExpr none ∨ ∃ literal, form = .literal literal := by
  unfold singleton? at h
  split at h
  · cases h
    exact .inl rfl
  · cases h
    exact .inr (.inl rfl)
  · obtain ⟨literal, -, rfl⟩ := Option.map_eq_some_iff.1 h
    exact .inr (.inr ⟨literal, rfl⟩)

theorem singleton?_isBare {kind : TokenKind} {form : NodeKind} (h : singleton? kind = some form) :
    form.isBare = true := by
  obtain rfl | rfl | ⟨literal, rfl⟩ := singleton?_cases h <;> rfl

theorem singleton?_isCompound {kind : TokenKind} {form : NodeKind}
    (h : singleton? kind = some form) : form.isCompound = false := by
  obtain rfl | rfl | ⟨literal, rfl⟩ := singleton?_cases h <;> rfl

theorem member_bare (scope : NodeId) (origin : Nat) :
    MakesForm NodeKind.isBare (member p scope origin) := by
  refine .bind fun kind => ?_
  split
  · exact .bind fun _ => .bind fun _ => .bind fun _ => .pushFrom rfl _
  · refine .bind fun _ => .bind fun hasArguments => ?_
    split
    · exact .bind fun _ => .pushFrom rfl _
    · exact .pushFrom rfl _
  · exact .bind fun _ => .pushFrom rfl _
  · exact .bind fun _ => .pushFrom rfl _
  · exact creation_bare _ _
  · exact .unexpected _

section

variable (hp : p.Traced)

include hp

theorem namePrimary_bare (name : String) : MakesForm NodeKind.isBare (namePrimary p name) := by
  refine .bind fun origin => .bind fun tokens => ?_
  dsimp only
  split
  · exact classLiteral_bare _
  · split
    · exact fun _ _ _ _ h => (hp.type h).imp_right NodeKind.isBare_of_isType
    · refine .bind fun _ => .bind fun hasArguments => ?_
      split
      · exact .bind fun _ => .pushFrom rfl _
      · exact .pushFrom rfl _

theorem primitivePrimary_bare (word : Keyword) :
    MakesForm NodeKind.isBare (primitivePrimary p word) := by
  refine .bind fun origin => .bind fun tokens => ?_
  dsimp only
  split
  · exact classLiteral_bare _
  · split
    · exact fun _ _ _ _ h => (hp.type h).imp_right NodeKind.isBare_of_isType
    · exact .bind fun _ => .pushFrom rfl _

theorem primary_plain : MakesForm NodeKind.isPlain (primary p) := by
  have hplain := @NodeKind.isPlain_of_isBare
  have hmarkup := @NodeKind.isPlain_of_isMarkup
  refine .bind fun origin => .bind fun kind => ?_
  split
  · next form hform => exact .bind fun _ => .pushFrom (hplain (singleton?_isBare hform)) _
  · split
    · exact (template_bare _).mono fun _ => hplain
    · exact (creation_bare _ _).mono fun _ => hplain
    · exact (classLiteral_bare _).mono fun _ => hplain
    · split
      · exact (primitivePrimary_bare hp _).mono fun _ => hplain
      · exact .unexpected _
    · exact (namePrimary_bare hp _).mono fun _ => hplain
    · exact .bind fun _ => .bind fun _ => .bind fun _ => .pushFrom rfl _
    · exact jsonObject_isJson.mono fun _ h => hmarkup (NodeKind.isMarkup_of_isJson h)
    · exact jsonArray_isJson.mono fun _ h => hmarkup (NodeKind.isMarkup_of_isJson h)
    · exact tag_isTag.mono fun _ h => hmarkup (NodeKind.isMarkup_of_isTag h)
    · exact .unexpected _

omit hp in
/-- One round of the loop over the operators after an expression goes on with no markup, or does
    nothing. -/
theorem suffix_cases {origin : Nat} {expression : NodeId} {result : Option NodeId}
    (h : suffix p origin expression source s = .ok result t) :
    (∃ id, result = some id ∧ HasForm NodeKind.isBare t id) ∨ (result = none ∧ t = s) := by
  obtain ⟨kind, u, hpeek, hround⟩ := bind_eq_ok h
  obtain rfl : u = s := by
    cases hpeek
    rfl
  clear h hpeek
  split at hround
  · exact .inl (GoesOn.bind (fun _ => .some (member_bare _ _)) source u result t hround)
  · refine .inl (GoesOn.bind (fun _ => ?_) source u result t hround)
    exact .bind fun index => .bind fun _ => .some (.pushFrom rfl _)
  · refine .inl (GoesOn.bind (fun _ => ?_) source u result t hround)
    exact .bind fun name => .some (.pushFrom rfl _)
  · exact .inl (GoesOn.bind (fun _ => .some (.pushFrom rfl _)) source u result t hround)
  · exact .inl (GoesOn.bind (fun _ => .some (.pushFrom rfl _)) source u result t hround)
  · cases hround
    exact .inr ⟨rfl, rfl⟩

theorem suffixed_plain : MakesForm NodeKind.isPlain (suffixed p) := by
  refine .bind fun origin => .extend ?_ (primary_plain hp)
  intro expression source s result t h
  refine (suffix_cases h).imp_left fun ⟨id, hid, hform⟩ => ?_
  exact ⟨id, hid, hform.imp_right NodeKind.isPlain_of_isBare⟩

theorem unary_plain : MakesForm NodeKind.isPlain (unary p) := by
  refine .bind fun origin => .bind fun kind => ?_
  split
  · exact .bind fun _ => .bind fun _ => .pushFrom rfl _
  · refine .bind fun tokens => ?_
    split
    · exact .bind fun _ => .bind fun _ => .bind fun _ => .bind fun _ => .pushFrom rfl _
    · exact suffixed_plain hp

end

/-! ### One operation -/

theorem kindOf_eq_ok {id : NodeId} {kind : NodeKind} (h : kindOf id source s = .ok kind t) :
    kind = kindIn s.nodes id ∧ t = s := by
  obtain ⟨node, u, hlookup, hreturn⟩ := bind_eq_ok h
  cases hreturn
  rw [lookup_apply] at hlookup
  unfold kindIn
  cases hnode : s.nodes[id]? with
  | none =>
    rw [hnode] at hlookup
    cases hlookup
  | some found =>
    rw [hnode] at hlookup
    cases hlookup
    exact ⟨rfl, rfl⟩

/-- What one round of the loop over operations does. -/
theorem operation_cases {power origin : Nat} {left : NodeId} {result : Option NodeId}
    (h : operation p power origin left source s = .ok result t) :
    (result = none ∧ t = s ∧ Ends power (isTag (kindIn s.nodes left)) s.rest)
      ∨ (∃ id type u, result = some id ∧ kindAt s.rest 0 = .keyword .kwInstanceof
        ∧ power ≤ instanceOfPower ∧ p .type source s.advance = .ok type u
        ∧ pushFrom origin (.instanceOf left type) source u = .ok id t)
      ∨ ∃ id symbol count op right u v, result = some id
        ∧ kindAt s.rest 0 ≠ .keyword .kwInstanceof ∧ operatorAhead? s.rest = some (symbol, count)
        ∧ BinaryOp.ofSymbol? symbol = some op ∧ power ≤ op.power
        ∧ ¬(symbol = "<" ∧ (startsClosingTag s.rest = true ∨ isTag (kindIn s.nodes left) = true))
        ∧ advanceBy count source s = .ok () u
        ∧ p (.binary (op.power + 1)) source u = .ok right v
        ∧ pushFrom origin (.binary left op right) source v = .ok id t := by
  unfold operation at h
  obtain ⟨tokens, u, hahead, h⟩ := bind_eq_ok h
  obtain ⟨htokens, rfl⟩ : s.rest = tokens ∧ s = u := by
    cases hahead
    exact ⟨rfl, rfl⟩
  rw [htokens]
  split at h
  · next hinstance =>
    have hkind := eq_of_beq hinstance
    split at h
    · next hlooser =>
      cases h
      exact .inl ⟨rfl, rfl, fun _ => hlooser, fun _ _ _ hne => absurd hkind hne⟩
    · next htighter =>
      obtain ⟨_, _, hadvance, h⟩ := bind_eq_ok h
      cases hadvance
      obtain ⟨type, u, htype, h⟩ := bind_eq_ok h
      change (pushFrom origin (.instanceOf left type) >>= fun id => pure (some id)) source u
        = _ at h
      obtain ⟨id, _, hpush, hpure⟩ := bind_eq_ok h
      cases hpure
      exact .inr (.inl ⟨id, type, u, rfl, hkind, Nat.not_lt.1 htighter, htype, hpush⟩)
  · next hinstance =>
    have hkind : kindAt tokens 0 ≠ .keyword .kwInstanceof := fun heq => hinstance (by rw [heq]; rfl)
    -- an operator that is not taken is none between operands, or markup, or too loose
    have hends : ∀ symbol count, operatorAhead? tokens = some (symbol, count) →
        (∀ op, BinaryOp.ofSymbol? symbol = some op →
          (symbol = "<" ∧ (startsClosingTag tokens = true ∨ isTag (kindIn s.nodes left) = true))
            ∨ op.power < power) →
        Ends power (isTag (kindIn s.nodes left)) tokens := by
      intro symbol count hoperator hop
      refine ⟨fun heq => absurd heq hkind, fun symbol' count' op _ hoperator' hsymbol => ?_⟩
      cases hoperator.symm.trans hoperator'
      exact hop op hsymbol
    cases hoperator : operatorAhead? tokens with
    | none =>
      rw [hoperator] at h
      cases h
      refine .inl ⟨rfl, rfl, fun heq => absurd heq hkind, fun symbol count op _ hsome => ?_⟩
      cases hoperator.symm.trans hsome
    | some found =>
      obtain ⟨symbol, count⟩ := found
      rw [hoperator] at h
      obtain ⟨form, u, hform, h⟩ := bind_eq_ok h
      obtain ⟨rfl, rfl⟩ := kindOf_eq_ok hform
      split at h
      · next hmarkup =>
        rw [Bool.and_eq_true, beq_iff_eq, Bool.or_eq_true] at hmarkup
        cases h
        exact .inl ⟨rfl, rfl, hends symbol count hoperator fun op _ => .inl hmarkup⟩
      · next hmarkup =>
        rw [Bool.and_eq_true, beq_iff_eq, Bool.or_eq_true] at hmarkup
        cases hsymbol : BinaryOp.ofSymbol? symbol with
        | none =>
          rw [hsymbol] at h
          cases h
          refine .inl ⟨rfl, rfl, hends symbol count hoperator fun op hop => ?_⟩
          cases hsymbol.symm.trans hop
        | some op =>
          rw [hsymbol] at h
          dsimp only at h
          split at h
          · next hlooser =>
            cases h
            refine .inl ⟨rfl, rfl, hends symbol count hoperator fun op' hop => .inr ?_⟩
            cases hsymbol.symm.trans hop
            exact hlooser
          · next htighter =>
            obtain ⟨_, u, hadvance, h⟩ := bind_eq_ok h
            obtain ⟨right, v, hright, h⟩ := bind_eq_ok h
            change (pushFrom origin (.binary left op right) >>= fun id => pure (some id)) source v
              = _ at h
            obtain ⟨id, _, hpush, hpure⟩ := bind_eq_ok h
            cases hpure
            exact .inr (.inr ⟨id, symbol, count, op, right, u, v, rfl, hkind, rfl, hsymbol,
              Nat.not_lt.1 htighter, hmarkup, hadvance, hright, hpush⟩)

/-! ### Signs of operators -/

theorem gluedSigns_isParen (more : Nat) (last : Token) (tokens : List Token) :
    ∀ n < (gluedSigns more last tokens).2, (kindAt tokens n).isParen = false := by
  fun_induction gluedSigns more last tokens with
  | case1 => nofun
  | case2 more last token rest hequals =>
    intro n hn
    obtain rfl : n = 0 := Nat.lt_one_iff.1 hn
    exact isParen_of_beq (Bool.and_eq_true_iff.1 hequals).2 rfl
  | case3 => nofun
  | case4 last token rest _ hcloses more signs count heq ih =>
    rw [heq] at ih
    intro n hn
    cases n with
    | zero => exact isParen_of_beq (Bool.and_eq_true_iff.1 hcloses).2 rfl
    | succ n => exact ih n (Nat.lt_of_succ_lt_succ hn)
  | case5 => nofun

theorem operatorAhead?_isParen {tokens : List Token} {symbol : String} {count : Nat}
    (h : operatorAhead? tokens = some (symbol, count)) :
    ∀ n < count, (kindAt tokens n).isParen = false := by
  cases tokens with
  | nil => cases h
  | cons token rest =>
    unfold operatorAhead? at h
    dsimp only at h
    split at h
    · next hsign =>
      cases h
      intro n hn
      cases n with
      | zero => exact isParen_of_eq hsign rfl
      | succ n => exact gluedSigns_isParen 2 token rest n (Nat.lt_of_succ_lt_succ hn)
    · next sign _ hsign =>
      cases h
      intro n hn
      obtain rfl : n = 0 := Nat.lt_one_iff.1 hn
      exact isParen_of_eq hsign rfl
    · cases h

theorem advanceBy_traced {count : Nat} (h : ∀ n < count, (kindAt s.rest n).isParen = false) :
    TracedAt source s 0 (advanceBy count) := by
  induction count generalizing s with
  | zero => exact Traced.pure () source s
  | succ count ih =>
    intro a t hrun
    have hfirst := h 0 (Nat.succ_pos _)
    rw [s.kindAt_rest_zero] at hfirst
    refine advance_trace hfirst (ih (fun n hn => ?_) a t hrun)
    rw [kindAt_advance]
    exact h (n + 1) (Nat.succ_lt_succ hn)

/-! ### The loop over operations -/

/-- A node that was made keeps its form along a trace. -/
theorem kindIn_eq_of_trace {d : Nat} {tokens rest : List Token} {nodes made : Array Node}
    {id : NodeId} (h : Trace d tokens nodes rest made) (hid : id < nodes.size) :
    kindIn made id = kindIn nodes id :=
  kindIn_eq_of_lt h.nodes_kept hid

/-- **One operation.**  A round that makes an operation gives its operands what it needs, and the
    operation may be a left operand in turn. -/
theorem operation_step {power origin : Nat} {left id : NodeId} (hp : p.Traced)
    (hs : IsLeft power s left) (h : operation p power origin left source s = .ok (some id) t) :
    Trace 0 s.rest s.nodes t.rest t.nodes ∧ IsLeft power t id := by
  obtain ⟨hnone, -⟩ | ⟨_, type, u, hid, hkind, hpower, htype, hpush⟩
    | ⟨_, symbol, count, op, right, u, v, hid, hkind, hoperator, hop, hpower, hmarkup, hadvance,
        hright, hpush⟩ := operation_cases h
  · cases hnone
  · -- a type test
    cases hid
    have htrace : Trace 0 s.rest s.nodes u.rest u.nodes :=
      advance_trace (isParen_of_eq (s.kindAt_rest_zero ▸ hkind) rfl) (hp.traced _ _ _ _ _ htype)
    obtain ⟨rfl, node, hnode, rfl⟩ := pushFrom_eq_ok hpush
    have hgrouped : node.kind.IsGrouped u.nodes := by
      rw [hnode]
      refine ⟨⟨Nat.lt_of_lt_of_le hs.lt_size htrace.size_le, (hp.type htype).2⟩, ?_⟩
      rw [kindIn_eq_of_trace htrace hs.lt_size]
      exact hs.binds_instanceOf hkind
    refine ⟨htrace.trans (.node hgrouped (.done _ _)),
      isLeft_add (by rw [hnode]; rfl) (by rw [hnode]; exact hpower) ?_⟩
    intro left' op' right' hform
    cases hnode.symm.trans hform
  · -- an operator and its right operand
    cases hid
    have hsigns := advanceBy_traced (operatorAhead?_isParen hoperator) () u hadvance
    have htrace := hsigns.trans (hp.traced _ _ _ _ _ hright)
    have hoperand := hp.operand hright
    obtain ⟨rfl, node, hnode, rfl⟩ := pushFrom_eq_ok hpush
    have hgrouped : node.kind.IsGrouped v.nodes := by
      rw [hnode]
      have hfollows := hs.mayFollow hop fun h => hmarkup ⟨h.1, .inr h.2⟩
      refine ⟨hfollows.stable htrace.nodes_kept, ⟨hoperand.lt_size, hoperand.operand⟩,
        hoperand.binds, ?_⟩
      rw [kindIn_eq_of_trace htrace hs.lt_size]
      have hbinds := hs.binds_binary hkind hoperator hop fun h => hmarkup ⟨h.1, .inl h.2⟩
      exact hbinds.imp_right (Or.imp_right fun htag => htag.stable htrace.nodes_kept)
    refine ⟨htrace.trans (.node hgrouped (.done _ _)),
      isLeft_add (by rw [hnode]; rfl) (by rw [hnode]; exact hpower) ?_⟩
    intro left' op' right' hform
    cases hnode.symm.trans hform
    exact ⟨hoperand.lt_size, hoperand.ends⟩

/-- **All operations of a power.**  The loop leaves a trace, and ends with an operand of its
    power. -/
theorem binary_run {power : Nat} {id : NodeId} (hp : p.Traced)
    (h : binary p power source s = .ok id t) :
    Trace 0 s.rest s.nodes t.rest t.nodes ∧ IsOperand power t id := by
  obtain ⟨origin, _, hstart, h⟩ := bind_eq_ok h
  cases hstart
  obtain ⟨first, u, hfirst, hloop⟩ := bind_eq_ok h
  -- before each round, what has been read so far is a left operand
  have hstep : ∀ left result v w,
      Trace 0 s.rest s.nodes v.rest v.nodes ∧ IsLeft power v left →
      operation p power s.start left source v = .ok result w →
      (∃ next, result = some next
        ∧ Trace 0 s.rest s.nodes w.rest w.nodes ∧ IsLeft power w next)
      ∨ (result = none ∧ w = v ∧ Ends power (isTag (kindIn v.nodes left)) v.rest) := by
    rintro left (_ | next) v w ⟨htrace, hleft⟩ hround
    · exact .inr ((operation_cases hround).resolve_right (by simp))
    · obtain ⟨hnext, hw⟩ := operation_step hp hleft hround
      exact .inl ⟨next, rfl, htrace.trans hnext, hw⟩
  obtain ⟨⟨htrace, hleft⟩, hends⟩ := extend_stops
    (J := fun v left => Ends power (isTag (kindIn v.nodes left)) v.rest) hstep
    ⟨hp.traced _ _ _ _ _ hfirst, (hp.unary hfirst).isLeft power⟩ hloop
  exact ⟨htrace, hleft.lt_size, hleft.operand, hleft.binds, hends⟩

end Grammar

end CodeMarkup
