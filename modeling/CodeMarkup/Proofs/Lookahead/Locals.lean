import CodeMarkup.Proofs.Lookahead.Types
import CodeMarkup.Proofs.Traces.Statements

namespace CodeMarkup

/-!
# Lookahead of local declarations

Whether a declaration of variables follows is found out by passing over its modifiers first.  The
modifiers are passed by the kinds of their tokens alone.  An annotation without arguments is then
taken to go on with every name that follows it, and so with the type that it annotates.

* `runsOn`: the modifiers end in such an annotation, and a name or a point follows.
* `Passes`: what passing over modifiers does with those that were read; `modifiers_passes` shows it
  of all that are read.
* `DeclaresVariables`: every construct that may start with a declaration reads one.
* `Grammar.derive_modifiers_skipModifiers`: modifiers that are read are passed over unless they run
  on, and then a type and a name after them are read as a declaration.
-/

open Parser

variable {tokens taken more rest names : List Token}

/-! ### Names that run on -/

/-- Whether a token may be part of a dotted name. -/
def Token.isNamePart (token : Token) : Bool :=
  token.kind.isIdentifier || token.kind == .dot

/-- Whether the last of some tokens is a name. -/
def endsInName (tokens : List Token) : Bool :=
  tokens.getLast?.any (·.kind.isIdentifier)

/-- Whether a dotted name can go on at the head of some tokens. -/
def continuesName (tokens : List Token) : Bool :=
  (kindAt tokens 0).isIdentifier || kindAt tokens 0 == .dot

/-- Whether modifiers end in a name, as those do that end in an annotation without arguments, and
    the tokens after them would go on with it. -/
def runsOn (taken rest : List Token) : Bool :=
  endsInName taken && continuesName rest

theorem endsInName_append (h : more ≠ []) : endsInName (taken ++ more) = endsInName more := by
  rw [endsInName, endsInName, List.getLast?_append, Option.or_of_isSome]
  exact List.getLast?_isSome.2 h

theorem skipDottedName_append (h : ∀ token ∈ names, token.isNamePart = true) :
    skipDottedName (names ++ rest) = skipDottedName rest :=
  List.dropWhile_append_of_pos h

theorem skipDottedName_of_not_continuesName (h : continuesName rest = false) :
    skipDottedName rest = rest := by
  cases rest with
  | nil => rfl
  | cons token rest => exact List.dropWhile_cons_of_neg (Bool.eq_false_iff.1 h)

theorem length_skipDottedName_lt (h : continuesName rest = true) :
    (skipDottedName rest).length < rest.length := by
  cases rest with
  | nil => cases h
  | cons token rest =>
    have hskip : skipDottedName (token :: rest) = skipDottedName rest :=
      List.dropWhile_cons_of_pos h
    rw [hskip]
    exact Nat.lt_succ_of_le (length_skipDottedName_le rest)

/-! ### Passing over modifiers -/

theorem length_skipModifiers_le (tokens : List Token) :
    (skipModifiers tokens).length ≤ tokens.length := by
  fun_induction skipModifiers tokens with
  | case1 => exact Nat.le_refl _
  | case2 token rest word _ _ ih => exact Nat.le_succ_of_le ih
  | case3 => exact Nat.le_refl _
  | case4 => exact Nat.le_refl _
  | case5 token rest _ _ after hafter ih =>
    exact Nat.le_succ_of_le (Nat.le_trans ih (length_afterAnnotation?_le hafter))
  | case6 token rest => exact Nat.le_succ_of_le (length_skipDottedName_le rest)
  | case7 => exact Nat.le_refl _

/-- Whether modifiers may start with a kind of token. -/
def TokenKind.opensModifiers : TokenKind → Bool
  | .keyword word => word.isModifier
  | .at => true
  | _ => false

/-- Where no modifier stands, nothing is passed over. -/
theorem skipModifiers_eq_self (h : (kindAt tokens 0).opensModifiers = false) :
    skipModifiers tokens = tokens := by
  cases tokens with
  | nil => rw [skipModifiers]
  | cons token rest =>
    have htoken : token.kind.opensModifiers = false := h
    rw [skipModifiers_cons]
    cases hkind : token.kind with
    | keyword word =>
      rw [hkind] at htoken
      exact if_neg (Bool.eq_false_iff.1 htoken)
    | «at» =>
      rw [hkind] at htoken
      cases htoken
    | _ => rfl

/-- The declaration of an annotation starts with no modifier. -/
theorem skipModifiers_interface (hat : kindAt tokens 0 = .at)
    (hclass : (kindAt tokens 1 == .keyword .kwInterface) = true) :
    skipModifiers tokens = tokens := by
  cases tokens with
  | nil => rw [skipModifiers]
  | cons token rest =>
    rw [skipModifiers_cons, show token.kind = .at from hat]
    exact if_pos hclass

theorem length_afterAnnotation?_le_skip {after : List Token}
    (h : afterAnnotation? tokens = some after) :
    after.length ≤ (skipDottedName tokens).length := by
  unfold afterAnnotation? at h
  dsimp only at h
  split at h
  · exact Nat.le_of_lt (length_afterParens?_lt h)
  · cases h
    exact Nat.le_refl _

/-- Names and points, with a name at the end. -/
structure IsDottedName (names : List Token) : Prop where
  parts : ∀ token ∈ names, token.isNamePart = true
  ends : endsInName names = true

namespace IsDottedName

theorem singleton {token : Token} (h : token.kind.isIdentifier = true) : IsDottedName [token] where
  parts other hother := by
    rw [List.mem_singleton.1 hother, Token.isNamePart, h, Bool.true_or]
  ends := h

theorem member {dot name : Token} (h : IsDottedName names) (hdot : dot.kind = .dot)
    (hname : name.kind.isIdentifier = true) : IsDottedName (names ++ [dot, name]) where
  parts := by
    have hpair : ∀ token ∈ [dot, name], token.isNamePart = true := by
      simp [Token.isNamePart, hdot, hname]
    exact List.forall_mem_append.2 ⟨h.parts, hpair⟩
  ends := by
    rw [endsInName_append (List.cons_ne_nil _ _)]
    exact hname

theorem ne_nil (h : IsDottedName names) : names ≠ [] := by
  rintro rfl
  cases h.ends

theorem continuesName_append (h : IsDottedName names) (rest : List Token) :
    continuesName (names ++ rest) = true := by
  cases names with
  | nil => exact absurd rfl h.ne_nil
  | cons token names => exact h.parts token List.mem_cons_self

theorem afterAnnotation?_append (h : IsDottedName names) :
    afterAnnotation? (names ++ rest) = afterAnnotation? rest := by
  rw [afterAnnotation?, afterAnnotation?, skipDottedName_append h.parts]

/-- Passing over an annotation is passing over its name and its arguments. -/
theorem skipModifiers_cons {token : Token} (h : IsDottedName names) (hkind : token.kind = .at) :
    skipModifiers (token :: (names ++ rest))
      = ((afterAnnotation? (names ++ rest)).map skipModifiers).getD
        (skipDottedName (names ++ rest)) := by
  rw [CodeMarkup.skipModifiers_cons, hkind]
  refine if_neg fun hclass => ?_
  have hname := h.continuesName_append rest
  rw [continuesName, eq_of_beq hclass] at hname
  cases hname

end IsDottedName

/-- `Passes tokens taken rest`: passing over the modifiers of `tokens` gets past those that were
    taken and goes on from the rest, or gets farther than its start if they run on. -/
structure Passes (tokens taken rest : List Token) : Prop where
  split : tokens = taken ++ rest
  agrees : runsOn taken rest = false → skipModifiers tokens = skipModifiers rest
  exceeds : runsOn taken rest = true → (skipModifiers tokens).length < rest.length

namespace Passes

theorem refl (tokens : List Token) : Passes tokens [] tokens where
  split := rfl
  agrees _ := rfl
  exceeds := nofun

/-- Modifiers that start with no name go on from others. -/
theorem trans {later : List Token} (h : Passes tokens taken rest) (h' : Passes rest more later)
    (hne : more ≠ []) (hhead : continuesName rest = false) :
    Passes tokens (taken ++ more) later := by
  have hlast : runsOn (taken ++ more) later = runsOn more later := by
    rw [runsOn, runsOn, endsInName_append hne]
  have hskip : skipModifiers tokens = skipModifiers rest :=
    h.agrees (by rw [runsOn, hhead, Bool.and_false])
  refine ⟨?_, fun hstops => ?_, fun hruns => ?_⟩
  · rw [List.append_assoc, ← h'.split]
    exact h.split
  · rw [hskip]
    exact h'.agrees (hlast ▸ hstops)
  · rw [hskip]
    exact h'.exceeds (hlast ▸ hruns)

/-- A word. -/
theorem keyword {token : Token} {word : Keyword} (hkind : token.kind = .keyword word)
    (hword : word.isModifier = true) : Passes (token :: rest) [token] rest := by
  have hlast : runsOn [token] rest = false := by
    rw [runsOn, endsInName, List.getLast?_singleton, Option.any_some, hkind]
    rfl
  refine ⟨rfl, fun _ => ?_, fun hruns => ?_⟩
  · rw [skipModifiers_cons, hkind]
    exact if_pos hword
  · rw [hlast] at hruns
    cases hruns

/-- An annotation without arguments. -/
theorem bare {token : Token} (hkind : token.kind = .at) (hnames : IsDottedName names)
    (hparen : kindAt rest 0 ≠ .leftParen) :
    Passes (token :: (names ++ rest)) (token :: names) rest := by
  have hlast : endsInName (token :: names) = true := by
    rw [← List.singleton_append, endsInName_append hnames.ne_nil]
    exact hnames.ends
  refine ⟨rfl, fun hstops => ?_, fun hruns => ?_⟩
  · have hrest : continuesName rest = false := by simpa [runsOn, hlast] using hstops
    have hafter : afterAnnotation? (names ++ rest) = some rest := by
      rw [hnames.afterAnnotation?_append, afterAnnotation?,
        skipDottedName_of_not_continuesName hrest]
      exact if_neg (by simpa using hparen)
    rw [hnames.skipModifiers_cons hkind, hafter]
    rfl
  · have hrest : continuesName rest = true := by simpa [runsOn, hlast] using hruns
    have hlt := length_skipDottedName_lt hrest
    rw [hnames.skipModifiers_cons hkind, hnames.afterAnnotation?_append,
      skipDottedName_append hnames.parts]
    cases hafter : afterAnnotation? rest with
    | none => exact hlt
    | some after =>
      exact Nat.lt_of_le_of_lt
        (Nat.le_trans (length_skipModifiers_le after) (length_afterAnnotation?_le_skip hafter)) hlt

/-- An annotation with arguments, which end in a parenthesis. -/
theorem arguments {token opening closing : Token} {inside : List Token} (hkind : token.kind = .at)
    (hnames : IsDottedName names) (hopening : opening.kind = .leftParen)
    (hclosing : closing.kind = .rightParen)
    (hinside : afterParens? 1 (inside ++ closing :: rest) = some rest) :
    Passes (token :: (names ++ opening :: (inside ++ closing :: rest)))
      (token :: (names ++ opening :: inside) ++ [closing]) rest := by
  have hlast : endsInName (token :: (names ++ opening :: inside) ++ [closing]) = false := by
    rw [endsInName_append (List.cons_ne_nil _ _), endsInName, List.getLast?_singleton,
      Option.any_some, hclosing]
    rfl
  have hafter : afterAnnotation? (opening :: (inside ++ closing :: rest)) = some rest := by
    have hhead : kindAt (opening :: (inside ++ closing :: rest)) 0 = .leftParen := hopening
    have hstays : continuesName (opening :: (inside ++ closing :: rest)) = false := by
      rw [continuesName, hhead]
      rfl
    rw [afterAnnotation?, skipDottedName_of_not_continuesName hstays, hhead, afterParens?, hopening]
    exact hinside
  refine ⟨by simp, fun _ => ?_, fun hruns => ?_⟩
  · rw [hnames.skipModifiers_cons hkind, hnames.afterAnnotation?_append, hafter]
    rfl
  · rw [runsOn, hlast] at hruns
    cases hruns

end Passes

/-! ### Modifiers that are read -/

namespace Parser

variable {α : Type} {source : Source} {s t : State}

theorem identifier_eq_ok {expected name : String} (h : identifier expected source s = .ok name t) :
    s.current.kind = .identifier name ∧ t = s.advance := by
  obtain ⟨u, _, hget, h⟩ := bind_eq_ok h
  cases hget
  cases hkind : s.current.kind with
  | identifier found =>
    rw [hkind] at h
    cases h
    exact ⟨rfl, rfl⟩
  | _ =>
    rw [hkind] at h
    cases h

theorem ahead_bind_apply (f : List Token → Parser α) :
    (ahead >>= f) source s = f s.rest source s :=
  rfl

theorem start_bind_apply (f : Nat → Parser α) : (start >>= f) source s = f s.start source s :=
  rfl

theorem peek_bind_apply (n : Nat) (f : TokenKind → Parser α) :
    (peek n >>= f) source s = f (kindAt s.rest n) source s :=
  rfl

theorem expect_bind_apply {kind : TokenKind} (f : Unit → Parser α)
    (hkind : kindAt s.rest 0 = kind) : (expect kind >>= f) source s = f () source s.advance := by
  have hexpect : expect kind source s = .ok () s.advance := by
    show (if s.current.kind == kind then advance else unexpected kind.describe) source s = _
    rw [← s.kindAt_rest_zero, hkind, beq_self_eq_true, if_pos rfl]
    rfl
  rw [bind_apply, hexpect]

/-- A level makes no difference to productions that agree wherever the same tokens are left. -/
theorem nested_congr {x y : Parser α} (h : ∀ u : State, u.rest = s.rest → x source u = y source u) :
    nested x source s = nested y source s := by
  unfold nested
  rw [h s rfl, h { s with levels := s.start :: s.levels } rfl]

end Parser

namespace Grammar

variable {p : Productions} {source : Source} {s t : State}

/-- The tokens of a dotted name. -/
theorem qualifiedName_takes {id : NodeId} (h : qualifiedName source s = .ok id t) :
    ∃ names, s.rest = names ++ t.rest ∧ IsDottedName names := by
  obtain ⟨origin, _, hstart, h⟩ := bind_eq_ok h
  cases hstart
  obtain ⟨first, _, hfirst, h⟩ := bind_eq_ok h
  obtain ⟨hkind, rfl⟩ := identifier_eq_ok hfirst
  obtain ⟨head, _, hpush, hloop⟩ := bind_eq_ok h
  obtain ⟨-, node, -, rfl⟩ := pushFrom_eq_ok hpush
  have hhead : ∃ names, s.rest = names ++ (s.advance.add node).rest ∧ IsDottedName names := by
    refine ⟨[s.current], rest_eq_cons hkind nofun, .singleton ?_⟩
    rw [hkind]
    rfl
  -- each round but the last takes a point and a name
  have hends := extend_stops (J := fun _ _ => True)
    (I := fun u _ => ∃ names, s.rest = names ++ u.rest ∧ IsDottedName names) ?_ hhead hloop
  · exact hends.1
  · rintro qualifier result u v ⟨names, hsplit, hnames⟩ hround
    obtain ⟨tokens, _, hahead, hround⟩ := bind_eq_ok hround
    cases hahead
    split at hround
    · next hmember =>
      obtain ⟨_, _, hadvance, hround⟩ := bind_eq_ok hround
      cases hadvance
      obtain ⟨segment, _, hsegment, hround⟩ := bind_eq_ok hround
      obtain ⟨hname, rfl⟩ := identifier_eq_ok hsegment
      obtain ⟨id, _, hpush, hround⟩ := bind_eq_ok hround
      obtain ⟨-, node, -, rfl⟩ := pushFrom_eq_ok hpush
      cases hround
      have hdot : u.current.kind = .dot := by
        rw [← u.kindAt_rest_zero]
        exact eq_of_beq (Bool.and_eq_true_iff.1 hmember).1
      refine .inl ⟨id, rfl, names ++ [u.current, u.advance.current], ?_, ?_⟩
      · rw [hsplit, rest_eq_cons hdot nofun, rest_eq_cons hname nofun, List.append_assoc]
        rfl
      · exact hnames.member hdot (by rw [hname]; rfl)
    · cases hround
      exact .inr ⟨rfl, rfl, trivial⟩

/-- An annotation that is read is passed over, unless it runs on. -/
theorem annotationUse_passes {id : NodeId} (hp : p.Traced)
    (h : annotationUse p source s = .ok id t) :
    ∃ taken, taken ≠ [] ∧ Passes s.rest taken t.rest := by
  obtain ⟨u, v, h, hrest, -, hrest', -⟩ := nested_eq_ok h
  rw [← hrest, ← hrest']
  obtain ⟨origin, _, hstart, h⟩ := bind_eq_ok h
  cases hstart
  obtain ⟨_, _, hat, h⟩ := bind_eq_ok h
  obtain ⟨hkind, rfl⟩ := expect_eq_ok hat
  obtain ⟨name, w, hname, h⟩ := bind_eq_ok h
  obtain ⟨names, hnames, hdotted⟩ := qualifiedName_takes hname
  rw [rest_eq_cons hkind nofun, hnames]
  obtain ⟨found, _, haccept, hend⟩ := bind_eq_ok h
  obtain ⟨rfl, hopening, rfl⟩ | ⟨rfl, hparen, rfl⟩ := accept_eq_ok haccept
  · -- with arguments, in which parentheses are balanced
    obtain ⟨arguments, x, harguments, hend⟩ := bind_eq_ok hend
    obtain ⟨_, _, hclose, hpush⟩ := bind_eq_ok hend
    obtain ⟨hclosing, rfl⟩ := expect_eq_ok hclose
    obtain ⟨-, node, -, rfl⟩ := pushFrom_eq_ok hpush
    have htrace := annotationArguments_traced hp _ _ _ _ harguments
    obtain ⟨inside, hinside⟩ := htrace.rest_suffix
    have hclosed := htrace.afterParens?_eq Nat.one_pos
    rw [rest_eq_cons hclosing nofun] at hinside hclosed
    rw [rest_eq_cons hopening nofun, ← hinside]
    refine ⟨_, List.cons_ne_nil _ _, Passes.arguments hkind hdotted hopening hclosing ?_⟩
    rw [hinside, hclosed, afterParens?, hclosing]
    rfl
  · obtain ⟨-, node, -, rfl⟩ := pushFrom_eq_ok hend
    refine ⟨_, List.cons_ne_nil _ _, Passes.bare hkind hdotted ?_⟩
    rw [State.kindAt_rest_zero]
    exact hparen

/-- **Modifiers that are read are passed over**, unless they run on; and what they end at is none of
    them. -/
theorem modifiers_passes {front : Modifiers} (hp : p.Traced)
    (h : modifiers p source s = .ok front t) :
    (∃ taken, Passes s.rest taken t.rest) ∧ skipModifiers t.rest = t.rest := by
  obtain ⟨origin, _, hstart, h⟩ := bind_eq_ok h
  cases hstart
  obtain ⟨found, u, hloop, h⟩ := bind_eq_ok h
  obtain ⟨settled, _, hstart, h⟩ := bind_eq_ok h
  cases hstart
  cases h
  refine extend_stops (I := fun u _ => ∃ taken, Passes s.rest taken u.rest)
    (J := fun u _ => skipModifiers u.rest = u.rest) ?_ ⟨[], .refl _⟩ hloop
  rintro found result u v ⟨taken, hpasses⟩ hround
  obtain ⟨kind, _, hpeek, hround⟩ := bind_eq_ok hround
  cases hpeek
  cases hkind : kindAt u.rest 0 with
  | «at» =>
    rw [hkind] at hround
    obtain ⟨next, _, hpeek, hround⟩ := bind_eq_ok hround
    cases hpeek
    split at hround
    · next hclass =>
      cases hround
      exact .inr ⟨rfl, rfl, skipModifiers_interface hkind hclass⟩
    · obtain ⟨use, w, huse, hround⟩ := bind_eq_ok hround
      cases hround
      obtain ⟨more, hne, hmore⟩ := annotationUse_passes hp huse
      refine .inl ⟨_, rfl, taken ++ more, hpasses.trans hmore hne ?_⟩
      rw [continuesName, hkind]
      rfl
  | keyword word =>
    rw [hkind] at hround
    dsimp only at hround
    cases hword : word.isModifier with
    | true =>
      rw [hword] at hround
      cases hround
      have hmore : Passes u.rest [u.current] u.advance.rest := by
        rw [u.kindAt_rest_zero] at hkind
        rw [rest_eq_cons hkind nofun]
        exact .keyword hkind hword
      refine .inl ⟨_, rfl, taken ++ [u.current], hpasses.trans hmore (List.cons_ne_nil _ _) ?_⟩
      rw [continuesName, hkind]
      rfl
    | false =>
      rw [hword] at hround
      cases hround
      exact .inr ⟨rfl, rfl, skipModifiers_eq_self (by rw [hkind]; exact hword)⟩
  | _ =>
    rw [hkind] at hround
    cases hround
    exact .inr ⟨rfl, rfl, skipModifiers_eq_self (by rw [hkind]; rfl)⟩

end Grammar

/-! ### What starts with a declaration -/

theorem kindAt_tail (tokens : List Token) (n : Nat) :
    kindAt tokens.tail n = kindAt tokens (n + 1) := by
  cases tokens <;> rfl

/-- A type starts with a name or with the word of a primitive type. -/
theorem scanType?_head (h : scanType? tokens = some rest) :
    (kindAt tokens 0).isIdentifier = true ∨ (kindAt tokens 0).isPrimitive = true := by
  rw [scanType?, scanType_eq, if_neg (by decide)] at h
  cases hkind : kindAt tokens 0 with
  | keyword word =>
    rw [hkind] at h
    dsimp only at h
    split at h
    · next hword => exact .inr hword
    · cases h
  | identifier name => exact .inl rfl
  | _ =>
    rw [hkind] at h
    cases h

/-- A type of one name ends at the colon of a label. -/
theorem scanType?_label (hname : (kindAt tokens 0).isIdentifier = true)
    (hcolon : kindAt tokens 1 = .colon) : scanType? tokens = some tokens.tail := by
  have hrest : kindAt tokens.tail 0 = .colon := (kindAt_tail tokens 0).trans hcolon
  have hclass : scanClassType (4 * tokens.length + 3) 0 tokens = some tokens.tail := by
    rw [scanClassType_eq, if_pos hname, hcolon, if_neg (by decide), Option.bind_some, startsMember,
      hrest]
    rfl
  obtain ⟨name, hkind⟩ := TokenKind.isIdentifier_iff.1 hname
  rw [scanType?, scanType_eq, if_neg (by decide), hkind]
  dsimp only
  rw [hclass, Option.map_some, skipDims_eq, startsDim, hrest]
  rfl

theorem startsLocalVariable_iff :
    startsLocalVariable tokens = true
      ↔ ∃ rest, scanType? (skipModifiers tokens) = some rest
        ∧ (kindAt rest 0).isIdentifier = true := by
  rw [startsLocalVariable, Option.any_eq_true]

/-- A declaration of variables starts with a modifier or with its type. -/
theorem startsLocalVariable_head (h : startsLocalVariable tokens = true) :
    ((kindAt tokens 0).opensModifiers || (kindAt tokens 0).isIdentifier
      || (kindAt tokens 0).isPrimitive) = true := by
  cases hopens : (kindAt tokens 0).opensModifiers with
  | true => rfl
  | false =>
    obtain ⟨rest, hscan, -⟩ := startsLocalVariable_iff.1 h
    rw [skipModifiers_eq_self hopens] at hscan
    simpa using scanType?_head hscan

/-- No declaration of a type starts like one of variables. -/
theorem startsLocalType_eq_false (h : startsLocalVariable tokens = true) :
    startsLocalType tokens = false := by
  obtain ⟨rest, hscan, -⟩ := startsLocalVariable_iff.1 h
  have hhead := scanType?_head hscan
  unfold startsLocalType
  cases hkind : kindAt (skipModifiers tokens) 0 with
  | keyword word =>
    rw [hkind] at hhead
    have hprimitive : word.isPrimitive = true := hhead.resolve_left nofun
    cases word <;> first | rfl | cases hprimitive
  | _ => rfl

/-- Nor does a statement with a label. -/
theorem startsLocalVariable_label (hname : (kindAt tokens 0).isIdentifier = true)
    (hcolon : kindAt tokens 1 = .colon) : startsLocalVariable tokens = false := by
  obtain ⟨name, hkind⟩ := TokenKind.isIdentifier_iff.1 hname
  rw [startsLocalVariable, skipModifiers_eq_self (by rw [hkind]; rfl), scanType?_label hname hcolon,
    Option.any_some, kindAt_tail, hcolon]
  rfl

/-- Nor does a block under a lock. -/
theorem startsLocalVariable_synchronized (hkind : kindAt tokens 0 = .keyword .kwSynchronized)
    (hparen : kindAt tokens 1 = .leftParen) : startsLocalVariable tokens = false := by
  cases tokens with
  | nil => cases hkind
  | cons token rest =>
    have hhead : kindAt rest 0 = .leftParen := hparen
    have hskip : skipModifiers (token :: rest) = rest := by
      rw [skipModifiers_cons, show token.kind = .keyword .kwSynchronized from hkind]
      exact skipModifiers_eq_self (by rw [hhead]; rfl)
    refine Bool.eq_false_iff.2 fun h => ?_
    obtain ⟨after, hscan, -⟩ := startsLocalVariable_iff.1 h
    rw [hskip] at hscan
    have htype := scanType?_head hscan
    rw [hhead] at htype
    rcases htype with htype | htype <;> cases htype

namespace Grammar

variable {p : Productions} {source : Source} {s t : State}

/-- No statement that a keyword introduces starts like a declaration of variables. -/
theorem keywordStmt?_eq_none {word : Keyword} (h : startsLocalVariable tokens = true)
    (hkind : kindAt tokens 0 = .keyword word) : keywordStmt? p word (kindAt tokens 1) = none := by
  have hhead := startsLocalVariable_head h
  rw [hkind] at hhead
  cases word with
  | kwSynchronized =>
    refine if_neg fun hparen => ?_
    rw [startsLocalVariable_synchronized hkind (eq_of_beq hparen)] at h
    cases h
  | _ => first | rfl | cases hhead

/-! ### Declarations that are read -/

/-- A declaration of variables with its semicolon. -/
def declarationStmt (p : Productions) (origin : Nat) : Parser NodeId := do
  let declared ← localVariables p
  expect .semicolon
  pushFrom origin (.expressionStmt declared)

/-- The rest of a loop whose header starts with a declaration of variables. -/
def declarationLoop (p : Productions) (declared : NodeId) : Parser NodeKind := do
  if ← accept .colon then
    let iterable ← p .expression
    expect .rightParen
    let body ← p .statement
    return .forEachStmt declared iterable body
  else forRest p [declared]

section

variable (h : startsLocalVariable s.rest = true)

include h

theorem variablesOrExpression_eq :
    variablesOrExpression p source s = localVariables p source s := by
  rw [variablesOrExpression, ahead_bind_apply, if_pos h]

theorem plainStmt_eq (origin : Nat) :
    plainStmt p origin source s = declarationStmt p origin source s := by
  rw [plainStmt, ahead_bind_apply, startsLocalType_eq_false h, if_neg Bool.false_ne_true,
    bind_apply, variablesOrExpression_eq h]
  rw [declarationStmt, bind_apply]

/-- A statement that starts like a declaration of variables is one. -/
theorem statement_eq :
    statement p source s = nested (start >>= declarationStmt p) source s := by
  refine nested_congr fun u hrest => ?_
  rw [← hrest] at h
  have hplain : plainStmt p u.start source u = (start >>= declarationStmt p) source u :=
    plainStmt_eq h u.start
  rw [start_bind_apply, peek_bind_apply, peek_bind_apply, ← hplain]
  have hhead := startsLocalVariable_head h
  cases hkind : kindAt u.rest 0 with
  | leftBrace | semicolon =>
    rw [hkind] at hhead
    cases hhead
  | identifier label =>
    have hcolon : ¬(kindAt u.rest 1 == .colon) = true := by
      intro hcolon
      rw [startsLocalVariable_label (by rw [hkind]; rfl) (eq_of_beq hcolon)] at h
      cases h
    dsimp only
    rw [if_neg hcolon]
  | keyword word =>
    dsimp only
    rw [keywordStmt?_eq_none h hkind]
  | _ => rfl

theorem forStmt_eq {r : State} (hfor : kindAt r.rest 0 = .keyword .kwFor)
    (hparen : kindAt r.rest 1 = .leftParen) (hr : r.advance.advance = s) :
    forStmt p source r = (localVariables p >>= declarationLoop p) source s := by
  rw [← kindAt_advance] at hparen
  rw [forStmt, expect_bind_apply _ hfor, expect_bind_apply _ hparen, hr, ahead_bind_apply, if_pos h]
  rfl

end

/-- The form of the node of a declaration. -/
theorem localVariables_form {id : NodeId} (h : localVariables p source s = .ok id t) :
    ∃ annotations keywords type declared,
      kindIn t.nodes id = .localVariables annotations keywords type declared := by
  obtain ⟨front, _, -, h⟩ := bind_eq_ok h
  obtain ⟨type, _, -, h⟩ := bind_eq_ok h
  obtain ⟨declared, _, -, h⟩ := bind_eq_ok h
  obtain ⟨u, _, hget, h⟩ := bind_eq_ok h
  cases hget
  obtain ⟨rfl, node, hnode, rfl⟩ := push_eq_ok h
  exact ⟨_, _, _, _, (kindIn_push_size _ _).trans hnode⟩

/-- From a state on, a declaration of variables is read by every construct that may start with one:
    a resource, a statement and the header of a loop, which is at hand once its parenthesis has been
    passed.  The node of what is read is a declaration of variables. -/
structure DeclaresVariables (p : Productions) (source : Source) (s : State) : Prop where
  lookahead : startsLocalVariable s.rest = true
  inResource : variablesOrExpression p source s = localVariables p source s
  inStatement : statement p source s = nested (start >>= declarationStmt p) source s
  inHeader : ∀ r : State, kindAt r.rest 0 = .keyword .kwFor → kindAt r.rest 1 = .leftParen →
    r.advance.advance = s → forStmt p source r = (localVariables p >>= declarationLoop p) source s
  form : ∀ u id v, localVariables p source u = .ok id v → ∃ annotations keywords type declared,
    kindIn v.nodes id = .localVariables annotations keywords type declared

theorem declaresVariables (h : startsLocalVariable s.rest = true) :
    DeclaresVariables p source s where
  lookahead := h
  inResource := variablesOrExpression_eq h
  inStatement := statement_eq h
  inHeader _ hfor hparen hr := forStmt_eq h hfor hparen hr
  form _ _ _ hrun := localVariables_form hrun

/-- **The lookahead agrees with the modifiers that are read, unless they run on.**  The tokens that
    were taken as modifiers are those that are passed over, exactly if they do not end in an
    annotation without arguments before a name or a point.  If they do not, and a type and a name
    follow, then a declaration of variables is read. -/
theorem derive_modifiers_skipModifiers {fuel : Nat} {front : Modifiers}
    (h : modifiers (derive fuel) source s = .ok front t) :
    ∃ taken, s.rest = taken ++ t.rest
      ∧ (skipModifiers s.rest = t.rest ↔ runsOn taken t.rest = false)
      ∧ ∀ rest, runsOn taken t.rest = false → scanType? t.rest = some rest →
        (kindAt rest 0).isIdentifier = true → DeclaresVariables (derive fuel) source s := by
  obtain ⟨⟨taken, hpasses⟩, hself⟩ := modifiers_passes (derive_traced fuel) h
  have hagrees : runsOn taken t.rest = false → skipModifiers s.rest = t.rest := by
    intro hstops
    rw [hpasses.agrees hstops, hself]
  refine ⟨taken, hpasses.split, ⟨fun hskip => ?_, hagrees⟩, fun rest hstops htype hname => ?_⟩
  · refine Bool.eq_false_iff.2 fun hruns => ?_
    have hlt := hpasses.exceeds hruns
    rw [hskip] at hlt
    exact Nat.lt_irrefl _ hlt
  · apply declaresVariables
    rw [startsLocalVariable_iff, hagrees hstops]
    exact ⟨rest, htype, hname⟩

-- the name of the annotation runs on into the type
example : (Source.ofText "@A B x;").tokens.toOption.map startsLocalVariable = some false := by
  decide +kernel

/-- An annotation with arguments in parentheses of their own, a word and a declaration. -/
def annotatedLocal : Source :=
  .ofText "@A.B((c) + d(1)) final E[] x = y;"

/-- The state in which the tokens of `annotatedLocal` are read. -/
def annotatedLocal.state : State :=
  .ofTokens (annotatedLocal.tokens.toOption.getD [])

/-- All modifiers are passed over, and the statement is a declaration. -/
theorem derive_modifiers_skipModifiers_annotatedLocal :
    ∃ front t rest, modifiers (derive 20) annotatedLocal annotatedLocal.state = .ok front t
      ∧ skipModifiers annotatedLocal.state.rest = t.rest
      ∧ scanType? t.rest = some rest ∧ (kindAt rest 0).isIdentifier = true
      ∧ DeclaresVariables (derive 20) annotatedLocal annotatedLocal.state := by
  obtain ⟨front, t, hrun, hskip, htype⟩ : ∃ front t,
      modifiers (derive 20) annotatedLocal annotatedLocal.state = .ok front t
      ∧ skipModifiers annotatedLocal.state.rest = t.rest
      ∧ (scanType? t.rest).any (fun rest => (kindAt rest 0).isIdentifier) = true :=
    exists_run_eq_ok (by decide +kernel)
  obtain ⟨rest, hscan, hname⟩ := (Option.any_eq_true _ _).1 htype
  obtain ⟨taken, -, hiff, hdeclares⟩ := derive_modifiers_skipModifiers hrun
  exact ⟨front, t, rest, hrun, hskip, hscan, hname, hdeclares rest (hiff.1 hskip) hscan hname⟩

end Grammar

end CodeMarkup
