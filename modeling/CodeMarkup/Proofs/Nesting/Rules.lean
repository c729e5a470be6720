import CodeMarkup.Grammar.Modifiers
import CodeMarkup.Proofs.Nesting.Braces

namespace CodeMarkup.Parser

/-!
# Rules for braces and levels

What the computations that all productions are made of need in braces.

* `Closes.opening`, `Closes.closing`: a brace at the head of a sequence.
* `ClosesAt.advance`, `expect_fits`, `accept_fits`: tokens that are no opening braces.
* `nested_fits`: a level is worth three braces, those around what is nested in it next.
* `many_fits`, `extend_fits`, `listUntil_fits`: loops.  `Closes.manyWhile` is for loops whose test
  tells about the token that is taken next, in a round or after the last one.
-/

variable {α β : Type} {source : Source} {s t : State} {k c d : Nat} {x : Parser α}
  {f : α → Parser β}

/-! ### Looking ahead -/

section Reading

variable {n : Nat} {kind : TokenKind}

theorem closesAt_get {f : State → Parser β} :
    ClosesAt source s k d (get >>= f) ↔ ClosesAt source s k d (f s) :=
  Iff.rfl

theorem closesAt_start {f : Nat → Parser β} :
    ClosesAt source s k d (start >>= f) ↔ ClosesAt source s k d (f s.start) :=
  Iff.rfl

theorem closesAt_ahead {f : List Token → Parser β} :
    ClosesAt source s k d (ahead >>= f) ↔ ClosesAt source s k d (f s.rest) :=
  Iff.rfl

theorem closesAt_peek {f : TokenKind → Parser β} :
    ClosesAt source s k d (peek n >>= f) ↔ ClosesAt source s k d (f (kindAt s.rest n)) :=
  Iff.rfl

theorem closesAt_check {f : Bool → Parser β} :
    ClosesAt source s k d (check kind >>= f) ↔ ClosesAt source s k d (f (s.current.kind == kind)) :=
  Iff.rfl

end Reading

/-! ### Taking tokens -/

theorem expect_eq_ok {kind : TokenKind} {a : Unit} (h : expect kind source s = .ok a t) :
    s.current.kind = kind ∧ t = s.advance := by
  change (if (s.current.kind == kind) = true then advance else unexpected kind.describe) source s
    = _ at h
  split at h
  · next heq =>
    cases h
    exact ⟨eq_of_beq heq, rfl⟩
  · cases h

theorem accept_eq_ok {kind : TokenKind} {found : Bool} (h : accept kind source s = .ok found t) :
    (found = true ∧ s.current.kind = kind ∧ t = s.advance)
      ∨ (found = false ∧ s.current.kind ≠ kind ∧ t = s) := by
  change (if (s.current.kind == kind) = true then advance >>= fun _ => pure true
    else pure false : Parser Bool) source s = _ at h
  split at h
  · next heq =>
    cases h
    exact .inl ⟨rfl, eq_of_beq heq, rfl⟩
  · next hne =>
    cases h
    exact .inr ⟨rfl, fun heq => hne (beq_iff_eq.2 heq), rfl⟩

theorem current_kind_ne (h : kindAt s.rest 0 ≠ .leftBrace) : s.current.kind ≠ .leftBrace :=
  s.kindAt_rest_zero ▸ h

/-- What is read off a token cannot be read off an opening brace. -/
theorem ne_leftBrace_of_read {g : TokenKind → Option α} {kind : TokenKind} {a : α}
    (hnone : g .leftBrace = none) (h : g kind = some a) : kind ≠ .leftBrace := by
  rintro rfl
  cases hnone.symm.trans h

/-- A token that is no opening brace may be taken anywhere. -/
theorem advance_passesBraces (hs : s.Allows source k c) (hkind : s.current.kind ≠ .leftBrace) :
    s.Passes source k 0 s.advance := by
  by_cases hrest : s.rest = []
  · have hsame : s.advance = s := by
      unfold State.advance
      rw [hrest]
    exact hsame.symm ▸ .refl hs.valid
  · have hopened := opened_of_ne hkind
    have hnext : s.advance.Passes source k 0 s.advance := .refl (hs.advance hrest).1.valid
    exact State.passes_of_advance hs.valid hrest hnext (by omega) (by omega)

theorem ClosesAt.advance {f : Unit → Parser β} (hs : s.Allows source k c)
    (hkind : kindAt s.rest 0 ≠ .leftBrace) (hf : Closes d c (f ())) :
    ClosesAt source s k d (advance >>= f) := by
  intro b t h
  have hpasses := advance_passesBraces hs (current_kind_ne hkind)
  exact hpasses.trans (hf source s.advance k (hpasses.allows hs) b t h)

theorem kindAt_advance (s : State) (n : Nat) :
    kindAt s.advance.rest n = kindAt s.rest (n + 1) := by
  unfold State.advance
  cases hrest : s.rest with
  | nil =>
    show kindAt s.rest n = _
    rw [hrest]
    rfl
  | cons token rest => rfl

theorem ClosesAt.advanceTwo {f : Unit → Parser β} (hs : s.Allows source k c)
    (hfirst : kindAt s.rest 0 ≠ .leftBrace) (hsecond : kindAt s.rest 1 ≠ .leftBrace)
    (hf : Closes d c (f ())) : ClosesAt source s k d (advanceTwo >>= f) := by
  intro b t h
  have hpasses := advance_passesBraces hs (current_kind_ne hfirst)
  rw [← kindAt_advance] at hsecond
  have hboth := hpasses.trans (advance_passesBraces (hpasses.allows hs) (current_kind_ne hsecond))
  exact hboth.trans (hf source s.advance.advance k (hboth.allows hs) b t h)

theorem expect_fits {kind : TokenKind} (hkind : kind ≠ .leftBrace) : Fits c (expect kind) := by
  intro source s k hs a t h
  obtain ⟨rfl, rfl⟩ := expect_eq_ok h
  exact advance_passesBraces hs hkind

theorem Closes.token {kind : TokenKind} {f : Unit → Parser β} (hkind : kind ≠ .leftBrace)
    (hf : Closes d c (f ())) : Closes d c (expect kind >>= f) :=
  Closes.bind (expect_fits hkind) fun _ => hf

theorem accept_fits {kind : TokenKind} (hkind : kind ≠ .leftBrace) : Fits c (accept kind) := by
  intro source s k hs found t h
  obtain ⟨-, rfl, rfl⟩ | ⟨-, -, rfl⟩ := accept_eq_ok h
  · exact advance_passesBraces hs hkind
  · exact .refl hs.valid

theorem identifier_fits (expected : String) : Fits c (identifier expected) := by
  intro source s k hs
  unfold identifier
  rw [closesAt_get]
  split
  · next name hkind =>
    have hne : kindAt s.rest 0 ≠ .leftBrace := by
      rw [s.kindAt_rest_zero, hkind]
      nofun
    exact .advance hs hne (Closes.pure name)
  · exact unexpected_closes expected source s k hs

theorem expectEnd_fits : Fits c expectEnd := by
  intro source s k hs a t h
  obtain ⟨-, rfl⟩ := expectEnd_eq_ok h
  exact .refl hs.valid

/-! ### Braces -/

/-- **An opening brace** takes one of those that are allowed here.  It starts no level, so what
    follows it is not where the innermost level starts. -/
theorem Closes.opening {f : Unit → Parser β} (hf : Closes (d + 1) c (f ())) :
    Closes d (c + 1) (expect .leftBrace >>= f) := by
  intro source s k hs b t h
  obtain ⟨_, _, hexpect, hrest⟩ := bind_eq_ok h
  obtain ⟨hkind, rfl⟩ := expect_eq_ok hexpect
  have hne := State.rest_ne_nil_of_kind (by simp) hkind
  obtain ⟨hallows, hroom⟩ := hs.advance hne
  have hlater := hallows.later
  have hnext : s.advance.Allows source (k - 1) c := ⟨hallows.valid, by omega, by omega⟩
  have hopened := opened_singleton_le s.current
  exact State.passes_of_advance hs.valid hne (hf source _ _ hnext b t hrest) (by omega) (by omega)

/-- After a token that makes room one more brace is allowed. -/
theorem passes_of_makesRoom {e : Nat} {b : α} (hs : s.Allows source k c)
    (hkind : s.current.kind.makesRoom = true) (hx : Closes e (c + 1) x) (hle : d ≤ e + 1)
    (h : x source s.advance = .ok b t) : s.Passes source k d t := by
  have hne : s.rest ≠ [] := by
    refine State.rest_ne_nil_of_kind ?_ rfl
    intro heof
    rw [heof] at hkind
    cases hkind
  obtain ⟨hallows, -⟩ := hs.advance hne
  have hhere := hallows.here
  have hlater := hallows.later
  have hnext : s.advance.Allows source (k + 1) (c + 1) := ⟨hallows.valid, by omega, by omega⟩
  obtain ⟨hopened, hrelieved⟩ := relieved_of_makesRoom hkind
  exact State.passes_of_advance hs.valid hne (hx source _ _ hnext b t h) (by omega) (by omega)

theorem ClosesAt.closing {f : Unit → Parser β} (hs : s.Allows source k c)
    (hkind : s.current.kind = .rightBrace) (hf : Closes d c (f ())) :
    ClosesAt source s k (d + 1) (Parser.advance >>= f) := by
  intro b t h
  exact passes_of_makesRoom hs (hkind ▸ rfl) (hf.mono (Nat.le_succ c)) (Nat.le_refl _) h

/-- **A closing brace.** -/
theorem Closes.closing {f : Unit → Parser β} (hf : Closes d c (f ())) :
    Closes (d + 1) c (expect .rightBrace >>= f) := by
  intro source s k hs b t h
  obtain ⟨_, _, hexpect, hrest⟩ := bind_eq_ok h
  obtain ⟨hkind, rfl⟩ := expect_eq_ok hexpect
  exact ClosesAt.closing hs hkind hf b t hrest

/-- **A default**, if there is one: the value after it may open one more brace. -/
theorem Closes.default {x y : Parser α} (hyes : Closes d (c + 1) x) (hno : Closes d c y) :
    Closes d c (accept (.keyword .kwDefault) >>= fun found => if found then x else y) := by
  intro source s k hs b t h
  obtain ⟨found, _, haccept, hrest⟩ := bind_eq_ok h
  obtain ⟨rfl, hkind, rfl⟩ | ⟨rfl, -, rfl⟩ := accept_eq_ok haccept
  · exact passes_of_makesRoom hs (hkind ▸ rfl) hyes (Nat.le_succ d) hrest
  · exact hno source _ k hs b t hrest

/-! ### Levels -/

/-- **Levels.**  Where a level is opened, three braces less are allowed further in, and these are
    the three that what is nested here may open around it. -/
theorem nested_fits (hx : Fits 3 x) : Fits c (nested x) := by
  intro source s k hs a t h
  have hhere := hs.here
  have hlater := hs.later
  unfold nested at h
  split at h
  · next hhead =>
    -- the level is open already, and counts here
    have hroom : s.room = 3 * s.spare + 3 := by rw [State.room, if_pos hhead]
    exact hx source s k ⟨hs.valid, hhere, by omega⟩ a t h
  · split at h
    · cases h
    · next hopen =>
      have hspare : s.spare = State.spare { s with levels := s.start :: s.levels } + 1 := by
        unfold State.spare
        rw [List.length_cons]
        omega
      have hroom : State.room { s with levels := s.start :: s.levels }
          = 3 * State.spare { s with levels := s.start :: s.levels } + 3 :=
        congrArg _ (if_pos rfl)
      have hvalid : State.IsValid source { s with levels := s.start :: s.levels } := by
        refine hs.valid.withLevels fun level hlevel => ?_
        rcases List.mem_cons.1 hlevel with rfl | hlevel
        · exact Nat.le_refl _
        · exact hs.valid.levels_le level hlevel
      have hinner := hx source _ k ⟨hvalid, by omega, by omega⟩
      cases hrun : x source { s with levels := s.start :: s.levels } with
      | error error u =>
        rw [hrun] at h
        cases h
      | ok b u =>
        rw [hrun] at h
        cases h
        have hpasses := hinner a u hrun
        have hlevels : u.levels.tail = s.levels := by
          rw [hpasses.levels_eq]
          rfl
        refine ⟨hpasses.taken, hpasses.valid.withLevels fun level hlevel => ?_, hlevels,
          hpasses.stop_eq, hpasses.moved⟩
        exact hpasses.valid.levels_le level (List.mem_of_mem_tail hlevel)

/-! ### Making nodes -/

theorem push_fits (kind : NodeKind) (span : Span) (unannotatedStart : Option Nat) :
    Fits c (push kind span unannotatedStart) := by
  intro source s k hs id t h
  cases h
  exact ⟨⟨[], rfl, .nil k⟩, hs.valid.withNodes _, rfl, rfl, .inl rfl⟩

theorem pushFrom_fits (start : Nat) (kind : NodeKind) : Fits c (pushFrom start kind) :=
  Closes.bind get_fits fun _ => push_fits kind _ none

theorem pushModified_fits (front : Grammar.Modifiers) (kind : NodeKind) :
    Fits c (Grammar.pushModified front kind) :=
  Closes.bind get_fits fun _ => push_fits kind _ _

/-! ### Loops -/

section Loops

variable {more present : Parser Bool} {item : Parser α}

theorem manyWithin_fits (hmore : Fits c more) (hitem : Fits c item) (rounds : Nat) :
    Fits c (manyWithin more item rounds) := by
  induction rounds with
  | zero => exact exhausted_closes
  | succ rounds ih =>
    refine Closes.branch hmore ?_ (.pure [])
    apply Closes.bind hitem
    intro first
    exact Closes.bind ih fun others => .pure _

theorem many_fits (hmore : Fits c more) (hitem : Fits c item) : Fits c (many more item) :=
  Closes.bind ahead_fits fun _ => manyWithin_fits hmore hitem _

theorem commaSeparated_fits (hitem : Fits c item) : Fits c (commaSeparated item) := by
  apply Closes.bind hitem
  intro first
  exact Closes.bind (many_fits (accept_fits nofun) hitem) fun others => .pure _

/-- A loop whose test only reads the state ends where the test says no. -/
theorem manyWithin_stops {test : State → Bool} {rounds : Nat} {found : List α}
    (hmore : ∀ source s, more source s = .ok (test s) s)
    (h : manyWithin more item rounds source s = .ok found t) : test t = false := by
  induction rounds generalizing s found with
  | zero => cases h
  | succ rounds ih =>
    obtain ⟨yes, _, htest, h⟩ := bind_eq_ok h
    rw [hmore] at htest
    cases htest
    split at h
    · obtain ⟨first, u, -, h⟩ := bind_eq_ok h
      obtain ⟨others, _, hothers, h⟩ := bind_eq_ok h
      cases h
      exact ih hothers
    · next hno =>
      cases h
      exact eq_false_of_ne_true hno

/-- The rounds of such a loop start where the test says yes. -/
theorem manyWithin_closes {test : State → Bool}
    (hmore : ∀ source s, more source s = .ok (test s) s)
    (hitem : ∀ {source s k}, State.Allows source k c s → test s = true →
      ClosesAt source s k 0 item)
    (rounds : Nat) : Fits c (manyWithin more item rounds) := by
  induction rounds with
  | zero => exact exhausted_closes
  | succ rounds ih =>
    intro source s k hs found t h
    obtain ⟨yes, _, htest, h⟩ := bind_eq_ok h
    rw [hmore] at htest
    cases htest
    split at h
    · next hyes =>
      refine ClosesAt.bind (hitem hs hyes) (fun first u _ hu => ?_) found t h
      exact Closes.bind ih (fun others => .pure _) source u k (hu.allows hs)
    · cases h
      exact .refl hs.valid

theorem Closes.manyWhile (test : State → Bool) {f : List α → Parser β}
    (hmore : ∀ source s, more source s = .ok (test s) s)
    (hitem : ∀ {source s k}, State.Allows source k c s → test s = true →
      ClosesAt source s k 0 item)
    (hf : ∀ found {source s k}, State.Allows source k c s → test s = false →
      ClosesAt source s k d (f found)) :
    Closes d c (many more item >>= f) := by
  intro source s k hs
  have hmany : ClosesAt source s k 0 (many more item) :=
    manyWithin_closes hmore hitem _ source s k hs
  refine .bind hmany fun found t hrun ht => ?_
  exact hf found (ht.allows hs) (manyWithin_stops hmore hrun)

theorem listUntilWithin_fits {close separator : TokenKind} (hseparator : separator ≠ .leftBrace)
    (hitem : Fits c item) (rounds : Nat) :
    Fits c (listUntilWithin close separator item rounds) := by
  induction rounds with
  | zero => exact exhausted_closes
  | succ rounds ih =>
    refine Closes.branch (check_fits close) (.pure []) ?_
    apply Closes.bind hitem
    intro first
    refine Closes.branch (accept_fits hseparator) ?_ (.pure _)
    exact Closes.bind ih fun others => .pure _

theorem listUntil_fits {close separator : TokenKind} (hseparator : separator ≠ .leftBrace)
    (hitem : Fits c item) : Fits c (listUntil close separator item) :=
  Closes.bind ahead_fits fun _ => listUntilWithin_fits hseparator hitem _

theorem extendWithin_fits {step : α → Parser (Option α)} (hstep : ∀ a, Fits c (step a))
    (rounds : Nat) (a : α) : Fits c (extendWithin step rounds a) := by
  induction rounds generalizing a with
  | zero => exact exhausted_closes
  | succ rounds ih =>
    apply Closes.bind (hstep a)
    intro next
    cases next with
    | none => exact .pure a
    | some b => exact ih b

theorem extend_fits {step : α → Parser (Option α)} (hstep : ∀ a, Fits c (step a)) (a : α) :
    Fits c (extend step a) :=
  Closes.bind ahead_fits fun _ => extendWithin_fits hstep _ a

theorem optional_fits (hpresent : Fits c present) (hitem : Fits c item) :
    Fits c (optional present item) :=
  Closes.branch hpresent (Closes.bind hitem fun a => .pure (some a)) (.pure none)

theorem optionalList_fits {items : Parser (List α)} (hpresent : Fits c present)
    (hitems : Fits c items) : Fits c (optionalList present items) :=
  Closes.branch hpresent hitems (.pure [])

end Loops

end CodeMarkup.Parser
