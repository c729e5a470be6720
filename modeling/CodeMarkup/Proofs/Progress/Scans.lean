import CodeMarkup.Proofs.Trivia.Alike

namespace CodeMarkup

/-!
# Progress of scans

The scan of a type calls itself with one step less, and where no step is left it finds no type.
Here this is shown never to decide: a scan passes tokens, at most four of its steps share one, and
any bound that allows for them gives the same answer.

* `ScansShorten`: what the scans leave is shorter.
* `ScansAgree`: with more steps than enough the scans say the same.
-/

variable {tokens rest : List Token}

theorem skipDims_length_le (tokens : List Token) : (skipDims tokens).length ≤ tokens.length := by
  fun_induction skipDims tokens with
  | case1 _ _ rest ih =>
    rw [List.length_cons, List.length_cons]
    omega
  | case2 => exact Nat.le_refl _

/-- A token that is not the mark at the end is one of the list. -/
theorem length_pos_of_kindAt (h : kindAt tokens 0 ≠ .eof) : 0 < tokens.length := by
  cases tokens with
  | nil => exact absurd rfl h
  | cons token rest => exact Nat.succ_pos _

theorem length_pos_of_beq {kind : TokenKind} (hkind : kind ≠ .eof)
    (h : (kindAt tokens 0 == kind) = true) : 0 < tokens.length :=
  length_pos_of_kindAt (eq_of_beq h ▸ hkind)

theorem length_pos_of_isIdentifier (h : (kindAt tokens 0).isIdentifier = true) :
    0 < tokens.length := by
  refine length_pos_of_kindAt fun heof => ?_
  rw [heof] at h
  cases h

/-! ### What scans leave -/

/-- What the scans leave when they have passed something. -/
structure ScansShorten (fuel : Nat) : Prop where
  type : ∀ {depth tokens rest}, scanType fuel depth tokens = some rest →
    rest.length < tokens.length
  classType : ∀ {depth tokens rest}, scanClassType fuel depth tokens = some rest →
    rest.length < tokens.length
  typeArguments : ∀ {depth tokens rest}, scanTypeArguments fuel depth tokens = some rest →
    rest.length < tokens.length
  argumentList : ∀ {depth tokens rest}, scanArgumentList fuel depth tokens = some rest →
    rest.length < tokens.length

theorem afterTypeArgument?_length {more : List Token → Option (List Token)}
    (hmore : ∀ {tokens rest}, more tokens = some rest → rest.length < tokens.length)
    (h : afterTypeArgument? more tokens = some rest) : rest.length < tokens.length := by
  rw [afterTypeArgument?_eq] at h
  have htail := tokens.length_tail
  split at h
  · have hless := hmore h
    omega
  · split at h
    · next hclose =>
      cases h
      have hpos := length_pos_of_beq (by simp) hclose
      omega
    · cases h

namespace ScansShorten

variable {fuel depth : Nat}

theorem scanType_succ (ih : ScansShorten fuel) (h : scanType (fuel + 1) depth tokens = some rest) :
    rest.length < tokens.length := by
  rw [scanType_eq] at h
  split at h
  · cases h
  · split at h
    · next word hkind =>
      split at h
      · cases h
        have hpos := length_pos_of_kindAt (hkind ▸ by nofun : kindAt tokens 0 ≠ .eof)
        have hle := skipDims_length_le tokens.tail
        have htail := tokens.length_tail
        omega
      · cases h
    · obtain ⟨after, hafter, rfl⟩ := Option.map_eq_some_iff.1 h
      exact Nat.lt_of_le_of_lt (skipDims_length_le after) (ih.classType hafter)
    · cases h

/-- What is left after a name and its arguments. -/
theorem segment (ih : ScansShorten fuel) (hname : (kindAt tokens 0).isIdentifier = true)
    (h : (if kindAt tokens 1 == .operator "<" then
      scanTypeArguments fuel (depth + 1) tokens.tail.tail else some tokens.tail) = some rest) :
    rest.length < tokens.length := by
  have hpos := length_pos_of_isIdentifier hname
  have htail := tokens.length_tail
  split at h
  · have hless := ih.typeArguments h
    have htails := tokens.tail.length_tail
    omega
  · cases h
    omega

theorem scanClassType_succ (ih : ScansShorten fuel)
    (h : scanClassType (fuel + 1) depth tokens = some rest) : rest.length < tokens.length := by
  rw [scanClassType_eq] at h
  split at h
  · next hname =>
    obtain ⟨after, hafter, hrest⟩ := Option.bind_eq_some_iff.1 h
    have hshort := ih.segment hname hafter
    split at hrest
    · have hless := ih.classType hrest
      have htail := after.length_tail
      omega
    · cases hrest
      exact hshort
  · cases h

theorem scanTypeArguments_succ (ih : ScansShorten fuel)
    (h : scanTypeArguments (fuel + 1) depth tokens = some rest) : rest.length < tokens.length := by
  rw [scanTypeArguments] at h
  split at h
  · next hclose =>
    cases h
    have hpos := length_pos_of_beq (by simp) hclose
    have htail := tokens.length_tail
    omega
  · exact ih.argumentList h

/-- What is left after one argument. -/
theorem argument (ih : ScansShorten fuel)
    (h : (if kindAt tokens 0 == .question then
        if kindAt tokens 1 == .keyword .kwExtends || kindAt tokens 1 == .keyword .kwSuper then
          scanType fuel depth tokens.tail.tail
        else some tokens.tail
      else scanType fuel depth tokens) = some rest) : rest.length < tokens.length := by
  have htail := tokens.length_tail
  split at h
  · next hquestion =>
    have hpos := length_pos_of_beq (by simp) hquestion
    split at h
    · have hless := ih.type h
      have htails := tokens.tail.length_tail
      omega
    · cases h
      omega
  · exact ih.type h

theorem scanArgumentList_succ (ih : ScansShorten fuel)
    (h : scanArgumentList (fuel + 1) depth tokens = some rest) : rest.length < tokens.length := by
  rw [scanArgumentList_eq] at h
  obtain ⟨after, hafter, hrest⟩ := Option.bind_eq_some_iff.1 h
  exact Nat.lt_trans (afterTypeArgument?_length ih.argumentList hrest) (ih.argument hafter)

end ScansShorten

theorem scansShorten (fuel : Nat) : ScansShorten fuel := by
  induction fuel with
  | zero =>
    -- without a step nothing is passed
    constructor <;> intro depth tokens rest h
    · cases h.symm.trans (by rw [scanType])
    · cases h.symm.trans (by rw [scanClassType.eq_def])
    · cases h.symm.trans (by rw [scanTypeArguments])
    · cases h.symm.trans (by rw [scanArgumentList])
  | succ fuel ih =>
    constructor
    · exact fun h => ih.scanType_succ h
    · exact fun h => ih.scanClassType_succ h
    · exact fun h => ih.scanTypeArguments_succ h
    · exact fun h => ih.scanArgumentList_succ h

/-! ### More steps than enough -/

/-- With some number of steps the scans of lists that are not too long say what they say with more
    steps. -/
structure ScansAgree (fuel : Nat) : Prop where
  type : ∀ {more depth tokens}, 4 * tokens.length + 4 ≤ fuel →
    scanType (fuel + more) depth tokens = scanType fuel depth tokens
  classType : ∀ {more depth tokens}, 4 * tokens.length + 3 ≤ fuel →
    scanClassType (fuel + more) depth tokens = scanClassType fuel depth tokens
  typeArguments : ∀ {more depth tokens}, 4 * tokens.length + 6 ≤ fuel →
    scanTypeArguments (fuel + more) depth tokens = scanTypeArguments fuel depth tokens
  argumentList : ∀ {more depth tokens}, 4 * tokens.length + 5 ≤ fuel →
    scanArgumentList (fuel + more) depth tokens = scanArgumentList fuel depth tokens

namespace ScansAgree

variable {fuel more depth : Nat}

theorem scanClassType_succ (ih : ScansAgree fuel) (h : 4 * tokens.length + 3 ≤ fuel + 1) :
    scanClassType (fuel + 1 + more) depth tokens = scanClassType (fuel + 1) depth tokens := by
  rw [Nat.add_right_comm, scanClassType_eq, scanClassType_eq]
  split
  · next hname =>
    have hpos := length_pos_of_isIdentifier hname
    have htail := tokens.length_tail
    have htails := tokens.tail.length_tail
    rw [ih.typeArguments (by omega)]
    refine Option.bind_congr fun rest hrest => ?_
    have hshort := (scansShorten fuel).segment hname hrest
    have hmember := rest.length_tail
    rw [ih.classType (by omega)]
  · rfl

theorem scanArgumentList_succ (ih : ScansAgree fuel) (h : 4 * tokens.length + 5 ≤ fuel + 1) :
    scanArgumentList (fuel + 1 + more) depth tokens = scanArgumentList (fuel + 1) depth tokens := by
  have htail := tokens.length_tail
  have htails := tokens.tail.length_tail
  rw [Nat.add_right_comm, scanArgumentList_eq, scanArgumentList_eq, ih.type (by omega),
    ih.type (by omega)]
  refine Option.bind_congr fun rest hrest => ?_
  have hshort := (scansShorten fuel).argument hrest
  have hmore := rest.length_tail
  rw [afterTypeArgument?_eq, afterTypeArgument?_eq, ih.argumentList (by omega)]

end ScansAgree

theorem scansAgree (fuel : Nat) : ScansAgree fuel := by
  induction fuel with
  | zero => constructor <;> intro more depth tokens h <;> omega
  | succ fuel ih =>
    constructor
    · intro more depth tokens h
      rw [Nat.add_right_comm, scanType_eq, scanType_eq, ih.classType (by omega)]
    · exact fun h => ih.scanClassType_succ h
    · intro more depth tokens h
      rw [Nat.add_right_comm, scanTypeArguments, scanTypeArguments, ih.argumentList (by omega)]
    · exact fun h => ih.scanArgumentList_succ h

/-- **The bound of the scan is never met**: a larger one changes nothing. -/
theorem scanType_eq_scanType? {fuel : Nat} (h : 4 * tokens.length + 4 ≤ fuel) :
    scanType fuel 0 tokens = scanType? tokens := by
  obtain ⟨more, rfl⟩ := Nat.exists_eq_add_of_le h
  exact (scansAgree _).type (Nat.le_refl _)

end CodeMarkup
