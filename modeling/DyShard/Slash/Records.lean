import DyShard.Slash.Verify
import DyShard.State.Snapshot

/-!
# Lists of slash records

`Worker.verifySlashes` puts a record whose evidence has been seen with the failures, and then
verifies it like the others, so that it comes out twice.
-/

namespace DyShard.Slash

open Consensus Chain State List DB

variable {K P S W : Type} [DecidableEq K] [Add P] [Zero P]

/-! ## The records of a proposal -/

/-- `Record.Evidence`. -/
def Record.evidence (c : Record K) : Moment × Vote K × Vote K × Address :=
  (c.moment, c.firstVote, c.secondVote, c.offender)

/-- The evidence with first and second vote swapped. -/
def Record.swapVote (c : Record K) : Moment × Vote K × Vote K × Address :=
  (c.moment, c.secondVote, c.firstVote, c.offender)

variable (o : Crypto K P S) (r : Reading K W) (chain : CommitteeReader K)
  (hash : Moment × Vote K × Vote K × Address → Word)

/-- The loop of `verifySlashes` with `seenEvidences`.  A known record fails, and is verified as
well. -/
def sift : List Word → DB W → List (Record K) → List (Record K) × List (Record K)
  | _, _, [] => ([], [])
  | seen, state, c :: d =>
    let known := hash c.evidence ∈ seen
    let rest := sift (if known then seen else hash c.swapVote :: hash c.evidence :: seen)
      (verify o r chain state c).2 d
    let failures := if known then [c] else []
    match (verify o r chain state c).1 with
    | .ok () => (c :: rest.1, failures ++ rest.2)
    | .error _ => (rest.1, failures ++ c :: rest.2)

/-- The records, sorted by the bytes of the reporter. -/
def byReporter (d : List (Record K)) : List (Record K) :=
  d.insertionSort fun c c' => c.reporter ≤ c'.reporter

/-- `verifySlashes`, on the state of the chain if it can be read. -/
def verifySlashes (workingState : Option (DB W)) (d : List (Record K)) :
    List (Record K) × List (Record K) :=
  match workingState with
  | none => ([], [])
  | some state => sift o r chain hash [] state (byReporter d)

/-- What the two lists are meant to be. -/
structure Sifted (workingState : Option (DB W)) (d : List (Record K))
    (lists : List (Record K) × List (Record K)) : Prop where
  perm : lists.1 ++ lists.2 ~ d
  verified : ∀ c ∈ lists.1, ∃ state ∈ workingState, (verify o r chain state c).1 = .ok ()
  distinct : lists.1.Pairwise fun c c' => c'.evidence ≠ c.evidence ∧ c'.evidence ≠ c.swapVote

/-- The later record does not repeat the evidence of the earlier one. -/
def Differs (c c' : Record K) : Prop :=
  hash c'.evidence ≠ hash c.evidence ∧ hash c'.evidence ≠ hash c.swapVote

theorem validatorWrapper_validatorWrapper (codec : WrapperCodec W) (db : DB W) (a b : Address) :
    ((db.validatorWrapper codec a).1.validatorWrapper codec b).2 =
      (db.validatorWrapper codec b).2 := by
  rw [validatorWrapper_eq, validatorWrapper_eq]
  unfold validatorWrapper
  cases ha : db.stateValidators a with
  | some val => rfl
  | none =>
    cases hcopy : db.validatorWrapperCopy codec a with
    | none => rfl
    | some val =>
      by_cases hb : b = a
      · simp [hb, ha, cacheValidator, wrapperCopy_ledger, hcopy]
      · simp only [cacheValidator, Function.update_of_ne hb]
        rfl

theorem sift_successes (seen : List Word) (state : DB W) (d : List (Record K)) :
    (sift o r chain hash seen state d).1 <+ d ∧
      ∀ c ∈ (sift o r chain hash seen state d).1, (verify o r chain state c).1 = .ok () := by
  induction d generalizing seen state with
  | nil => exact ⟨.slnil, nofun⟩
  | cons c d ih =>
    simp only [sift]
    generalize (if hash c.evidence ∈ seen then seen else _) = seen
    obtain ⟨hsub, hlater⟩ := ih seen (verify o r chain state c).2
    simp only [verify, validatorWrapper_validatorWrapper] at hlater
    cases hc : (verify o r chain state c).1 with
    | ok => exact ⟨hsub.cons_cons c, forall_mem_cons.2 ⟨hc, hlater⟩⟩
    | error => exact ⟨hsub.cons c, hlater⟩

theorem sift_perm (seen : List Word) (state : DB W) (d : List (Record K)) :
    d.length ≤ ((sift o r chain hash seen state d).1 ++ (sift o r chain hash seen state d).2).length ∧
      ((sift o r chain hash seen state d).1 ++ (sift o r chain hash seen state d).2 ~ d ↔
        (∀ c ∈ d, hash c.evidence ∉ seen) ∧ d.Pairwise (Differs hash)) := by
  induction d generalizing seen state with
  | nil => simp [sift]
  | cons c d ih =>
    by_cases hknown : hash c.evidence ∈ seen
    · obtain ⟨hlen, -⟩ := ih seen (verify o r chain state c).2
      have htwice : d.length + 2 ≤ ((sift o r chain hash seen state (c :: d)).1 ++
          (sift o r chain hash seen state (c :: d)).2).length := by
        simp only [sift, hknown, if_true, length_append] at hlen ⊢
        cases (verify o r chain state c).1 <;> simp only [length_append, length_cons] <;> omega
      refine ⟨by simp only [length_cons]; omega, fun h => ?_, fun h => ?_⟩
      · have := h.length_eq
        simp only [length_cons] at this
        omega
      · exact absurd hknown (h.1 c mem_cons_self)
    · obtain ⟨hlen, hrest⟩ := ih (hash c.swapVote :: hash c.evidence :: seen)
        (verify o r chain state c).2
      have hcons : (sift o r chain hash seen state (c :: d)).1 ++
          (sift o r chain hash seen state (c :: d)).2 ~
            c :: ((sift o r chain hash (hash c.swapVote :: hash c.evidence :: seen)
              (verify o r chain state c).2 d).1 ++ (sift o r chain hash
                (hash c.swapVote :: hash c.evidence :: seen) (verify o r chain state c).2 d).2) := by
        simp only [sift, hknown, if_false, nil_append]
        cases (verify o r chain state c).1 with
        | ok => exact .refl _
        | error => exact perm_middle
      refine ⟨by rw [hcons.length_eq]; exact Nat.succ_le_succ hlen, ?_⟩
      rw [hcons.congr_left, perm_cons, hrest]
      simp only [mem_cons, not_or, pairwise_cons, Differs, forall_eq_or_imp]
      grind

/-- **When the lists of `verifySlashes` are right**: no record has the hash of an earlier one or of
its swapped votes. -/
theorem sifted_verifySlashes_iff (workingState : Option (DB W)) (d : List (Record K)) :
    Sifted o r chain workingState d (verifySlashes o r chain hash workingState d) ↔
      (d = [] ∨ workingState.isSome) ∧ (byReporter d).Pairwise (Differs hash) := by
  cases workingState with
  | none =>
    constructor
    · intro h
      obtain rfl := perm_nil.1 h.perm.symm
      exact ⟨.inl rfl, .nil⟩
    · rintro ⟨rfl | hnone, -⟩
      · exact ⟨.nil, nofun, .nil⟩
      · cases hnone
  | some state =>
    have hsort : byReporter d ~ d := perm_insertionSort _ d
    have hperm := (sift_perm o r chain hash [] state (byReporter d)).2
    constructor
    · intro h
      exact ⟨.inr rfl, (hperm.1 (h.perm.trans hsort.symm)).2⟩
    · rintro ⟨-, hdiffers⟩
      refine ⟨(hperm.2 ⟨fun _ _ => not_mem_nil, hdiffers⟩).trans hsort, fun c hc => ?_, ?_⟩
      · exact ⟨state, rfl, (sift_successes o r chain hash [] state _).2 c hc⟩
      · refine (hdiffers.sublist (sift_successes o r chain hash [] state _).1).imp fun hc => ?_
        exact ⟨fun h => hc.1 (congrArg hash h), fun h => hc.2 (congrArg hash h)⟩

/-- **One offence is reported twice**: both records are successes, and the second is a failure too.
-/
theorem verifySlashes_reported_twice :
    let record := TwoKeys.record [1, 3] [1, 2]
    let d := [record, { record with reporter := 0xdd }]
    let lists := verifySlashes TwoKeys.crypto TwoKeys.reading TwoKeys.chain (·.2.1.blockHeaderHash)
      (some TwoKeys.state) d
    lists.1.length = 2 ∧ lists.2.length = 1 ∧
      ¬ Sifted TwoKeys.crypto TwoKeys.reading TwoKeys.chain (some TwoKeys.state) d lists := by
  refine ⟨by decide +kernel, by decide +kernel, fun h => ?_⟩
  exact absurd h.perm.length_eq (by decide +kernel)

end DyShard.Slash
