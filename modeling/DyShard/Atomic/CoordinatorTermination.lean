import DyShard.Atomic.CoordinatorLiveness

/-!
# Why the coordinator may never finish

The converse of `inevitable_of_cooperative`: where the answers are not cooperative, some schedule
keeps `StateTransfer` from returning.
-/

namespace DyShard.Atomic.Coordinator

open Transition Function CommitPc State CommitReply List Nat

variable {n : ℕ} {F : Followers n} {req : TransferRequest} {s s' : State n}

/-! ## What a run that returns has seen -/

theorem Inv.proposeAck_of_returned (h : Inv F req s) (hret : Returned s) :
    n ≤ chanCap ∧ ∀ f, ∃ m p, ProposeAck F f m p := by
  obtain ⟨r, hmain⟩ := hret
  have hclosed : s.main.proposeClosed = true := by simp [hmain, MainPc.proposeClosed]
  have hdone := h.propose.closed hclosed
  constructor
  · have hlen : s.proposeResChan.length = Fintype.card (Fin n) :=
      h.propose.resLength.trans (tally_eq_card fun f => by simp [hdone f, ProposePc.resSent])
    rw [Fintype.card_fin] at hlen
    rw [← hlen]
    exact h.propose.room
  · intro f
    obtain ⟨m, p, hm, -⟩ := h.propose.proposeAck hclosed f
    exact ⟨m, p, hm⟩

/-- Program counters a commit goroutine cannot have without a commit request. -/
def CommitPc.NeedsRequest (pc : CommitPc) : Prop :=
  pc = .await ∨ (∃ t, pc = .assignRes (.answer t)) ∨ pc = .wgDone ∨ pc = .done

/-- Without a commit request nobody ever sees a response. -/
def Mute (s : State n) : Prop :=
  s.commitRequest = none → s.response = none ∧ ∀ f, ¬ (s.commit f).pc.NeedsRequest

variable {f : Fin n} {cache : UInt64 → Option (List UInt8)}

theorem mute_update {commit : Fin n → CommitGo} {g : CommitGo}
    (h : ∀ f, ¬ (commit f).pc.NeedsRequest) (hg : ¬ g.pc.NeedsRequest) :
    ∀ f', ¬ (update commit f g f').pc.NeedsRequest :=
  (forall_update_iff commit fun _ g => ¬ g.pc.NeedsRequest).2 ⟨hg, fun f' _ => h f'⟩

theorem Mute.stepCommit (h : Mute s) (hs : s.stepCommit F f = some s') : Mute s' := by
  intro hnone'
  have hnone : s.commitRequest = none := by
    rcases stepCommit_cases hs with rfl | ⟨g, hm, -⟩
    · exact hnone'
    · rw [← hm.request]
      exact hnone'
  obtain ⟨hr, hpc⟩ := h hnone
  have hf := hpc f
  unfold State.stepCommit at hs
  dsimp only at hs
  cases hc : (s.commit f).pc with
  | idle | done | exited => simp [hc] at hs
  | await | wgDone => exact absurd (by simp [hc, NeedsRequest]) hf
  | guardNil | checkErr =>
    simp only [hc] at hs
    cases hs
    refine ⟨hr, mute_update hpc ?_⟩
    dsimp only
    split <;> simp [NeedsRequest]
  | guardSome =>
    simp only [hc, hr] at hs
    cases hs
    exact ⟨hr, mute_update hpc (by simp [NeedsRequest])⟩
  | guardNack | checkAck =>
    simp only [hc, hr] at hs
    cases hs
    exact ⟨hr, hpc⟩
  | call =>
    simp only [hc, hnone] at hs
    cases hs
    exact ⟨hr, mute_update hpc (by simp [NeedsRequest])⟩
  | assignRes reply =>
    cases reply with
    | answer t => exact absurd (by simp [hc, NeedsRequest]) hf
    | error e =>
      simp only [hc] at hs
      cases hs
      exact ⟨rfl, mute_update hpc (by simp [NeedsRequest])⟩
  | assignErr reply | readRes | readErr =>
    simp only [hc] at hs
    cases hs
    exact ⟨hr, mute_update hpc (by simp [NeedsRequest])⟩
  | sendRes res | sendErr err =>
    simp only [hc] at hs
    split at hs
    · cases hs
      exact ⟨hr, hpc⟩
    · split at hs <;> cases hs
      exact ⟨hr, mute_update hpc (by simp [NeedsRequest])⟩

theorem stepMain_response (hinv : Inv F req s) (hs : s.stepMain req = some s') :
    s'.response = s.response ∧ (s'.commitRequest = none → s.commitRequest = none) := by
  have hwait := hinv.commit.request
  unfold stepMain at hs
  split at hs
  · split at hs <;> cases hs <;> exact ⟨rfl, id⟩
  · rename_i hmain
    rw [hmain] at hwait
    split at hs <;> cases hs
    unfold afterPropose
    repeat' split
    all_goals exact ⟨rfl, fun _ => hwait⟩
  · split at hs <;> cases hs <;> exact ⟨rfl, id⟩
  · split at hs <;> cases hs
    exact ⟨rfl, id⟩
  · cases hs
  · cases hs

theorem Mute.stepMain (h : Mute s) (hinv : Inv F req s) (hs : s.stepMain req = some s') :
    Mute s' := by
  intro hnone'
  obtain ⟨hresp, hreq⟩ := stepMain_response hinv hs
  obtain ⟨hr, hpc⟩ := h (hreq hnone')
  refine ⟨by rw [hresp, hr], fun f => ?_⟩
  rcases ((stepMain_frame hs).1 f).1 with hf | ⟨-, hf⟩ <;> rw [hf]
  · exact hpc f
  · simp [NeedsRequest]

theorem mute_of_reach (h : Reach (step F req) anyStep (init n cache) s) : Mute s := by
  induction h with
  | refl => exact fun _ => ⟨rfl, fun f => by simp [init, NeedsRequest]⟩
  | @tail s s' a hr _ hs ih =>
    have hmain := step_ne_crashed hs
    cases a with
    | main => exact ih.stepMain ((reach_inv hr).resolve_left hmain) hs
    | propose f =>
      simp only [step, hmain, if_false] at hs
      have hf := (stepPropose_frame hs).1
      intro hnone
      rw [hf.response, hf.commit]
      exact ih (by rw [← hf.request]; exact hnone)
    | commit f =>
      simp only [step, hmain, if_false] at hs
      exact ih.stepCommit hs

theorem payload_of_returned (h : Reach (step F req) anyStep (init n cache) s)
    (hret : Returned s) (hn : 0 < n) : ∃ f m p, ProposeAck F f m p ∧ 0 < p.length := by
  obtain ⟨r, hmain⟩ := hret
  have hinv := (reach_inv h).resolve_left (by rw [hmain]; nofun)
  rw [← hinv.request_isSome_iff (by rw [hmain]; rfl)]
  by_contra hnone
  have hdone := hinv.commit.returned (by rw [hmain]; rfl) ⟨0, hn⟩
  exact (mute_of_reach h (by simpa using hnone)).2 ⟨0, hn⟩ (by simp [hdone, NeedsRequest])

/-! ## A goroutine that has given up -/

theorem exited_step (hinv : Inv F req s) (hf : (s.commit f).pc = .exited) {a : Action n}
    (hs : step F req s a = some s') : (s'.commit f).pc = .exited := by
  have hmain := step_ne_crashed hs
  cases a with
  | main =>
    rcases ((stepMain_frame hs).1 f).1 with hc | ⟨hsp, -⟩
    · rw [hc, hf]
    · -- only a goroutine that has not started is spawned
      have hidle := (hinv.commit.idle_iff f).2 (by simp [hsp, MainPc.Unspawned1])
      rw [hf] at hidle
      cases hidle
  | propose g =>
    simp only [step, hmain, if_false] at hs
    rw [(stepPropose_frame hs).1.commit, hf]
  | commit g =>
    simp only [step, hmain, if_false] at hs
    rcases stepCommit_cases hs with rfl | ⟨g', hm, -⟩
    · exact hf
    · by_cases hfg : f = g
      · subst hfg
        simp [State.stepCommit, hf] at hs
      · rw [hm.commit, update_of_ne hfg, hf]

theorem Inv.of_reach (h : Inv F req s) (hr : Reach (State.step F req) anyStep s s')
    (hmain : s'.main ≠ .crashed) : Inv F req s' := by
  refine (Reach.invariant (P := fun s => s.main = .crashed ∨ Inv F req s) (.inr h)
    (fun s a s' hinv _ hs => ?_) hr).resolve_left hmain
  exact (hinv.resolve_left (step_ne_crashed hs)).step hs

/-- **A commit goroutine that gives up keeps `StateTransfer` from returning.** -/
theorem not_inevitable_of_exited (hinv : Inv F req s) (hf : (s.commit f).pc = .exited) :
    ¬ Inevitable (State.step F req) Returned s := by
  intro hinev
  obtain ⟨t, ht, r, hmain⟩ := hinev.exists_reach
  have hexited : (t.commit f).pc = .exited := by
    clear hmain
    induction ht with
    | refl => exact hf
    | tail hr _ hs ih => exact exited_step (hinv.of_reach hr (step_ne_crashed hs)) ih hs
  have hi := hinv.of_reach ht (by rw [hmain]; nofun)
  have hdone := hi.commit.returned (by rw [hmain]; rfl) f
  rw [hexited] at hdone
  cases hdone

/-! ## Every commit goroutine at its first call -/

/-- No commit has been answered yet. -/
structure Waiting (s : State n) : Prop where
  response : s.response = none
  pc : ∀ f, (s.commit f).pc = .idle ∨ (s.commit f).pc = .guardNil ∨ (s.commit f).pc = .call ∨
    (s.commit f).pc = .await
  fresh : ∀ f, (s.commit f).calls = 0 ∧ (s.commit f).maxAttemptNum = 1

theorem Waiting.move (h : Waiting s) {pc : CommitPc}
    (hcommit : s'.commit = update s.commit f { s.commit f with pc })
    (hresp : s'.response = s.response) (hpc : pc = .guardNil ∨ pc = .call ∨ pc = .await) :
    Waiting s' where
  response := by rw [hresp, h.response]
  pc := by
    rw [hcommit, forall_update_iff s.commit fun _ g => g.pc = .idle ∨ g.pc = .guardNil ∨
      g.pc = .call ∨ g.pc = .await]
    exact ⟨.inr hpc, fun f' _ => h.pc f'⟩
  fresh := by
    rw [hcommit, forall_update_iff s.commit fun _ g => g.calls = 0 ∧ g.maxAttemptNum = 1]
    exact ⟨h.fresh f, fun f' _ => h.fresh f'⟩

theorem Waiting.step_other (h : Waiting s) (hinv : Inv F req s) {a : Action n}
    (ha : ∀ f, a ≠ .commit f) (hs : step F req s a = some s') : Waiting s' := by
  have hmain := step_ne_crashed hs
  cases a with
  | main =>
    refine ⟨by rw [(stepMain_response hinv hs).1, h.response], fun f => ?_, fun f => ?_⟩ <;>
      rcases ((stepMain_frame hs).1 f).1 with hf | ⟨-, hf⟩ <;> rw [hf]
    · exact h.pc f
    · exact .inr (.inl rfl)
    · exact h.fresh f
    · exact h.fresh f
  | propose f =>
    simp only [step, hmain, if_false] at hs
    have hf := (stepPropose_frame hs).1
    exact ⟨by rw [hf.response, h.response], by rw [hf.commit]; exact h.pc,
      by rw [hf.commit]; exact h.fresh⟩
  | commit f => exact absurd rfl (ha f)

theorem Waiting.stepCommit (h : Waiting s) {r : CommitRequest} (hr : s.commitRequest = some r)
    (hidle : (s.commit f).pc ≠ .idle) (hawait : (s.commit f).pc ≠ .await) :
    ∃ s', s.stepCommit F f = some s' ∧ s'.main = s.main ∧ Waiting s' := by
  have hmax := (h.fresh f).2
  rcases h.pc f with hc | hc | hc | hc
  · exact absurd hc hidle
  · refine ⟨s.setCommit f { s.commit f with pc := .call }, ?_, rfl, h.move rfl rfl (.inr (.inl rfl))⟩
    simp [State.stepCommit, hc, h.response, hmax]
  · refine ⟨(s.setCommit f { s.commit f with pc := .await }).log (.commitSent f r), ?_, rfl,
      h.move rfl rfl (.inr (.inr rfl))⟩
    simp [State.stepCommit, hc, hr]
  · exact absurd hc hawait

theorem Waiting.not_returned (h : Waiting s) (hinv : Inv F req s) (hn : 0 < n) : ¬ Returned s := by
  rintro ⟨r, hret⟩
  have hdone := hinv.commit.returned (by rw [hret]; rfl) ⟨0, hn⟩
  rcases h.pc ⟨0, hn⟩ with hc | hc | hc | hc <;> rw [hdone] at hc <;> cases hc

theorem exists_all_await (hn : 0 < n) (hroom : n ≤ chanCap)
    (hack : ∀ f, ∃ m p, ProposeAck F f m p) (hpay : ∃ f m p, ProposeAck F f m p ∧ 0 < p.length)
    (h : Inevitable (step F req) Returned s) (hinv : Inv F req s) (hmain : s.main ≠ .crashed)
    (hw : Waiting s) :
    ∃ t, Inevitable (step F req) Returned t ∧ Inv F req t ∧ Waiting t ∧ t.main = .wait1 ∧
      ∀ f, (t.commit f).pc = .await := by
  -- follow the run that never answers a commit; it is finite because returning is inevitable
  induction h with
  | now hret => exact absurd hret (hw.not_returned hinv hn)
  | @later s hex hall ih =>
    by_cases hwait : s.main = .wait1
    · by_cases hawait : ∀ f, (s.commit f).pc = .await
      · exact ⟨s, .later hex hall, hinv, hw, hwait, hawait⟩
      · push Not at hawait
        obtain ⟨f, hf⟩ := hawait
        have hidle : (s.commit f).pc ≠ .idle :=
          mt (hinv.commit.idle_iff f).1 (by simp [hwait, MainPc.Unspawned1])
        obtain ⟨r, hr⟩ := Option.isSome_iff_exists.1
          ((hinv.request_isSome_iff (by rw [hwait]; rfl)).2 hpay)
        obtain ⟨s', hs', hm', hw'⟩ := hw.stepCommit (F := F) hr hidle hf
        have hs : step F req s (.commit f) = some s' := by simp [step, hmain, hs']
        have hmain' : s'.main ≠ .crashed := hm' ▸ hmain
        exact ih _ s' hs ((hinv.step hs).resolve_left hmain') hmain' hw'
    · obtain ⟨a, s', ha, hs, hmain'⟩ :=
        hinv.progress hmain (hw.not_returned hinv hn) hwait hroom hack
      exact ih a s' hs ((hinv.step hs).resolve_left hmain') hmain' (hw.step_other hinv ha hs)

/-! ## One goroutine running alone -/

section Alone

variable {f : Fin n} {g : CommitGo} {r : CommitRequest}

section

variable (hmain : s.main = .wait1) (hg : s.commit f = g) (hpc : g.pc = .await)
include hmain hg hpc

theorem runAlone_nack (hr : s.commitRequest = some r) (hrep : F.commit f g.calls = .answer .nack) :
    exec (step F req) s (replicate 7 (.commit f)) =
      some { s with
        commit := update s.commit f
          { pc := .await, maxAttemptNum := g.maxAttemptNum - 1, calls := g.calls + 1,
            wroteResponse := some ⟨.nack⟩ }
        response := some ⟨.nack⟩
        err := none
        trace := .commitSent f r :: .commitAnswered f (.answer .nack) :: s.trace } := by
  simp [replicate, State.step, State.stepCommit, State.setCommit, State.log, hmain, hg, hpc,
    hr, hrep, CommitReply.results]

theorem runAlone_ack (hres : s.commitResChan.length < chanCap)
    (herr : s.commitErrChan.length < chanCap) (hrep : F.commit f g.calls = .answer .ack) :
    exec (step F req) s (replicate 11 (.commit f)) =
      some { s with
        commit := update s.commit f
          { pc := .checkAck, maxAttemptNum := g.maxAttemptNum - 1, calls := g.calls + 1,
            wroteResponse := some ⟨.ack⟩ }
        response := some ⟨.ack⟩
        err := none
        commitResChan := s.commitResChan ++ [some ⟨.ack⟩]
        commitErrChan := s.commitErrChan ++ [none]
        trace := .commitAnswered f (.answer .ack) :: s.trace } := by
  simp [replicate, State.step, State.stepCommit, State.setCommit, State.log, hmain, hg, hpc,
    hrep, CommitReply.results, MainPc.commitClosed, hres, herr]

theorem runAlone_error {e : Err} (hmax : g.maxAttemptNum ≤ 1)
    (hres : s.commitResChan.length < chanCap) (herr : s.commitErrChan.length < chanCap)
    (hrep : F.commit f g.calls = .error e) :
    exec (step F req) s (replicate 10 (.commit f)) =
      some { s with
        commit := update s.commit f
          { pc := .exited, maxAttemptNum := g.maxAttemptNum - 1, calls := g.calls + 1,
            wroteResponse := none }
        response := none
        err := some e
        commitResChan := s.commitResChan ++ [none]
        commitErrChan := s.commitErrChan ++ [some e]
        trace := .commitAnswered f (.error e) :: s.trace } := by
  have hmax' : ¬ 1 < g.maxAttemptNum := by omega
  simp [replicate, State.step, State.stepCommit, State.setCommit, State.log, hmain, hg, hpc,
    hrep, CommitReply.results, MainPc.commitClosed, hres, herr, hmax']

end

end Alone

/-- A goroutine at a pending call, with the process waiting for the commits. -/
structure Pending (F : Followers n) (req : TransferRequest) (s : State n) (f : Fin n) : Prop where
  inv : Inv F req s
  main : s.main = .wait1
  pc : (s.commit f).pc = .await
  attempts : (s.commit f).maxAttemptNum ≤ 1
  request : s.commitRequest.isSome

/-- The goroutine of `f` alone: it gives up on a failure, and gets to its last check otherwise. -/
theorem runAlone (hroom : n ≤ chanCap) (k : ℕ) (h : Pending F req s f)
    (hnack : ∀ j < k, (F.commit f ((s.commit f).calls + j)).IsNack)
    (hlast : ¬ (F.commit f ((s.commit f).calls + k)).IsNack) :
    ∃ t, Reach (step F req) anyStep s t ∧ t.main = .wait1 ∧
      (∀ f', f' ≠ f → t.commit f' = s.commit f') ∧
      ((t.commit f).pc = .exited ∨
        F.commit f ((s.commit f).calls + k) = .answer .ack ∧ (t.commit f).pc = .checkAck) := by
  induction k generalizing s with
  | zero =>
    obtain ⟨hres, herr⟩ := h.inv.commit.room hroom
    rw [h.pc] at hres herr
    replace hres := hres rfl
    replace herr := herr rfl
    simp only [add_zero] at hlast ⊢
    cases hrep : F.commit f (s.commit f).calls with
    | error e =>
      refine ⟨_, reach_of_exec (runAlone_error h.main rfl h.pc h.attempts hres herr hrep), h.main,
        fun f' hf => update_of_ne hf _ _, .inl (by simp)⟩
    | answer t =>
      cases t with
      | nack => simp [hrep, IsNack] at hlast
      | ack =>
        refine ⟨_, reach_of_exec (runAlone_ack h.main rfl h.pc hres herr hrep), h.main,
          fun f' hf => update_of_ne hf _ _, .inr ⟨rfl, by simp⟩⟩
  | succ k ih =>
    have h0 := hnack 0 (by omega)
    have hrep : F.commit f (s.commit f).calls = .answer .nack := h0.eq
    obtain ⟨r, hr⟩ := Option.isSome_iff_exists.1 h.request
    have hreach : Reach (step F req) anyStep s _ :=
      reach_of_exec (runAlone_nack h.main rfl h.pc hr hrep)
    have hmax := h.attempts
    obtain ⟨t, ht, htm, hother, hend⟩ := ih
      { inv := h.inv.of_reach hreach (by simp [h.main]), main := h.main, pc := by simp,
        attempts := by simp; omega, request := h.request }
      (fun j hj => by simpa [add_assoc, add_comm 1 j] using hnack (j + 1) (by omega))
      (by simpa [add_assoc, add_comm 1 k] using hlast)
    refine ⟨t, hreach.trans ht, htm, fun f' hf => ?_, ?_⟩
    · rw [hother f' hf]
      exact update_of_ne hf _ _
    · simpa [add_assoc, add_comm 1 k] using hend

/-! ## The exact condition -/

theorem not_step_of_returned (hinv : Inv F req s) (hret : Returned s) (a : Action n) :
    step F req s a = none := by
  obtain ⟨r, hmain⟩ := hret
  cases a with
  | main => simp [step, stepMain, hmain]
  | propose f =>
    have hdone := hinv.propose.closed (by rw [hmain]; rfl) f
    simp [step, stepPropose, hmain, hdone]
  | commit f =>
    have hdone := hinv.commit.returned (by rw [hmain]; rfl) f
    simp [step, stepCommit, hmain, hdone]

theorem not_exited_of_inevitable (h : Inevitable (step F req) Returned s)
    (hinv : Inv F req s) (hr : Reach (State.step F req) anyStep s s') (hmain : s'.main ≠ .crashed)
    (f : Fin n) : (s'.commit f).pc ≠ .exited := by
  intro hf
  refine not_inevitable_of_exited (hinv.of_reach hr hmain) hf
    (h.of_reach (P := fun s => s.main = .crashed ∨ Inv F req s) (.inr hinv) ?_ ?_ hr)
  · intro s a s' hs hst
    exact (hs.resolve_left (step_ne_crashed hst)).step hst
  · intro s a s' hs hret hst
    rw [not_step_of_returned (hs.resolve_left (step_ne_crashed hst)) hret] at hst
    cases hst

theorem FiniteNacks.exists_last (hF : FiniteNacks F) (f : Fin n) :
    ∃ m, AllNack F f m ∧ ¬ (F.commit f m).IsNack := by
  classical
  obtain ⟨k, -, hk⟩ := hF f
  have hex : ∃ m, ¬ (F.commit f m).IsNack := ⟨k, hk k (Nat.le_refl k)⟩
  exact ⟨Nat.find hex, fun j hj => not_not.1 (Nat.find_min hex hj), Nat.find_spec hex⟩

section Necessity

variable (hroom : n ≤ chanCap) (h : Inevitable (State.step F req) Returned s)
  (hp : ∀ f, Pending F req s f) (hw : Waiting s)
include hroom h hp hw

theorem commitAck_of_inevitable (hF : FiniteNacks F) (f : Fin n) : ∃ m, CommitAck F f m := by
  obtain ⟨m, hall, hlast⟩ := hF.exists_last f
  have hcalls := (hw.fresh f).1
  obtain ⟨t, ht, htm, -, hend⟩ := runAlone hroom m (hp f)
    (by simpa [hcalls, AllNack] using hall) (by simpa [hcalls] using hlast)
  rcases hend with hex | ⟨hack, -⟩
  · exact absurd hex (not_exited_of_inevitable h (hp f).inv ht (by rw [htm]; nofun) f)
  · exact ⟨m, hall, by simpa [hcalls] using hack⟩

/-- A rejection could be seen by the goroutine of the other follower at its last check. -/
theorem first_of_inevitable (hF : FiniteNacks F) (hn : 2 ≤ n) (f : Fin n) :
    F.commit f 0 = .answer .ack := by
  obtain ⟨m, hm⟩ := commitAck_of_inevitable hroom h hp hw hF f
  rcases Nat.eq_zero_or_pos m with rfl | hpos
  · exact hm.2
  have hrep : F.commit f 0 = .answer .nack := (hm.1 0 hpos).eq
  exfalso
  obtain ⟨g, hg⟩ : ∃ g : Fin n, g ≠ f := by
    have : Nontrivial (Fin n) := Fin.nontrivial_iff_two_le.2 hn
    exact exists_ne f
  obtain ⟨k, hk⟩ := commitAck_of_inevitable hroom h hp hw hF g
  -- the rejection arrives, but is not written yet
  have hmain := (hp f).main
  let s₁ := (s.setCommit f
    { s.commit f with pc := .assignRes (.answer .nack), calls := 1 }).log
      (.commitAnswered f (.answer .nack))
  have hstep₁ : step F req s (.commit f) = some s₁ := by
    simp [s₁, step, stepCommit, hmain, (hp f).pc, (hw.fresh f).1, hrep]
  have hreach₁ : Reach (step F req) anyStep s s₁ := Reach.refl.tail trivial hstep₁
  have hsame : s₁.commit g = s.commit g := update_of_ne hg _ _
  have hcalls : (s₁.commit g).calls = 0 := by rw [hsame]; exact (hw.fresh g).1
  -- meanwhile the other goroutine runs to its last check
  have hp₁ : Pending F req s₁ g :=
    { inv := (hp f).inv.of_reach hreach₁ (by simp [show s₁.main = _ from hmain])
      main := hmain
      pc := by rw [hsame]; exact (hp g).pc
      attempts := by rw [hsame]; exact (hp g).attempts
      request := (hp f).request }
  obtain ⟨t, ht, htm, hother, hend⟩ := runAlone hroom k hp₁
    (by simpa [hcalls] using hk.1) (by simp [hcalls, hk.2, IsNack])
  have htf : (t.commit f).pc = .assignRes (.answer .nack) := by
    rw [hother f hg.symm]
    simp [s₁, State.setCommit, State.log]
  rcases hend with hex | ⟨-, hcheck⟩
  · exact not_exited_of_inevitable h (hp f).inv (hreach₁.trans ht) (by simp [htm]) g hex
  -- now it is written, and the other goroutine reads it
  let t₁ : State n := { t.setCommit f
    { t.commit f with pc := .assignErr (.answer .nack), wroteResponse := some ⟨.nack⟩ } with
      response := some ⟨.nack⟩ }
  have hstep₂ : step F req t (.commit f) = some t₁ := by
    simp [t₁, step, stepCommit, htm, htf, CommitReply.results]
  have hcheck₁ : (t₁.commit g).pc = .checkAck := by
    rw [show t₁.commit g = t.commit g from update_of_ne hg _ _, hcheck]
  have hstep₃ : step F req t₁ (.commit g) =
      some (t₁.setCommit g { t₁.commit g with pc := .exited }) := by
    simp only [step, stepCommit, hcheck₁, show t₁.main = .wait1 from htm]
    rfl
  have hreach₃ := ((hreach₁.trans ht).tail trivial hstep₂).tail trivial hstep₃
  exact not_exited_of_inevitable h (hp f).inv hreach₃
    (by simp [show (t₁.setCommit g _).main = .wait1 from htm]) g (by simp [setCommit])

end Necessity

/-- **When the coordinator finishes**, if none of the followers rejects for ever. -/
theorem inevitable_returned_iff (hF : FiniteNacks F) (cache : UInt64 → Option (List UInt8)) :
    Inevitable (step F req) Returned (init n cache) ↔ Cooperative F := by
  refine ⟨fun h => ?_, fun h => inevitable_of_cooperative h cache⟩
  obtain ⟨t, ht, hret⟩ := h.exists_reach
  have hinv : Inv F req t := (reach_inv ht).resolve_left (by
    obtain ⟨r, hr⟩ := hret
    rw [hr]
    nofun)
  obtain ⟨hroom, hack⟩ := hinv.proposeAck_of_returned hret
  have hpay := payload_of_returned ht hret
  rcases Nat.eq_zero_or_pos n with rfl | hn
  · exact ⟨hroom, hack, hpay, fun f => f.elim0, fun _ f => f.elim0⟩
  have hinit : Inv F req (init n cache) := ⟨proposeInv_init cache, commitInv_init cache⟩
  obtain ⟨x, hx, hxinv, hxw, hxm, hxa⟩ := exists_all_await hn hroom hack (hpay hn) h hinit nofun
    ⟨rfl, fun _ => .inl rfl, fun _ => ⟨rfl, rfl⟩⟩
  have hp : ∀ f, Pending F req x f := fun f =>
    { inv := hxinv, main := hxm, pc := hxa f, attempts := by rw [(hxw.fresh f).2]
      request := (hxinv.request_isSome_iff (by rw [hxm]; rfl)).2 (hpay hn) }
  exact ⟨hroom, hack, hpay, commitAck_of_inevitable hroom hx hp hxw hF,
    first_of_inevitable hroom hx hp hxw hF⟩

/-- Two willing followers. -/
theorem inevitable_returned_willing :
    FiniteNacks (willing 2) ∧
      Inevitable (step (willing 2) ⟨7, 0, 1, []⟩) Returned (init 2 fun _ => none) := by
  have hfin : FiniteNacks (willing 2) := fun _ =>
    ⟨0, fun _ _ => by simp [willing, ProposeReply.IsNack], fun _ _ => by
      simp [willing, IsNack]⟩
  refine ⟨hfin, (inevitable_returned_iff hfin _).2 ?_⟩
  exact
    { room := by decide
      propose := fun f => ⟨0, [1], by simp, rfl⟩
      payload := fun _ => ⟨0, 0, [1], ⟨by simp, rfl⟩, by decide⟩
      commit := fun f => ⟨0, by simp, rfl⟩
      first := fun _ _ => rfl }

/-- Follower 1 cannot be reached. -/
def unreachable : Followers 2 where
  propose f _ := if f = 1 then .error "unavailable" else .answer .ack [1]
  commit _ _ := .answer .ack

/-- One failed `ProposeTwoPhase` call, and `StateTransfer` returns under no schedule. -/
theorem not_returned_unreachable :
    FiniteNacks unreachable ∧
      (∀ s, Reach (step unreachable ⟨7, 0, 1, []⟩) anyStep (init 2 fun _ => none) s →
        ¬ Returned s) ∧
      ¬ Inevitable (step unreachable ⟨7, 0, 1, []⟩) Returned (init 2 fun _ => none) := by
  have hnever : ∀ s, Reach (step unreachable ⟨7, 0, 1, []⟩) anyStep
      (init 2 fun _ => none) s → ¬ Returned s := by
    rintro s hs ⟨r, hr⟩
    have hinv := (reach_inv hs).resolve_left (by rw [hr]; nofun)
    obtain ⟨m, p, -, hack⟩ := (hinv.proposeAck_of_returned ⟨r, hr⟩).2 1
    simp [unreachable] at hack
  refine ⟨fun f => ⟨0, fun m _ => ?_, fun m _ => ?_⟩, hnever, fun h => ?_⟩
  · by_cases hf : f = 1 <;> simp [unreachable, hf, ProposeReply.IsNack]
  · simp [unreachable, IsNack]
  · obtain ⟨t, ht, hret⟩ := h.exists_reach
    exact hnever t ht hret

end DyShard.Atomic.Coordinator
