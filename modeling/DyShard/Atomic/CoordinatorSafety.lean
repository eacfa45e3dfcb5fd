import DyShard.Atomic.CoordinatorInvariant

/-!
# Safety of the coordinator

Two promises of a two-phase commit: no commit before all acknowledgements, and an acknowledgement
to the caller only when all have committed.  The shared `response` breaks the second.
-/

namespace DyShard.Atomic.Coordinator

open Transition Function State CommitPc Option List

variable {n : ℕ} {F : Followers n} {req : TransferRequest} {s s' : State n}

theorem stepMain_trace (hs : s.stepMain req = some s') : s'.trace = s.trace := by
  unfold stepMain at hs
  repeat' split at hs
  all_goals first
    | cases hs; rfl
    | cases hs
  unfold afterPropose
  repeat' split
  all_goals rfl

variable {f : Fin n} {trace : List (Event n)} {trace' : List (Event n)}

/-! ## Phase order -/

/-- Below every commit request lies an acknowledgement of the proposal by every follower. -/
def PhaseOrdered (trace : List (Event n)) : Prop :=
  ∀ later f r earlier, trace = later ++ .commitSent f r :: earlier →
    ∀ g, ∃ p, .proposeAnswered g (.answer .ack p) ∈ earlier

theorem PhaseOrdered.cons (h : PhaseOrdered trace) {e : Event n}
    (he : ∀ f r, e = .commitSent f r → ∀ g, ∃ p, .proposeAnswered g (.answer .ack p) ∈ trace) :
    PhaseOrdered (e :: trace) := by
  intro later f r earlier heq
  cases later with
  | nil =>
    cases heq
    exact he f r rfl
  | cons e' later =>
    cases heq
    exact h later f r earlier rfl

theorem Inv.all_acked (h : Inv F req s) (hmain : s.main ≠ .crashed) (hf : (s.commit f).pc ≠ .idle)
    (g : Fin n) : ∃ p, .proposeAnswered g (.answer .ack p) ∈ s.trace := by
  have hclosed : s.main.proposeClosed = true := by
    have hsp := mt (h.commit.idle_iff f).2 hf
    cases hm : s.main <;> simp_all [MainPc.Unspawned1, MainPc.proposeClosed]
  have hdone := h.propose.closed hclosed g
  have hgo := h.propose.go g
  have hack : (s.propose g).HasAck := by simpa [hdone, ProposeGo.PcOk] using hgo.pcOk
  obtain ⟨m, p, hm, hrep, -⟩ := hgo.reply_of_hasAck hack
  exact ⟨p, hrep ▸ h.propose.answered g m (by omega)⟩

theorem phaseOrdered_step (h : Inv F req s) (hord : PhaseOrdered s.trace) {a : Action n}
    (hs : step F req s a = some s') : PhaseOrdered s'.trace := by
  have hmain := step_ne_crashed hs
  cases a with
  | main => rw [stepMain_trace hs]; exact hord
  | propose f =>
    simp only [step, hmain, if_false] at hs
    rcases (stepPropose_frame hs).1.trace with ht | ht | ⟨reply, ht⟩ <;> rw [ht]
    · exact hord
    · exact hord.cons (by simp)
    · exact hord.cons (by simp)
  | commit f =>
    simp only [step, hmain, if_false] at hs
    rcases stepCommit_cases hs with rfl | ⟨-, -, ht | ⟨r, hpc, -, ht⟩ | ⟨-, ht⟩⟩
    · exact hord
    all_goals rw [ht]
    · exact hord
    · exact hord.cons fun _ _ _ => h.all_acked hmain (by rw [hpc]; simp)
    · exact hord.cons (by simp)

/-- **No commit before all acknowledgements.** -/
theorem phaseOrdered_of_reach {cache : UInt64 → Option (List UInt8)}
    (h : Reach (step F req) anyStep (init n cache) s) : PhaseOrdered s.trace := by
  induction h with
  | refl =>
    intro later f r earlier heq
    simp [init] at heq
  | tail hr _ hs ih =>
    exact phaseOrdered_step ((reach_inv hr).resolve_left (step_ne_crashed hs)) ih hs

/-- Spawn and finish the propose phase of two followers, and spawn the commit phase. -/
def proposeTwo : List (Action 2) :=
  [.main, .main, .main] ++ replicate 7 (.propose 0) ++ replicate 7 (.propose 1) ++
    [.main, .main, .main, .main]

/-- A run in which the commit is sent to follower 0. -/
theorem phaseOrdered_proposeTwo :
    ∃ s r, Reach (step (willing 2) ⟨7, 0, 1, []⟩) anyStep (init 2 fun _ => none) s ∧
      .commitSent 0 r ∈ s.trace ∧ PhaseOrdered s.trace := by
  have hrun : (exec (step (willing 2) ⟨7, 0, 1, []⟩) (init 2 fun _ => none)
      (proposeTwo ++ [.commit 0, .commit 0])).map (fun s => s.trace.head?) =
      some (some (.commitSent 0 ⟨0, 1, 7, [], [1]⟩)) := by decide +kernel
  obtain ⟨s, hs, hsent⟩ := map_eq_some_iff.1 hrun
  exact ⟨s, _, reach_of_exec hs, mem_of_mem_head? hsent, phaseOrdered_of_reach (reach_of_exec hs)⟩

/-! ## Completeness of the commit -/

/-- `f` was sent the commit for the index of the request and answered with `t`. -/
def Told (req : TransferRequest) (trace : List (Event n)) (f : Fin n) (t : AckType) : Prop :=
  (∃ r, r.index = req.index ∧ .commitSent f r ∈ trace) ∧ .commitAnswered f (.answer t) ∈ trace

theorem Told.mono {t : AckType} (h : Told req trace f t)
    (hsub : trace ⊆ trace') : Told req trace' f t := by
  obtain ⟨⟨r, hr, hsent⟩, hans⟩ := h
  exact ⟨⟨r, hr, hsub hsent⟩, hsub hans⟩

/-- What a commit goroutine has heard from its own follower. -/
structure Heard (req : TransferRequest) (trace : List (Event n)) (f : Fin n) (g : CommitGo) :
    Prop where
  await : g.pc = .await → ∃ r, r.index = req.index ∧ .commitSent f r ∈ trace
  assign : ∀ t, g.pc = .assignRes (.answer t) → Told req trace f t
  wrote : ∀ r, g.wroteResponse = some r → Told req trace f r.acktype
  finished : g.pc = .wgDone ∨ g.pc = .done → g.wroteResponse = some ⟨.ack⟩

theorem Heard.mono {g : CommitGo} (h : Heard req trace f g)
    (hsub : trace ⊆ trace') : Heard req trace' f g where
  await hpc := by
    obtain ⟨r, hr, hsent⟩ := h.await hpc
    exact ⟨r, hr, hsub hsent⟩
  assign t hpc := (h.assign t hpc).mono hsub
  wrote r hr := (h.wrote r hr).mono hsub
  finished := h.finished

/-- Program counters at which nothing new has been heard. -/
def CommitPc.Silent (pc : CommitPc) : Prop :=
  pc ≠ .await ∧ (∀ t, pc ≠ .assignRes (.answer t)) ∧ pc ≠ .wgDone ∧ pc ≠ .done

theorem Heard.silent {g g' : CommitGo} (h : Heard req trace f g) (hpc : g'.pc.Silent)
    (hw : g'.wroteResponse = g.wroteResponse) :
    Heard req trace f g' where
  await hc := absurd hc hpc.1
  assign t hc := absurd hc (hpc.2.1 t)
  wrote r hr := h.wrote r (hw ▸ hr)
  finished hc := (hc.elim hpc.2.2.1 hpc.2.2.2).elim

/-- A commit goroutine at its last check finds its own answer in the shared `response`. -/
def checksOwn (s : State n) : Action n → Prop
  | .commit f => (s.commit f).pc = .checkAck → s.response = (s.commit f).wroteResponse
  | _ => True

instance (s : State n) (a : Action n) : Decidable (checksOwn s a) :=
  match a with
  | .main | .propose _ => .isTrue trivial
  | .commit f =>
    inferInstanceAs (Decidable ((s.commit f).pc = .checkAck →
      s.response = (s.commit f).wroteResponse))

theorem heard_stepCommit (hinv : Inv F req s) (h : Heard req s.trace f (s.commit f))
    (hown : checksOwn s (.commit f)) (hs : s.stepCommit F f = some s') :
    Heard req s'.trace f (s'.commit f) := by
  unfold stepCommit at hs
  dsimp only at hs
  cases hc : (s.commit f).pc <;> simp only [hc] at hs
  case idle | done | exited => cases hs
  case guardNil | guardSome | checkErr =>
    cases hs
    refine h.silent ?_ (by simp [setCommit])
    simp only [setCommit, update_self]
    split <;> simp [Silent]
  case guardNack =>
    split at hs <;> cases hs
    · exact h
    · refine h.silent ?_ (by simp [setCommit])
      simp only [setCommit, update_self]
      split <;> simp [Silent]
  case assignErr reply | readRes | readErr =>
    cases hs
    exact h.silent (by simp [setCommit, Silent]) (by simp [setCommit])
  case sendRes res | sendErr err =>
    split at hs
    · cases hs
      exact h
    · split at hs
      · cases hs
        exact h.silent (by simp [setCommit, Silent]) (by simp [setCommit])
      · cases hs
  case call =>
    split at hs <;> cases hs
    · rename_i r hr
      have hh := h.mono (subset_cons_self (Event.commitSent f r) s.trace)
      simp only [log, setCommit, update_self]
      exact
        { await := fun _ => ⟨r, (hinv.request_eq hr).2.2.1, mem_cons_self⟩
          assign := by simp
          wrote := hh.wrote
          finished := by simp }
    · exact h.silent (by simp [setCommit, Silent]) (by simp [setCommit])
  case await =>
    cases hs
    have hh := h.mono
      (subset_cons_self (Event.commitAnswered f (F.commit f (s.commit f).calls)) s.trace)
    obtain ⟨r, hr, hsent⟩ := hh.await hc
    simp only [log, setCommit, update_self]
    exact
      { await := by simp
        assign := fun t ht => ⟨⟨r, hr, hsent⟩, by
          rw [assignRes.inj ht]; exact mem_cons_self⟩
        wrote := hh.wrote
        finished := by simp }
  case assignRes reply =>
    cases hs
    simp only [setCommit, update_self]
    refine { await := by simp, assign := by simp, wrote := fun r hr => ?_, finished := by simp }
    cases reply with
    | error e => cases hr
    | answer t =>
      cases hr
      exact h.assign t hc
  case checkAck =>
    split at hs <;> cases hs
    · exact h
    · rename_i r hr
      -- the value checked is the goroutine's own
      have hwrote : (s.commit f).wroteResponse = some r := (hown hc).symm.trans hr
      simp only [setCommit, update_self]
      refine { await := ?_, assign := ?_, wrote := h.wrote, finished := ?_ }
      · split <;> simp
      · split <;> simp
      · split
        · rename_i hack
          intro _
          rw [hwrote, ← hack]
        · simp
  case wgDone =>
    split at hs <;> cases hs
    · exact h
    · simp only [setCommit, update_self]
      exact { await := by simp, assign := by simp, wrote := h.wrote,
              finished := fun _ => h.finished (.inl hc) }

theorem heard_step (hinv : Inv F req s) (h : ∀ f, Heard req s.trace f (s.commit f)) {a : Action n}
    (hown : checksOwn s a) (hs : step F req s a = some s') (f : Fin n) :
    Heard req s'.trace f (s'.commit f) := by
  have hmain := step_ne_crashed hs
  cases a with
  | main =>
    rw [stepMain_trace hs]
    rcases ((stepMain_frame hs).1 f).1 with hf | ⟨-, hf⟩ <;> rw [hf]
    · exact h f
    · exact (h f).silent (by simp [Silent]) rfl
  | propose g =>
    simp only [step, hmain, if_false] at hs
    have hf := (stepPropose_frame hs).1
    rw [hf.commit]
    refine (h f).mono ?_
    rcases hf.trace with ht | ht | ⟨reply, ht⟩ <;> rw [ht] <;> simp
  | commit g =>
    simp only [step, hmain, if_false] at hs
    by_cases hfg : f = g
    · subst hfg
      exact heard_stepCommit hinv (h f) hown hs
    · rcases stepCommit_cases hs with rfl | ⟨g', hm, -⟩
      · exact h f
      · rw [hm.commit, update_of_ne hfg]
        exact (h f).mono hm.trace

/-- **An acknowledgement means that every follower committed**, if each commit goroutine makes its
last check on its own answer. -/
theorem acked_of_checksOwn {cache : UInt64 → Option (List UInt8)}
    (h : Reach (step F req) checksOwn (init n cache) s)
    (hret : s.main = .returned ⟨some ⟨.ack⟩, none⟩) (f : Fin n) :
    (∃ r, r.index = req.index ∧ .commitSent f r ∈ s.trace) ∧
      .commitAnswered f (.answer .ack) ∈ s.trace := by
  have hheard : ∀ f, Heard req s.trace f (s.commit f) := by
    clear hret
    induction h with
    | refl =>
      exact fun f => { await := nofun, assign := nofun, wrote := nofun, finished := nofun }
    | tail hr hown hs ih =>
      exact heard_step ((reach_inv hr).resolve_left (step_ne_crashed hs)) ih hown hs
  obtain hc | hinv := reach_inv h
  · rw [hc] at hret
    cases hret
  · have hdone := hinv.commit.returned (by rw [hret]; rfl) f
    exact (hheard f).wrote _ ((hheard f).finished (.inr hdone))

/-- A run with two willing followers, both asked before either answer is looked at. -/
theorem acked_of_checksOwn_turns :
    ∃ s, Reach (step (willing 2) ⟨7, 0, 1, []⟩) checksOwn (init 2 fun _ => none) s ∧
      s.main = .returned ⟨some ⟨.ack⟩, none⟩ ∧
      ∀ f, .commitAnswered f (.answer .ack) ∈ s.trace := by
  have hrun : (exec (guarded (step (willing 2) ⟨7, 0, 1, []⟩) checksOwn)
      (init 2 fun _ => none)
      (flatten [proposeTwo, [.commit 0, .commit 0, .commit 1, .commit 1],
        replicate 13 (.commit 0), replicate 13 (.commit 1), [.main]])).map main =
      some (.returned ⟨some ⟨.ack⟩, none⟩) := by decide +kernel
  obtain ⟨s, hs, hret⟩ := map_eq_some_iff.1 hrun
  have hreach := reach_of_exec_guarded hs
  exact ⟨s, hreach, hret, fun f => (acked_of_checksOwn hreach hret f).2⟩

/-- **Nothing outlives `StateTransfer`**: each follower has agreed and no goroutine is left. -/
theorem quiet_of_returned {cache : UInt64 → Option (List UInt8)} {r : Result}
    (h : Reach (step F req) anyStep (init n cache) s) (hret : s.main = .returned r) (f : Fin n) :
    (s.propose f).pc = .done ∧ (s.commit f).pc = .done ∧
      ∃ p, .proposeAnswered f (.answer .ack p) ∈ s.trace := by
  have hmain : s.main ≠ .crashed := by simp [hret]
  have hinv := (reach_inv h).resolve_left hmain
  have hdone := hinv.commit.returned (by rw [hret]; rfl) f
  exact ⟨hinv.propose.closed (by rw [hret]; rfl) f, hdone,
    hinv.all_acked hmain (by rw [hdone]; simp) f⟩

/-- The goroutine of follower 0 runs to its end before that of follower 1 starts. -/
def oneByOne : List (Action 2) :=
  flatten [proposeTwo, replicate 15 (.commit 0), replicate 10 (.commit 1), [.main]]

/-- Two willing followers: the transfer returns an acknowledgement, and nothing is left. -/
theorem quiet_willing :
    ∃ s, exec (step (willing 2) ⟨7, 0, 1, []⟩) (init 2 fun _ => none) oneByOne = some s ∧
      s.main = .returned ⟨some ⟨.ack⟩, none⟩ ∧
      ∀ f, (s.propose f).pc = .done ∧ (s.commit f).pc = .done := by
  have hrun : (exec (step (willing 2) ⟨7, 0, 1, []⟩) (init 2 fun _ => none) oneByOne).map main =
      some (.returned ⟨some ⟨.ack⟩, none⟩) := by decide +kernel
  obtain ⟨s, hs, hret⟩ := map_eq_some_iff.1 hrun
  refine ⟨s, hs, hret, fun f => ?_⟩
  obtain ⟨hpropose, hcommit, -⟩ := quiet_of_returned (reach_of_exec hs) hret f
  exact ⟨hpropose, hcommit⟩

/-- The goroutine of follower 1 takes the answer of follower 0 for its own, and never sends the
commit. -/
theorem commit_unsent :
    ∃ s, Reach (step (willing 2) ⟨7, 0, 1, []⟩) anyStep (init 2 fun _ => none) s ∧
      s.main = .returned ⟨some ⟨.ack⟩, none⟩ ∧
      ∀ e ∈ s.trace, ∀ r, e ≠ .commitSent 1 r := by
  have hrun : (exec (step (willing 2) ⟨7, 0, 1, []⟩) (init 2 fun _ => none) oneByOne).map
      (fun s => (s.main, s.trace)) =
      some (.returned ⟨some ⟨.ack⟩, none⟩,
        [.commitAnswered 0 (.answer .ack), .commitSent 0 ⟨0, 1, 7, [], [1]⟩,
          .proposeAnswered 1 (.answer .ack [1]), .proposeSent 1,
          .proposeAnswered 0 (.answer .ack [1]), .proposeSent 0]) := by decide +kernel
  obtain ⟨s, hs, hret, htrace⟩ := facts_of_map hrun
  refine ⟨s, reach_of_exec hs, hret, fun e he r => ?_⟩
  rw [htrace] at he
  fin_cases he <;> simp

end DyShard.Atomic.Coordinator
