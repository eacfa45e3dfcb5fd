import DyShard.Atomic.CoordinatorInvariant

/-!
# When the coordinator finishes

For followers that each reject only finitely often, a condition under which `StateTransfer` returns
under every schedule, by a measure that every step decreases.
-/

namespace DyShard.Atomic.Coordinator

open Transition Function State MainPc Option List ProposePc

variable {n : ℕ} {F : Followers n} {req : TransferRequest} {s s' : State n}

/-! ## Answers -/

/-- The call was answered with a rejection. -/
def CommitReply.IsNack : CommitReply → Prop
  | .answer .nack => True
  | _ => False

theorem CommitReply.IsNack.eq {r : CommitReply} (h : r.IsNack) : r = .answer .nack := by
  match r with
  | .answer .nack => rfl

/-- No follower rejects for ever. -/
def FiniteNacks (F : Followers n) : Prop :=
  ∀ f, ∃ k, (∀ m, k ≤ m → ¬ (F.propose f m).IsNack) ∧ ∀ m, k ≤ m → ¬ (F.commit f m).IsNack

/-- After `m` rejections the follower acknowledges the proposal with payload `p`. -/
def ProposeAck (F : Followers n) (f : Fin n) (m : ℕ) (p : List UInt8) : Prop :=
  (∀ j < m, (F.propose f j).IsNack) ∧ F.propose f m = .answer .ack p

/-- After `m` rejections the follower acknowledges the commit. -/
def CommitAck (F : Followers n) (f : Fin n) (m : ℕ) : Prop :=
  (∀ j < m, (F.commit f j).IsNack) ∧ F.commit f m = .answer .ack

/-- The answers under which `StateTransfer` returns. -/
structure Cooperative (F : Followers n) : Prop where
  room : n ≤ chanCap
  propose : ∀ f, ∃ m p, ProposeAck F f m p
  payload : 0 < n → ∃ f m p, ProposeAck F f m p ∧ 0 < p.length
  commit : ∀ f, ∃ m, CommitAck F f m
  first : 2 ≤ n → ∀ f, F.commit f 0 = .answer .ack

variable {f : Fin n} {m k : ℕ} {p : List UInt8}

theorem ProposeAck.le (h : ProposeAck F f m p) (hk : ∀ j < k, (F.propose f j).IsNack) : k ≤ m := by
  by_contra hlt
  have := hk m (by omega)
  rw [h.2] at this
  exact this

theorem CommitAck.le (h : CommitAck F f m) (hk : ∀ j < k, (F.commit f j).IsNack) : k ≤ m := by
  by_contra hlt
  have := hk m (by omega)
  rw [h.2] at this
  exact this

theorem ProposeAck.unique {m' : ℕ} {p' : List UInt8} (h : ProposeAck F f m p)
    (h' : ProposeAck F f m' p') : m = m' ∧ p = p' := by
  have hm : m = m' := le_antisymm (h'.le h.1) (h.le h'.1)
  subst hm
  have := h.2.symm.trans h'.2
  simpa using this

theorem ProposeInv.proposeAck (h : ProposeInv F req s) (hclosed : s.main.proposeClosed = true)
    (f : Fin n) :
    ∃ m p, ProposeAck F f m p ∧
      (s.propose f).responseP = some { acktype := .ack, index := req.index,
                                       address := req.msgPayload, msgPayload := p } := by
  have hack : (s.propose f).HasAck := by
    simpa [h.closed hclosed f, ProposeGo.PcOk] using (h.go f).pcOk
  obtain ⟨m, p, hm, hrep, hres⟩ := (h.go f).reply_of_hasAck hack
  exact ⟨m, p, ⟨fun j hj => (h.go f).earlier j (by omega), hrep⟩, hres⟩

theorem Inv.request_isSome_iff (h : Inv F req s) (hclosed : s.main.proposeClosed = true) :
    s.commitRequest.isSome ↔ ∃ f m p, ProposeAck F f m p ∧ 0 < p.length := by
  have hreq := h.commit.request
  have hdone := h.propose.closed hclosed
  rw [hclosed, if_pos rfl] at hreq
  rw [hreq, requestOf, isSome_map, find?_isSome]
  constructor
  · rintro ⟨r, hr, hlen⟩
    obtain ⟨f, hsent, hres⟩ := (h.propose.res_mem r).1 hr
    obtain ⟨m, p, hm, hp⟩ := h.propose.proposeAck hclosed f
    rw [hres] at hp
    cases hp
    exact ⟨f, m, p, hm, by simpa using hlen⟩
  · rintro ⟨f, m, p, hm, hlen⟩
    obtain ⟨m', p', hm', hp⟩ := h.propose.proposeAck hclosed f
    obtain ⟨rfl, rfl⟩ := hm.unique hm'
    exact ⟨_, (h.propose.res_mem _).2 ⟨f, by rw [hdone]; rfl, hp⟩, by simpa using hlen⟩

/-! ## Progress of the propose phase -/

theorem tally_lt_chanCap {G : Type} (go : Fin n → G) (w : G → ℕ) (hroom : n ≤ chanCap)
    (hw : ∀ g, w g ≤ 1) (h0 : w (go f) = 0) : tally (fun _ => w) go < chanCap := by
  have hlt : tally (fun _ => w) go < Fintype.card (Fin n) := tally_lt_card (fun i => hw _) h0
  rw [Fintype.card_fin] at hlt
  omega

theorem ProposeInv.enabled (h : ProposeInv F req s) (hroom : n ≤ chanCap)
    (hrun : (s.propose f).pc.running = 1) (hex : (s.propose f).pc ≠ .exited) :
    ∃ s', s.stepPropose F req f = some s' := by
  unfold State.stepPropose
  cases hc : (s.propose f).pc with
  | idle | done => simp [hc, running] at hrun
  | exited => exact absurd hc hex
  | loop | await | setCache => simp only [hc]; exact ⟨_, rfl⟩
  | sendRes r =>
    have hlt := tally_lt_chanCap s.propose (·.pc.resSent) hroom
      (fun g => by cases g.pc <;> simp [resSent]) (by rw [hc]; rfl)
    rw [← h.resLength] at hlt
    simp only [hc]
    split_ifs <;> exact ⟨_, rfl⟩
  | sendErr =>
    have hlt := tally_lt_chanCap s.propose (·.pc.errSent) hroom
      (fun g => by cases g.pc <;> simp [errSent]) (by rw [hc]; rfl)
    rw [← h.errLength] at hlt
    simp only [hc]
    split_ifs <;> exact ⟨_, rfl⟩
  | wgDone =>
    simp only [hc]
    split <;> exact ⟨_, rfl⟩

theorem ProposeInv.not_exited (h : ProposeInv F req s) (hack : ProposeAck F f m p) :
    (s.propose f).pc ≠ .exited := by
  intro hc
  have hgo := h.go f
  have hpc : ¬ (s.propose f).HasAck ∧ (s.propose f).again = false := by
    simpa [hc, ProposeGo.PcOk] using hgo.pcOk
  cases hcalls : (s.propose f).calls with
  | zero =>
    obtain ⟨hres, -, hmax⟩ := hgo.fresh hcalls
    simp [ProposeGo.again, hres, hmax] at hpc
  | succ k =>
    -- the last answer was no rejection, so it was the acknowledgement
    have hnack : ¬ (F.propose f k).IsNack := by
      rw [← hgo.again_iff hcalls, hpc.2]
      simp
    have hkm : k ≤ m := hack.le fun j hj => hgo.earlier j (by omega)
    have hmk : k = m := by
      by_contra hne
      exact hnack (hack.1 k (by omega))
    subst hmk
    obtain ⟨hlast, -⟩ := hgo.last k hcalls
    rw [hack.2] at hlast
    simp only [ProposeReply.results, Prod.mk.injEq] at hlast
    exact hpc.1 ⟨hlast.2, _, hlast.1, rfl⟩

/-! ## The commit phase with cooperative followers -/

/-- The first `k` commits to `f` are rejected. -/
def AllNack (F : Followers n) (f : Fin n) (k : ℕ) : Prop := ∀ j < k, (F.commit f j).IsNack

/-- The latest answer of `f` is an acknowledgement; only a lone follower may still
be rejecting. -/
def Fine (F : Followers n) (f : Fin n) (calls : ℕ) (reply : CommitReply) : Prop :=
  reply = .answer .ack ∨ n = 1 ∧ reply = .answer .nack ∧ AllNack F f calls

/-- What the program counter says about `response` and the variables if nobody fails. -/
def GoodPc (F : Followers n) (response : Option Response) (f : Fin n) (g : CommitGo) :
    CommitPc → Prop
  | .idle => g.calls = 0 ∧ 0 < g.maxAttemptNum
  | .guardNil =>
    (response = none → g.calls = 0 ∧ 0 < g.maxAttemptNum) ∧
      (response = some ⟨.nack⟩ → AllNack F f g.calls)
  | .guardSome | .guardNack =>
    response ≠ none ∧ (response = some ⟨.nack⟩ → AllNack F f g.calls)
  | .call | .await => AllNack F f g.calls
  | .assignRes reply => Fine F f g.calls reply
  | .assignErr reply =>
    Fine F f g.calls reply ∧ response ≠ none ∧ (n = 1 → response = reply.results.1)
  | .readRes | .readErr | .checkErr | .checkAck | .wgDone | .done => response = some ⟨.ack⟩
  | .sendRes res => response = some ⟨.ack⟩ ∧ res = some ⟨.ack⟩
  | .sendErr err => response = some ⟨.ack⟩ ∧ err = none
  | .exited => False

/-- The commit phase as long as no follower fails. -/
structure Good (F : Followers n) (s : State n) : Prop where
  err : s.err = none
  nack : s.response = some ⟨.nack⟩ → n = 1
  go : ∀ f, GoodPc F s.response f (s.commit f) (s.commit f).pc
  res : ∀ r ∈ s.commitResChan, r = some ⟨.ack⟩
  errs : ∀ e ∈ s.commitErrChan, e = none

theorem GoodPc.ack {response : Option Response} {g : CommitGo} {pc : CommitPc}
    (h : GoodPc F response f g pc) (hn : n ≠ 1) : GoodPc F (some ⟨.ack⟩) f g pc := by
  cases pc with
  | idle | call | await | assignRes reply | exited => exact h
  | guardNil | guardSome | guardNack => exact ⟨nofun, nofun⟩
  | assignErr reply => exact ⟨h.1, nofun, fun h1 => absurd h1 hn⟩
  | readRes | readErr | checkErr | checkAck | wgDone | done => rfl
  | sendRes res | sendErr err => exact ⟨rfl, h.2⟩

theorem Cooperative.fine (hF : Cooperative F) (hk : AllNack F f k) :
    Fine F f (k + 1) (F.commit f k) := by
  obtain ⟨m, hm⟩ := hF.commit f
  rcases Nat.lt_or_eq_of_le (hm.le hk) with hlt | rfl
  · right
    have hnack := hm.1 k hlt
    have hn : n = 1 := by
      by_contra hne
      have hpos : 0 < n := Fin.pos f
      have h0 := hm.1 0 (by omega)
      rw [hF.first (by omega) f] at h0
      exact h0
    have hall : AllNack F f (k + 1) := fun j hj => by
      rcases Nat.lt_succ_iff_lt_or_eq.1 hj with hj | rfl
      · exact hk j hj
      · exact hnack
    exact ⟨hn, hnack.eq, hall⟩
  · exact .inl hm.2

/-- How far a commit goroutine is from its end, when its follower acknowledges the
call number `m`. -/
def commitWeight (m : ℕ) (g : CommitGo) : ℕ :=
  match g.pc with
  | .idle => 10 * (m + 1 - g.calls) + 20
  | .guardNil => 10 * (m + 1 - g.calls) + 19
  | .guardSome => 10 * (m + 1 - g.calls) + 18
  | .guardNack => 10 * (m + 1 - g.calls) + 17
  | .call => 10 * (m + 1 - g.calls) + 16
  | .await => 10 * (m + 1 - g.calls) + 15
  | .assignRes _ => 10 * (m + 1 - g.calls) + 24
  | .assignErr _ => 10 * (m + 1 - g.calls) + 23
  | .readRes => 9
  | .sendRes _ => 8
  | .readErr => 7
  | .sendErr _ => 6
  | .checkErr => 5
  | .checkAck => 4
  | .wgDone => 3
  | .done | .exited => 0

theorem Inv.closed_of_spawned (h : Inv F req s) (hmain : s.main ≠ .crashed)
    (hf : (s.commit f).pc ≠ .idle) : s.main.proposeClosed = true := by
  have hsp := mt (h.commit.idle_iff f).2 hf
  cases hm : s.main <;> simp_all [Unspawned1, proposeClosed]

theorem CommitInv.open_of_running (h : CommitInv req s) (hrun : (s.commit f).pc.running = 1) :
    s.main.commitClosed = false ∧ s.wg1 ≠ 0 := by
  constructor
  · by_contra hc
    have hdone := h.returned (by simpa using hc) f
    simp [hdone, CommitPc.running] at hrun
  · have hle := le_tally (fun _ (g : CommitGo) => g.pc.running) s.commit f
    have hwg := h.wg1
    omega

/-- What a good step of the commit goroutine of `f` achieves. -/
def Nearer (F : Followers n) (s s' : State n) (f : Fin n) (m : ℕ) : Prop :=
  s'.main = s.main ∧ Good F s' ∧
    ∃ g, s'.commit = update s.commit f g ∧ commitWeight m g < commitWeight m (s.commit f)

theorem Good.move (h : Good F s) {g : CommitGo} {pc : CommitPc} (hc : (s.commit f).pc = pc)
    (hcommit : s'.commit = update s.commit f g) (hgo : GoodPc F s'.response f g g.pc)
    (hw : commitWeight m g < commitWeight m { s.commit f with pc } := by
      simp [commitWeight] <;> omega)
    (hresp : s'.response = s.response ∨ s'.response = some ⟨.ack⟩ ∨ n = 1 := by exact .inl rfl)
    (hnack : s'.response = some ⟨.nack⟩ → s.response = some ⟨.nack⟩ ∨ n = 1 := by exact .inl)
    (herr : s'.err = s.err ∨ s'.err = none := by exact .inl rfl)
    (hres : ∀ r ∈ s'.commitResChan, r ∈ s.commitResChan ∨ r = some ⟨.ack⟩ := by exact fun _ => .inl)
    (herrs : ∀ e ∈ s'.commitErrChan, e ∈ s.commitErrChan ∨ e = none := by exact fun _ => .inl) :
    Good F s' ∧ ∃ g, s'.commit = update s.commit f g ∧
      commitWeight m g < commitWeight m (s.commit f) := by
  subst hc
  refine ⟨?_, g, hcommit, hw⟩
  exact
    { err := herr.elim (·.trans h.err) id
      nack := fun hr => (hnack hr).elim h.nack id
      go := fun f' => by
        rw [hcommit]
        by_cases hf : f' = f
        · subst hf
          rw [update_self]
          exact hgo
        · have hn : n ≠ 1 := by
            rintro rfl
            exact hf (Subsingleton.elim f' f)
          rw [update_of_ne hf]
          rcases hresp with hr | hr | h1
          · rw [hr]; exact h.go f'
          · rw [hr]; exact (h.go f').ack hn
          · exact absurd h1 hn
      res := fun r hr => (hres r hr).elim (h.res r) id
      errs := fun e he => (herrs e he).elim (h.errs e) id }

/-- With cooperative followers a step brings a commit goroutine nearer to its end. -/
theorem Good.stepCommit (hF : Cooperative F) (hinv : Inv F req s) (hmain : s.main ≠ .crashed)
    (h : Good F s) (hm : CommitAck F f m) (hs : s.stepCommit F f = some s') :
    Nearer F s s' f m := by
  have hgo := h.go f
  unfold State.stepCommit at hs
  cases hc : (s.commit f).pc <;> rw [hc] at hgo <;> simp only [hc] at hs
  case idle | done | exited => cases hs
  case guardNil =>
    cases hs
    refine ⟨rfl, h.move hc rfl ?_ ?_⟩
    · split
      · rename_i hr
        obtain ⟨hcalls, -⟩ := hgo.1 (by simpa using hr.1)
        rintro j (hj : j < (s.commit f).calls)
        omega
      · rename_i hr
        exact ⟨fun hnone => hr ⟨isNone_iff_eq_none.2 hnone, (hgo.1 hnone).2⟩, hgo.2⟩
    · split <;> simp only [commitWeight] <;> omega
  case guardSome =>
    cases hs
    rw [if_pos (isSome_iff_ne_none.2 hgo.1)]
    exact ⟨rfl, h.move hc rfl hgo⟩
  case guardNack =>
    obtain ⟨r, hr⟩ := ne_none_iff_exists'.1 hgo.1
    rw [hr] at hs
    cases hs
    refine ⟨rfl, h.move hc rfl ?_ ?_⟩
    · split
      · rename_i hnack
        exact hgo.2 (by rw [hr, ← hnack])
      · have hack : r.acktype = .ack := by cases ht : r.acktype <;> simp_all
        show s.response = some ⟨.ack⟩
        rw [hr, ← hack]
    · split <;> simp only [commitWeight] <;> omega
  case call =>
    have hclosed := hinv.closed_of_spawned hmain (by rw [hc]; nofun)
    obtain ⟨r, hr⟩ := isSome_iff_exists.1
      ((hinv.request_isSome_iff hclosed).2 (hF.payload (Fin.pos f)))
    rw [hr] at hs
    cases hs
    exact ⟨rfl, h.move hc rfl hgo⟩
  case await =>
    cases hs
    have hle := hm.le hgo
    exact ⟨rfl, h.move hc rfl (hF.fine hgo)⟩
  case assignRes reply =>
    cases hs
    refine ⟨rfl, h.move hc rfl ⟨hgo, ?_, fun _ => rfl⟩ (by simp only [commitWeight]; omega) ?_ ?_⟩
    · rcases hgo with rfl | ⟨-, rfl, -⟩ <;> nofun
    · rcases hgo with rfl | ⟨hn, -⟩
      · exact .inr (.inl rfl)
      · exact .inr (.inr hn)
    · rcases hgo with rfl | ⟨hn, -⟩
      · nofun
      · exact fun _ => .inr hn
  case assignErr reply =>
    obtain ⟨hfine, hne, hown⟩ := hgo
    cases hs
    refine ⟨rfl, h.move hc rfl ⟨fun hnone => absurd hnone hne, fun hnack => ?_⟩
      (by simp only [commitWeight]; omega) (.inl rfl) .inl (.inr ?_)⟩
    · rcases hfine with rfl | ⟨-, -, hall⟩
      · have hack : s.response = some ⟨.nack⟩ := hnack
        rw [hown (h.nack hnack)] at hack
        cases hack
      · exact hall
    · rcases hfine with rfl | ⟨-, rfl, -⟩ <;> rfl
  case readRes =>
    cases hs
    exact ⟨rfl, h.move hc rfl ⟨hgo, hgo⟩⟩
  case readErr =>
    cases hs
    exact ⟨rfl, h.move hc rfl ⟨hgo, h.err⟩⟩
  case sendRes res =>
    have hopen := (hinv.commit.open_of_running (by rw [hc]; rfl)).1
    simp only [hopen, Bool.false_eq_true, if_false] at hs
    split at hs <;> cases hs
    refine ⟨rfl, h.move hc rfl hgo.1 (by simp only [commitWeight]; omega) (.inl rfl) .inl (.inl rfl)
      fun r hr => (mem_append.1 hr).imp_right fun hr => ?_⟩
    rw [mem_singleton.1 hr, hgo.2]
  case sendErr err =>
    have hopen := (hinv.commit.open_of_running (by rw [hc]; rfl)).1
    simp only [hopen, Bool.false_eq_true, if_false] at hs
    split at hs <;> cases hs
    refine ⟨rfl, h.move hc rfl hgo.1 (by simp only [commitWeight]; omega) (.inl rfl) .inl (.inl rfl)
      (fun _ => .inl) fun e he => (mem_append.1 he).imp_right fun he => ?_⟩
    rw [mem_singleton.1 he, hgo.2]
  case checkErr =>
    rw [h.err] at hs
    cases hs
    exact ⟨rfl, h.move hc rfl hgo⟩
  case checkAck =>
    have hgo : s.response = some ⟨.ack⟩ := hgo
    rw [hgo] at hs
    cases hs
    exact ⟨rfl, h.move hc rfl hgo⟩
  case wgDone =>
    have hwg := (hinv.commit.open_of_running (by rw [hc]; rfl)).2
    rw [if_neg hwg] at hs
    cases hs
    exact ⟨rfl, h.move hc rfl hgo⟩

theorem CommitInv.room (h : CommitInv req s) (hroom : n ≤ chanCap) :
    ((s.commit f).pc.resSent = 0 → s.commitResChan.length < chanCap) ∧
      ((s.commit f).pc.errSent = 0 → s.commitErrChan.length < chanCap) := by
  rw [h.resLength, h.errLength]
  refine ⟨tally_lt_chanCap s.commit (·.pc.resSent) hroom fun g => ?_,
    tally_lt_chanCap s.commit (·.pc.errSent) hroom fun g => ?_⟩
  · cases g.pc <;> simp [CommitPc.resSent]
  · cases g.pc <;> simp [CommitPc.errSent]

theorem Good.enabled (h : Good F s) (hinv : CommitInv req s) (hroom : n ≤ chanCap)
    (hrun : (s.commit f).pc.running = 1) : ∃ s', s.stepCommit F f = some s' := by
  have hgo := h.go f
  unfold State.stepCommit
  cases hc : (s.commit f).pc with
  | idle | done => simp [hc, CommitPc.running] at hrun
  | exited => rw [hc] at hgo; exact hgo.elim
  | guardNil | guardSome | await | assignRes reply | assignErr reply | readRes | readErr |
    checkErr => simp only [hc]; exact ⟨_, rfl⟩
  | guardNack | checkAck | call | wgDone =>
    simp only [hc]
    split <;> exact ⟨_, rfl⟩
  | sendRes res =>
    have hlt := (hinv.room hroom).1 (by rw [hc]; rfl)
    simp only [hc]
    split_ifs <;> exact ⟨_, rfl⟩
  | sendErr err =>
    have hlt := (hinv.room hroom).2 (by rw [hc]; rfl)
    simp only [hc]
    split_ifs <;> exact ⟨_, rfl⟩

/-! ## The measure -/

/-- How far a propose goroutine is from its end, when its follower acknowledges the
call number `m`. -/
def proposeWeight (m : ℕ) (g : ProposeGo) : ℕ :=
  match g.pc with
  | .idle => 2 * (m + 1 - g.calls) + 8
  | .loop => 2 * (m + 1 - g.calls) + 7
  | .await => 2 * (m + 1 - g.calls) + 6
  | .sendRes _ => 5
  | .sendErr => 4
  | .setCache => 3
  | .wgDone => 2
  | .done | .exited => 0

/-- How far the calling goroutine is from its end. -/
def MainPc.rank (n : ℕ) : MainPc → ℕ
  | .spawn k => n - k + (n + 5)
  | .wait => n + 4
  | .spawn1 k => n - k + 3
  | .wait1 => 2
  | .returned _ | .crashed => 0

/-- Follower `f` acknowledges the proposal at call `mp f` and the commit at call `mc f`. -/
def measure (mp mc : Fin n → ℕ) (s : State n) : ℕ :=
  s.main.rank n + tally (fun f => proposeWeight (mp f)) s.propose +
    tally (fun f => commitWeight (mc f)) s.commit

theorem ProposeInv.stepPropose_weight (h : ProposeInv F req s) (hm : ProposeAck F f m p)
    (hs : s.stepPropose F req f = some s') :
    ∃ g, s'.propose = update s.propose f g ∧ proposeWeight m g < proposeWeight m (s.propose f) := by
  obtain ⟨hopen, hwg⟩ := h.open_of_running (running_of_stepPropose hs)
  unfold State.stepPropose at hs
  cases hc : (s.propose f).pc with
  | idle | done | exited => simp [hc] at hs
  | loop =>
    simp only [hc] at hs
    refine ⟨{ s.propose f with pc := (s.propose f).next }, ?_, ?_⟩
    · split at hs <;> cases hs <;> rfl
    · rcases (s.propose f).next_cases with hn | ⟨r, hn⟩ | hn <;>
        simp only [proposeWeight, hn, hc] <;> omega
  | await =>
    have hag : (s.propose f).again = true := by simpa [hc, ProposeGo.PcOk] using (h.go f).pcOk
    have hle : (s.propose f).calls ≤ m := hm.le fun j hj => by
      cases hcalls : (s.propose f).calls with
      | zero => omega
      | succ k =>
        rcases Nat.lt_succ_iff_lt_or_eq.1 (hcalls ▸ hj) with hlt | rfl
        · exact (h.go f).earlier j (by omega)
        · exact ((h.go f).again_iff hcalls).1 hag
    simp only [hc] at hs
    cases hs
    refine ⟨_, rfl, ?_⟩
    simp only [proposeWeight, hc]
    omega
  | sendRes r | sendErr =>
    simp only [hc, hopen, Bool.false_eq_true, if_false] at hs
    split at hs <;> cases hs
    exact ⟨_, rfl, by simp [proposeWeight, hc]⟩
  | setCache =>
    simp only [hc] at hs
    cases hs
    exact ⟨_, rfl, by simp [proposeWeight, hc]⟩
  | wgDone =>
    simp only [hc, hwg, if_false] at hs
    cases hs
    exact ⟨_, rfl, by simp [proposeWeight, hc]⟩

/-! ## Cooperative followers -/

/-- The state of a run that is going to return. -/
structure Live (F : Followers n) (req : TransferRequest) (s : State n) : Prop where
  inv : Inv F req s
  good : Good F s
  main : s.main ≠ .crashed

theorem live_init (cache : UInt64 → Option (List UInt8)) : Live F req (init n cache) where
  inv := ⟨proposeInv_init cache, commitInv_init cache⟩
  good := { err := rfl, nack := nofun, go := fun _ => ⟨rfl, Int.one_pos⟩, res := nofun, errs := nofun }
  main := nofun

theorem Good.of_frame (h : Good F s) (hcommit : s'.commit = s.commit := by rfl)
    (hresp : s'.response = s.response := by rfl) (herr : s'.err = s.err := by rfl)
    (hres : s'.commitResChan = s.commitResChan := by rfl)
    (herrs : s'.commitErrChan = s.commitErrChan := by rfl) : Good F s' where
  err := by rw [herr]; exact h.err
  nack := by rw [hresp]; exact h.nack
  go := by rw [hcommit, hresp]; exact h.go
  res := by rw [hres]; exact h.res
  errs := by rw [herrs]; exact h.errs

theorem afterCommit_of_good {errs : List (Option Err)} {l : List (Option Response)}
    (herrs : ∀ e ∈ errs, e = none) (hl : ∀ r ∈ l, r = some ⟨.ack⟩) :
    afterCommit errs l = .returned ⟨some ⟨.ack⟩, none⟩ := by
  induction l with
  | nil =>
    have hany : errs.any isSome = false := by
      simp only [List.any_eq_false]
      intro e he
      simp [herrs e he]
    simp [afterCommit, scanErrors, hany]
  | cons r l ih =>
    rw [hl r mem_cons_self]
    simpa [afterCommit] using ih fun r' hr' => hl r' (mem_cons_of_mem r hr')

theorem Live.stepMain (h : Live F req s) (mp mc : Fin n → ℕ) (hs : s.stepMain req = some s') :
    Good F s' ∧ s'.main ≠ .crashed ∧ measure mp mc s' < measure mp mc s := by
  unfold State.stepMain at hs
  split at hs
  · rename_i k hmain
    split at hs <;> cases hs
    · rename_i hk
      refine ⟨h.good.of_frame, by simp, ?_⟩
      have hpc := (h.inv.propose.idle_iff ⟨k, hk⟩).2 (by simp [hmain, Unspawned])
      have hlt := tally_update_lt (fun f => proposeWeight (mp f)) s.propose (i := ⟨k, hk⟩)
        (p := { s.propose ⟨k, hk⟩ with pc := .loop }) (by simp [proposeWeight, hpc])
      simp only [measure, setPropose, hmain, rank] at hlt ⊢
      omega
    · refine ⟨h.good.of_frame, by simp, ?_⟩
      simp only [measure, hmain, rank]
      omega
  · rename_i hmain
    split at hs <;> cases hs
    rename_i hwg
    rcases h.inv.propose.afterPropose (h.inv.propose.all_done hmain hwg) with hnext | ⟨-, hnext⟩ <;>
      rw [hnext]
    · refine ⟨h.good.of_frame, by simp, ?_⟩
      simp only [measure, hmain, rank]
      omega
    · refine ⟨h.good.of_frame, by simp, ?_⟩
      simp only [measure, hmain, rank]
      omega
  · rename_i k hmain
    split at hs <;> cases hs
    · rename_i hk
      have hpc := (h.inv.commit.idle_iff ⟨k, hk⟩).2 (by simp [hmain, Unspawned1])
      have hgo := h.good.go ⟨k, hk⟩
      rw [hpc] at hgo
      obtain ⟨hcalls, hmax⟩ := hgo
      refine ⟨And.left (h.good.move (m := 0) hpc rfl
        ⟨fun _ => ⟨hcalls, hmax⟩, fun _ j hj => ?_⟩), by simp, ?_⟩
      · simp only [hcalls] at hj
        omega
      · have hlt := tally_update_lt (fun f => commitWeight (mc f)) s.commit (i := ⟨k, hk⟩)
          (p := { s.commit ⟨k, hk⟩ with pc := .guardNil }) (by simp [commitWeight, hpc])
        simp only [measure, setCommit, hmain, rank] at hlt ⊢
        omega
    · refine ⟨h.good.of_frame, by simp, ?_⟩
      simp only [measure, hmain, rank]
      omega
  · rename_i hmain
    split at hs <;> cases hs
    rw [afterCommit_of_good h.good.errs h.good.res]
    refine ⟨h.good.of_frame, by simp, ?_⟩
    simp only [measure, hmain, rank]
    omega
  · cases hs
  · cases hs

theorem Live.step (hF : Cooperative F) {mp mc : Fin n → ℕ} {ps : Fin n → List UInt8}
    (hmp : ∀ f, ProposeAck F f (mp f) (ps f)) (hmc : ∀ f, CommitAck F f (mc f))
    (h : Live F req s) {a : Action n} (hs : State.step F req s a = some s') :
    Live F req s' ∧ measure mp mc s' < measure mp mc s := by
  suffices key : Good F s' ∧ s'.main ≠ .crashed ∧ measure mp mc s' < measure mp mc s by
    obtain ⟨hgood, hmain, hlt⟩ := key
    exact ⟨⟨(h.inv.step hs).resolve_left hmain, hgood, hmain⟩, hlt⟩
  cases a with
  | main => exact h.stepMain mp mc hs
  | propose f =>
    simp only [State.step, h.main, if_false] at hs
    obtain ⟨-, hmain⟩ := h.inv.propose.stepPropose hs
    obtain ⟨g, hg, hw⟩ := h.inv.propose.stepPropose_weight (hmp f) hs
    have hf := (stepPropose_frame hs).1
    refine ⟨h.good.of_frame hf.commit hf.response hf.err hf.res hf.errs, by rw [hmain]; exact h.main,
      ?_⟩
    have hlt := tally_update_lt (fun f => proposeWeight (mp f)) s.propose hw
    simp only [measure, hmain, hg, hf.commit]
    omega
  | commit f =>
    simp only [State.step, h.main, if_false] at hs
    obtain ⟨hmain, hgood, g, hg, hw⟩ := h.good.stepCommit hF h.inv h.main (hmc f) hs
    refine ⟨hgood, by rw [hmain]; exact h.main, ?_⟩
    have hpropose : s'.propose = s.propose := by
      rcases stepCommit_cases hs with rfl | ⟨g', hm, -⟩
      · rfl
      · exact hm.propose
    have hlt := tally_update_lt (fun f => commitWeight (mc f)) s.commit hw
    simp only [measure, hmain, hg, hpropose]
    omega

/-- `StateTransfer` has returned to its caller. -/
def Returned (s : State n) : Prop := ∃ r, s.main = .returned r

theorem Inv.progress (h : Inv F req s) (hmain : s.main ≠ .crashed) (hret : ¬ Returned s)
    (hwait1 : s.main ≠ .wait1) (hroom : n ≤ chanCap) (hack : ∀ f, ∃ m p, ProposeAck F f m p) :
    ∃ a s', (∀ f, a ≠ .commit f) ∧ State.step F req s a = some s' ∧ s'.main ≠ .crashed := by
  cases hm : s.main with
  | crashed => exact absurd hm hmain
  | returned r => exact absurd ⟨r, hm⟩ hret
  | wait1 => exact absurd hm hwait1
  | spawn k | spawn1 k =>
    refine ⟨.main, ?_⟩
    simp only [State.step, State.stepMain, hm]
    split <;> exact ⟨_, by simp, rfl, by simp⟩
  | wait =>
    by_cases hwg : s.wg = 0
    · refine ⟨.main, s.afterPropose req, by simp, by simp [State.step, State.stepMain, hm, hwg], ?_⟩
      rcases h.propose.afterPropose (h.propose.all_done hm hwg) with hnext | ⟨-, hnext⟩ <;>
        rw [hnext] <;> simp
    · obtain ⟨f, hf⟩ := exists_of_tally_ne_zero (h.propose.wg ▸ hwg)
      have hrun : (s.propose f).pc.running = 1 := by
        cases hc : (s.propose f).pc <;> simp_all [running]
      obtain ⟨m, p, hmp⟩ := hack f
      obtain ⟨s', hs'⟩ := h.propose.enabled hroom hrun (h.propose.not_exited hmp)
      refine ⟨.propose f, s', by simp, by simp [State.step, hm, hs'], ?_⟩
      rw [(h.propose.stepPropose hs').2, hm]
      simp

theorem Live.progress (hF : Cooperative F) (h : Live F req s) (hret : ¬ Returned s) :
    ∃ a s', State.step F req s a = some s' := by
  by_cases hm : s.main = .wait1
  · by_cases hwg : s.wg1 = 0
    · refine ⟨.main, ?_⟩
      simp only [State.step, State.stepMain, hm, hwg, if_true]
      exact ⟨_, rfl⟩
    · obtain ⟨f, hf⟩ := exists_of_tally_ne_zero (h.inv.commit.wg1 ▸ hwg)
      have hrun : (s.commit f).pc.running = 1 := by
        cases hc : (s.commit f).pc <;> simp_all [CommitPc.running]
      obtain ⟨s', hs'⟩ := h.good.enabled h.inv.commit hF.room hrun
      exact ⟨.commit f, s', by simp [State.step, hm, hs']⟩
  · obtain ⟨a, s', -, hs, -⟩ := h.inv.progress h.main hret hm hF.room hF.propose
    exact ⟨a, s', hs⟩

theorem inevitable_of_cooperative (hF : Cooperative F) (cache : UInt64 → Option (List UInt8)) :
    Inevitable (State.step F req) Returned (init n cache) := by
  choose mp ps hmp using hF.propose
  choose mc hmc using hF.commit
  exact Inevitable.of_measure (measure mp mc) (fun s h hret => h.progress hF hret)
    (fun s a s' h _ hs => h.step hF hmp hmc hs) _ (live_init cache)

end DyShard.Atomic.Coordinator
