import DyShard.Lib.Tally
import DyShard.Atomic.Coordinator

/-!
# Invariants of the coordinator

What holds in every state of every run of `StateTransfer`, whatever the followers answer and
whoever moves: the wait groups and the channels of both phases, tied to the program counters.
-/

namespace DyShard.Atomic.Coordinator

open Transition Function List Option MainPc ProposeReply State ProposeGo ProposePc

variable {n : ℕ}

/-! ## One propose goroutine -/

/-- The call was answered with a rejection. -/
def ProposeReply.IsNack : ProposeReply → Prop
  | .answer .nack _ => True
  | _ => False

/-- Weight one while the goroutine is counted in `wg`. -/
def ProposePc.running : ProposePc → ℕ
  | .idle | .done => 0
  | _ => 1

/-- Weight one once the goroutine has sent on `proposeResChan`. -/
def ProposePc.resSent : ProposePc → ℕ
  | .sendErr | .setCache | .wgDone | .done => 1
  | _ => 0

/-- Weight one once the goroutine has sent on `proposeErrChan`. -/
def ProposePc.errSent : ProposePc → ℕ
  | .setCache | .wgDone | .done => 1
  | _ => 0

/-- Weight one once the goroutine has filled the cache. -/
def ProposePc.cacheSet : ProposePc → ℕ
  | .wgDone | .done => 1
  | _ => 0

/-- The goroutine holds an acknowledgement. -/
def ProposeGo.HasAck (g : ProposeGo) : Prop :=
  g.err = none ∧ ∃ r, g.responseP = some r ∧ r.acktype = .ack

/-- What each program counter says about the local variables. -/
def ProposeGo.PcOk (g : ProposeGo) : ProposePc → Prop
  | .idle => g.calls = 0
  | .loop => True
  | .await => g.again = true
  | .sendRes r => g.HasAck ∧ g.responseP = some r
  | .sendErr | .setCache | .wgDone | .done => g.HasAck
  | .exited => ¬ g.HasAck ∧ g.again = false

/-- A propose goroutine whose variables are those of the last call, after rejections only. -/
structure GoOk (reply : ℕ → ProposeReply) (req : TransferRequest) (g : ProposeGo) : Prop where
  fresh : g.calls = 0 → g.responseP = none ∧ g.err = none ∧ g.maxAttemptNum = 1
  last : ∀ m, g.calls = m + 1 → (g.responseP, g.err) = (reply m).results req ∧ g.maxAttemptNum ≤ 0
  earlier : ∀ m, m + 1 < g.calls → (reply m).IsNack
  pcOk : g.PcOk g.pc

section GoOk

variable {reply : ℕ → ProposeReply} {req : TransferRequest} {g : ProposeGo}

theorem GoOk.again_iff (h : GoOk reply req g) {m : ℕ} (hm : g.calls = m + 1) :
    g.again = true ↔ (reply m).IsNack := by
  obtain ⟨hres, hmax⟩ := h.last m hm
  cases hr : reply m with
  | error e => simp_all [results, again, IsNack]
  | answer t p =>
    cases t <;> simp_all [results, again, IsNack]

theorem GoOk.reply_of_hasAck (h : GoOk reply req g) (hack : g.HasAck) :
    ∃ m p, g.calls = m + 1 ∧ reply m = .answer .ack p ∧
      g.responseP = some { acktype := .ack, index := req.index, address := req.msgPayload,
                           msgPayload := p } := by
  obtain ⟨-, r, hr, hrack⟩ := hack
  cases hc : g.calls with
  | zero => simp [h.fresh hc] at hr
  | succ m =>
    obtain ⟨hres, -⟩ := h.last m hc
    cases hrep : reply m with
    | error e => simp [hrep, results, hr] at hres
    | answer t p =>
      simp only [hrep, results, hr, Prod.mk.injEq, some.injEq] at hres
      obtain ⟨rfl, -⟩ := hres
      cases hrack
      exact ⟨m, p, rfl, hrep, hr⟩

theorem GoOk.setPc (h : GoOk reply req g) {pc : ProposePc} (hpc : g.PcOk pc) :
    GoOk reply req { g with pc } :=
  ⟨h.fresh, h.last, h.earlier, by cases pc <;> exact hpc⟩

theorem ProposeGo.pcOk_next (g : ProposeGo) : g.PcOk g.next := by
  unfold next
  by_cases hag : g.again = true
  · rw [if_pos hag]
    exact hag
  · rw [if_neg hag]
    have hag : g.again = false := by simpa using hag
    cases herr : g.err with
    | some e => exact ⟨fun hack => by simp [HasAck, herr] at hack, hag⟩
    | none =>
      cases hres : g.responseP with
      | none => exact ⟨fun hack => by simp [HasAck, hres] at hack, hag⟩
      | some r =>
        by_cases hr : r.acktype = .ack
        · simp only [hr, if_true]
          exact ⟨⟨herr, r, hres, hr⟩, hres⟩
        · simp only [hr, if_false]
          exact ⟨fun hack => by simp [HasAck, hres, hr] at hack, hag⟩

theorem GoOk.receive (h : GoOk reply req g) (hag : g.again = true) :
    GoOk reply req
      { pc := .loop
        responseP := ((reply g.calls).results req).1
        err := ((reply g.calls).results req).2
        maxAttemptNum := g.maxAttemptNum - 1
        calls := g.calls + 1 } := by
  refine ⟨fun h0 => by simp at h0, fun m hm => ?_, fun m hm => ?_, trivial⟩
  · simp only [Nat.add_right_cancel_iff] at hm
    subst hm
    refine ⟨rfl, ?_⟩
    cases hc : g.calls with
    | zero => simp [(h.fresh hc).2.2]
    | succ m => have := (h.last m hc).2; simp only; omega
  · simp only [Nat.add_lt_add_iff_right] at hm
    by_cases hlast : m + 1 = g.calls
    · exact (h.again_iff hlast.symm).1 hag
    · exact h.earlier m (by omega)

end GoOk

theorem ProposeGo.next_cases (g : ProposeGo) :
    g.next = .await ∨ (∃ r, g.next = .sendRes r) ∨ g.next = .exited := by
  unfold next
  repeat' split
  all_goals simp

theorem ProposeGo.weights_next (g : ProposeGo) :
    g.next.running = 1 ∧ g.next.resSent = 0 ∧ g.next.errSent = 0 ∧ g.next.cacheSet = 0 := by
  rcases g.next_cases with h | ⟨r, h⟩ | h <;> rw [h] <;> exact ⟨rfl, rfl, rfl, rfl⟩

/-! ## The propose phase -/

/-- Which propose goroutines have not been spawned. -/
def MainPc.Unspawned (m : MainPc) (f : Fin n) : Prop :=
  match m with
  | .spawn k => k ≤ f
  | _ => False

/-- The propose phase, in a process that has not crashed. -/
structure ProposeInv (F : Followers n) (req : TransferRequest) (s : State n) : Prop where
  go : ∀ f, GoOk (F.propose f) req (s.propose f)
  answered : ∀ f m, m < (s.propose f).calls → .proposeAnswered f (F.propose f m) ∈ s.trace
  idle_iff : ∀ f, (s.propose f).pc = .idle ↔ s.main.Unspawned f
  wg : s.wg = tally (fun _ g => g.pc.running) s.propose
  closed : s.main.proposeClosed → ∀ f, (s.propose f).pc = .done
  resLength : s.proposeResChan.length = tally (fun _ g => g.pc.resSent) s.propose
  errLength : s.proposeErrChan.length = tally (fun _ g => g.pc.errSent) s.propose
  room : s.proposeResChan.length ≤ chanCap
  res_mem : ∀ r, r ∈ s.proposeResChan ↔
    ∃ f, (s.propose f).pc.resSent = 1 ∧ (s.propose f).responseP = some r
  err_none : ∀ e ∈ s.proposeErrChan, e = none
  cached : ∀ f, (s.propose f).pc.cacheSet = 1 → (s.cache req.index).isSome

section ProposeInv

variable {F : Followers n} {req : TransferRequest} {s s' : State n} {f : Fin n} {g : ProposeGo}

theorem proposeInv_init (cache : UInt64 → Option (List UInt8)) :
    ProposeInv F req (init n cache) where
  go _ := ⟨fun _ => ⟨rfl, rfl, rfl⟩, fun _ hm => by simp [init] at hm,
    fun _ hm => by simp [init] at hm, rfl⟩
  answered _ _ hm := by simp [init] at hm
  idle_iff _ := by simp [init, Unspawned]
  wg := by simp [init, tally, running]
  closed h := by simp [init, proposeClosed] at h
  resLength := by simp [init, tally, resSent]
  errLength := by simp [init, tally, errSent]
  room := by simp [init]
  res_mem r := by simp [init, resSent]
  err_none e he := by simp [init] at he
  cached _ h := by simp [init, cacheSet] at h

/-- What a step that moves the propose goroutine of `f` to `g` has to respect. -/
structure ProposeMove (F : Followers n) (req : TransferRequest) (s s' : State n) (f : Fin n)
    (g : ProposeGo) : Prop where
  propose : s'.propose = update s.propose f g
  main : s'.main = s.main
  from_pc : (s.propose f).pc.running = 1
  to_pc : g.pc ≠ .idle
  ok : GoOk (F.propose f) req g
  answered : ∀ m, m < g.calls → .proposeAnswered f (F.propose f m) ∈ s'.trace
  trace : s.trace ⊆ s'.trace
  wg : s'.wg + 1 = s.wg + g.pc.running
  res : ∃ res, s'.proposeResChan = s.proposeResChan ++ res ∧
    res.length + (s.propose f).pc.resSent = g.pc.resSent ∧
    ∀ r, r ∈ res ∨ (s.propose f).pc.resSent = 1 ∧ (s.propose f).responseP = some r ↔
      g.pc.resSent = 1 ∧ g.responseP = some r
  room : s'.proposeResChan.length ≤ chanCap
  errs : ∃ errs, s'.proposeErrChan = s.proposeErrChan ++ errs ∧
    errs.length + (s.propose f).pc.errSent = g.pc.errSent ∧ ∀ e ∈ errs, e = none
  cache : ∀ i, (s.cache i).isSome → (s'.cache i).isSome
  cached : g.pc.cacheSet = 1 → (s'.cache req.index).isSome

section

variable (h : ProposeInv F req s)
include h

theorem ProposeInv.move (hm : ProposeMove F req s s' f g) :
    ProposeInv F req s' where
  go := by
    rw [hm.propose, forall_update_iff s.propose fun f g => GoOk (F.propose f) req g]
    exact ⟨hm.ok, fun f' _ => h.go f'⟩
  answered := by
    rw [hm.propose, forall_update_iff s.propose fun f g =>
      ∀ m < g.calls, .proposeAnswered f (F.propose f m) ∈ s'.trace]
    exact ⟨hm.answered, fun f' _ m hlt => hm.trace (h.answered f' m hlt)⟩
  idle_iff := by
    have hidle : (s.propose f).pc ≠ .idle := fun hc => by
      simpa [hc, running] using hm.from_pc
    rw [hm.propose, hm.main, forall_update_iff s.propose fun f g => g.pc = .idle ↔ s.main.Unspawned f]
    exact ⟨iff_of_false hm.to_pc (mt (h.idle_iff f).2 hidle), fun f' _ => h.idle_iff f'⟩
  wg := by
    rw [hm.propose]
    exact eq_tally_update h.wg (by rw [hm.from_pc]; exact hm.wg)
  closed hc := by
    have hdone := h.closed (hm.main ▸ hc) f
    simpa [hdone, running] using hm.from_pc
  resLength := by
    obtain ⟨res, hres, hlen, -⟩ := hm.res
    rw [hm.propose]
    exact eq_tally_update h.resLength (by rw [hres, length_append, add_assoc, hlen])
  errLength := by
    obtain ⟨errs, herrs, hlen, -⟩ := hm.errs
    rw [hm.propose]
    exact eq_tally_update h.errLength (by rw [herrs, length_append, add_assoc, hlen])
  room := hm.room
  res_mem r := by
    obtain ⟨res, hres, -, hmem⟩ := hm.res
    rw [hres, mem_append, h.res_mem, hm.propose]
    constructor
    · rintro (⟨f', hs, hr⟩ | hr)
      · by_cases hf : f' = f
        · subst hf
          exact ⟨f', by simpa using (hmem r).1 (.inr ⟨hs, hr⟩)⟩
        · exact ⟨f', by simpa [update_of_ne hf] using ⟨hs, hr⟩⟩
      · exact ⟨f, by simpa using (hmem r).1 (.inl hr)⟩
    · rintro ⟨f', hf'⟩
      by_cases hf : f' = f
      · subst hf
        rcases (hmem r).2 (by simpa using hf') with hr | hr
        · exact .inr hr
        · exact .inl ⟨f', hr⟩
      · exact .inl ⟨f', by simpa [update_of_ne hf] using hf'⟩
  err_none e he := by
    obtain ⟨errs, herrs, -, hnone⟩ := hm.errs
    rw [herrs, mem_append] at he
    exact he.elim (h.err_none e) (hnone e)
  cached := by
    rw [hm.propose, forall_update_iff s.propose fun _ g =>
      g.pc.cacheSet = 1 → (s'.cache req.index).isSome]
    exact ⟨hm.cached, fun f' _ hs => hm.cache _ (h.cached f' hs)⟩

/-- The propose phase never crashes: channels stay open while a goroutine is still to send. -/
theorem ProposeInv.open_of_running (hrun : (s.propose f).pc.running = 1) :
    s.main.proposeClosed = false ∧ s.wg ≠ 0 := by
  constructor
  · by_contra hc
    have hdone := h.closed (by simpa using hc) f
    simp [hdone, running] at hrun
  · have hle := le_tally (fun _ (g : ProposeGo) => g.pc.running) s.propose f
    have hwg := h.wg
    omega

theorem ProposeMove.inLoop {e : List (Event n)}
    (hs : s' = { s.setPropose f g with trace := e ++ s.trace })
    (hfrom : (s.propose f).pc = .loop ∨ (s.propose f).pc = .await)
    (hg : g.pc.running = 1 ∧ g.pc.resSent = 0 ∧ g.pc.errSent = 0 ∧ g.pc.cacheSet = 0)
    (hok : GoOk (F.propose f) req g)
    (hans : ∀ m, m < g.calls → .proposeAnswered f (F.propose f m) ∈ e ++ s.trace) :
    ProposeMove F req s s' f g := by
  obtain ⟨hrun, hres, herr, hcs⟩ := hg
  have hw : (s.propose f).pc.running = 1 ∧ (s.propose f).pc.resSent = 0 ∧
      (s.propose f).pc.errSent = 0 := by
    rcases hfrom with hc | hc <;> rw [hc] <;> exact ⟨rfl, rfl, rfl⟩
  subst hs
  exact
    { propose := rfl
      main := rfl
      from_pc := hw.1
      to_pc := fun hc => by simp [hc, running] at hrun
      ok := hok
      answered := hans
      trace := subset_append_right e s.trace
      wg := by rw [hrun]; rfl
      res := ⟨[], by simp [setPropose], by simp [hw.2.1, hres], by simp [hw.2.1, hres]⟩
      room := h.room
      errs := ⟨[], by simp [setPropose], by simp [hw.2.2, herr], by simp⟩
      cache := fun _ hi => hi
      cached := fun hc => by simp [hcs] at hc }

theorem ProposeInv.stepPropose (hs : s.stepPropose F req f = some s') :
    ProposeInv F req s' ∧ s'.main = s.main := by
  have hgo := h.go f
  have hans := h.answered f
  unfold State.stepPropose at hs
  suffices hm : ∃ g, ProposeMove F req s s' f g by
    obtain ⟨g, hm⟩ := hm
    exact ⟨h.move hm, hm.main⟩
  cases hc : (s.propose f).pc with
  | idle | done | exited => simp [hc] at hs
  | loop =>
    simp only [hc, some.injEq] at hs
    refine ⟨{ s.propose f with pc := (s.propose f).next }, ?_⟩
    have hok := hgo.setPc (s.propose f).pcOk_next
    by_cases hag : (s.propose f).again = true
    · exact .inLoop (e := [.proposeSent f]) h (by rw [← hs, if_pos hag]; rfl) (.inl hc)
        (s.propose f).weights_next hok fun m hm => mem_append_right _ (hans m hm)
    · exact .inLoop (e := []) h (by rw [← hs, if_neg hag]; rfl) (.inl hc)
        (s.propose f).weights_next hok hans
  | await =>
    simp only [hc, some.injEq] at hs
    have hag : (s.propose f).again = true := by simpa [PcOk, hc] using hgo.pcOk
    refine ⟨_, .inLoop (e := [.proposeAnswered f (F.propose f (s.propose f).calls)]) h
      (by rw [← hs]; rfl) (.inr hc) ⟨rfl, rfl, rfl, rfl⟩ (hgo.receive hag) fun m hm => ?_⟩
    rcases Nat.lt_succ_iff_lt_or_eq.1 hm with hlt | rfl
    · exact mem_append_right _ (hans m hlt)
    · simp
  | sendRes r =>
    obtain ⟨hopen, -⟩ := h.open_of_running (by rw [hc]; rfl)
    have hpc : (s.propose f).HasAck ∧ (s.propose f).responseP = some r := by
      simpa [PcOk, hc] using hgo.pcOk
    simp only [hc, hopen, Bool.false_eq_true, if_false] at hs
    split at hs
    · cases hs
      exact ⟨{ s.propose f with pc := .sendErr },
        { propose := rfl
          main := rfl
          from_pc := by rw [hc]; rfl
          to_pc := by simp
          ok := hgo.setPc hpc.1
          answered := hans
          trace := Subset.refl _
          wg := rfl
          res := ⟨[r], rfl, by rw [hc]; rfl, by simp [hc, resSent, hpc.2, eq_comm]⟩
          room := by simp only [length_append, length_singleton]; omega
          errs := ⟨[], by simp [setPropose], by rw [hc]; rfl, by simp⟩
          cache := fun _ hi => hi
          cached := by simp [cacheSet] }⟩
    · cases hs
  | sendErr =>
    obtain ⟨hopen, -⟩ := h.open_of_running (by rw [hc]; rfl)
    have hack : (s.propose f).HasAck := by simpa [PcOk, hc] using hgo.pcOk
    simp only [hc, hopen, Bool.false_eq_true, if_false] at hs
    split at hs
    · cases hs
      exact ⟨{ s.propose f with pc := .setCache },
        { propose := rfl
          main := rfl
          from_pc := by rw [hc]; rfl
          to_pc := by simp
          ok := hgo.setPc hack
          answered := hans
          trace := Subset.refl _
          wg := rfl
          res := ⟨[], by simp [setPropose], by rw [hc]; rfl, by simp [hc, resSent]⟩
          room := h.room
          errs := ⟨[(s.propose f).err], rfl, by rw [hc]; rfl, by simp [hack.1]⟩
          cache := fun _ hi => hi
          cached := by simp [cacheSet] }⟩
    · cases hs
  | setCache =>
    have hack : (s.propose f).HasAck := by simpa [PcOk, hc] using hgo.pcOk
    simp only [hc, some.injEq] at hs
    subst hs
    exact ⟨{ s.propose f with pc := .wgDone },
      { propose := rfl
        main := rfl
        from_pc := by rw [hc]; rfl
        to_pc := by simp
        ok := hgo.setPc hack
        answered := hans
        trace := Subset.refl _
        wg := rfl
        res := ⟨[], by simp [setPropose], by rw [hc]; rfl, by simp [hc, resSent]⟩
        room := h.room
        errs := ⟨[], by simp [setPropose], by rw [hc]; rfl, by simp⟩
        cache := fun i hi => by
          by_cases hidx : i = req.index
          · subst hidx; simp
          · simpa [update_of_ne hidx] using hi
        cached := fun _ => by simp }⟩
  | wgDone =>
    obtain ⟨-, hwg⟩ := h.open_of_running (by rw [hc]; rfl)
    have hack : (s.propose f).HasAck := by simpa [PcOk, hc] using hgo.pcOk
    simp only [hc, hwg, if_false, some.injEq] at hs
    subst hs
    exact ⟨{ s.propose f with pc := .done },
      { propose := rfl
        main := rfl
        from_pc := by rw [hc]; rfl
        to_pc := by simp
        ok := hgo.setPc hack
        answered := hans
        trace := Subset.refl _
        wg := by simp only [running]; omega
        res := ⟨[], by simp [setPropose], by rw [hc]; rfl, by simp [hc, resSent]⟩
        room := h.room
        errs := ⟨[], by simp [setPropose], by rw [hc]; rfl, by simp⟩
        cache := fun _ hi => hi
        cached := fun _ => h.cached f (by rw [hc]; rfl) }⟩

theorem ProposeInv.of_frame (hidle : ∀ f : Fin n, s'.main.Unspawned f ↔ s.main.Unspawned f)
    (hclosed : s'.main.proposeClosed → ∀ f, (s.propose f).pc = .done)
    (hpropose : s'.propose = s.propose := by rfl) (hwg : s'.wg = s.wg := by rfl)
    (hres : s'.proposeResChan = s.proposeResChan := by rfl)
    (herr : s'.proposeErrChan = s.proposeErrChan := by rfl) (hcache : s'.cache = s.cache := by rfl)
    (htrace : s.trace ⊆ s'.trace := by exact Subset.refl _) : ProposeInv F req s' where
  go := by rw [hpropose]; exact h.go
  answered f m hm := htrace (h.answered f m (by rwa [hpropose] at hm))
  idle_iff f := by rw [hpropose, hidle]; exact h.idle_iff f
  wg := by rw [hwg, hpropose]; exact h.wg
  closed := by rw [hpropose]; exact hclosed
  resLength := by rw [hres, hpropose]; exact h.resLength
  errLength := by rw [herr, hpropose]; exact h.errLength
  room := by rw [hres]; exact h.room
  res_mem := by rw [hres, hpropose]; exact h.res_mem
  err_none := by rw [herr]; exact h.err_none
  cached := by rw [hpropose, hcache]; exact h.cached

theorem ProposeInv.spawn {k : ℕ} (hk : k < n) (hmain : s.main = .spawn k) :
    ProposeInv F req
      { s.setPropose ⟨k, hk⟩ { s.propose ⟨k, hk⟩ with pc := .loop } with
        main := .spawn (k + 1), wg := s.wg + 1 } := by
  have hidle : (s.propose ⟨k, hk⟩).pc = .idle := (h.idle_iff _).2 (by simp [hmain, Unspawned])
  refine
    { go := ?_, answered := ?_, idle_iff := ?_, wg := ?_, closed := nofun, resLength := ?_,
      errLength := ?_, room := h.room, res_mem := fun r => ?_, err_none := h.err_none, cached := ?_ }
  all_goals dsimp only [setPropose]
  · rw [forall_update_iff s.propose fun f g => GoOk (F.propose f) req g]
    exact ⟨(h.go _).setPc trivial, fun f _ => h.go f⟩
  · rw [forall_update_iff s.propose fun f g =>
      ∀ m < g.calls, .proposeAnswered f (F.propose f m) ∈ s.trace]
    exact ⟨h.answered _, fun f _ => h.answered f⟩
  · rw [forall_update_iff s.propose fun f g => g.pc = .idle ↔ Unspawned (.spawn (k + 1)) f]
    refine ⟨by simp [Unspawned], fun f hf => ?_⟩
    have hne : (f : ℕ) ≠ k := fun he => hf (Fin.ext he)
    rw [h.idle_iff f, hmain]
    simp only [Unspawned]
    omega
  · exact eq_tally_update h.wg (by rw [hidle]; rfl)
  · exact eq_tally_update h.resLength (by rw [hidle]; rfl)
  · exact eq_tally_update h.errLength (by rw [hidle]; rfl)
  · rw [h.res_mem]
    refine exists_congr fun f => ?_
    by_cases hf : f = ⟨k, hk⟩
    · subst hf
      simp [hidle, resSent]
    · rw [update_of_ne hf]
  · rw [forall_update_iff s.propose fun _ g => g.pc.cacheSet = 1 → (s.cache req.index).isSome]
    exact ⟨nofun, fun f _ => h.cached f⟩

theorem ProposeInv.all_done (hmain : s.main = .wait) (hwg : s.wg = 0) (f : Fin n) :
    (s.propose f).pc = .done := by
  have hrun := tally_eq_zero_iff.1 (h.wg.symm.trans hwg) f
  have hidle := mt (h.idle_iff f).1 (by simp [hmain, Unspawned])
  cases hc : (s.propose f).pc <;> simp_all [running]

end

end ProposeInv

/-! ## Between the phases -/

/-- The commit request built from one answer. -/
def commitRequestOf (req : TransferRequest) (res : ProposeResponse) : CommitRequest where
  source := req.source
  target := req.target
  index := res.index
  address := res.address
  msgPayload := res.msgPayload

/-- The request the scan of the response channel builds: from the first answer with a
payload. -/
def State.requestOf (s : State n) (req : TransferRequest) : Option CommitRequest :=
  (s.proposeResChan.find? fun r => 0 < r.msgPayload.length).map (commitRequestOf req)

theorem scanResponses_written (req : TransferRequest) {l : List ProposeResponse}
    (hack : ∀ r ∈ l, r.acktype = .ack) (acc : Option CommitRequest) :
    scanResponses req 0 acc l = some acc := by
  induction l with
  | nil => rfl
  | cons r l ih =>
    have hr := hack r mem_cons_self
    simpa [scanResponses, hr] using ih fun r' hr' => hack r' (mem_cons_of_mem r hr')

theorem scanResponses_eq (req : TransferRequest) {l : List ProposeResponse}
    (hack : ∀ r ∈ l, r.acktype = .ack) :
    scanResponses req 1 none l =
      some ((l.find? fun r => 0 < r.msgPayload.length).map (commitRequestOf req)) := by
  induction l with
  | nil => rfl
  | cons r l ih =>
    have hr := hack r mem_cons_self
    have hl : ∀ r' ∈ l, r'.acktype = .ack := fun r' hr' => hack r' (mem_cons_of_mem r hr')
    by_cases hp : 0 < r.msgPayload.length
    · have hwritten := scanResponses_written req hl (some (commitRequestOf req r))
      simpa [scanResponses, hr, hp, commitRequestOf] using hwritten
    · simpa [scanResponses, hr, hp] using ih hl

section Between

variable {F : Followers n} {req : TransferRequest} {s : State n}

theorem running_of_stepPropose {s' : State n} {f : Fin n} (hs : s.stepPropose F req f = some s') :
    (s.propose f).pc.running = 1 := by
  unfold stepPropose at hs
  cases hc : (s.propose f).pc <;> simp [hc, running] at hs ⊢

theorem ProposeInv.res_ack (h : ProposeInv F req s) {r : ProposeResponse}
    (hr : r ∈ s.proposeResChan) :
    ∃ f m p, F.propose f m = .answer .ack p ∧ (s.propose f).calls = m + 1 ∧
      r = { acktype := .ack, index := req.index, address := req.msgPayload, msgPayload := p } := by
  obtain ⟨f, hsent, hres⟩ := (h.res_mem r).1 hr
  have hpc := (h.go f).pcOk
  have hack : (s.propose f).HasAck := by
    cases hc : (s.propose f).pc <;>
      simp_all [PcOk, resSent]
  obtain ⟨m, p, hm, hrep, hresp⟩ := (h.go f).reply_of_hasAck hack
  exact ⟨f, m, p, hrep, hm, some.inj (hres.symm.trans hresp)⟩

/-- When all propose goroutines are done the commit phase starts; only without
followers can the cache be empty. -/
theorem ProposeInv.afterPropose (h : ProposeInv F req s) (hdone : ∀ f, (s.propose f).pc = .done) :
    s.afterPropose req = { s with main := .spawn1 0, commitRequest := s.requestOf req } ∨
      n = 0 ∧ s.afterPropose req =
        { s with main := .returned ⟨none, some "can't to find msg in the coordinator's cache"⟩ } := by
  have herr : s.proposeErrChan.any Option.isSome = false := by
    simp only [List.any_eq_false]
    intro e he
    simp [h.err_none e he]
  have hscan := scanResponses_eq req fun r hr => by
    obtain ⟨f, m, p, -, -, rfl⟩ := h.res_ack hr
    rfl
  unfold State.afterPropose
  simp only [herr, Bool.false_eq_true, if_false, hscan]
  cases hcache : s.cache req.index with
  | some v => exact .inl rfl
  | none =>
    refine .inr ⟨?_, rfl⟩
    by_contra hn
    have hset := h.cached ⟨0, Nat.pos_of_ne_zero hn⟩ (by rw [hdone]; rfl)
    simp [hcache] at hset

end Between

/-! ## The commit phase -/

/-- Weight one while the goroutine is counted in `wg1`. -/
def CommitPc.running : CommitPc → ℕ
  | .idle | .done => 0
  | _ => 1

/-- Weight one once the goroutine has sent on `commitResChan`. -/
def CommitPc.resSent : CommitPc → ℕ
  | .readErr | .sendErr _ | .checkErr | .checkAck | .wgDone | .done | .exited => 1
  | _ => 0

/-- Weight one once the goroutine has sent on `commitErrChan`. -/
def CommitPc.errSent : CommitPc → ℕ
  | .checkErr | .checkAck | .wgDone | .done | .exited => 1
  | _ => 0

/-- Which commit goroutines have not been spawned. -/
def MainPc.Unspawned1 (m : MainPc) (f : Fin n) : Prop :=
  match m with
  | .spawn _ | .wait => True
  | .spawn1 k => k ≤ f
  | _ => False

/-- A step of the commit goroutine of `f`, apart from the shared `response` and `err`. -/
structure CommitMove (s s' : State n) (f : Fin n) (g : CommitGo) : Prop where
  commit : s'.commit = update s.commit f g
  main : s'.main = s.main
  from_pc : (s.commit f).pc.running = 1
  to_pc : g.pc ≠ .idle
  wg1 : s'.wg1 + 1 = s.wg1 + g.pc.running
  res : s'.commitResChan.length + (s.commit f).pc.resSent = s.commitResChan.length + g.pc.resSent
  errs : s'.commitErrChan.length + (s.commit f).pc.errSent = s.commitErrChan.length + g.pc.errSent
  propose : s'.propose = s.propose
  wg : s'.wg = s.wg
  proposeRes : s'.proposeResChan = s.proposeResChan
  proposeErr : s'.proposeErrChan = s.proposeErrChan
  cache : s'.cache = s.cache
  request : s'.commitRequest = s.commitRequest
  trace : s.trace ⊆ s'.trace

section CommitInv

variable {F : Followers n} {req : TransferRequest} {s s' : State n} {f : Fin n} {g : CommitGo}
  {pc : CommitPc} {response : Option Response} {err : Option Err} {e : List (Event n)}

theorem CommitMove.of_eq {wg1 : ℕ} {res : List (Option Response)} {errs : List (Option Err)}
    (hs : s' = { s.setCommit f g with
      response, err, wg1, commitResChan := res, commitErrChan := errs, trace := e ++ s.trace })
    (hpc : (s.commit f).pc = pc) (hfrom : pc.running = 1) (hto : g.pc ≠ .idle)
    (hwg : wg1 + 1 = s.wg1 + g.pc.running)
    (hres : res.length + pc.resSent = s.commitResChan.length + g.pc.resSent)
    (herr : errs.length + pc.errSent = s.commitErrChan.length + g.pc.errSent) :
    CommitMove s s' f g := by
  subst hs hpc
  exact
    { commit := rfl, main := rfl, from_pc := hfrom, to_pc := hto, wg1 := hwg, res := hres
      errs := herr, propose := rfl, wg := rfl, proposeRes := rfl, proposeErr := rfl, cache := rfl
      request := rfl, trace := subset_append_right e s.trace }

theorem CommitMove.quiet (hs : s' = { s.setCommit f g with response, err, trace := e ++ s.trace })
    (hpc : (s.commit f).pc = pc) (hfrom : pc.running = 1) (hto : g.pc.running = 1)
    (hres : pc.resSent = g.pc.resSent) (herr : pc.errSent = g.pc.errSent) :
    CommitMove s s' f g :=
  .of_eq hs hpc hfrom (fun hc => by simp [hc, CommitPc.running] at hto) (by rw [hto]; rfl)
    (by rw [hres]; rfl) (by rw [herr]; rfl)

/-- A step of a commit goroutine crashes the process or is a move, which sends at `call` and
hears at `await`. -/
theorem stepCommit_cases (hs : s.stepCommit F f = some s') :
    s' = s.crash ∨ ∃ g, CommitMove s s' f g ∧
      (s'.trace = s.trace ∨
        (∃ r, (s.commit f).pc = .call ∧ s.commitRequest = some r ∧
          s'.trace = .commitSent f r :: s.trace) ∨
        (s.commit f).pc = .await ∧
          s'.trace = .commitAnswered f (F.commit f (s.commit f).calls) :: s.trace) := by
  unfold stepCommit at hs
  cases hc : (s.commit f).pc <;> simp only [hc] at hs
  case idle | done | exited => cases hs
  case guardNil | guardSome | checkErr =>
    cases hs
    refine .inr ⟨_, .quiet (e := []) rfl hc rfl ?_ ?_ ?_, .inl rfl⟩ <;>
      · dsimp only
        split <;> simp [CommitPc.running, CommitPc.resSent, CommitPc.errSent]
  case guardNack | checkAck =>
    split at hs
    · exact .inl (some.inj hs).symm
    · cases hs
      refine .inr ⟨_, .quiet (e := []) rfl hc rfl ?_ ?_ ?_, .inl rfl⟩ <;>
        · dsimp only
          split <;> simp [CommitPc.running, CommitPc.resSent, CommitPc.errSent]
  case call =>
    split at hs <;> cases hs
    · rename_i request hreq
      exact .inr ⟨_, .quiet (e := [.commitSent f request]) rfl hc rfl rfl rfl rfl,
        .inr (.inl ⟨request, rfl, hreq, rfl⟩)⟩
    · exact .inr ⟨_, .quiet (e := []) rfl hc rfl rfl rfl rfl, .inl rfl⟩
  case await =>
    cases hs
    exact .inr ⟨_, .quiet (e := [.commitAnswered f (F.commit f (s.commit f).calls)]) rfl hc rfl rfl
      rfl rfl, .inr (.inr ⟨rfl, rfl⟩)⟩
  case assignRes reply | assignErr reply | readRes | readErr =>
    cases hs
    exact .inr ⟨_, .quiet (e := []) rfl hc rfl rfl rfl rfl, .inl rfl⟩
  case sendRes res =>
    split at hs
    · exact .inl (some.inj hs).symm
    · split at hs
      · cases hs
        exact .inr ⟨_, .of_eq (e := []) rfl hc rfl nofun rfl (by simp [CommitPc.resSent]) rfl,
          .inl rfl⟩
      · cases hs
  case sendErr err =>
    split at hs
    · exact .inl (some.inj hs).symm
    · split at hs
      · cases hs
        exact .inr ⟨_, .of_eq (e := []) rfl hc rfl nofun rfl rfl (by simp [CommitPc.errSent]),
          .inl rfl⟩
      · cases hs
  case wgDone =>
    split at hs
    · exact .inl (some.inj hs).symm
    · cases hs
      exact .inr ⟨_, .of_eq (e := []) rfl hc rfl nofun (by simp only [CommitPc.running]; omega) rfl
        rfl, .inl rfl⟩

/-- The commit phase, in a process that has not crashed. -/
structure CommitInv (req : TransferRequest) (s : State n) : Prop where
  idle_iff : ∀ f, (s.commit f).pc = .idle ↔ s.main.Unspawned1 f
  wg1 : s.wg1 = tally (fun _ g => g.pc.running) s.commit
  resLength : s.commitResChan.length = tally (fun _ g => g.pc.resSent) s.commit
  errLength : s.commitErrChan.length = tally (fun _ g => g.pc.errSent) s.commit
  returned : s.main.commitClosed → ∀ f, (s.commit f).pc = .done
  request : s.commitRequest = if s.main.proposeClosed then s.requestOf req else none

theorem commitInv_init (cache : UInt64 → Option (List UInt8)) :
    CommitInv req (init n cache) where
  idle_iff _ := by simp [init, Unspawned1]
  wg1 := by simp [init, tally, CommitPc.running]
  resLength := by simp [init, tally, CommitPc.resSent]
  errLength := by simp [init, tally, CommitPc.errSent]
  returned h := by simp [init, commitClosed] at h
  request := rfl

theorem CommitInv.move (h : CommitInv req s) (hm : CommitMove s s' f g) : CommitInv req s' where
  idle_iff := by
    have hidle : (s.commit f).pc ≠ .idle := fun hc => by
      simpa [hc, CommitPc.running] using hm.from_pc
    rw [hm.commit, hm.main, forall_update_iff s.commit fun f g => g.pc = .idle ↔ s.main.Unspawned1 f]
    exact ⟨iff_of_false hm.to_pc (mt (h.idle_iff f).2 hidle), fun f' _ => h.idle_iff f'⟩
  wg1 := by
    rw [hm.commit]
    exact eq_tally_update h.wg1 (by rw [hm.from_pc]; exact hm.wg1)
  resLength := by
    rw [hm.commit]
    exact eq_tally_update h.resLength hm.res
  errLength := by
    rw [hm.commit]
    exact eq_tally_update h.errLength hm.errs
  returned hc := by
    have hdone := h.returned (hm.main ▸ hc) f
    simpa [hdone, CommitPc.running] using hm.from_pc
  request := by
    rw [hm.request, hm.main, requestOf, hm.proposeRes]
    exact h.request

theorem CommitInv.of_frame (h : CommitInv req s)
    (hidle : ∀ f : Fin n, s'.main.Unspawned1 f ↔ s.main.Unspawned1 f)
    (hreturned : s'.main.commitClosed → ∀ f, (s.commit f).pc = .done)
    (hrequest : s'.commitRequest = if s'.main.proposeClosed then s'.requestOf req else none)
    (hcommit : s'.commit = s.commit := by rfl) (hwg1 : s'.wg1 = s.wg1 := by rfl)
    (hres : s'.commitResChan = s.commitResChan := by rfl)
    (herr : s'.commitErrChan = s.commitErrChan := by rfl) : CommitInv req s' where
  idle_iff f := by rw [hcommit, hidle]; exact h.idle_iff f
  wg1 := by rw [hwg1, hcommit]; exact h.wg1
  resLength := by rw [hres, hcommit]; exact h.resLength
  errLength := by rw [herr, hcommit]; exact h.errLength
  returned := by rw [hcommit]; exact hreturned
  request := hrequest

theorem CommitInv.spawn (h : CommitInv req s) {k : ℕ} (hk : k < n) (hmain : s.main = .spawn1 k) :
    CommitInv req
      { s.setCommit ⟨k, hk⟩ { s.commit ⟨k, hk⟩ with pc := .guardNil } with
        main := .spawn1 (k + 1), wg1 := s.wg1 + 1 } := by
  have hidle : (s.commit ⟨k, hk⟩).pc = .idle := (h.idle_iff _).2 (by simp [hmain, Unspawned1])
  have hrequest := h.request
  rw [hmain] at hrequest
  refine
    { idle_iff := ?_, wg1 := ?_, resLength := ?_, errLength := ?_, returned := nofun,
      request := hrequest }
  all_goals dsimp only [setCommit]
  · rw [forall_update_iff s.commit fun f g => g.pc = .idle ↔ Unspawned1 (.spawn1 (k + 1)) f]
    refine ⟨by simp [Unspawned1], fun f hf => ?_⟩
    have hne : (f : ℕ) ≠ k := fun he => hf (Fin.ext he)
    rw [h.idle_iff f, hmain]
    simp only [Unspawned1]
    omega
  · exact eq_tally_update h.wg1 (by rw [hidle]; rfl)
  · exact eq_tally_update h.resLength (by rw [hidle]; rfl)
  · exact eq_tally_update h.errLength (by rw [hidle]; rfl)

theorem CommitInv.all_done (h : CommitInv req s) (hmain : s.main = .wait1) (hwg : s.wg1 = 0)
    (f : Fin n) : (s.commit f).pc = .done := by
  have hrun := tally_eq_zero_iff.1 (h.wg1.symm.trans hwg) f
  have hidle := mt (h.idle_iff f).1 (by simp [hmain, Unspawned1])
  cases hc : (s.commit f).pc <;> simp_all [CommitPc.running]

end CommitInv

/-! ## Whole runs -/

/-- The invariant of a process that has not crashed. -/
structure Inv (F : Followers n) (req : TransferRequest) (s : State n) : Prop where
  propose : ProposeInv F req s
  commit : CommitInv req s

section Inv

variable {F : Followers n} {req : TransferRequest} {s s' : State n}

/-- A propose goroutine leaves the commit phase alone, and exchanges only propose
messages. -/
structure ProposeFrame (s s' : State n) (f : Fin n) : Prop where
  commit : s'.commit = s.commit
  wg1 : s'.wg1 = s.wg1
  res : s'.commitResChan = s.commitResChan
  errs : s'.commitErrChan = s.commitErrChan
  request : s'.commitRequest = s.commitRequest
  response : s'.response = s.response
  err : s'.err = s.err
  trace : s'.trace = s.trace ∨ s'.trace = .proposeSent f :: s.trace ∨
    ∃ reply, s'.trace = .proposeAnswered f reply :: s.trace

theorem stepPropose_frame {f : Fin n} (hs : s.stepPropose F req f = some s') :
    ProposeFrame s s' f ∧ ∃ g, s'.propose = update s.propose f g ∧
      (g.calls = (s.propose f).calls ∨
        (s.propose f).pc = .await ∧ g.calls = (s.propose f).calls + 1) := by
  have hcrash : s.crash.propose = update s.propose f (s.propose f) :=
    (update_eq_self f s.propose).symm
  unfold stepPropose at hs
  cases hc : (s.propose f).pc <;> simp only [hc] at hs
  case idle | done | exited => cases hs
  case loop =>
    simp only [some.injEq] at hs
    subst hs
    split
    · exact ⟨⟨rfl, rfl, rfl, rfl, rfl, rfl, rfl, .inr (.inl rfl)⟩, _, rfl, .inl rfl⟩
    · exact ⟨⟨rfl, rfl, rfl, rfl, rfl, rfl, rfl, .inl rfl⟩, _, rfl, .inl rfl⟩
  case await =>
    simp only [some.injEq] at hs
    subst hs
    exact ⟨⟨rfl, rfl, rfl, rfl, rfl, rfl, rfl, .inr (.inr ⟨_, rfl⟩)⟩, _, rfl, .inr ⟨rfl, rfl⟩⟩
  case setCache =>
    simp only [some.injEq] at hs
    subst hs
    exact ⟨⟨rfl, rfl, rfl, rfl, rfl, rfl, rfl, .inl rfl⟩, _, rfl, .inl rfl⟩
  case sendRes r | sendErr | wgDone =>
    repeat' split at hs
    all_goals first
      | cases hs; exact ⟨⟨rfl, rfl, rfl, rfl, rfl, rfl, rfl, .inl rfl⟩, _, rfl, .inl rfl⟩
      | cases hs; exact ⟨⟨rfl, rfl, rfl, rfl, rfl, rfl, rfl, .inl rfl⟩, _, hcrash, .inl rfl⟩
      | cases hs

theorem afterCommit_cases (errs : List (Option Err)) (l : List (Option Response)) :
    afterCommit errs l = .crashed ∨ ∃ r, afterCommit errs l = .returned r := by
  induction l with
  | nil =>
    unfold afterCommit scanErrors
    split <;> exact .inr ⟨_, rfl⟩
  | cons r l ih =>
    cases r with
    | none => exact .inl rfl
    | some res =>
      unfold afterCommit
      split
      · exact .inr ⟨_, rfl⟩
      · exact ih

/-- The calling goroutine spawns, calls nobody and sets the commit request. -/
theorem stepMain_frame (hs : s.stepMain req = some s') :
    (∀ f : Fin n, (s'.commit f = s.commit f ∨
        s.main = .spawn1 f ∧ s'.commit f = { s.commit f with pc := .guardNil }) ∧
      (s'.propose f).calls = (s.propose f).calls) ∧
      (s'.commitRequest = s.commitRequest ∨ s'.main = .spawn1 0) := by
  unfold stepMain at hs
  split at hs
  · rename_i k hmain
    split at hs <;> cases hs
    · rename_i hk
      refine ⟨fun f => ⟨.inl rfl, ?_⟩, .inl rfl⟩
      by_cases hf : f = ⟨k, hk⟩
      · subst hf
        simp [setPropose]
      · simp [setPropose, update_of_ne hf]
    · exact ⟨fun _ => ⟨.inl rfl, rfl⟩, .inl rfl⟩
  · split at hs <;> cases hs
    unfold afterPropose
    repeat' split
    all_goals exact ⟨fun _ => ⟨.inl rfl, rfl⟩, by simp⟩
  · rename_i k hmain
    split at hs <;> cases hs
    · rename_i hk
      refine ⟨fun f => ⟨?_, rfl⟩, .inl rfl⟩
      by_cases hf : f = ⟨k, hk⟩
      · subst hf
        exact .inr ⟨hmain, by simp [setCommit]⟩
      · exact .inl (by simp [setCommit, update_of_ne hf])
    · exact ⟨fun _ => ⟨.inl rfl, rfl⟩, .inl rfl⟩
  · split at hs <;> cases hs
    exact ⟨fun _ => ⟨.inl rfl, rfl⟩, .inl rfl⟩
  · cases hs
  · cases hs

theorem Inv.stepMain (h : Inv F req s) (hs : s.stepMain req = some s') :
    s'.main = .crashed ∨ Inv F req s' := by
  have hreq := h.commit.request
  unfold State.stepMain at hs
  split at hs
  · rename_i k hmain
    rw [hmain] at hreq
    split at hs
    · rename_i hk
      cases hs
      exact .inr ⟨h.propose.spawn hk hmain,
        h.commit.of_frame (fun _ => by simp [hmain, Unspawned1]) (by simp [commitClosed]) hreq⟩
    · cases hs
      refine .inr ⟨h.propose.of_frame (fun f => ?_) (by simp [proposeClosed]),
        h.commit.of_frame (fun _ => by simp [hmain, Unspawned1]) (by simp [commitClosed]) hreq⟩
      simp only [hmain, Unspawned, false_iff]
      omega
  · rename_i hmain
    split at hs
    · rename_i hwg
      have hdone := h.propose.all_done hmain hwg
      cases hs
      rcases h.propose.afterPropose hdone with hnext | ⟨rfl, hnext⟩ <;> rw [hnext]
      · refine .inr ⟨h.propose.of_frame (fun _ => by simp [hmain, Unspawned]) fun _ => hdone,
          h.commit.of_frame (fun f => by simp [hmain, Unspawned1]) (by simp [commitClosed]) rfl⟩
      · -- without followers the response channel is empty
        have hnil : s.proposeResChan = [] := by
          simpa [tally] using h.propose.resLength
        refine .inr ⟨h.propose.of_frame (fun _ => by simp [hmain, Unspawned]) fun _ => hdone,
          h.commit.of_frame (fun f => f.elim0) (fun _ f => f.elim0) ?_⟩
        simp [hreq, requestOf, hnil]
    · cases hs
  · rename_i k hmain
    rw [hmain] at hreq
    have hdone := h.propose.closed (by simp [hmain, proposeClosed])
    split at hs
    · rename_i hk
      cases hs
      exact .inr ⟨h.propose.of_frame (fun _ => by simp [hmain, Unspawned]) fun _ => hdone,
        h.commit.spawn hk hmain⟩
    · cases hs
      refine .inr ⟨h.propose.of_frame (fun _ => by simp [hmain, Unspawned]) fun _ => hdone,
        h.commit.of_frame (fun f => ?_) (by simp [commitClosed]) hreq⟩
      simp only [hmain, Unspawned1, false_iff]
      omega
  · rename_i hmain
    rw [hmain] at hreq
    have hdone := h.propose.closed (by simp [hmain, proposeClosed])
    split at hs
    · rename_i hwg
      cases hs
      rcases afterCommit_cases s.commitErrChan s.commitResChan with hcr | ⟨r, hret⟩
      · exact .inl hcr
      · refine .inr ⟨h.propose.of_frame (fun _ => by simp [hmain, hret, Unspawned]) fun _ => hdone,
          h.commit.of_frame (fun _ => by simp [hmain, hret, Unspawned1])
            (fun _ => h.commit.all_done hmain hwg) ?_⟩
        simpa [hret, proposeClosed, requestOf] using hreq
    · cases hs
  · cases hs
  · cases hs

theorem Inv.step (h : Inv F req s) {a : Action n} (hs : step F req s a = some s') :
    s'.main = .crashed ∨ Inv F req s' := by
  cases a with
  | main => exact h.stepMain hs
  | propose f =>
    simp only [State.step] at hs
    split at hs
    · cases hs
    · obtain ⟨hinv, hmain⟩ := h.propose.stepPropose hs
      have hf := (stepPropose_frame hs).1
      have hopen := (h.propose.open_of_running (running_of_stepPropose hs)).1
      refine .inr ⟨hinv, h.commit.of_frame (fun _ => by rw [hmain])
        (fun hc => h.commit.returned (hmain ▸ hc)) ?_ hf.commit hf.wg1 hf.res hf.errs⟩
      simpa [hf.request, hmain, hopen] using h.commit.request
  | commit f =>
    simp only [State.step] at hs
    split at hs
    · cases hs
    · rcases stepCommit_cases hs with rfl | ⟨g, hm, -⟩
      · exact .inl rfl
      · exact .inr ⟨h.propose.of_frame (fun _ => by rw [hm.main])
          (fun hc => h.propose.closed (hm.main ▸ hc)) hm.propose hm.wg hm.proposeRes hm.proposeErr
          hm.cache hm.trace, h.commit.move hm⟩

theorem Inv.request_eq (h : Inv F req s) {r : CommitRequest} (hr : s.commitRequest = some r) :
    r.source = req.source ∧ r.target = req.target ∧ r.index = req.index ∧
      r.address = req.msgPayload := by
  have hreq := h.commit.request
  rw [hr] at hreq
  split at hreq
  · obtain ⟨res, hfind, rfl⟩ := map_eq_some_iff.1 hreq.symm
    obtain ⟨f, m, p, -, -, rfl⟩ := h.propose.res_ack (mem_of_find?_eq_some hfind)
    exact ⟨rfl, rfl, rfl, rfl⟩
  · cases hreq

theorem step_ne_crashed {a : Action n} (hs : step F req s a = some s') :
    s.main ≠ .crashed := by
  intro hc
  cases a <;> simp [step, stepMain, hc] at hs

/-- **The invariant holds in every state reached**, unless the process has crashed. -/
theorem reach_inv {cache : UInt64 → Option (List UInt8)} {ok : State n → Action n → Prop}
    (h : Reach (step F req) ok (init n cache) s) :
    s.main = .crashed ∨ Inv F req s := by
  refine Reach.invariant (P := fun s => s.main = .crashed ∨ Inv F req s)
    (.inr ⟨proposeInv_init cache, commitInv_init cache⟩) (fun s a s' hinv _ hs => ?_) h
  rcases hinv with hc | hinv
  · exact absurd hc (step_ne_crashed hs)
  · exact hinv.step hs

end Inv

end DyShard.Atomic.Coordinator
