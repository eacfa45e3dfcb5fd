import DyShard.Atomic.FollowerChain

/-!
# The signal channels of a follower

Every index has at most one channel: handlers close it, `reset` sends on it under the lock, and a
stopping server closes all of them.  Nothing records which of these has happened.
-/

namespace DyShard.Atomic.Follower

open Transition Function Node Follower LoopPc Handler Option List Prod Reach

/-! ## The condition -/

/-- No handler works on the index and the pool holds no transaction of it. -/
structure Still (s : Node) (i : UInt64) : Prop where
  engaged : ∀ h, (s.handlers h).engaged ≠ some i
  pending : ∀ k, s.pending k i = false

/-- The channel of the index is closed, or the stopping server may come to it. -/
def Doomed (s : Node) (i : UInt64) : Prop :=
  s.signal i = .closed ∨ s.visited ≠ none ∧ s.signal i ≠ .absent

/-- A handler may start on the index: no other one works on it, and its channel is not
doomed. -/
structure Vacant (s : Node) (i : UInt64) : Prop where
  engaged : ∀ h, (s.handlers h).engaged ≠ some i
  doomed : ¬ Doomed s i

/-- Handlers start on vacant indices, no freeze is registered while the server stops, timers
fire when the transaction has left the pool and there is a channel to close, and the server
stops when all channels are open and unused. -/
def orderly (s : Node) : Action → Prop
  | .startPropose _ req => Vacant s req.index
  | .startCommit _ req => Vacant s req.index
  | .handler h => ∀ k ∈ (s.handlers h).adds, k.1 = .freeze → s.visited = none
  | .timeout h => ∀ i ∈ (s.handlers h).engaged,
      s.signal i ≠ .absent ∧ ∀ k, s.pending k i = false
  | .stop => ∀ i, s.signal i ≠ .absent → s.signal i = .opened ∧ Still s i
  | _ => True

/-! ## The invariant -/

theorem LoopPc.not_drops_of_unlocked {pc : LoopPc} (h : pc.locked = false) (k : Phase)
    (i : UInt64) : ¬ pc.Drops k i := by
  cases pc <;> simp_all [locked, Drops]

/-- **What keeps the channels in order.** -/
structure Discipline (s : Node) : Prop where
  /-- One handler at a time works on an index. -/
  unique : ∀ h h' i, (s.handlers h).engaged = some i → (s.handlers h').engaged = some i → h = h'
  /-- Somebody waits for what is in the pool, until `reset` drops it. -/
  awaited : ∀ k i, s.pending k i = true →
    (∃ h, (s.handlers h).awaits = some (k, i)) ∨ s.loop.Drops k i
  /-- A closed channel is not used any more, and while the server stops none is. -/
  doomed : ∀ i, Doomed s i → Still s i
  /-- A handler closes a channel when the pool has let go of the transaction. -/
  closes : ∀ h i, (s.handlers h).closes = some i →
    s.signal i ≠ .absent ∧ ∀ k, s.pending k i = true → s.loop.Drops k i
  /-- `reset` signals for transactions that are in the pool. -/
  sends : ∀ ev tx rest chan, s.loop = .send ev tx rest chan → s.pending (phaseOf tx) tx.index = true
  /-- A freeze in the pool has a channel. -/
  fresh : ∀ i, s.pending .freeze i = true → s.signal i ≠ .absent
  /-- What the stopping server has not been to is not closed. -/
  unvisited : ∀ v ∈ s.visited, ∀ i, i ∉ v → s.signal i ≠ .closed
  crashed : s.crashed = false

/-- A change after which fewer handlers are engaged and fewer transactions are in the pool. -/
structure Calms (s t : Node) : Prop where
  engaged : ∀ h i, (t.handlers h).engaged = some i → (s.handlers h).engaged = some i
  pending : ∀ k i, t.pending k i = true → s.pending k i = true

variable {i : UInt64} {sig : ℕ}

theorem Still.calm {s t : Node} (h : Still s i) (hc : Calms s t) : Still t i := by
  constructor
  · intro h' hi
    exact h.engaged h' (hc.engaged h' i hi)
  · intro k
    by_contra hp
    have hs := hc.pending k i (by simpa using hp)
    rw [h.pending k] at hs
    cases hs

variable {p : Handler}

theorem Handler.awaits_of_closes (h : p.closes = some i) : p.awaits = none := by
  unfold closes at h
  split at h <;> simp_all [awaits]

variable {q : Handler}

theorem Handler.engaged_of_received {j : UInt64} (h : Receives q i sig p) (hp : p.engaged = some j)
    : j = i := by
  cases h with
  | propose req side ftype sig =>
    cases side <;> by_cases hs : sig = 1 <;> simp_all [proposeSignal, engaged]
  | commit req ftype sig =>
    by_cases hs : sig = 2 <;> simp_all [commitSignal, engaged]

theorem Receives.listens (h : Receives q i sig p) : p.listens = none := by
  cases h with
  | propose req side ftype sig =>
    cases side <;> by_cases hs : sig = 1 <;> simp [proposeSignal, hs, listens]
  | commit req ftype sig =>
    by_cases hs : sig = 2 <;> simp [commitSignal, hs, listens]

theorem Expires.engaged (h : Expires q i p) : q.engaged = some i ∧ p.engaged = some i := by
  cases h <;> exact ⟨rfl, rfl⟩

theorem Expires.listens (h : Expires q i p) : p.listens = none := by
  cases h <;> rfl

theorem Handler.engaged_of_receives (h : Receives q i sig p) : q.engaged = some i := by
  cases h <;> rfl

/-- A change that touches no channel. -/
structure Mute (s t : Node) : Prop where
  signal : t.signal = s.signal := by rfl
  visited : t.visited = s.visited := by rfl
  crashed : t.crashed = s.crashed := by rfl

theorem signal_initSignal (s : Node) (i j : UInt64) (h : j = i ∨ s.signal j ≠ .absent) :
    (s.initSignal i).signal j ≠ .absent := by
  by_cases habsent : s.signal i = .absent <;> by_cases hji : j = i <;>
    simp_all [initSignal]

namespace Discipline

variable {s t : Node}

section

variable (h : Discipline s)
include h

theorem of_still (hmute : Mute s t) (hstill : ∀ i, Doomed s i → Still s i → Still t i)
    (hunique : ∀ h h' i, (t.handlers h).engaged = some i → (t.handlers h').engaged = some i → h = h')
    (hawaited : ∀ k i, t.pending k i = true →
      (∃ h, (t.handlers h).awaits = some (k, i)) ∨ t.loop.Drops k i)
    (hcloses : ∀ h i, (t.handlers h).closes = some i →
      s.signal i ≠ .absent ∧ ∀ k, t.pending k i = true → t.loop.Drops k i)
    (hsends : ∀ ev tx rest chan, t.loop = .send ev tx rest chan →
      t.pending (phaseOf tx) tx.index = true)
    (hfresh : ∀ i, t.pending .freeze i = true → s.signal i ≠ .absent) : Discipline t where
  unique := hunique
  awaited := hawaited
  doomed i hi := by
    rw [Doomed, hmute.signal, hmute.visited] at hi
    exact hstill i hi (h.doomed i hi)
  closes := hmute.signal ▸ hcloses
  sends := hsends
  fresh := hmute.signal ▸ hfresh
  unvisited := by
    rw [hmute.visited, hmute.signal]
    exact h.unvisited
  crashed := hmute.crashed ▸ h.crashed

theorem of_calms (hc : Calms s t) (hmute : Mute s t)
    (hawaits : ∀ h k i, t.pending k i = true → (s.handlers h).awaits = some (k, i) →
      (t.handlers h).awaits = some (k, i) ∨ t.loop.Drops k i)
    (hdrops : ∀ k i, t.pending k i = true → s.loop.Drops k i → t.loop.Drops k i)
    (hcloses : ∀ h i, (t.handlers h).closes = some i → (s.handlers h).closes = some i ∨
      s.signal i ≠ .absent ∧ ∀ k, t.pending k i = true → t.loop.Drops k i)
    (hsends : ∀ ev tx rest chan, t.loop = .send ev tx rest chan →
      t.pending (phaseOf tx) tx.index = true) : Discipline t := by
  refine h.of_still hmute (fun i _ hi => hi.calm hc) ?_ ?_ ?_ hsends
    fun i hp => h.fresh i (hc.pending .freeze i hp)
  · intro h₁ h₂ i h₁i h₂i
    exact h.unique h₁ h₂ i (hc.engaged h₁ i h₁i) (hc.engaged h₂ i h₂i)
  · intro k i hp
    rcases h.awaited k i (hc.pending k i hp) with ⟨j, hj⟩ | hd
    · exact (hawaits j k i hp hj).imp_left fun ha => ⟨j, ha⟩
    · exact .inr (hdrops k i hp hd)
  · intro j i hj
    rcases hcloses j i hj with hold | hnew
    · obtain ⟨habsent, hd⟩ := h.closes j i hold
      exact ⟨habsent, fun k hp => hdrops k i hp (hd k (hc.pending k i hp))⟩
    · exact hnew

theorem of_eq {pc : LoopPc} (hpc : s.loop = pc) (hhandlers : t.handlers = s.handlers)
    (hmute : Mute s t) (hdrops : ∀ k i, pc.Drops k i → t.loop.Drops k i)
    (hsends : ∀ ev tx rest chan, t.loop = .send ev tx rest chan →
      t.pending (phaseOf tx) tx.index = true)
    (hpending : t.pending = s.pending := by funext k; cases k <;> rfl) : Discipline t := by
  subst hpc
  apply h.of_calms ⟨?_, ?_⟩ hmute ?_ (fun k i _ => hdrops k i) ?_ hsends
  · rw [hhandlers]
    exact fun _ _ => id
  · rw [hpending]
    exact fun _ _ => id
  · rw [hhandlers]
    exact fun _ _ _ _ => .inl
  · rw [hhandlers]
    exact fun _ _ => .inl

theorem of_signal {signal : UInt64 → Chan} {visited : Option (List UInt64)}
    (hpresent : ∀ i, s.signal i ≠ .absent → signal i ≠ .absent)
    (hdoomed : ∀ i, Doomed { s with signal, visited } i → Doomed s i ∨ Still s i)
    (hunvisited : ∀ v ∈ visited, ∀ i, i ∉ v → signal i ≠ .closed) :
    Discipline { s with signal, visited } where
  unique := h.unique
  awaited := h.awaited
  doomed i hi :=
    have hstill := (hdoomed i hi).elim (h.doomed i) id
    ⟨hstill.engaged, hstill.pending⟩
  closes j i hj := ⟨hpresent i (h.closes j i hj).1, (h.closes j i hj).2⟩
  sends := h.sends
  fresh i hp := hpresent i (h.fresh i hp)
  unvisited := hunvisited
  crashed := h.crashed

theorem initSignal {i : UInt64} (hi : s.visited = none ∨ s.signal i ≠ .absent) :
    Discipline (s.initSignal i) := by
  by_cases habsent : s.signal i = .absent
  · have hnone := hi.resolve_right fun hne => hne habsent
    have heq : s.initSignal i = { s with signal := update s.signal i .opened } := by
      simp [Node.initSignal, habsent]
    rw [heq]
    refine h.of_signal (fun j hj => ?_) (fun j hj => .inl ?_) (by simp [hnone])
    · by_cases hji : j = i <;> simp [hji, hj]
    · rcases hj with hj | ⟨hv, -⟩
      · by_cases hji : j = i
        · simp [hji] at hj
        · exact .inl (by simpa [hji] using hj)
      · exact absurd hnone hv
  · have heq : s.initSignal i = s := by simp [Node.initSignal, habsent]
    rwa [heq]

theorem loop {opens : Bool} (hsorted : s.loop.Sorted) (hstep : LoopStep s opens t) :
    Discipline t := by
  have hpool := fun {k i} => hstep.pending (k := k) (i := i)
  cases hstep with
  | take hloop | skip hloop | enter hloop | load hloop | fail hloop | read hloop
  | finish hloop | seeFreeze hloop | passFreeze hloop | record hloop =>
    exact h.of_eq hloop rfl {} (fun _ _ => False.elim) (by simp)
  | @seeCommit ev tx rest loop hloop htx hnext =>
    refine h.of_eq hloop rfl {} (fun _ _ => False.elim) ?_
    rcases hnext with ⟨hp, rfl⟩ | ⟨hp, rfl⟩
    · rintro ev' tx' rest' chan ⟨⟩
      rw [htx]
      exact hp
    · simp
  | @sendFreeze ev tx rest hloop hp =>
    have hsend : Discipline { s with loop := .send ev tx rest true } := by
      refine h.of_eq hloop rfl {} (fun _ _ => False.elim) ?_
      rintro ev' tx' rest' chan ⟨⟩
      have hf : phaseOf tx = .freeze := by simpa [hloop, Sorted] using hsorted
      rw [hf]
      exact hp
    exact hsend.initSignal (.inr (h.fresh tx.index hp))
  | @panic ev tx rest hloop hsig =>
    -- the transaction is in the pool, so its channel is not closed
    have hp := h.sends ev tx rest true hloop
    rw [(h.doomed tx.index (.inl hsig)).pending] at hp
    cases hp
  | forgetFreeze hloop htx | forgetCommit hloop htx =>
    exact h.of_calms ⟨fun _ _ => id, fun _ _ hp => (hpool hp).1⟩ {} (fun _ _ _ _ => .inl)
      (fun _ _ hp hd => absurd hd (hpool hp).2) (fun _ _ => .inl) (by simp)

end

variable {j : ℕ} {p : Handler} {i : UInt64}

section

variable (h : Discipline s)
include h

theorem setHandler (hengaged : ∀ i, p.engaged = some i → (s.handlers j).engaged = some i)
    (hawaits : ∀ k i, s.pending k i = true → (s.handlers j).awaits = some (k, i) →
      p.awaits = some (k, i) ∨ s.loop.Drops k i)
    (hcloses : ∀ i, p.closes = some i →
      s.signal i ≠ .absent ∧ ∀ k, s.pending k i = true → s.loop.Drops k i) :
    Discipline (s.setHandler j p) := by
  have hhandler := s.handlers_setHandler j p
  have hc : Calms s (s.setHandler j p) := by
    refine ⟨?_, fun k i hp => by rwa [pending_setHandler] at hp⟩
    intro j' i hi
    rw [hhandler] at hi
    split at hi
    case isTrue hj => exact hj ▸ hengaged i hi
    case isFalse => exact hi
  refine h.of_calms hc {} ?_ (fun _ _ _ => id) ?_ ?_
  · intro j' k i hp hj'
    rw [hhandler]
    split
    case isTrue hj => exact hawaits k i (hc.pending k i hp) (hj ▸ hj')
    case isFalse => exact .inl hj'
  · intro j' i hj'
    rw [hhandler] at hj'
    split at hj'
    case isTrue => exact .inr (hcloses i hj')
    case isFalse => exact .inl hj'
  · exact h.sends

theorem register {k : Phase} {q : Handler} (hpc : s.handlers j = q) (hold : q.engaged = some i)
    (hnone : q.awaits = none)
    (hhandlers : t.handlers = update s.handlers j p) (hengaged : p.engaged = some i)
    (hawaits : p.awaits = some (k, i)) (hcloses : p.closes = none)
    (hpending : ∀ k' i', t.pending k' i' = true ↔ (k' = k ∧ i' = i) ∨ s.pending k' i' = true)
    (hsignal : k = .freeze → s.signal i ≠ .absent)
    (hloop : t.loop = s.loop) (hmute : Mute s t) : Discipline t := by
  subst hpc
  have hhandler : ∀ j', t.handlers j' = if j' = j then p else s.handlers j' := by
    intro j'
    simp [hhandlers, update_apply]
  have hengages : ∀ j' i', (t.handlers j').engaged = some i' →
      (s.handlers j').engaged = some i' := by
    intro j' i' hi
    rw [hhandler] at hi
    split at hi
    case isTrue hj =>
      subst hj
      rw [hold, ← hengaged, hi]
    case isFalse => exact hi
  have hstill : ∀ i', Still s i' → Still t i' := by
    intro i' hs
    refine ⟨fun j' hi => hs.engaged j' (hengages j' i' hi), ?_⟩
    intro k'
    by_contra hp
    rcases (hpending k' i').1 (by simpa using hp) with ⟨-, rfl⟩ | hp
    · exact hs.engaged j hold
    · rw [hs.pending k'] at hp
      cases hp
  refine h.of_still hmute (fun i' _ => hstill i') ?_ ?_ ?_ ?_ ?_
  · intro h₁ h₂ i' h₁i h₂i
    exact h.unique h₁ h₂ i' (hengages h₁ i' h₁i) (hengages h₂ i' h₂i)
  · intro k' i' hp
    rcases (hpending k' i').1 hp with ⟨rfl, rfl⟩ | hp
    · exact .inl ⟨j, by rw [hhandler, if_pos rfl, hawaits]⟩
    · rcases h.awaited k' i' hp with ⟨j', hj'⟩ | hd
      · have hj : j' ≠ j := by
          rintro rfl
          rw [hnone] at hj'
          cases hj'
        exact .inl ⟨j', by rw [hhandler, if_neg hj, hj']⟩
      · exact .inr (hloop ▸ hd)
  · intro j' i' hj'
    rw [hhandler] at hj'
    split at hj'
    case isTrue => rw [hcloses] at hj'; cases hj'
    case isFalse hj =>
      obtain ⟨habsent, hd⟩ := h.closes j' i' hj'
      refine ⟨habsent, ?_⟩
      intro k' hp
      rw [hloop]
      rcases (hpending k' i').1 hp with ⟨-, rfl⟩ | hp
      · exact absurd (h.unique j' j i' (engaged_of_closes hj') hold) hj
      · exact hd k' hp
  · intro ev tx rest chan hl
    exact (hpending _ _).2 (.inr (h.sends ev tx rest chan (hloop ▸ hl)))
  · intro i' hp
    rcases (hpending .freeze i').1 hp with ⟨hk, rfl⟩ | hp
    · exact hsignal hk.symm
    · exact h.fresh i' hp

theorem close (hopened : s.signal i = .opened) (hstill : Still s i)
    (hi : ∀ v ∈ s.visited, i ∈ v) : Discipline (s.closeSignal i) := by
  have heq : s.closeSignal i = { s with signal := update s.signal i .closed } := by
    simp [closeSignal, hopened]
  rw [heq]
  refine h.of_signal (fun j hj => ?_) (fun j hj => ?_) fun v hv j hj => ?_
  · by_cases hji : j = i <;> simp [hji, hj]
  · by_cases hji : j = i
    · exact .inr (hji ▸ hstill)
    · exact .inl (by simpa [Doomed, hji] using hj)
  · have hji : j ≠ i := by
      rintro rfl
      exact hj (hi v hv)
    rw [update_of_ne hji]
    exact h.unvisited v hv j hj

theorem handler (hok : orderly s (.handler j)) (hstep : HandlerStep s j t) : Discipline t := by
  cases hstep with
  | proceed p followerType cached hp =>
    have hsame : Discipline { s with followerType, cached } :=
      h.of_eq rfl rfl {} (fun _ _ => id) h.sends
    apply hsame.setHandler hp.engaged
    · intro k i _ hi
      exact .inl (hp.awaits k i hi)
    · simp [hp.closes]
  | @addFreeze req hpc hlock =>
    -- the channel is made first: the freeze comes into the pool together with it
    have hnone : s.visited = none := hok (.freeze, req.index) (by rw [hpc]; rfl) rfl
    refine (h.initSignal (i := req.index) (.inl hnone)).register hpc rfl rfl rfl rfl rfl rfl ?_ ?_
      rfl {}
    · exact pending_addFreezeTransaction_iff s req.index req.source req.target _
    · exact fun _ => signal_initSignal s req.index req.index (.inl rfl)
  | @addCommitted req hpc hlock =>
    refine h.register hpc rfl rfl rfl rfl rfl rfl ?_ (by simp) rfl {}
    exact pending_addCommittedTransaction_iff s _ _ _ _ _
  | @close i p hpc hlock hactive hengaged hcloses hlistens =>
    have hi := engaged_of_closes hpc
    obtain ⟨habsent, hdrops⟩ := h.closes j i hpc
    have hleft : Discipline (s.setHandler j p) := by
      apply h.setHandler
      · simp [hengaged]
      · intro k i' _ ha
        rw [awaits_of_closes hpc] at ha
        cases ha
      · simp [hcloses]
    have hstill : Still (s.setHandler j p) i := by
      constructor
      · intro j' hj'
        rw [handlers_setHandler] at hj'
        split at hj'
        case isTrue => simp [hengaged] at hj'
        case isFalse hjj => exact hjj (h.unique j' j i hj' hi)
      · intro k
        rw [pending_setHandler]
        by_contra hp
        exact not_drops_of_unlocked hlock k i (hdrops k (by simpa using hp))
    have hopened : s.signal i = .opened := by
      cases hs : s.signal i with
      | absent => exact absurd hs habsent
      | opened => rfl
      | closed => exact absurd hi ((h.doomed i (.inl hs)).engaged j)
    have hswap : (s.closeSignal i).setHandler j p = (s.setHandler j p).closeSignal i := by
      simp [Node.closeSignal, Node.setHandler, hopened]
    rw [hswap]
    apply hleft.close hopened hstill
    intro v hv
    -- the server does not stop while a handler uses a channel
    have hdoomed : Doomed s i := .inr ⟨by simp [show s.visited = some v from hv], habsent⟩
    exact absurd hi ((h.doomed i hdoomed).engaged j)

/-- The handler that receives closes the channel, if at all, after `reset` has dropped the
transaction. -/
theorem receive {ev : Block} {tx : StateTransferTransaction} {rest : List StateTransferTransaction}
    (hsig : s.signal tx.index = .opened) (hloop : s.loop = .send ev tx rest true)
    (hp : Receives (s.handlers j) tx.index (phaseOf tx).sig p) :
    Discipline ({ s with loop := .forget ev tx rest }.setHandler j p) := by
  have hj : (s.handlers j).engaged = some tx.index := engaged_of_receives hp
  have hnodrops : ∀ k i, ¬ s.loop.Drops k i := by simp [hloop, Drops]
  -- only the transaction in the send can be pending for this index
  have honly : ∀ k, s.pending k tx.index = true → (s.handlers j).awaits = some (k, tx.index) := by
    intro k hk
    obtain ⟨j', hj'⟩ := (h.awaited k tx.index hk).resolve_right (hnodrops _ _)
    cases h.unique j' j tx.index (engaged_of_awaits hj') hj
    exact hj'
  have hphase := honly _ (h.sends ev tx rest true hloop)
  have hforget : Discipline { s with loop := .forget ev tx rest } :=
    h.of_eq hloop rfl {} (fun _ _ => False.elim) (by simp)
  apply hforget.setHandler
  · intro i hi
    rw [engaged_of_received hp hi]
    exact hj
  · intro k i _ hi
    rw [show (s.handlers j).awaits = some (k, i) from hi] at hphase
    cases hphase
    exact .inr ⟨rfl, rfl⟩
  · intro i hi
    cases engaged_of_received hp (engaged_of_closes hi)
    refine ⟨by simp [hsig], ?_⟩
    intro k hk
    have hk' := honly k (by cases k <;> exact hk)
    rw [hphase] at hk'
    cases hk'
    exact ⟨rfl, rfl⟩

theorem start (hidle : s.handlers j = .idle) (hvacant : Vacant s i) (hengaged : p.engaged = some i)
    (hcloses : p.closes = none) : Discipline (s.setHandler j p) := by
  have hhandler := s.handlers_setHandler j p
  have hengages : ∀ j' i', i' ≠ i → ((s.setHandler j p).handlers j').engaged = some i' →
      (s.handlers j').engaged = some i' := by
    intro j' i' hne hi
    rw [hhandler] at hi
    split at hi
    · rw [hengaged] at hi
      exact absurd (some.inj hi).symm hne
    · exact hi
  have hstill : ∀ i', i' ≠ i → Still s i' → Still (s.setHandler j p) i' := by
    intro i' hne hs
    refine ⟨fun j' hi => hs.engaged j' (hengages j' i' hne hi), ?_⟩
    exact hs.pending
  refine h.of_still {} ?_ ?_ ?_ ?_ ?_ h.fresh
  · rintro i' hdoomed hs
    refine hstill i' ?_ hs
    rintro rfl
    exact hvacant.doomed hdoomed
  · intro h₁ h₂ i' h₁i h₂i
    by_cases hne : i' = i
    · subst hne
      rw [hhandler] at h₁i h₂i
      split at h₁i
      · split at h₂i
        · simp_all
        · exact absurd h₂i (hvacant.engaged h₂)
      · exact absurd h₁i (hvacant.engaged h₁)
    · exact h.unique h₁ h₂ i' (hengages h₁ i' hne h₁i) (hengages h₂ i' hne h₂i)
  · intro k i' hp
    rcases h.awaited k i' hp with ⟨j', hj'⟩ | hd
    · have hjj : j' ≠ j := by
        rintro rfl
        simp [hidle, awaits] at hj'
      exact .inl ⟨j', by rw [hhandler, if_neg hjj, hj']⟩
    · exact .inr hd
  · intro j' i' hj'
    rw [hhandler] at hj'
    split at hj'
    · rw [hcloses] at hj'
      cases hj'
    · exact h.closes j' i' hj'
  · exact h.sends

theorem step (hsorted : s.loop.Sorted) {a : Action} (hok : orderly s a) (hstep : ActionStep s a t) :
    Discipline t := by
  cases hstep with
  | insertBlock hchild | postChainEvents hu | readFreezeCache hlock | readCommitted hlock =>
    exact h.of_eq rfl rfl {} (fun _ _ => id) h.sends
  | loop hl => exact h.loop hsorted hl
  | startPropose hidle => exact h.start hidle hok rfl rfl
  | startCommit hidle => exact h.start hidle hok rfl rfl
  | handler hh => exact h.handler hok hh
  | @receiveZero j i p hsig hp =>
    exact absurd (engaged_of_receives hp) ((h.doomed i (.inl hsig)).engaged j)
  | receive hsig hloop hp => exact h.receive hsig hloop hp
  | @timeout j i p hp =>
    obtain ⟨hi, hpi⟩ := hp.engaged
    obtain ⟨habsent, hnone⟩ := hok i hi
    apply h.setHandler
    · intro i' hi'
      rwa [hi, ← hpi]
    · intro k i' hp' ha
      -- the transaction has left the pool
      rw [engaged_of_awaits ha] at hi
      cases hi
      rw [hnone k] at hp'
      cases hp'
    · intro i' hi'
      rw [engaged_of_closes hi'] at hpi
      cases hpi
      simp [habsent, hnone]
  | stop hnone =>
    have hnever : ∀ i, s.signal i ≠ .closed := by
      intro i hi
      have hopened := (hok i (by simp [hi])).1
      simp [hi] at hopened
    refine h.of_signal (fun _ => id) (fun i hi => .inr (hok i ?_).2) fun _ _ i _ => hnever i
    rcases hi with hclosed | ⟨-, habsent⟩
    · exact absurd hclosed (hnever i)
    · exact habsent
  | @closeNext i visited hv hsig hi =>
    have hstopping : s.visited ≠ none := by simp [hv]
    have hrest : Discipline { s with visited := some (i :: visited) } := by
      refine h.of_signal (fun _ => id) (fun j hj => .inl ?_) ?_
      · exact hj.imp_right fun hj => ⟨hstopping, hj.2⟩
      · rintro _ ⟨⟩ j hj
        exact h.unvisited visited hv j fun hmem => hj (mem_cons_of_mem _ hmem)
    have hopened : s.signal i = .opened := by
      cases hs : s.signal i with
      | absent => exact absurd hs hsig
      | opened => rfl
      | closed => exact absurd hs (h.unvisited visited hv i hi)
    have hstill := h.doomed i (.inr ⟨hstopping, hsig⟩)
    apply hrest.close hopened ⟨hstill.engaged, hstill.pending⟩
    rintro _ ⟨⟩
    exact mem_cons_self

end

end Discipline

/-! ## No panic -/

section Runs

variable {shardID : ShardID} {b : Block} {older : List Block} {s : Node}

theorem init_empty (shardID : ShardID) (b : Block) (older : List Block) :
    (∀ k i, (init shardID b older).pending k i = false) ∧
      (∀ i, (init shardID b older).signal i = .absent) ∧
      (init shardID b older).visited = none ∧ (init shardID b older).crashed = false := by
  refine init_induction (P := fun s => (∀ k i, s.pending k i = false) ∧
    (∀ i, s.signal i = .absent) ∧ s.visited = none ∧ s.crashed = false)
    shardID b older ⟨?_, fun _ => rfl, rfl, rfl⟩ ?_
  · intro k i
    cases k <;> rfl
  · rintro s tx ⟨hp, hs⟩
    unfold absorb
    split
    all_goals
      refine ⟨?_, hs⟩
      intro k i
      have hki := hp k i
      cases k <;> exact hki

theorem discipline_init (shardID : ShardID) (b : Block) (older : List Block) :
    Discipline (init shardID b older) := by
  obtain ⟨hidle, hloop⟩ := init_idle shardID b older
  obtain ⟨hpending, hsignal, hvisited, hcrashed⟩ := init_empty shardID b older
  constructor
  · simp [hidle, engaged]
  · simp [hpending]
  · simp [Doomed, hsignal]
  · simp [hidle, closes]
  · simp [hloop]
  · simp [hpending]
  · simp [hvisited]
  · exact hcrashed

theorem discipline_of_reach (hreach : Reach step orderly (init shardID b older) s) :
    Discipline s := by
  have hinv : s.loop.Sorted ∧ Discipline s := by
    refine invariant (P := fun s => s.loop.Sorted ∧ Discipline s) ⟨?_, ?_⟩ ?_ hreach
    · rw [(init_idle shardID b older).2]
      trivial
    · exact discipline_init shardID b older
    · rintro s a t ⟨hsorted, h⟩ hok hstep
      have ha := (actionStep_of_step hstep).2
      exact ⟨ha.sorted hsorted, h.step hsorted hok ha⟩
  exact hinv.2

/-- **The node never panics**: no channel is closed twice or sent on after its close. -/
theorem not_crashed_of_reach (hreach : Reach step orderly (init shardID b older) s) :
    s.crashed = false :=
  (discipline_of_reach hreach).crashed

/-- The actions that an orderly run may always take before the server stops. -/
def Action.routine (s : Node) : Action → Bool
  | .startPropose _ _ | .startCommit _ _ | .timeout _ | .stop => false
  | _ => s.visited.isNone

theorem orderly_of_routine {a : Action} (ha : a.routine s = true) : orderly s a := by
  cases a <;> simp_all [orderly, Action.routine]

theorem vacant_init (i : UInt64) : Vacant (init shardID b older) i := by
  obtain ⟨-, hsignal, hvisited, -⟩ := init_empty shardID b older
  constructor
  · simp [init_idle, engaged]
  · simp [Doomed, hsignal]

/-- The follower answers a propose request, then its server stops and closes the channel. -/
theorem not_crashed_stopped :
    ∃ s, Reach step orderly sampleNode s ∧ (s.handlers 0).active = none ∧
      s.visited = some [0] ∧ s.signal 0 = .closed ∧ s.crashed = false := by
  have hfirst : Reach step orderly sampleNode sampleStarted := reach_sampleStarted (vacant_init 0)
  obtain ⟨s, hs, hengaged, hactive, hpending, hsignal, hvisited, hcrashed⟩ :
      ∃ s, exec (guarded step fun s a => a.routine s = true) sampleStarted
        frozenRun.tail = some s ∧ (∀ h, (s.handlers h).engaged = none) ∧
        (s.handlers 0).active = none ∧ (∀ k, s.pending k 0 = false) ∧
        s.signal = update (fun _ => .absent) 0 .opened ∧ s.visited = none ∧ s.crashed = false := by
    refine ⟨_, rfl, fun h => ?_, rfl, fun k => ?_, rfl, rfl, rfl⟩
    · cases h <;> rfl
    · cases k <;> rfl
  have hrest : Reach step orderly _ s := (reach_of_exec_guarded hs).mono fun _ _ => orderly_of_routine
  have hstop : orderly s .stop := by
    intro i hi
    obtain rfl : i = 0 := by
      by_contra hne
      simp [hsignal, hne] at hi
    exact ⟨by simp [hsignal], by simp [hengaged], hpending⟩
  have hstopped : step s .stop = some { s with visited := some [] } := by
    simp [step, stepAction, hcrashed, hvisited]
  have hclose : step { s with visited := some [] } (.closeNext 0) =
      some ({ s with visited := some [0] }.closeSignal 0) := by
    simp [step, stepAction, hcrashed, hsignal]
  have hclosed := ((hfirst.trans hrest).tail hstop hstopped).tail
    (show orderly _ (.closeNext 0) from trivial) hclose
  refine ⟨_, hclosed, ?_, ?_, ?_, not_crashed_of_reach hclosed⟩
  · rw [(Quiet.closeSignal _ _).handlers]
    exact hactive
  · simp [closeSignal, hsignal]
  · simp [closeSignal, hsignal]

/-- The block with the freeze comes before anybody has asked for it. -/
def insertedRun : List Action :=
  [.insertBlock (sampleBlock 1 [sampleTx true]) true, .postChainEvents, .loop, .loop, .loop, .loop,
    .loop, .loop, .loop]

/-- **The timer closes a nil channel**: a handler that finds its transaction in `cached` makes none.
-/
theorem close_nil :
    ∃ s, Reach step anyStep sampleNode s ∧ s.signal 0 = .absent ∧
      s.crashed = true := by
  have hrun : (exec step sampleNode
      (flatten [insertedRun, [.startPropose 0 ⟨0, 1, 0, []⟩], replicate 6 (.handler 0),
        [.timeout 0, .handler 0]])).map (fun s => (s.signal 0, s.crashed)) =
      some (.absent, true) := by decide +kernel
  obtain ⟨s, hs, hsig, hcrashed⟩ := facts_of_map hrun
  exact ⟨s, reach_of_exec hs, hsig, hcrashed⟩

end Runs

/-! ## No deadlock -/

/-- When `reset` is blocked in a send, a handler of the index can go on to receive it. -/
def Receivable (s : Node) : Prop :=
  ∀ ev tx rest chan, s.loop = .send ev tx rest chan → ∃ h n t,
    (s.handlers h).active = some tx.index ∧
      exec step s (replicate n (.handler h) ++ [.receive h]) = some t ∧
      t.loop = .forget ev tx rest

/-- An orderly run in which moreover a commit is registered only where there is a channel. -/
structure Connecting (s : Node) (a : Action) : Prop where
  orderly : orderly s a
  signal : ∀ h i, a = .handler h → (s.handlers h).adds = some (.commit, i) → s.signal i ≠ .absent

/-- What is in the pool has a channel, and is neither signalled nor waited for without one. -/
structure Connected (s : Node) : Prop where
  sends : ∀ ev tx rest chan, s.loop = .send ev tx rest chan → chan = true
  signal : ∀ k i, s.pending k i = true → s.signal i ≠ .absent
  hears : ∀ h k i, (s.handlers h).listens = some (k, i, false) → s.pending k i = false

section Steps

variable {s t : Node} {a : Action}

theorem signal_closeSignal (s : Node) (i j : UInt64) (h : s.signal j ≠ .absent) :
    (s.closeSignal i).signal j ≠ .absent := by
  by_cases hopened : s.signal i = .opened <;> by_cases hji : j = i <;>
    simp_all [closeSignal]

variable {i : UInt64} {k : Phase} {j : ℕ}

theorem ActionStep.signal (h : ActionStep s a t) (hi : s.signal i ≠ .absent) :
    t.signal i ≠ .absent := by
  cases h with
  | loop hl =>
    cases hl with
    | @sendFreeze ev tx rest hloop hp => exact signal_initSignal s tx.index i (.inr hi)
    | _ => exact hi
  | handler hh =>
    cases hh with
    | @addFreeze req hpc hlock => exact signal_initSignal _ req.index i (.inr hi)
    | @close j p hpc hlock hactive hengaged hcloses hlistens => exact signal_closeSignal s j i hi
    | _ => exact hi
  | @closeNext j visited hv hsig hj => exact signal_closeSignal _ j i hi
  | _ => exact hi

theorem ActionStep.pending (h : ActionStep s a t) (hp : t.pending k i = true) :
    s.pending k i = true ∨ ∃ j, a = .handler j ∧
      (s.handlers j).adds = some (k, i) ∧ (k = .freeze → t.signal i ≠ .absent) := by
  cases h with
  | loop hl => exact .inl (hl.pending hp).1
  | @handler j t hh =>
    cases hh with
    | @addFreeze req hpc hlock =>
      rcases (pending_addFreezeTransaction_iff _ _ _ _ _ _ _).1 hp with ⟨rfl, rfl⟩ | hp
      · refine .inr ⟨j, rfl, by rw [hpc]; rfl, fun _ => ?_⟩
        exact signal_initSignal _ req.index req.index (.inl rfl)
      · exact .inl hp
    | @addCommitted req hpc hlock =>
      rw [pending_setHandler] at hp
      rcases (pending_addCommittedTransaction_iff _ _ _ _ _ _ _ _).1 hp with ⟨rfl, rfl⟩ | hp
      · exact .inr ⟨j, rfl, by rw [hpc]; rfl, nofun⟩
      · exact .inl hp
    | proceed p followerType cached hpr => exact .inl (by cases k <;> exact hp)
    | @close j p hpc hlock hactive hengaged hcloses hlistens =>
      left
      unfold closeSignal at hp
      split at hp <;> cases k <;> exact hp
  | @closeNext j visited hv hsig hj =>
    left
    unfold closeSignal at hp
    split at hp <;> cases k <;> exact hp
  | _ => exact .inl (by cases k <;> exact hp)

variable {tx : StateTransferTransaction} {rest : List StateTransferTransaction}

theorem ActionStep.sends (h : ActionStep s a t) {ev : Block} {chan : Bool}
    (hl : t.loop = .send ev tx rest chan) :
    s.loop = .send ev tx rest chan ∨ chan = true ∨
      s.pending .commit tx.index = true ∧ chan = (s.signal tx.index != .absent) := by
  rcases h.loop_cases with ⟨opens, h⟩ | ⟨ev', tx', rest', -, ht⟩ | ht
  · cases h with
    | seeCommit hloop htx hnext =>
      rcases hnext with ⟨hp, rfl⟩ | ⟨hp, rfl⟩
      · cases hl
        exact .inr (.inr ⟨hp, rfl⟩)
      · cases hl
    | sendFreeze hloop hp =>
      cases hl
      exact .inr (.inl rfl)
    | panic hloop hsig => exact .inl hl
    | _ => cases hl
  · cases ht.symm.trans hl
  · exact .inl (ht ▸ hl)

theorem ActionStep.listens (h : ActionStep s a t) {chan : Bool}
    (hl : (t.handlers j).listens = some (k, i, chan)) :
    (s.handlers j).listens = some (k, i, chan) ∨
      chan = (s.signal i != .absent) ∧ t.pending = s.pending := by
  have hset : ∀ (u : Node) j' p, t = u.setHandler j' p → u.handlers = s.handlers →
      p.listens = none → (s.handlers j).listens = some (k, i, chan) := by
    rintro u j' p rfl hu hp
    rw [handlers_setHandler, hu] at hl
    split at hl
    · rw [hp] at hl
      cases hl
    · exact hl
  cases h with
  | loop h => cases h <;> exact .inl hl
  | startPropose hidle => exact .inl (hset _ _ _ rfl rfl rfl)
  | startCommit hidle => exact .inl (hset _ _ _ rfl rfl rfl)
  | @handler j' t hh =>
    cases hh with
    | proceed p followerType cached hp =>
      rw [handlers_setHandler] at hl
      split at hl
      · exact .inr ⟨hp.listens k i chan hl, by funext k; cases k <;> rfl⟩
      · exact .inl hl
    | addFreeze hpc hlock => exact .inl (hset _ _ _ rfl rfl rfl)
    | addCommitted hpc hlock => exact .inl (hset _ _ _ rfl rfl rfl)
    | @close i' p hpc hlock hactive hengaged hcloses hlistens =>
      exact .inl (hset _ _ _ rfl (Quiet.closeSignal s i').handlers hlistens)
  | receiveZero hsig hp | receive hsig hloop hp | timeout hp =>
    exact .inl (hset _ _ _ rfl rfl hp.listens)
  | @closeNext i' visited hv hsig hi =>
    rw [(Quiet.closeSignal { s with visited := some (i' :: visited) } i').handlers] at hl
    exact .inl hl
  | _ => exact .inl hl

theorem Handler.engaged_of_adds (h : p.adds = some (k, i)) :
    p.engaged = some i ∧ p.listens = none := by
  unfold adds at h
  split at h <;> simp_all [engaged, listens]

theorem Connected.step (h : Connected s) (hd : Discipline s) (hok : Connecting s a)
    (hstep : ActionStep s a t) : Connected t := by
  have hsignal : ∀ k i, t.pending k i = true → t.signal i ≠ .absent := by
    intro k i hp
    rcases hstep.pending hp with hold | ⟨j, rfl, hadds, hfreeze⟩
    · exact hstep.signal (h.signal k i hold)
    · cases k with
      | freeze => exact hfreeze rfl
      | commit => exact hstep.signal (hok.signal j i rfl hadds)
  refine ⟨?_, hsignal, ?_⟩
  · intro ev tx rest chan hl
    rcases hstep.sends hl with hold | htrue | ⟨hp, hchan⟩
    · exact h.sends ev tx rest chan hold
    · exact htrue
    · rw [hchan]
      simpa using h.signal .commit tx.index hp
  intro j k i hl
  by_contra hp
  rcases hstep.listens hl with hold | ⟨hchan, hpending⟩
  · -- the handler has listened before: it is the only one that could register
    have hnone := h.hears j k i hold
    rcases hstep.pending (by simpa using hp) with hs | ⟨j', rfl, hadds, -⟩
    · rw [hnone] at hs
      cases hs
    · obtain ⟨hj', hdeaf⟩ := engaged_of_adds hadds
      have hj := engaged_of_awaits (awaits_of_listens hold)
      cases hd.unique j j' i hj hj'
      rw [hdeaf] at hold
      cases hold
  · have habsent : s.signal i = .absent := by simpa using hchan.symm
    rw [hpending] at hp
    exact h.signal k i (by simpa using hp) habsent

/-- The handler gets to its `select` on its own, and finds a channel there. -/
def GetsTo (s : Node) (j : ℕ) (k : Phase) (i : UInt64) : Prop :=
  ∃ n t, exec Follower.step s (replicate n (.handler j)) = some t ∧
    (t.handlers j).listens = some (k, i, true) ∧ t.loop = s.loop ∧ t.signal = s.signal ∧
    t.crashed = false

theorem GetsTo.of_listens (hcrashed : s.crashed = false)
    (hl : (s.handlers j).listens = some (k, i, true)) : GetsTo s j k i :=
  ⟨0, s, rfl, hl, rfl, rfl, hcrashed⟩

theorem GetsTo.of_step (hcrashed : s.crashed = false) (hstep : stepAction s (.handler j) = some t)
    (hloop : t.loop = s.loop) (hsignal : t.signal = s.signal) (h : GetsTo t j k i) :
    GetsTo s j k i := by
  obtain ⟨n, u, hu, hl, hul, hus, hc⟩ := h
  refine ⟨n + 1, u, ?_, hl, hul.trans hloop, hus.trans hsignal, hc⟩
  rw [replicate_succ, exec_cons, step, hcrashed, if_neg Bool.false_ne_true, hstep]
  exact hu

section Propose

variable {req : ProposeRequest} {side ftype : FollowerType}

section

variable (hcrashed : s.crashed = false) (hsignal : s.signal req.index ≠ .absent)
include hcrashed hsignal

theorem getsTo_enter (hpc : s.handlers j = .propose req (.enter side ftype)) :
    GetsTo s j .freeze req.index := by
  refine .of_step (t := s.setHandler j (.propose req (.wait side ftype true))) hcrashed ?_ rfl rfl
    (.of_listens hcrashed ?_)
  · simp [stepAction, hpc, stepPropose, bne_iff_ne.2 hsignal]
  · simp [handlers_setHandler, listens]

theorem getsTo_branch (hpc : s.handlers j = .propose req (.branch ftype)) :
    GetsTo s j .freeze req.index := by
  refine .of_step (t := s.setHandler j (.propose req (.enter s.followerType ftype))) hcrashed ?_ rfl
    rfl (getsTo_enter hcrashed hsignal (update_self ..))
  simp [stepAction, hpc, stepPropose]

theorem getsTo_prepare (hpc : s.handlers j = .propose req .prepare) :
    GetsTo s j .freeze req.index := by
  refine .of_step (t := s.setHandler j (.propose req (.branch s.followerType))) hcrashed ?_ rfl rfl
    (getsTo_branch hcrashed hsignal (update_self ..))
  simp [stepAction, hpc, stepPropose]

end

end Propose

section Commit

variable {req : CommitRequest} {ftype : FollowerType}

section

variable (hcrashed : s.crashed = false) (hsignal : s.signal req.index ≠ .absent)
include hcrashed hsignal

theorem getsTo_commitEnter (hpc : s.handlers j = .commit req (.enter ftype)) :
    GetsTo s j .commit req.index := by
  refine .of_step (t := s.setHandler j (.commit req (.wait ftype true))) hcrashed ?_ rfl rfl
    (.of_listens hcrashed ?_)
  · simp [stepAction, hpc, stepCommit, bne_iff_ne.2 hsignal]
  · simp [handlers_setHandler, listens]

theorem getsTo_commitPrepare (hpc : s.handlers j = .commit req .prepare) :
    GetsTo s j .commit req.index := by
  refine .of_step (t := s.setHandler j (.commit req (.enter s.followerType))) hcrashed ?_ rfl rfl
    (getsTo_commitEnter hcrashed hsignal (update_self ..))
  simp [stepAction, hpc, stepCommit]

theorem getsTo_deleteCached (hpc : s.handlers j = .commit req .deleteCached) :
    GetsTo s j .commit req.index := by
  refine .of_step (t := (s.deleteTxFromCached req.index).setHandler j (.commit req .prepare))
    hcrashed ?_ rfl rfl (getsTo_commitPrepare hcrashed hsignal (update_self ..))
  simp [stepAction, hpc, stepCommit]

end

end Commit

theorem getsTo_of_awaits (hcrashed : s.crashed = false) (hj : (s.handlers j).awaits = some (k, i))
    (hsignal : s.signal i ≠ .absent) (hears : (s.handlers j).listens ≠ some (k, i, false)) :
    GetsTo s j k i := by
  unfold awaits at hj
  split at hj <;> try cases hj
  case h_1 req hpc => exact getsTo_prepare hcrashed hsignal hpc
  case h_2 req ftype hpc => exact getsTo_branch hcrashed hsignal hpc
  case h_3 req side ftype hpc => exact getsTo_enter hcrashed hsignal hpc
  case h_4 req side ftype chan hpc =>
    cases chan with
    | true => exact .of_listens hcrashed (by rw [hpc]; rfl)
    | false => exact absurd (by rw [hpc]; rfl) hears
  case h_5 req hpc => exact getsTo_deleteCached hcrashed hsignal hpc
  case h_6 req hpc => exact getsTo_commitPrepare hcrashed hsignal hpc
  case h_7 req ftype hpc => exact getsTo_commitEnter hcrashed hsignal hpc
  case h_8 req ftype chan hpc =>
    cases chan with
    | true => exact .of_listens hcrashed (by rw [hpc]; rfl)
    | false => exact absurd (by rw [hpc]; rfl) hears

theorem exec_receive {ev : Block} (hcrashed : s.crashed = false)
    (hl : (s.handlers j).listens = some (k, tx.index, true))
    (hloop : s.loop = .send ev tx rest true) (hsignal : s.signal tx.index = .opened) :
    ∃ t, step s (.receive j) = some t ∧ t.loop = .forget ev tx rest := by
  unfold listens at hl
  split at hl
  case h_1 req side ftype chan hpc =>
    obtain ⟨-, hi, rfl⟩ : Phase.freeze = k ∧ req.index = tx.index ∧ chan = true := by simpa using hl
    refine ⟨{ s with loop := .forget ev tx rest }.setHandler j
      (proposeSignal req side ftype (signalOf tx)), ?_, rfl⟩
    simp [step, hcrashed, stepAction, receive, hpc, recv, hi, hsignal, hloop]
  case h_2 req ftype chan hpc =>
    obtain ⟨-, hi, rfl⟩ : Phase.commit = k ∧ req.index = tx.index ∧ chan = true := by simpa using hl
    refine ⟨{ s with loop := .forget ev tx rest }.setHandler j
      (commitSignal req ftype (signalOf tx)), ?_, rfl⟩
    simp [step, hcrashed, stepAction, receive, hpc, recv, hi, hsignal, hloop]
  case h_3 => cases hl

end Steps

section Runs

variable {shardID : ShardID} {b : Block} {older : List Block} {s : Node}

theorem connected_init : Connected (init shardID b older) := by
  obtain ⟨hpending, -⟩ := init_empty shardID b older
  constructor
  · simp [init_idle]
  · simp [hpending]
  · simp [hpending]

variable {tx : StateTransferTransaction} {rest : List StateTransferTransaction}

theorem opened_of_sends (hd : Discipline s) (hc : Connected s) {ev : Block} {chan : Bool}
    (hloop : s.loop = .send ev tx rest chan) : s.signal tx.index = .opened := by
  have hp := hd.sends ev tx rest chan hloop
  cases hs : s.signal tx.index with
  | absent => exact absurd hs (hc.signal _ _ hp)
  | opened => rfl
  | closed =>
    rw [(hd.doomed tx.index (.inl hs)).pending] at hp
    cases hp

theorem receivable_of_connected (hd : Discipline s) (hc : Connected s) : Receivable s := by
  intro ev tx rest chan hloop
  cases hc.sends ev tx rest chan hloop
  have hopened := opened_of_sends hd hc hloop
  have hp := hd.sends ev tx rest true hloop
  -- somebody waits for the transaction: `reset` has not dropped it yet
  obtain ⟨j, hj⟩ : ∃ j, (s.handlers j).awaits = some (phaseOf tx, tx.index) := by
    refine (hd.awaited _ _ hp).resolve_right ?_
    simp [hloop, Drops]
  have hears : (s.handlers j).listens ≠ some (phaseOf tx, tx.index, false) := by
    intro hl
    rw [hc.hears j _ _ hl] at hp
    cases hp
  obtain ⟨n, t, hrun, hl, htl, hts, htc⟩ :=
    getsTo_of_awaits hd.crashed hj (by simp [hopened]) hears
  obtain ⟨u, hu, hul⟩ := exec_receive htc hl (htl.trans hloop) (by rw [hts, hopened])
  exact ⟨j, n, u, active_of_awaits hj, exec_concat_eq_some.2 ⟨t, hrun, hu⟩, hul⟩

/-- **`reset` never blocks for good**: whenever it is blocked in a send, a handler of the index gets
to receive it. -/
theorem receivable_of_reach (hreach : Reach step Connecting (init shardID b older) s) :
    Receivable s := by
  have hinv : s.loop.Sorted ∧ Discipline s ∧ Connected s := by
    refine invariant (P := fun s => s.loop.Sorted ∧ Discipline s ∧ Connected s)
      ⟨?_, discipline_init shardID b older, connected_init⟩ ?_ hreach
    · rw [(init_idle shardID b older).2]
      trivial
    · rintro s a t ⟨hsorted, hd, hc⟩ hok hstep
      have ha := (actionStep_of_step hstep).2
      exact ⟨ha.sorted hsorted, hd.step hsorted hok.orderly ha, hc.step hd hok ha⟩
  exact receivable_of_connected hinv.2.1 hinv.2.2

/-- The routine actions that register no commit. -/
def Action.proposes (s : Node) (a : Action) : Bool :=
  a.routine s && match a with
    | .handler h => (s.handlers h).adds.map fst != some .commit
    | _ => true

/-- The index that `reset` is blocked in a send for, and whether there is a channel. -/
def LoopPc.sendsOn : LoopPc → Option (UInt64 × Bool)
  | .send _ tx _ chan => some (tx.index, chan)
  | _ => none

theorem LoopPc.eq_of_sendsOn {pc : LoopPc} {chan : Bool} (h : pc.sendsOn = some (i, chan)) :
    ∃ ev tx rest, pc = .send ev tx rest chan ∧ tx.index = i := by
  unfold sendsOn at h
  split at h
  · cases h
    exact ⟨_, _, _, rfl, rfl⟩
  · cases h

theorem connecting_of_proposes {a : Action} (ha : a.proposes s = true) : Connecting s a := by
  obtain ⟨hroutine, hadds⟩ := Bool.and_eq_true_iff.1 ha
  refine ⟨orderly_of_routine hroutine, ?_⟩
  rintro h i rfl hi
  simp [hi] at hadds

/-- The freeze has come, and `reset` signals the handler that waits for it. -/
theorem receivable_frozen :
    ∃ s, Reach step Connecting sampleNode s ∧ s.loop.Sends 0 ∧ Receivable s := by
  have hfirst : Reach step Connecting sampleNode sampleStarted :=
    reach_sampleStarted ⟨vacant_init 0, nofun⟩
  have hrun : (exec (guarded step fun s a => a.proposes s = true) sampleStarted
      (frozenRun.tail.take 15)).map (fun s => s.loop.sendsOn) = some (some (0, true)) := by
    decide +kernel
  obtain ⟨s, hs, hsends⟩ := map_eq_some_iff.1 hrun
  obtain ⟨ev, tx, rest, hloop, hi⟩ := eq_of_sendsOn hsends
  have hrest : Reach step Connecting _ s :=
    (reach_of_exec_guarded hs).mono fun _ _ => connecting_of_proposes
  refine ⟨s, hfirst.trans hrest, ?_, receivable_of_reach (hfirst.trans hrest)⟩
  rw [hloop]
  exact hi

theorem stuck_of_send_nil {ev : Block} {t : Node} (hloop : s.loop = .send ev tx rest false)
    (hreach : Reach step anyStep s t) : t.loop = s.loop := by
  induction hreach with
  | refl => rfl
  | @tail t u a hst _ hstep ih =>
    have htl : t.loop = .send ev tx rest false := ih.trans hloop
    rw [hloop]
    rcases (actionStep_of_step hstep).2.loop_cases with ⟨opens, h⟩ | ⟨ev', tx', rest', hl, -⟩ | ht
    · cases h <;> simp_all
    · simp [htl] at hl
    · exact ht.trans htl

/-- **A commit without a channel blocks `reset` for ever**: the propose request has never come to
the node, so nobody has made one. -/
theorem send_nil :
    ∃ s, Reach step anyStep sampleNode s ∧ s.crashed = false ∧ s.loop.Sends 0 ∧
      s.loop.locked = true ∧ ¬ Receivable s ∧ ∀ t, Reach step anyStep s t → t.loop = s.loop := by
  have hrun : (exec step sampleNode
      (flatten [insertedRun, [.startCommit 0 ⟨0, 1, [], 0, none⟩], replicate 6 (.handler 0),
        [.insertBlock (sampleBlock 2 [sampleTx false]) true, .postChainEvents, .loop, .loop,
          .loop, .loop, .loop]])).map (fun s => (s.crashed, s.loop.sendsOn)) =
      some (false, some (0, false)) := by decide +kernel
  obtain ⟨s, hs, hcrashed, hsends⟩ := facts_of_map hrun
  obtain ⟨ev, tx, rest, hloop, hi⟩ := eq_of_sendsOn hsends
  refine ⟨s, reach_of_exec hs, hcrashed, by rw [hloop]; exact hi, by rw [hloop]; rfl, ?_, ?_⟩
  · intro hr
    obtain ⟨h, n, t, -, ht, htl⟩ := hr ev tx rest false hloop
    rw [stuck_of_send_nil hloop (reach_of_exec ht), hloop] at htl
    cases htl
  · intro t ht
    exact stuck_of_send_nil hloop ht

end Runs

end DyShard.Atomic.Follower
