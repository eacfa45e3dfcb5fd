import DyShard.Atomic.FollowerFrame

/-!
# The replies of a follower

The role of the node in a migration is kept in one field of the server, which the proposals that
run side by side write and read.
-/

namespace DyShard.Atomic.Follower

open Transition Handler Node Option Function Follower

/-! ## The property and the condition -/

/-- The role of a node of the shard in the migration of a request. -/
def roleIn (shardID : ShardID) (req : ProposeRequest) : FollowerType :=
  if req.target = shardID then .target else .source

/-- The reply has index and address of the request and the node's role, and carries the state
exactly if it is an ACK of a source. -/
structure AnswersOwn (shardID : ShardID) (req : ProposeRequest) (res : ProposeResponse) : Prop where
  index : res.index = req.index
  address : res.address = req.msgPayload
  ftype : res.ftype = .target ↔ req.target = shardID
  msgPayload : res.msgPayload.isSome = true ↔ res.acktype = .ack ∧ res.ftype = .source

/-- A proposal that runs at the same time as others, like them, migrates from this shard. -/
def uniform (s : Node) : Action → Prop
  | .startPropose _ req => ∀ h req' pc, s.handlers h = .propose req' pc →
      roleIn s.shardID req = .source ∧ roleIn s.shardID req' = .source
  | _ => True

/-! ## The roles of the handlers -/

/-- Once a handler has written `followerType` the field holds its role. -/
def Handler.Plays (shardID : ShardID) (followerType : FollowerType) : Handler → Prop
  | .propose _ .setSource => True
  | .propose _ .setTarget => followerType = .source
  | .propose req .checkCached | .propose req .addFreeze | .propose req .prepare
  | .propose req .closing | .propose req .refuse => followerType = roleIn shardID req
  | .propose req (.branch ftype) =>
    followerType = roleIn shardID req ∧ ftype = roleIn shardID req
  | .propose req (.enter side ftype) | .propose req (.wait side ftype _) =>
    followerType = roleIn shardID req ∧ side = roleIn shardID req ∧ ftype = roleIn shardID req
  | .propose req .readBalance | .propose req (.readNonce _) | .propose req (.reply _ _) =>
    followerType = roleIn shardID req ∧ roleIn shardID req = .source
  | _ => True

/-- **What keeps the roles apart.** -/
structure Roles (shardID : ShardID) (s : Node) : Prop where
  shard : s.shardID = shardID
  plays : ∀ h, (s.handlers h).Plays shardID s.followerType
  /-- Proposals run side by side only if all of them are sources. -/
  sources : ∀ h h' req req' pc pc', h ≠ h' → s.handlers h = .propose req pc →
    s.handlers h' = .propose req' pc' → roleIn shardID req = .source

variable {req : ProposeRequest} {pc : ProposePc} {followerType : FollowerType} {a : Action}
  {s t : Node} {res : ProposeResponse} {shardID : ShardID}

theorem plays_source
    (h : (propose req pc).Plays shardID followerType) (hrole : roleIn shardID req = .source)
    : (propose req pc).Plays shardID .source := by
  cases pc <;> simp_all [Plays]

theorem plays_of_ne_propose {p : Handler}
    (h : ∀ req pc, p ≠ .propose req pc) : p.Plays shardID followerType := by
  cases p with
  | propose req pc => exact absurd rfl (h req pc)
  | _ => trivial

/-! ## How a proposal is answered -/

/-- How a step moves the handler `j`, if it does. -/
inductive Moves (s : Node) (a : Action) (t : Node) (j : ℕ) : Prop
  | stay (h : t.handlers j = s.handlers j)
  | startPropose {req : ProposeRequest} (hidle : s.handlers j = .idle)
      (ha : a = .startPropose j req) (ht : t.handlers j = .propose req .setSource)
  | startCommit {req : CommitRequest} (hidle : s.handlers j = .idle) (ha : a = .startCommit j req)
      (ht : t.handlers j = .commit req .checkCached)
  | propose {req : ProposeRequest} {pc : ProposePc} (hpc : s.handlers j = .propose req pc)
      (hstep : stepPropose s j req pc = some t)
  | commit {req : CommitRequest} {pc : CommitPc} (hpc : s.handlers j = .commit req pc)
      (hstep : stepCommit s j req pc = some t)
  | receive {i : UInt64} {sig : ℕ} (hp : Receives (s.handlers j) i sig (t.handlers j))
  | expire {i : UInt64} (hp : Expires (s.handlers j) i (t.handlers j))

theorem moves_of_step (hstep : step s a = some t) (j : ℕ) :
    Moves s a t j := by
  have hset : ∀ (u : Node) j' p, t = u.setHandler j' p → u.handlers = s.handlers →
      t.handlers j = s.handlers j ∨ j' = j ∧ t.handlers j = p := by
    rintro u j' p rfl hu
    rw [handlers_setHandler, hu]
    split
    case isTrue hj => exact .inr ⟨hj.symm, rfl⟩
    case isFalse => exact .inl rfl
  cases (actionStep_of_step hstep).2 with
  | loop hl => exact .stay (congrFun hl.frame.1 j)
  | startPropose hidle =>
    rcases hset _ _ _ rfl rfl with hs | ⟨rfl, ht⟩
    · exact .stay hs
    · exact .startPropose hidle rfl ht
  | startCommit hidle =>
    rcases hset _ _ _ rfl rfl with hs | ⟨rfl, ht⟩
    · exact .stay hs
    · exact .startCommit hidle rfl ht
  | @handler j' t hh =>
    obtain ⟨-, u, p, hu, hmove⟩ := handler_move (stepAction_of_step hstep)
    rcases hset u j' p hu hmove.quiet.handlers with hs | ⟨rfl, -⟩
    · exact .stay hs
    · rcases handler_cases (stepAction_of_step hstep) with ⟨req, pc, hpc, hs⟩ | ⟨req, pc, hpc, hs⟩
      · exact .propose hpc hs
      · exact .commit hpc hs
  | receiveZero hsig hp | receive hsig hloop hp =>
    rcases hset _ _ _ rfl rfl with hs | ⟨rfl, ht⟩
    · exact .stay hs
    · exact .receive (ht ▸ hp)
  | timeout hp =>
    rcases hset _ _ _ rfl rfl with hs | ⟨rfl, ht⟩
    · exact .stay hs
    · exact .expire (ht ▸ hp)
  | closeNext hv hsig hi => exact .stay (congrFun (Quiet.closeSignal _ _).handlers j)
  | _ => exact .stay rfl

/-- The answers of `ProposeHandler`: with the state it has read, as a failure, or as a target. -/
inductive Answers (s : Node) (req : ProposeRequest) : ProposePc → ProposeResponse → Prop
  | reply (balance : ℤ) (nonce : UInt64) :
      Answers s req (.reply balance nonce)
        { acktype := .ack, index := req.index, ftype := s.followerType, address := req.msgPayload,
          msgPayload := some { address := bytesToAddress req.msgPayload, balance := some balance,
                               nonce, data := [], blockHeight := 0 } }
  | refuse :
      Answers s req .refuse
        { acktype := .nack, index := req.index, ftype := s.followerType, address := req.msgPayload,
          msgPayload := none }
  | target (ftype : FollowerType) :
      Answers s req (.wait .target ftype true)
        { acktype := .ack, index := req.index, ftype, address := req.msgPayload,
          msgPayload := none }

theorem answers_of_stepPropose {j : ℕ} (hstep : stepPropose s j req pc = some t) :
    (∃ pc', t.handlers j = .propose req pc') ∨
      ∃ res, t.handlers j = .proposed res ∧ Answers s req pc res := by
  have hset : ∀ (u : Node) p, (u.setHandler j p).handlers j = p := by simp [handlers_setHandler]
  cases pc with
  | addFreeze | closing =>
    obtain ⟨-, rfl⟩ := of_unlocked hstep
    exact .inl ⟨_, hset _ _⟩
  | wait => cases hstep
  | reply balance nonce =>
    cases hstep
    exact .inr ⟨_, hset _ _, .reply balance nonce⟩
  | refuse =>
    cases hstep
    exact .inr ⟨_, hset _ _, .refuse⟩
  | _ =>
    cases hstep
    exact .inl ⟨_, hset _ _⟩

theorem answers_of_step (hstep : step s a = some t) {j : ℕ} (hpc : s.handlers j = .propose req pc)
    (hres : t.handlers j = .proposed res) : Answers s req pc res := by
  cases moves_of_step hstep j with
  | stay h =>
    rw [hpc, hres] at h
    cases h
  | startPropose hidle | startCommit hidle => cases hpc.symm.trans hidle
  | propose hpc' hs =>
    cases hpc.symm.trans hpc'
    rcases answers_of_stepPropose hs with ⟨pc', hp⟩ | ⟨res', hp, hans⟩
    · cases hp.symm.trans hres
    · cases hp.symm.trans hres
      exact hans
  | commit hpc' => cases hpc.symm.trans hpc'
  | receive hp =>
    rw [hpc, hres] at hp
    generalize hq : proposed res = q at hp
    cases hp with
    | propose req side ftype =>
      cases side with
      | source => simp [proposeSignal] at hq
      | target =>
        simp only [proposeSignal] at hq
        split at hq
        · cases hq
          exact .target ftype
        · cases hq
  | expire hp =>
    rw [hpc, hres] at hp
    cases hp

namespace Roles

variable {shardID : ShardID} {s t : Node}

variable {j sig : ℕ} {p : Handler} {req : ProposeRequest} {pc : ProposePc}
  {side ftype : FollowerType}

section

variable (h : Roles shardID s) (hshard : t.shardID = s.shardID)
include h hshard

theorem of_move (hhandlers : t.handlers = update s.handlers j p)
    (hp : p.Plays shardID t.followerType)
    (hsame : ∀ req pc, p = .propose req pc → ∃ pc', s.handlers j = .propose req pc')
    (hothers : ∀ j', j' ≠ j → (s.handlers j').Plays shardID t.followerType) : Roles shardID t := by
  have hhandler : ∀ j', t.handlers j' = if j' = j then p else s.handlers j' := by
    intro j'
    simp [hhandlers, update_apply]
  have hold : ∀ j' req pc, t.handlers j' = .propose req pc →
      ∃ pc', s.handlers j' = .propose req pc' := by
    intro j' req pc hj'
    rw [hhandler] at hj'
    split at hj'
    case isTrue hjj => exact hjj ▸ hsame req pc hj'
    case isFalse => exact ⟨pc, hj'⟩
  refine ⟨hshard.trans h.shard, ?_, ?_⟩
  · intro j'
    rw [hhandler]
    split
    case isTrue => exact hp
    case isFalse hjj => exact hothers j' hjj
  · intro h₁ h₂ req₁ req₂ pc₁ pc₂ hne h₁p h₂p
    obtain ⟨pc₁', h₁s⟩ := hold h₁ req₁ pc₁ h₁p
    obtain ⟨pc₂', h₂s⟩ := hold h₂ req₂ pc₂ h₂p
    exact h.sources h₁ h₂ req₁ req₂ pc₁' pc₂' hne h₁s h₂s

theorem of_keep (hfield : t.followerType = s.followerType)
    (hhandlers : t.handlers = update s.handlers j p) (hp : p.Plays shardID s.followerType)
    (hsame : ∀ req pc, p = .propose req pc → ∃ pc', s.handlers j = .propose req pc') :
    Roles shardID t := by
  apply h.of_move hshard hhandlers (hfield ▸ hp) hsame
  intro j' _
  rw [hfield]
  exact h.plays j'

theorem of_eq (hfield : t.followerType = s.followerType) (hhandlers : t.handlers = s.handlers) :
    Roles shardID t := by
  refine ⟨hshard.trans h.shard, ?_, ?_⟩
  · rw [hhandlers, hfield]
    exact h.plays
  · rw [hhandlers]
    exact h.sources

end

theorem stepPropose (h : Roles shardID s) (hpc : s.handlers j = .propose req pc)
    (hstep : stepPropose s j req pc = some t) : Roles shardID t := by
  have hplays : (propose req pc).Plays shardID s.followerType := hpc ▸ h.plays j
  have hsame : ∀ pc' req'' pc'', propose req pc' = .propose req'' pc'' →
      ∃ pc₀, s.handlers j = .propose req'' pc₀ := by
    rintro pc' req'' pc'' ⟨⟩
    exact ⟨pc, hpc⟩
  cases pc with
  | setSource =>
    cases hstep
    refine h.of_move rfl rfl rfl (hsame _) ?_
    -- the other proposals, if any, are sources
    intro j' hj'
    cases hq : s.handlers j' with
    | propose req' pc' =>
      have hrole := h.sources j' j req' req pc' .setSource hj' hq hpc
      exact plays_source (hq ▸ h.plays j') hrole
    | _ => exact plays_of_ne_propose (by simp)
  | setTarget =>
    cases hstep
    by_cases htarget : req.target = shardID
    · -- a target runs alone
      refine h.of_move rfl rfl ?_ (hsame _) ?_
      · simp [Plays, roleIn, h.shard, htarget, setHandler]
      · intro j' hj'
        apply plays_of_ne_propose
        intro req' pc' hq
        have hrole := h.sources j j' req req' .setTarget pc' hj'.symm hpc hq
        simp [roleIn, htarget] at hrole
    · refine h.of_keep rfl ?_ rfl ?_ (hsame _)
      · simp [setHandler, h.shard, htarget]
      · simpa [Plays, roleIn, htarget] using hplays
  | checkCached =>
    cases hstep
    refine h.of_keep rfl rfl rfl ?_ (hsame _)
    split <;> exact hplays
  | addFreeze =>
    obtain ⟨-, rfl⟩ := of_unlocked hstep
    exact h.of_keep rfl rfl rfl hplays (hsame _)
  | prepare =>
    cases hstep
    exact h.of_keep rfl rfl rfl ⟨hplays, hplays⟩ (hsame _)
  | branch ftype =>
    cases hstep
    exact h.of_keep rfl rfl rfl ⟨hplays.1, hplays.1, hplays.2⟩ (hsame _)
  | enter side ftype | readBalance | readNonce =>
    cases hstep
    exact h.of_keep rfl rfl rfl hplays (hsame _)
  | wait => cases hstep
  | reply | refuse =>
    cases hstep
    exact h.of_keep rfl rfl rfl trivial (by simp)
  | closing =>
    obtain ⟨-, rfl⟩ := of_unlocked hstep
    have hq := Quiet.closeSignal s req.index
    obtain ⟨hshard, hfield⟩ : (s.closeSignal req.index).shardID = s.shardID ∧
        (s.closeSignal req.index).followerType = s.followerType := by
      unfold closeSignal
      split <;> exact ⟨rfl, rfl⟩
    refine h.of_keep (p := .propose req .refuse) hshard hfield ?_ hplays (hsame _)
    rw [setHandler, hq.handlers]

theorem stepCommit (h : Roles shardID s) {req : CommitRequest} {pc : CommitPc}
    (hstep : stepCommit s j req pc = some t) : Roles shardID t := by
  have hkeep : ∀ (u : Node) (p : Handler), u.shardID = s.shardID →
      u.followerType = s.followerType → u.handlers = s.handlers →
      (∀ req pc, p ≠ .propose req pc) → Roles shardID (u.setHandler j p) := by
    intro u p hshard hfield hhandlers hp
    refine h.of_keep (j := j) hshard hfield ?_ (plays_of_ne_propose hp) ?_
    · rw [setHandler, hhandlers]
    · intro req pc hq
      exact absurd hq (hp req pc)
  cases pc with
  | addCommitted =>
    obtain ⟨-, rfl⟩ := of_unlocked hstep
    exact hkeep _ _ rfl rfl rfl (by simp)
  | wait => cases hstep
  | closing ftype timedOut =>
    obtain ⟨-, rfl⟩ := of_unlocked hstep
    refine hkeep _ _ ?_ ?_ (Quiet.closeSignal s req.index).handlers (by cases timedOut <;> simp)
    · unfold closeSignal
      split <;> rfl
    · unfold closeSignal
      split <;> rfl
  | _ =>
    cases hstep
    exact hkeep _ _ rfl rfl rfl (by simp)

theorem plays_proposeSignal {chan : Bool}
    (h : (propose req (.wait side ftype chan)).Plays shardID followerType) :
    (proposeSignal req side ftype sig).Plays shardID followerType := by
  obtain ⟨hf, hside, hftype⟩ := h
  cases side with
  | source =>
    by_cases hs : sig = 1
    · simpa [proposeSignal, hs, Plays] using ⟨hf, hside.symm⟩
    · simpa [proposeSignal, hs, Plays] using hf
  | target =>
    by_cases hs : sig = 1
    · simp [proposeSignal, hs, Plays]
    · simpa [proposeSignal, hs, Plays] using ⟨hf, hside, hftype⟩

theorem proposeSignal_same {req' : ProposeRequest}
    (h : proposeSignal req side ftype sig = .propose req' pc) : req' = req := by
  cases side <;> by_cases hs : sig = 1 <;> simp_all [proposeSignal]

section

variable (h : Roles shardID s)
include h

theorem receive {i : UInt64} (hp : Receives (s.handlers j) i sig p) (hshard : t.shardID = s.shardID)
    (hfield : t.followerType = s.followerType)
    (hhandlers : t.handlers = update s.handlers j p) : Roles shardID t := by
  have hplays := h.plays j
  refine h.of_keep hshard hfield hhandlers ?_ ?_ <;>
    generalize hq : s.handlers j = q at hp hplays
  · cases hp with
    | propose req side ftype => exact plays_proposeSignal hplays
    | commit => exact plays_of_ne_propose nofun
  · intro req' pc hp'
    cases hp with
    | propose req side ftype =>
      cases proposeSignal_same hp'
      exact ⟨_, rfl⟩
    | commit => cases hp'

theorem timeout {i : UInt64} (hp : Expires (s.handlers j) i p) :
    Roles shardID (s.setHandler j p) := by
  have hplays := h.plays j
  refine h.of_keep rfl rfl rfl ?_ ?_ <;>
    generalize hq : s.handlers j = q at hp hplays
  · cases hp with
    | propose => exact hplays.1
    | commit => trivial
  · intro req' pc hp'
    cases hp with
    | propose =>
      cases hp'
      exact ⟨_, rfl⟩
    | commit => cases hp'

theorem start (hok : uniform s (.startPropose j req)) :
    Roles shardID (s.setHandler j (.propose req .setSource)) := by
  have hhandler := s.handlers_setHandler j (.propose req .setSource)
  refine ⟨h.shard, ?_, ?_⟩
  · intro j'
    rw [hhandler]
    split
    · trivial
    · exact h.plays j'
  · intro h₁ h₂ req₁ req₂ pc₁ pc₂ hne h₁p h₂p
    rw [hhandler] at h₁p h₂p
    split at h₁p
    case isTrue h₁j =>
      -- the new one meets an old one
      rw [if_neg (fun h₂j => hne (h₁j.trans h₂j.symm))] at h₂p
      obtain ⟨rfl, -⟩ := propose.inj h₁p
      exact h.shard ▸ (hok h₂ req₂ pc₂ h₂p).1
    case isFalse h₁j =>
      split at h₂p
      · exact h.shard ▸ (hok h₁ req₁ pc₁ h₁p).2
      · exact h.sources h₁ h₂ req₁ req₂ pc₁ pc₂ hne h₁p h₂p

theorem step (hok : uniform s a) (hstep : step s a = some t) :
    Roles shardID t := by
  cases (actionStep_of_step hstep).2 with
  | loop hl => cases hl <;> exact h.of_eq rfl rfl rfl
  | startPropose hidle => exact h.start hok
  | startCommit hidle =>
    exact h.of_keep rfl rfl rfl (plays_of_ne_propose nofun) nofun
  | handler hh =>
    rcases handler_cases (stepAction_of_step hstep) with ⟨req, pc, hpc, hs⟩ | ⟨req, pc, hpc, hs⟩
    · exact h.stepPropose hpc hs
    · exact h.stepCommit hs
  | receiveZero hsig hp | receive hsig hloop hp => exact h.receive hp rfl rfl rfl
  | timeout hp => exact h.timeout hp
  | @closeNext i visited hv hsig hi =>
    unfold closeSignal
    split <;> exact h.of_eq rfl rfl rfl
  | _ => exact h.of_eq rfl rfl rfl

theorem answersOwn (hstep : Follower.step s a = some t)
    (hpc : s.handlers j = .propose req pc) (hres : t.handlers j = .proposed res) :
    AnswersOwn shardID req res := by
  have hplays : (propose req pc).Plays shardID s.followerType := hpc ▸ h.plays j
  have hrole : ∀ ft, ft = roleIn shardID req → (ft = .target ↔ req.target = shardID) := by
    rintro ft rfl
    by_cases htarget : req.target = shardID <;> simp [roleIn, htarget]
  cases answers_of_step hstep hpc hres with
  | reply balance nonce =>
    refine ⟨rfl, rfl, hrole _ hplays.1, ?_⟩
    simp [hplays.1, hplays.2]
  | refuse => exact ⟨rfl, rfl, hrole _ hplays, by simp⟩
  | target ftype =>
    obtain ⟨-, hside, hftype⟩ := hplays
    refine ⟨rfl, rfl, hrole _ hftype, ?_⟩
    simp [hftype, ← hside]

end

end Roles

section Runs

variable {shardID : ShardID} {b : Block} {older : List Block} {s t : Node}

theorem roles_init : Roles shardID (init shardID b older) := by
  obtain ⟨hidle, -⟩ := init_idle shardID b older
  refine ⟨?_, ?_, ?_⟩
  · refine init_induction (P := fun s => s.shardID = shardID) shardID b older rfl ?_
    intro s tx hs
    unfold absorb
    split <;> exact hs
  · intro h
    rw [hidle]
    trivial
  · simp [hidle]

/-- **Each reply answers its own request** if proposals run side by side only on a source. -/
theorem answersOwn_of_reach (hreach : Reach step uniform (init shardID b older) s) {a : Action}
    (hstep : step s a = some t) {h : ℕ} {req : ProposeRequest} {pc : ProposePc}
    {res : ProposeResponse} (hpc : s.handlers h = .propose req pc)
    (hres : t.handlers h = .proposed res) : AnswersOwn shardID req res :=
  (hreach.invariant roles_init fun _ _ _ h hok hstep => h.step hok hstep).answersOwn hstep hpc hres

theorem uniform_of_not_starts (s : Node) (ha : a.starts = false) : uniform s a := by
  cases a <;> simp_all [uniform, Action.starts]

/-- Two migrations from shard 0 side by side. -/
theorem answersOwn_both :
    ∃ s t req pc req' pc' res, Reach step uniform sampleNode s ∧
      step s (.handler 0) = some t ∧ s.handlers 0 = .propose req pc ∧
      s.handlers 1 = .propose req' pc' ∧ req.index ≠ req'.index ∧
      t.handlers 0 = .proposed res ∧ res.msgPayload.isSome = true ∧ AnswersOwn 0 req res := by
  let second := sampleStarted.setHandler 1 (.propose ⟨0, 2, 1, []⟩ .setSource)
  have hfirst : Reach step uniform sampleNode sampleStarted :=
    reach_sampleStarted (by simp [uniform, init_idle])
  have hsecond : Reach step uniform sampleNode second := by
    refine hfirst.tail (a := .startPropose 1 ⟨0, 2, 1, []⟩) ?_ rfl
    intro h req pc hpc
    rw [handlers_setHandler] at hpc
    split at hpc
    · cases hpc
      decide
    · simp [init_idle] at hpc
  have hrun : (exec (guarded step fun _ a => a.starts = false) second
      (List.replicate 7 (.handler 1) ++ frozenRun.tail.dropLast)).map (fun s =>
        (s.handlers 0, s.handlers 1, (step s (.handler 0)).map fun t => t.handlers 0)) =
      some (.propose ⟨0, 1, 0, []⟩ (.reply 0 0),
        .propose ⟨0, 2, 1, []⟩ (.wait .source .source true),
        some (.proposed ⟨.ack, 0, .source, [], some ⟨0, some 0, 0, [], 0⟩⟩)) := by decide +kernel
  obtain ⟨s, hs, hpc, hfacts⟩ := facts_of_map hrun
  obtain ⟨hpc', ht⟩ := Prod.mk.inj hfacts
  obtain ⟨t, hstep, hres⟩ := map_eq_some_iff.1 ht
  have hrest : Reach step uniform second s :=
    (reach_of_exec_guarded hs).mono fun s _ => uniform_of_not_starts s
  exact ⟨s, t, _, _, _, _, _, hsecond.trans hrest, hstep, hpc, hpc', by decide, hres, rfl,
    answersOwn_of_reach (hsecond.trans hrest) hstep hpc hres⟩

/-- **A source answers as a target**: a second request, for a migration to shard 0, sets the role of
the server before the first handler reads it. -/
theorem answered_as_target :
    ∃ s t req pc res, Reach step anyStep sampleNode s ∧
      step s (.receive 0) = some t ∧ s.handlers 0 = .propose req pc ∧
      t.handlers 0 = .proposed res ∧ req.source = 0 ∧ req.target = 1 ∧ res.acktype = .ack ∧
      res.ftype = .target ∧ res.msgPayload = none ∧ ¬ AnswersOwn 0 req res := by
  have hrun : (exec step sampleNode
      (List.flatten [[.startPropose 0 ⟨0, 1, 0, []⟩], List.replicate 4 (.handler 0),
        [.startPropose 1 ⟨1, 0, 1, []⟩, .handler 1, .handler 1], List.replicate 3 (.handler 0),
        [.insertBlock (sampleBlock 1 [sampleTx true]) true, .postChainEvents, .loop, .loop, .loop,
          .loop, .loop, .loop]])).map (fun s =>
        (s.handlers 0, (step s (.receive 0)).map fun t => t.handlers 0)) =
      some (.propose ⟨0, 1, 0, []⟩ (.wait .target .target true),
        some (.proposed ⟨.ack, 0, .target, [], none⟩)) := by decide +kernel
  obtain ⟨s, hs, hpc, ht⟩ := facts_of_map hrun
  obtain ⟨t, hstep, hres⟩ := map_eq_some_iff.1 ht
  refine ⟨s, t, _, _, _, reach_of_exec hs, hstep, hpc, hres, rfl, rfl, rfl, rfl, rfl, ?_⟩
  intro h
  exact absurd (h.ftype.1 rfl) (by decide)

end Runs

end DyShard.Atomic.Follower
