import DyShard.Lib.History
import DyShard.Numeric.Decimal
import DyShard.State.Settle

/-!
# Histories of a database

The setters that only the block processing uses, and with them every history of a database:
setters, snapshots and reverts in any order, finalisations, commits and copies.
-/

namespace DyShard.State

open Numeric Option DB Ledger

/-! ## Rewards -/

/-- `Delegation`, as far as `AddReward` goes. -/
structure Delegation where
  delegatorAddress : Address
  reward : ℤ

/-- What `AddReward` reads or writes of a `ValidatorWrapper`. -/
structure RewardFields where
  address : Address
  banned : Bool
  rate : Dec
  blockReward : ℤ
  delegations : List Delegation

/-- A type of wrappers with these fields; `put` overwrites the rewards. -/
structure WrapperFields (W : Type) where
  get : W → RewardFields
  put : W → RewardFields → W

namespace RewardFields

/-- `Delegations[i].Reward.Add(…)`; an index out of range is a panic. -/
def credit (v : RewardFields) (i : ℕ) (amount : ℤ) : Option RewardFields :=
  (v.delegations[i]?).map fun d =>
    { v with delegations := v.delegations.set i { d with reward := d.reward + amount } }

/-- The loop over the delegations, with the rest of the pool.  A missing share is `none`: the source
wraps an error that is nil, and returns without an error. -/
def payDelegators (shareLookup : Address → Option Dec) (total : ℤ) :
    List Delegation → ℕ → RewardFields → ℤ → Option (RewardFields × Option ℤ)
  | [], _, cur, pool => some (cur, some pool)
  | d :: ds, i, cur, pool =>
    match shareLookup d.delegatorAddress with
    | none => some (cur, none)
    | some percentage =>
      (percentage.mulInt total).bind fun share =>
        (cur.credit i share.roundInt).bind fun cur =>
          payDelegators shareLookup total ds (i + 1) cur (pool - share.roundInt)

/-- What `AddReward` does to the current wrapper. -/
def addReward (snapshot cur : RewardFields) (reward : ℤ) (shareLookup : Address → Option Dec) :
    Option RewardFields :=
  let cur := { cur with blockReward := cur.blockReward + reward }
  -- the commission goes to the validator's own delegation
  (if snapshot.rate.gt .zeroDec then
      (snapshot.rate.mulInt reward).bind fun commission =>
        (cur.credit 0 commission.roundInt).map fun cur => (cur, reward - commission.roundInt)
    else some (cur, reward)).bind fun paid =>
  (payDelegators shareLookup paid.2 snapshot.delegations 0 paid.1 paid.2).bind fun left =>
  match left with
  | (cur, some pool) => if 0 < pool then cur.credit 0 pool else some cur
  | (cur, none) => some cur

end RewardFields

/-- `AddReward` on the wrapper it finds: whether it succeeds, and what it leaves. -/
def rewarded {W : Type} (fields : WrapperFields W) (snapshot : W) (reward : ℤ)
    (shareLookup : Address → Option Dec) : Option W → Option (Bool × Option W)
  | none => some (false, none)
  | some cur =>
    if (fields.get cur).banned then some (true, none)
    else ((fields.get snapshot).addReward (fields.get cur) reward shareLookup).map fun v =>
      (true, some (fields.put cur v))

namespace DB

variable {W : Type}

/-- `AddReward`, on the cached wrapper and in place; the Boolean tells whether it
succeeded. -/
def addReward (codec : WrapperCodec W) (fields : WrapperFields W) (db : DB W) (snapshot : W)
    (reward : ℤ) (shareLookup : Address → Option Dec) : Option (DB W × Bool) :=
  if reward = 0 then some (db, true)
  else
    match db.validatorWrapper codec (fields.get snapshot).address with
    | (db, val) => (rewarded fields snapshot reward shareLookup val).map fun r =>
      (r.2.elim db (db.cacheValidator (fields.get snapshot).address), r.1)

/-- `GetFreezeState`: the account is created if it is not there. -/
def getFreezeState (db : DB W) (addr : Address) : DB W × Bool :=
  ((db.getOrNewStateObject addr).1, (db.getOrNewStateObject addr).2.freeze)

end DB

/-! ## The setters -/

/-- Everything that is journalled, and the reads. -/
inductive Setter (W : Type) where
  | base (c : Call W)
  | setBalance (a : Address) (amount : ℤ)
  | setFreezeState (a : Address) (isFreeze : Bool)
  | getFreezeState (a : Address)
  | prepare (thash : Word) (txIndex : ℕ)
  | addReward (snapshot : W) (reward : ℤ) (shareLookup : Address → Option Dec)

/-- What a setter answers. -/
def Setter.Answer {W : Type} : Setter W → Type
  | .base c => c.Answer
  | .getFreezeState _ | .addReward _ _ _ => Bool
  | _ => Unit

/-- The interface of the setters. -/
abbrev setterInterface (W : Type) : Client.Interface := ⟨Setter W, Setter.Answer⟩

variable {W : Type} (codec : WrapperCodec W) (fields : WrapperFields W)

/-- One setter on the database. -/
def DB.set : (c : Setter W) → DB W → Option (c.Answer × DB W)
  | .base c, db => call codec c db
  | .setBalance a amount, db => some ((), db.setBalance a amount)
  | .setFreezeState a isFreeze, db => some ((), db.setFreezeState a isFreeze)
  | .getFreezeState a, db => some ((db.getFreezeState a).2, (db.getFreezeState a).1)
  | .prepare thash txIndex, db => some ((), db.prepare thash txIndex)
  | .addReward snapshot reward shareLookup, db =>
    (db.addReward codec fields snapshot reward shareLookup).map fun r => (r.2, r.1)

/-- The database as a state with snapshots. -/
def DB.setters : Client.Machine (setterInterface W) (DB W) where
  call := set codec fields
  snapshot := snapshot
  revert := revertToSnapshot

namespace Ledger

/-- One setter on the ledger. -/
def set : (c : Setter W) → Ledger → Kept W →
    Option (c.Answer × Ledger × Kept W × List (JournalEntry Cell))
  | .base c, l, k => call codec c l k
  | .setBalance a amount, l, k => writes () (l.unlessFrozen a (setBalance a amount)) k
  | .setFreezeState a isFreeze, l, k => writes () (l.setFreezeState a isFreeze) k
  | .getFreezeState a, l, k => writes (l.fetch a).2.freeze (l.fetch a).1 k
  | .prepare thash _, l, k => reads () l { k with thash }
  | .addReward snapshot reward shareLookup, l, k =>
    if reward = 0 then reads true l k
    else
      (call codec (.validatorWrapper (fields.get snapshot).address) l k).bind fun s =>
        (rewarded fields snapshot reward shareLookup s.1).map fun r =>
          (r.1, s.2.1, r.2.elim s.2.2.1 (s.2.2.1.putValidator (fields.get snapshot).address),
            s.2.2.2)

theorem reverts_setFreezeState (l : Ledger) (a : Address) (isFreeze : Bool) :
    Reverts l (l.setFreezeState a isFreeze) := by
  have hf := reverts_fetch l a
  have hc := cell_fetch l a
  unfold setFreezeState
  generalize l.fetch a = r at hf hc ⊢
  obtain ⟨⟨l', es⟩, c⟩ := r
  exact hf.append (reverts_setter hc rfl rfl
    fun _ => rfl)

/-- **Undoing what a setter has logged puts the ledger back.** -/
theorem undo_set (c : Setter W) (l : Ledger) (k : Kept W) (r : c.Answer) (l' : Ledger)
    (k' : Kept W) (es : List (JournalEntry Cell))
    (h : set codec fields c l k = some (r, l', k', es)) : Reverts l (l', es) := by
  cases c with
  | base c => exact undo_call codec c l k r l' k' es h
  | setBalance a amount =>
    exact reverts_of_writes (reverts_unlessFrozen (fun _ _ => reverts_setBalance amount) l) h
  | setFreezeState a isFreeze => exact reverts_of_writes (reverts_setFreezeState l a isFreeze) h
  | getFreezeState a => exact reverts_of_writes (reverts_fetch l a) h
  | prepare thash txIndex => exact reverts_of_reads h
  | addReward snapshot reward shareLookup =>
    simp only [set] at h
    split at h
    · exact reverts_of_reads h
    · obtain ⟨⟨val, l₁, k₁, es₁⟩, hval, hrest⟩ := bind_eq_some_iff.1 h
      obtain ⟨s, -, hs⟩ := map_eq_some_iff.1 hrest
      obtain ⟨-, hdata⟩ := Prod.mk.inj hs
      obtain ⟨rfl, hkept⟩ := Prod.mk.inj hdata
      cases hkept
      exact undo_call codec _ l k _ _ _ _ hval

end Ledger

/-- The ledger with all the setters as an undo log. -/
def settersLog : Client.Undo (setterInterface W) Ledger (Kept W) (JournalEntry Cell) where
  call := set codec fields
  undo := undo
  undo_call := undo_set codec fields

namespace DB

/-- A setter on the database and the same setter on the ledger. -/
inductive SetAgrees (c : Setter W) (db : DB W) : Prop
  | crash (hdb : set codec fields c db = none)
      (hl : Ledger.set codec fields c db.ledger db.kept = none)
  | answer (r : c.Answer) (db' : DB W) (eff : Effect) (k : Kept W)
      (hdb : set codec fields c db = some (r, db'))
      (hl : Ledger.set codec fields c db.ledger db.kept = some (r, eff.1, k, eff.2))
      (hshow : Shows db db' eff k)

variable {codec fields}

theorem setAgrees_addReward (snapshot : W) (reward : ℤ) (shareLookup : Address → Option Dec)
    (db : DB W) : SetAgrees codec fields (.addReward snapshot reward shareLookup) db := by
  by_cases hzero : reward = 0
  · exact .answer true db (db.ledger, []) db.kept
      (by simp [set, addReward, hzero]) (by simp [Ledger.set, Ledger.reads, hzero])
      (.refl db)
  · rcases agrees codec (.validatorWrapper (fields.get snapshot).address) db with
      ⟨hdb, -⟩ | ⟨val, db₁, eff, k, hdb, hl, hshow⟩
    · cases hdb
    · obtain ⟨hval, hdb₁⟩ := Prod.mk.inj (some.inj hdb)
      rcases hr : rewarded fields snapshot reward shareLookup val with _ | ⟨ok, w⟩
      · refine .crash ?_ ?_
        · simp [set, addReward, hzero, hval, hr]
        · simp [Ledger.set, hzero, hl, hr]
      · refine .answer ok (w.elim db₁ (db₁.cacheValidator (fields.get snapshot).address)) eff
          (w.elim k (k.putValidator (fields.get snapshot).address)) ?_ ?_ ?_
        · simp [set, addReward, hzero, hval, hdb₁, hr]
        · simp [Ledger.set, hzero, hl, hr]
        · cases w with
          | none => exact hshow
          | some w => exact shows_cacheValidator hshow _ w

theorem setAgrees (c : Setter W) (db : DB W) : SetAgrees codec fields c db := by
  cases c with
  | base c =>
    rcases agrees codec c db with ⟨hdb, hl⟩ | ⟨r, db', eff, k, hdb, hl, hshow⟩
    · exact .crash hdb hl
    · exact .answer r db' eff k hdb hl hshow
  | setBalance a amount => exact .answer () _ _ _ rfl rfl (shows_setBalance db a amount)
  | setFreezeState a isFreeze => exact .answer () _ _ _ rfl rfl (shows_setFreezeState db a isFreeze)
  | getFreezeState a =>
    obtain ⟨hshow, hcell⟩ := shows_getOrNew db a
    refine .answer (db.ledger.fetch a).2.freeze _ _ db.kept ?_ rfl hshow
    rw [← hcell]
    rfl
  | prepare thash txIndex =>
    exact .answer () _ (db.ledger, []) { db.kept with thash } rfl rfl
      ⟨rfl, by simp [prepare], rfl, rfl, rfl, rfl, rfl, rfl, fun _ h => .inl h, fun _ h => h,
        fun _ h => .inl h⟩
  | addReward snapshot reward shareLookup =>
    exact setAgrees_addReward snapshot reward shareLookup db

theorem set_sound {c : Setter W} {db db' : DB W} {r : c.Answer} (hs : db.Sound)
    (h : set codec fields c db = some (r, db')) : db'.Sound := by
  have hagrees : SetAgrees codec fields c db := setAgrees c db
  rcases hagrees with ⟨hdb, -⟩ | ⟨r₁, db₁, eff, k, hdb, -, hshow⟩
  · simp [hdb] at h
  · rw [hdb] at h
    cases h
    exact hshow.sound hs

theorem set_view (c : Setter W) (db : DB W) :
    (set codec fields c db).map (Prod.map id view) =
      (settersLog codec fields).machine.call c db.view := by
  have hagrees : SetAgrees codec fields c db := setAgrees c db
  rcases hagrees with ⟨hdb, hl⟩ | ⟨r, db', eff, k, hdb, hl, hshow⟩
  · have hm : (settersLog codec fields).call c db.view.data db.view.kept = none := hl
    simp only [hdb, Client.Undo.machine, hm]
    rfl
  · have hm : (settersLog codec fields).call c db.view.data db.view.kept =
        some (r, eff.1, k, eff.2) := hl
    simp only [hdb, Client.Undo.machine, hm, map_some, Prod.map_apply, id, hshow.view]

/-- **The database refines the ledger with its undo log**, for every setter. -/
theorem setters_hom :
    (setters codec fields).Hom (settersLog codec fields).machine Sound view where
  call c db _ := set_view c db
  -- snapshots and reverts are those of the clients
  snapshot := (view_hom codec).snapshot
  revert := (view_hom codec).revert
  call_inv _ _ _ _ hs h := set_sound hs h
  snapshot_inv _ hs := sound_snapshot hs
  revert_inv _ _ _ hs h := sound_revertToSnapshot hs h

/-! ## Every history -/

theorem sound_new (trie : Address → Option Account) : (new trie : DB W).Sound where
  fresh _ h := by cases h
  present _ h := by simp [new] at h
  loaded _ _ h := by simp [new, Journal.isDirty] at h
  numbered _ h := by cases h

theorem sound_commit {db : DB W} (hs : db.Sound) (d : Bool) : (db.commit codec d).Sound := by
  have h : (db.intermediateRoot codec d).Sound := sound_intermediateRoot hs d
  exact
    { fresh := fun a ha => ⟨(h.fresh a ha).1, rfl, (h.fresh a ha).2.2⟩
      present := fun a ha => h.present a (ha.imp_left fun hd => by cases hd)
      loaded := h.loaded
      numbered := h.numbered }

theorem sound_copy {db : DB W} (hs : db.Sound) : db.copy.Sound where
  fresh _ h := by cases h
  present a ha := by
    simp only [copy, Bool.or_eq_true] at ha ⊢
    have hmarked : (db.touched a = true ∨ db.stateObjectsPending a = true) ∨
        db.stateObjectsDirty a = true := by tauto
    have hsome : (db.stateObjects a).isSome := by
      rcases hmarked with (h | h) | h
      · exact (Bool.and_eq_true_iff.1 h).2
      · exact hs.present a (.inr h)
      · exact hs.present a (.inl h)
    simpa [hmarked] using hsome
  loaded _ _ h := by simp [copy, Journal.isDirty] at h
  numbered _ h := by cases h

end DB

/-- Everything a node does with a database. -/
inductive Action (W : Type) where
  | set (s : Client.Step (setterInterface W))
  | finalise (deleteEmptyObjects : Bool)
  | intermediateRoot (deleteEmptyObjects : Bool)
  | commit (deleteEmptyObjects : Bool)
  | copy
  | reopen

namespace DB

/-- One step of a history.  `reopen` is `New` on the trie as it stands. -/
def step (db : DB W) : Action W → Option (DB W)
  | .set s => (setters codec fields).step db s
  | .finalise d => some (db.finalise codec d)
  | .intermediateRoot d => some (db.intermediateRoot codec d)
  | .commit d => some (db.commit codec d)
  | .copy => some db.copy
  | .reopen => some (new db.trie)

/-- The databases a node can hold: any history from a database opened on a trie. -/
def Reachable (db : DB W) : Prop :=
  ∃ trie, Transition.Reach (step codec fields) Transition.anyStep (new trie) db

variable {codec fields}

theorem sound_step {db db' : DB W} {act : Action W} (hs : db.Sound)
    (h : db.step codec fields act = some db') : db'.Sound := by
  cases act with
  | set s => exact setters_hom.step_inv hs h
  | finalise d =>
    cases h
    exact sound_finalise hs d
  | intermediateRoot d =>
    cases h
    exact sound_intermediateRoot hs d
  | commit d =>
    cases h
    exact sound_commit hs d
  | copy =>
    cases h
    exact sound_copy hs
  | reopen =>
    cases h
    exact sound_new db.trie

theorem Reachable.sound {db : DB W} (h : db.Reachable codec fields) : db.Sound := by
  obtain ⟨trie, hreach⟩ := h
  exact hreach.invariant (sound_new trie) fun _ _ _ hs _ hstep => sound_step hs hstep

theorem reachable_new (trie : Address → Option Account) :
    (new trie : DB W).Reachable codec fields := ⟨trie, .refl⟩

end DB

end DyShard.State
