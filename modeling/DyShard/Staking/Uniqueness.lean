import DyShard.Staking.Growth

/-!
# Keys and identities of validators

A creation and an edit are checked against the validators of the last stored block.  Those that the
block itself has created are not looked at.
-/

namespace DyShard.Staking

open Option Sample List Prod Node ValidatorWrapper

open State (DB)
open Transition

variable {rlp : WrapperRlp} {n n' : Node} {db db' : DB ValidatorWrapper} {bc : ChainContext}
  {msg : StakeMsg}

/-! ## Marks -/

/-- What tells validators apart. -/
inductive Mark where
  | key (key : BLSKey)
  | identity (identity : String)

/-- A mark is among keys or is an identity; the empty identity is no mark. -/
def Mark.In (keys : List BLSKey) (identity : String) : Mark → Prop
  | .key k => k ∈ keys
  | .identity s => s ≠ "" ∧ identity = s

/-- A wrapper has a mark. -/
def ValidatorWrapper.Bears (w : ValidatorWrapper) (mark : Mark) : Prop :=
  mark.In w.slotPubKeys w.description.identity

/-- A message brings a mark to a validator. -/
def Brings (msg : StakeMsg) (v : Address) (mark : Mark) : Prop :=
  (∃ m, Creates msg v m ∧ mark.In m.slotPubKeys m.description.identity) ∨
    ∃ m, Edits msg v m ∧ mark.In m.slotKeyToAdd.toList m.description.identity

/-- A validator with a mark in its stored wrapper. -/
def Bearer (rlp : WrapperRlp) (db : DB ValidatorWrapper) (v : Address) (mark : Mark) : Prop :=
  Flagged db v ∧ ∃ w, db.validatorWrapperCopy rlp.codec v = some w ∧ w.Bears mark

/-- No mark has two bearers. -/
def Exclusive (rlp : WrapperRlp) (db : DB ValidatorWrapper) : Prop :=
  ∀ mark u v, Bearer rlp db u mark → Bearer rlp db v mark → u = v

/-- A validator that the current block has created. -/
def Node.Newcomer (n : Node) (v : Address) : Prop :=
  ∃ msg ∈ n.pending, ∃ m, Creates msg v m

/-- A message brings no mark of another validator that its block has created before. -/
def Clear (rlp : WrapperRlp) (n : Node) : Act → Prop
  | .stake tx => ∀ msg, tx.stakeMsg = .ok msg → ∀ mark u v, Brings msg v mark →
      n.Newcomer u → Bearer rlp n.db u mark → u = v
  | _ => True

variable {mark : Mark} {u v : Address} {a : Act}

theorem Matches.bears_iff {w w' : ValidatorWrapper} (h : Matches w w') :
    w'.Bears mark ↔ w.Bears mark := by
  unfold Bears
  rw [h.slotPubKeys, h.identity]

theorem Brings.unique {mark' : Mark} (hu : Brings msg u mark) (hv : Brings msg v mark') :
    u = v := by
  obtain ⟨m, ⟨rfl, rfl⟩, -⟩ | ⟨m, ⟨rfl, rfl⟩, -⟩ := hu
  · obtain ⟨m', ⟨hm, rfl⟩, -⟩ | ⟨m', ⟨hm, -⟩, -⟩ := hv
    · cases hm
      rfl
    · cases hm
  · obtain ⟨m', ⟨hm, -⟩, -⟩ | ⟨m', ⟨hm, rfl⟩, -⟩ := hv
    · cases hm
    · cases hm
      rfl

/-! ## Steps -/

theorem Advanced.bearer (h : Advanced rlp bc msg db db') (hregulated : Regulated rlp db)
    (hbearer : Bearer rlp db' v mark) : Bearer rlp db v mark ∨ Brings msg v mark := by
  obtain ⟨hflag', w', hcopy', hbears⟩ := hbearer
  obtain hflag | ⟨m, hm⟩ := (h.flagged v).1 hflag'
  · obtain ⟨w, hcopy, -⟩ := hregulated v hflag
    obtain ⟨x, hx, hfollows, -⟩ := h.follows v w hflag hcopy
    cases hcopy'.symm.trans hx
    cases mark with
    | key key =>
      exact (hfollows.keys key hbears).imp (fun hkey => ⟨hflag, w, hcopy, hkey⟩) .inr
    | identity identity =>
      obtain ⟨hne, rfl⟩ := hbears
      obtain hsame | ⟨m, hm, hidentity⟩ := hfollows.identity
      · exact .inl ⟨hflag, w, hcopy, hne, hsame.symm⟩
      · exact .inr (.inr ⟨m, hm, hne, hidentity.symm⟩)
  · obtain ⟨w, hcopy, -, -, hkeys, hidentity⟩ := (h.created v m hm).wrapper
    cases hcopy'.symm.trans hcopy
    rw [Bears, hkeys, hidentity] at hbears
    exact .inr (.inl ⟨m, hm, hbears⟩)

theorem Unique.clear {identity : String} {keys : List BLSKey} (h : Unique rlp bc db v identity keys)
    {list : List Address} (hlist : bc.readValidatorList = .ok list) (hu : u ∈ list)
    (hbearer : Bearer rlp db u mark) (hmark : mark.In keys identity) : u = v := by
  obtain ⟨addrs, haddrs, hno⟩ := h
  cases haddrs.symm.trans hlist
  obtain ⟨-, w, hcopy, hbears⟩ := hbearer
  by_contra hne
  obtain ⟨x, hx, hidentity, hkeys⟩ := hno u hu (Ne.symm hne)
  cases hcopy.symm.trans hx
  cases mark with
  | key key => exact hkeys key hbears hmark
  | identity s => exact hidentity ⟨hmark.2 ▸ hmark.1, hbears.2.trans hmark.2.symm⟩

theorem Advanced.clear (h : Advanced rlp bc msg db db') {list : List Address}
    (hlist : bc.readValidatorList = .ok list) (hbrings : Brings msg v mark) (hu : u ∈ list)
    (hbearer : Bearer rlp db u mark) : u = v := by
  obtain ⟨m, hm, hmark⟩ | ⟨m, hm, hmark⟩ := hbrings
  · exact (h.created v m hm).unique.clear hlist hu hbearer hmark
  · exact (h.edited v m hm).clear hlist hu hbearer hmark

theorem Quiet.bearer (h : Quiet rlp db db') (hregulated : Regulated rlp db)
    (hbearer : Bearer rlp db' v mark) : Bearer rlp db v mark := by
  obtain ⟨hflag', w', hcopy', hbears⟩ := hbearer
  have hflag := (h.flagged v).1 hflag'
  obtain ⟨w, hcopy, -⟩ := hregulated v hflag
  obtain ⟨x, hx, hmatches⟩ := h.wrapper v w hflag hcopy
  cases hcopy'.symm.trans hx
  exact ⟨hflag, w, hcopy, hmatches.bears_iff.1 hbears⟩

theorem exclusive_quiet (h : Exclusive rlp db) (hquiet : Quiet rlp db db')
    (hregulated : Regulated rlp db) : Exclusive rlp db' :=
  fun mark u v hu hv => h mark u v (hquiet.bearer hregulated hu) (hquiet.bearer hregulated hv)

theorem stake_of_pending (hstep : n.step rlp a = some n')
    (hpending : n'.pending = n.pending ++ [msg]) : ∃ tx, a = .stake tx ∧ tx.stakeMsg = .ok msg := by
  have hkept : n'.pending ≠ n.pending := fun h => by
    simp [h] at hpending
  have hfinalizing : ∀ {p}, n.finalizing rlp p = some n' → n'.pending = n.pending := by
    intro p h
    unfold finalizing at h
    split_ifs at h
    obtain ⟨⟨e, db⟩, -, h⟩ := bind_eq_some_iff.1 h
    cases e with
    | none => exact some.inj h ▸ rfl
    | some e => cases h
  cases a with
  | stake tx =>
    refine ⟨tx, rfl, ?_⟩
    change n.stake rlp tx = some n' at hstep
    unfold stake at hstep
    split_ifs at hstep
    obtain ⟨r, -, hstep⟩ := bind_eq_some_iff.1 hstep
    split at hstep
    · next hmsg =>
      cases hstep
      rw [hmsg, singleton_inj.1 (append_cancel_left hpending)]
    · cases hstep
  | settle d | addBalance a amount | finalize => exact absurd (some.inj hstep ▸ rfl) hkept
  | setFreezeState a isFreeze =>
    change (if n.final then _ else none) = some n' at hstep
    split_ifs at hstep
    exact absurd (some.inj hstep ▸ rfl) hkept
  | selectCommittee config engine header => exact absurd (hfinalizing hstep) hkept
  | sign v didSign => exact absurd (hfinalizing hstep) hkept
  | reward v snapshot amount =>
    change n.reward rlp v snapshot amount = some n' at hstep
    unfold reward at hstep
    split_ifs at hstep
    obtain ⟨shares, -, hstep⟩ := bind_eq_some_iff.1 hstep
    obtain ⟨⟨db, ok⟩, -, hstep⟩ := bind_eq_some_iff.1 hstep
    change (if ok = true then _ else none) = some n' at hstep
    split_ifs at hstep
    exact absurd (some.inj hstep ▸ rfl) hkept
  | slash offender reporter snapshot rate epoch =>
    change (if snapshot ∈ n.snapshots offender then _ else none) = some n' at hstep
    split_ifs at hstep
    exact absurd (hfinalizing hstep) hkept
  | finish d =>
    change n.finish rlp d = some n' at hstep
    unfold finish at hstep
    split_ifs at hstep
    obtain ⟨m, -, rfl⟩ := map_eq_some_iff.1 hstep
    exact absurd hpending (by simp)

/-- **A clear message keeps the marks apart.** -/
theorem exclusive_message (h : Exclusive rlp n.db) (hstanding : Standing rlp n)
    (hclear : Clear rlp n a) (hstep : n.step rlp a = some n') {tx : StakingTx}
    (hadvanced : Advanced rlp (n.chain tx.bc) msg n.db n'.db)
    (hpending : n'.pending = n.pending ++ [msg]) : Exclusive rlp n'.db := by
  obtain ⟨tx', rfl, hmsg⟩ := stake_of_pending hstep hpending
  -- a mark that comes with the message has no bearer but the validator of the message
  have hfresh : ∀ {mark u v}, Brings msg v mark → Bearer rlp n.db u mark → u = v := by
    intro mark u v hbrings hbearer
    obtain hlisted | hnew := (hstanding.list u).1 hbearer.1
    · exact hadvanced.clear rfl hbrings hlisted hbearer
    · exact hclear msg hmsg mark u v hbrings hnew hbearer
  intro mark u v hu hv
  obtain hu | hu := hadvanced.bearer hstanding.regulated hu
  · obtain hv | hv := hadvanced.bearer hstanding.regulated hv
    · exact h mark u v hu hv
    · exact hfresh hv hu
  · obtain hv | hv := hadvanced.bearer hstanding.regulated hv
    · exact (hfresh hu hv).symm
    · exact hu.unique hv

theorem exclusive_step (h : Exclusive rlp n.db) (hstanding : Standing rlp n)
    (hclear : Clear rlp n a) (hstep : n.step rlp a = some n') : Exclusive rlp n'.db := by
  cases (standing_step hstanding hstep).2 with
  | message _ advanced node =>
    exact exclusive_message h hstanding hclear hstep advanced (by rw [node])
  | quiet quiet _ _ _ _ | sealed quiet _ _ _ _ _ =>
    exact exclusive_quiet h quiet hstanding.regulated

theorem exclusive_reach {n₀ : Node} (hgenesis : Genesis rlp n₀)
    (hreach : Reach (step rlp) (Clear rlp) n₀ n) : Standing rlp n ∧ Exclusive rlp n.db :=
  hreach.invariant (P := fun n => Standing rlp n ∧ Exclusive rlp n.db)
    ⟨standing_genesis hgenesis, fun _ u _ hu _ => absurd hu.1 (hgenesis.unflagged u)⟩
    fun _ _ _ h hclear hstep => ⟨(standing_step h.1 hstep).1, exclusive_step h.2 h.1 hclear hstep⟩

/-! ## Uniqueness -/

/-- **Keys and identities are unique along clear runs**, in the stored wrappers and in those in
force. -/
theorem keys_exclusive_reach {n₀ : Node} (hgenesis : Genesis rlp n₀)
    (hreach : Reach (step rlp) (Clear rlp) n₀ n) {u v : Address} (huv : u ≠ v)
    (hu : Flagged n.db u) (hv : Flagged n.db v) {x y : ValidatorWrapper}
    (hx : n.db.validatorWrapperCopy rlp.codec u = some x ∨ current rlp n.db u = some x)
    (hy : n.db.validatorWrapperCopy rlp.codec v = some y ∨ current rlp n.db v = some y) :
    (∀ key ∈ x.slotPubKeys, key ∉ y.slotPubKeys) ∧
      (x.description.identity ≠ "" → x.description.identity ≠ y.description.identity) := by
  obtain ⟨hstanding, hexclusive⟩ := exclusive_reach hgenesis hreach
  have hbearer : ∀ {v w mark}, Flagged n.db v →
      (n.db.validatorWrapperCopy rlp.codec v = some w ∨ current rlp n.db v = some w) →
      w.Bears mark → Bearer rlp n.db v mark := by
    intro v w mark hflag hw hbears
    obtain hcopy | hcurrent := hw
    · exact ⟨hflag, w, hcopy, hbears⟩
    · obtain ⟨w₀, w₁, hcopy, -, hcurrent₁, -, hmatches⟩ := hstanding.validators v hflag
      cases hcurrent.symm.trans hcurrent₁
      exact ⟨hflag, w₀, hcopy, hmatches.bears_iff.1 hbears⟩
  refine ⟨fun key hkey hkey' => huv ?_, fun hne heq => huv ?_⟩
  · exact hexclusive (.key key) u v (hbearer hu hx hkey) (hbearer hv hy hkey')
  · exact hexclusive (.identity x.description.identity) u v (hbearer hu hx ⟨hne, rfl⟩)
      (hbearer hv hy ⟨hne, heq.symm⟩)

namespace Sample

/-- A validator with key 6 and without an identity. -/
def other : CreateValidator :=
  { create 0xbb with slotPubKeys := [6], description := ⟨"", "", "", "", ""⟩ }

/-- The library knows the wrapper of `0xaa` and the one of the other validator. -/
def otherTable : WrapperRlp :=
  tableRlp [wrapper 0xaa,
    { wrapper 0xbb with slotPubKeys := [6], description := ⟨"", "", "", "", ""⟩ }]

theorem clear_first (h : n.pending = []) {tx : StakingTx} : Clear rlp n (.stake tx) := by
  rintro msg - mark u v - ⟨msg', hmsg', -⟩ -
  rw [h] at hmsg'
  exact absurd hmsg' not_mem_nil

/-- The transaction of the other creation. -/
def otherTx : StakingTx := { tx 0xbb with decodeMsg := fun _ _ => .ok (.createValidator other) }

end Sample

open Sample

/-- A block creates two validators that have nothing in common. -/
theorem keys_exclusive_sample :
    ∃ n x y, Reach (step otherTable) (Clear otherTable) node n ∧
      Flagged n.db 0xaa ∧ Flagged n.db 0xbb ∧
      n.db.validatorWrapperCopy otherTable.codec 0xaa = some x ∧
      n.db.validatorWrapperCopy otherTable.codec 0xbb = some y ∧
      ∀ key ∈ x.slotPubKeys, key ∉ y.slotPubKeys := by
  have hfirst : ((node.step otherTable (.stake (tx 0xaa))).map fun n =>
      (n.pending.map StakeMsg.signer,
        (n.db.validatorWrapperCopy otherTable.codec 0xaa).map fun w => w.slotPubKeys)) =
      some ([0xaa], some [5]) := by
    decide +kernel
  have hrun : ((exec (step otherTable) node
      [.stake (tx 0xaa), .stake otherTx]).map fun n =>
        (decide (Flagged n.db 0xaa ∧ Flagged n.db 0xbb),
          (n.db.validatorWrapperCopy otherTable.codec 0xaa).isSome,
          (n.db.validatorWrapperCopy otherTable.codec 0xbb).isSome)) =
      some (true, true, true) := by
    decide +kernel
  obtain ⟨n, hn, hflags, hsome⟩ := facts_of_map hrun
  obtain ⟨hu, hv⟩ := of_decide_eq_true hflags
  obtain ⟨x, hx⟩ := isSome_iff_exists.1 (mk.inj hsome).1
  obtain ⟨y, hy⟩ := isSome_iff_exists.1 (mk.inj hsome).2
  obtain ⟨n₁, hn₁, hfacts₁⟩ := map_eq_some_iff.1 hfirst
  obtain ⟨hsigners, hwrapper⟩ := mk.inj hfacts₁
  obtain ⟨w, hw, hkeys⟩ := map_eq_some_iff.1 hwrapper
  rw [exec_cons, hn₁, bind_some, exec_cons] at hn
  obtain ⟨n₂, hlast, hn⟩ := bind_eq_some_iff.1 hn
  obtain rfl : n = n₂ := (some.inj hn).symm
  have hclear : Clear otherTable n₁ (.stake otherTx) := by
    rintro msg hmsg mark u v hbrings ⟨msg', hmsg', m', rfl, rfl⟩ ⟨-, w', hw', hbears⟩
    obtain rfl : StakeMsg.createValidator other = msg := Except.ok.inj hmsg
    have hu : m'.validatorAddress = 0xaa := by
      have hsigner := mem_map_of_mem (f := StakeMsg.signer) hmsg'
      rw [hsigners] at hsigner
      exact mem_singleton.1 hsigner
    rw [hu, hw] at hw'
    cases hw'
    -- the other validator brings only the key 6
    obtain ⟨m, ⟨hm, -⟩, hmark⟩ | ⟨m, ⟨hm, -⟩, -⟩ := hbrings
    · cases hm
      cases mark with
      | key key =>
        rw [Bears, hkeys] at hbears
        have hfive : key = 5 := mem_singleton.1 hbears
        have hsix : key = 6 := mem_singleton.1 hmark
        exact absurd (hfive.symm.trans hsix) (by decide +kernel)
      | identity identity => exact absurd hmark.2.symm hmark.1
    · cases hm
  have hreach := (Reach.refl.tail (clear_first rfl) hn₁).tail hclear hlast
  exact ⟨n, x, y, hreach, hu, hv, hx, hy, (keys_exclusive_reach
    { genesis_node with coherent := fun a val h => by cases h } hreach (by decide) hu hv (.inl hx) (.inl hy)).1⟩

/-- A block that creates two validators with the same key and the same identity is accepted. -/
theorem keys_shared :
    ∃ n x y, Reach (step table) anyStep node n ∧ n.number = 1 ∧
      Flagged n.db 0xaa ∧ Flagged n.db 0xbb ∧
      n.db.validatorWrapperCopy table.codec 0xaa = some x ∧
      n.db.validatorWrapperCopy table.codec 0xbb = some y ∧
      x.slotPubKeys = [5] ∧ y.slotPubKeys = [5] ∧
      x.description.identity = "keybase" ∧ y.description.identity = "keybase" := by
  have hrun : ((exec (step table) node (block [0xaa, 0xbb])).map fun n =>
      (decide (n.number = 1 ∧ Flagged n.db 0xaa ∧ Flagged n.db 0xbb),
        [0xaa, 0xbb].map fun v => (n.db.validatorWrapperCopy table.codec v).map fun w =>
          (w.slotPubKeys, w.description.identity))) =
      some (true, [some ([5], "keybase"), some ([5], "keybase")]) := by
    decide +kernel
  obtain ⟨n, hn, hflags, hmarks⟩ := facts_of_map hrun
  obtain ⟨hnumber, hu, hv⟩ := of_decide_eq_true hflags
  obtain ⟨haa, hbb⟩ := cons.inj hmarks
  obtain ⟨x, hx, hxs⟩ := map_eq_some_iff.1 haa
  obtain ⟨y, hy, hys⟩ := map_eq_some_iff.1 (cons.inj hbb).1
  obtain ⟨hxkeys, hxid⟩ := mk.inj hxs
  obtain ⟨hykeys, hyid⟩ := mk.inj hys
  exact ⟨n, x, y, reach_of_exec hn, hnumber, hu, hv, hx, hy, hxkeys, hykeys, hxid, hyid⟩

end DyShard.Staking
