import DyShard.Chain.Signature
import DyShard.Lib.Once

/-!
# Cross links and the signers they pay

The header of a beacon block carries links to blocks of other shards, which are verified, stored by
shard and number, and paid for.  Equal neighbours pass the order check, links are stored only after
the whole header has been verified, and nothing refuses a link to shard 0.
-/

namespace DyShard.CrossShard

open Prod (mk ext)

open Consensus Chain List Option Transition

variable {K P S : Type} [DecidableEq K] [Add P] [Sub P] [Zero P]

/-! ## Verification -/

/-- The fields of a beacon header that its links need. -/
structure BeaconHeader where
  epoch : ℕ
  number : ℕ
  /-- `CrossLinks`: the links in RLP. -/
  crossLinks : List Byte
  /-- `LastCommitBitmap`: the signers of the parent. -/
  lastCommitBitmap : List Byte

/-- What a beacon node is set up with. -/
structure BeaconNode (K P S : Type) where
  crypto : Crypto K P S
  /-- `rlp.DecodeBytes` into `types.CrossLinks`. -/
  decode : List Byte → Option (List CrossLink)

/-- The stored links, by shard and block number. -/
abbrev Links := ShardID → UInt64 → Option CrossLink

/-- The errors of the verification and of the commit. -/
inductive LinkError where
  | decode
  | notSorted
  | alreadyExist
  | shardChain
  | signature (e : SigError)
  deriving DecidableEq

/-- The order of `IsSorted`, whose third clause compares the pointers of the two view numbers. -/
def CrossLink.less (a b : CrossLink) : Bool :=
  a.shardID < b.shardID || (a.shardID == b.shardID && a.blockNumber < b.blockNumber)

/-- `IsSorted`: no element is less than the one before it. -/
def isSorted (cls : List CrossLink) : Bool := (cls.zip cls.tail).all fun (a, b) => !CrossLink.less b a

/-- The loop of `VerifyBlockCrossLinks`. -/
def verifyLinks (o : Crypto K P S) (chain : ChainReader K) (links : Links) :
    EngineImpl K P → List CrossLink → Outcome LinkError Unit
  | _, [] => .ok ()
  | e, cl :: cls =>
    if (links cl.shardID cl.blockNum).isSome then .error .alreadyExist
    else if chain.shardID ≠ 0 then .error .shardChain
    else
      match verifyCrossLink o e chain cl with
      | (.ok _, e) => verifyLinks o chain links e cls
      | (.error err, _) => .error (.signature err)
      | (.panic, _) => .panic

variable (n : BeaconNode K P S)

/-- `VerifyBlockCrossLinks`. -/
def verifyBlockCrossLinks (e : EngineImpl K P) (chain : ChainReader K) (links : Links)
    (header : BeaconHeader) : Outcome LinkError Unit :=
  if header.crossLinks = [] then .ok ()
  else
    match n.decode header.crossLinks with
    | none => .error .decode
    | some crossLinks =>
      if !isSorted crossLinks then .error .notSorted
      else verifyLinks n.crypto chain links e crossLinks

/-- `WriteCrossLinks` for one link. -/
def Links.put (links : Links) (cl : CrossLink) : Links := fun shardID blockNum =>
  if shardID = cl.shardID ∧ blockNum = cl.blockNum then some cl else links shardID blockNum

/-- The links that `CommitOffChainData` writes. -/
def writeLinks (chain : ChainReader K) (links : Links) (header : BeaconHeader) :
    Outcome LinkError Links :=
  if chain.shardID = 0 ∧ chain.isCrossLink header.epoch = true ∧ header.crossLinks ≠ [] then
    match n.decode header.crossLinks with
    | none => .error .decode
    | some crossLinks =>
      if !isSorted crossLinks then .error .notSorted
      else .ok (crossLinks.foldl Links.put links)
  else .ok links

/-! ## Rewards -/

/-- The errors of the count. -/
inductive RewardError where
  | decode
  | readShardState
  | shardIDNotInSuperCommittee
  | blsPublicKeys
  | mask (e : MaskError)
  | commitSigs
  | payoutNotEqualBlockReward

/-- A slot of a committee is counted for a block, as a signer or as missing. -/
structure Signing where
  shardID : ShardID
  blockNumber : ℕ
  slot : ℕ
  signed : Bool
  deriving DecidableEq

/-- `BlockSigners`: the slots whose bit is set, and the others. -/
def blockSigners (o : Crypto K P S) (bitmap : List Byte) (parentCommittee : Committee K) :
    Outcome RewardError (List ℕ × List ℕ) :=
  match parentCommittee.blsPublicKeys o.bytesToBLSPublicKey with
  | none => .error .blsPublicKeys
  | some committerKeys =>
    match Mask.newMask committerKeys none with
    | .error e => .error (.mask e)
    | .ok mask =>
      match mask.setMask bitmap with
      | .error e => .error (.mask e)
      | .ok mask =>
        match (range parentCommittee.slots.length).mapM mask.indexEnabled with
        | .error e => .error (.mask e)
        | .ok signed =>
          let slots := range parentCommittee.slots.length
          .ok (slots.filter fun i => signed.getD i false,
            slots.filter fun i => !signed.getD i false)

/-- `BallotResult`: the signers in the committee of a shard, and those who are missing. -/
def ballotResult (o : Crypto K P S) (shardState : List (Committee K)) (shardID : ShardID)
    (bitmap : List Byte) : Outcome RewardError (List ℕ × List ℕ) :=
  match findCommitteeByID shardState shardID with
  | none => .error .shardIDNotInSuperCommittee
  | some committee => blockSigners o bitmap committee

/-- What `IncrementValidatorSigningCounts` counts for one block. -/
def blockSignings (shardID : ShardID) (blockNumber : ℕ) (payable missing : List ℕ) :
    List Signing :=
  payable.map (⟨shardID, blockNumber, ·, true⟩) ++ missing.map (⟨shardID, blockNumber, ·, false⟩)

/-- The loop over the links in `AccumulateRewardsAndCountSigs`. -/
def countLinks (o : Crypto K P S) (chain : ChainReader K) :
    List CrossLink → Outcome RewardError (List Signing)
  | [] => .ok []
  | cl :: cls =>
    if !chain.isStaking cl.epoch then countLinks o chain cls
    else
      match chain.readShardState cl.epoch with
      | none => .error .readShardState
      | some shardState => do
        let (payable, missing) ← ballotResult o shardState cl.shardID cl.bitmap
        let rest ← countLinks o chain cls
        return blockSignings cl.shardID cl.blockNumber payable missing ++ rest

/-- What is read of the parent header. -/
structure ParentHeader where
  epoch : ℕ
  number : ℕ

/-- A beacon block with what the node has when it arrives: the engine's caches and the chain. -/
structure Proposal (K P : Type) where
  engine : EngineImpl K P
  chain : ChainReader K
  header : BeaconHeader
  /-- The header that `GetHeaderByHash` finds for `ParentHash`. -/
  parent : ParentHeader
  /-- So much is staked that the base reward is negative. -/
  noReward : Bool
  /-- The commit signatures are there before the timeout. -/
  sigsReady : Bool
  isBeaconChain : chain.shardID = 0
  isChild : header.number = parent.number + 1

/-- The part of `AccumulateRewardsAndCountSigs` for the links of the header. -/
def countHeader (a : Proposal K P) : Outcome RewardError (List Signing) :=
  if a.header.crossLinks = [] then .ok []
  else
    match n.decode a.header.crossLinks with
    | none => .error .decode
    | some crossLinks => countLinks n.crypto a.chain crossLinks

/-- `ballotResultBeaconchain`: who has signed the parent. -/
def ballotResultBeaconchain (a : Proposal K P) : Outcome RewardError (List ℕ × List ℕ) :=
  match a.chain.readShardState a.parent.epoch with
  | none => .error .readShardState
  | some shardState => ballotResult n.crypto shardState 0 a.header.lastCommitBitmap

/-- `AccumulateRewardsAndCountSigs` after staking: the links, then the parent. -/
def countStaked (a : Proposal K P) : Outcome RewardError (List Signing) :=
  if a.noReward then .ok []
  else do
    let linked ← countHeader n a
    if !a.sigsReady then .error .commitSigs
    else
      let (payable, missing) ← ballotResultBeaconchain n a
      return linked ++ blockSignings 0 a.parent.number payable missing

/-- `AccumulateRewardsAndCountSigs` before staking: the signers of the parent are paid. -/
def countPreStaking (a : Proposal K P) : Outcome RewardError (List Signing) :=
  if a.parent.number = 0 then .ok []
  else
    match a.chain.readShardState a.parent.epoch with
    | none => .error .readShardState
    | some shardState =>
      if !a.sigsReady then .error .commitSigs
      else do
        let (signers, _) ← ballotResult n.crypto shardState a.chain.shardID a.header.lastCommitBitmap
        -- the reward is split among the signers: without one nothing is paid out
        if signers = [] then .error .payoutNotEqualBlockReward
        else return blockSignings 0 a.parent.number signers []

/-- The signings that `AccumulateRewardsAndCountSigs` counts and pays. -/
def countSigs (a : Proposal K P) : Outcome RewardError (List Signing) :=
  let staking := a.chain.isStaking a.header.epoch
  if a.header.number % 2 ^ 64 = 0 ∨ (staking = true ∧ a.chain.shardID ≠ 0) then
    if a.sigsReady then .ok [] else .error .commitSigs
  else if staking = true ∧ a.chain.shardID = 0 then countStaked n a
  else countPreStaking n a

/-- The stored links of a beacon node, and the number of its current block. -/
structure BeaconChain where
  links : Links
  number : ℕ

/-- A block is verified and committed. -/
def acceptLinks (s : BeaconChain) (a : Proposal K P) : Option BeaconChain :=
  if a.parent.number = s.number then
    match verifyBlockCrossLinks n a.engine a.chain s.links a.header, countSigs n a,
        writeLinks n a.chain s.links a.header with
    | .ok _, .ok _, .ok links => some ⟨links, a.header.number⟩
    | _, _, _ => none
  else none

/-! ## What an accepted header has passed -/

/-- The block that a link is about. -/
def pair (cl : CrossLink) : ShardID × UInt64 := (cl.shardID, cl.blockNum)

/-- The links of a header. -/
def linksOf (header : BeaconHeader) : List CrossLink :=
  if header.crossLinks = [] then [] else (n.decode header.crossLinks).getD []

/-- A link to the block is stored. -/
def Stored (links : Links) (k : ShardID × UInt64) : Prop := (links k.1 k.2).isSome = true

theorem stored_put (links : Links) (cl : CrossLink) (k : ShardID × UInt64) :
    Stored (links.put cl) k ↔ k = pair cl ∨ Stored links k := by
  obtain ⟨shardID, blockNum⟩ := k
  simp only [Stored, Links.put, pair, mk.injEq]
  split <;> simp [*]

theorem stored_foldl_put (cls : List CrossLink) (links : Links) (k : ShardID × UInt64) :
    Stored (cls.foldl Links.put links) k ↔ k ∈ cls.map pair ∨ Stored links k := by
  induction cls generalizing links with
  | nil => simp
  | cons cl cls ih => rw [foldl_cons, ih, stored_put, map_cons, mem_cons]; tauto

variable {o : Crypto K P S} {chain : ChainReader K} {links links' : Links} {n : BeaconNode K P S}
  {payable missing : List ℕ} {header : BeaconHeader} {cls : List CrossLink} {e : EngineImpl K P}

theorem verifyLinks_fresh
    (h : verifyLinks o chain links e cls = .ok ()) : ∀ cl ∈ cls, ¬ Stored links (pair cl) := by
  induction cls generalizing e with
  | nil => nofun
  | cons cl cls ih =>
    unfold verifyLinks at h
    split_ifs at h with hstored hshard
    intro cl' hcl'
    rcases mem_cons.1 hcl' with rfl | hcl'
    · exact hstored
    · split at h
      · exact ih h cl' hcl'
      · cases h
      · cases h

theorem linksOf_fresh (h : verifyBlockCrossLinks n e chain links header = .ok ()) :
    ∀ cl ∈ linksOf n header, ¬ Stored links (pair cl) := by
  unfold verifyBlockCrossLinks at h
  unfold linksOf
  split_ifs at h ⊢ with hempty
  · nofun
  · cases hdecode : n.decode header.crossLinks with
    | none => nofun
    | some crossLinks =>
      rw [hdecode] at h
      dsimp only at h
      split_ifs at h
      exact verifyLinks_fresh h

omit [DecidableEq K] [Add P] [Sub P] [Zero P] in
theorem stored_writeLinks (h : writeLinks n chain links header = .ok links')
    (k : ShardID × UInt64) :
    Stored links' k ↔ Stored links k ∨
      (chain.shardID = 0 ∧ chain.isCrossLink header.epoch = true ∧
        k ∈ (linksOf n header).map pair) := by
  unfold writeLinks at h
  unfold linksOf
  split_ifs at h with hguard
  · cases hdecode : n.decode header.crossLinks with
    | none => rw [hdecode] at h; cases h
    | some crossLinks =>
      rw [hdecode] at h
      dsimp only at h
      split_ifs at h
      cases h
      rw [stored_foldl_put, if_neg hguard.2.2]
      simp only [hguard.1, hguard.2.1, getD_some, true_and]
      exact or_comm
  · cases h
    by_cases hempty : header.crossLinks = []
    · simp [hempty]
    · tauto

variable {s s' : BeaconChain}

theorem acceptLinks_eq_some {a : Proposal K P} (h : acceptLinks n s a = some s') :
    a.parent.number = s.number ∧ s'.number = s.number + 1 ∧
      verifyBlockCrossLinks n a.engine a.chain s.links a.header = .ok () ∧
      writeLinks n a.chain s.links a.header = .ok s'.links := by
  unfold acceptLinks at h
  split_ifs at h with hparent
  split at h
  case h_1 hverify _ hwrite =>
    cases h
    exact ⟨hparent, hparent ▸ a.isChild, hverify, hwrite⟩
  case h_2 => cases h

/-! ## Over whole chains -/

/-- The links over all headers of a chain. -/
def recordedLinks (n : BeaconNode K P S) (chain : List (Proposal K P)) : List CrossLink :=
  chain.flatMap fun a => linksOf n a.header

/-- No shard block is linked twice. -/
def LinkedOnce (n : BeaconNode K P S) (chain : List (Proposal K P)) : Prop :=
  ((recordedLinks n chain).map pair).Nodup

/-- The signings that are counted with a block. -/
def signings (n : BeaconNode K P S) (a : Proposal K P) : List Signing :=
  match countSigs n a with
  | .ok l => l
  | _ => []

/-- No slot is counted twice for a shard block. -/
def CountedOnce (n : BeaconNode K P S) (chain : List (Proposal K P)) : Prop :=
  ((chain.flatMap (signings n)).map fun s => (s.shardID, s.blockNumber, s.slot)).Nodup

/-- The blocks of the chain that have links are in a cross link epoch. -/
def Recorded (n : BeaconNode K P S) (chain : List (Proposal K P)) : Prop :=
  ∀ a ∈ chain, linksOf n a.header ≠ [] → a.chain.isCrossLink a.header.epoch = true

/-- No header of the chain links a beacon block. -/
def Foreign (n : BeaconNode K P S) (chain : List (Proposal K P)) : Prop :=
  ∀ a ∈ chain, ∀ cl ∈ linksOf n a.header, cl.shardID ≠ 0

theorem disjoint_pairs {chain : List (Proposal K P)}
    (hrun : exec (acceptLinks n) s chain = some s') (hrecorded : Recorded n chain) :
    chain.Pairwise fun a b => Disjoint ((linksOf n a.header).map pair)
      ((linksOf n b.header).map pair) := by
  refine Once.disjoint_of_exec (fun s => Stored s.links) ?_ ?_ ?_ hrun
  · intro s a s' h k hk
    obtain ⟨cl, hcl, rfl⟩ := mem_map.1 hk
    obtain ⟨-, -, hverify, -⟩ := acceptLinks_eq_some h
    exact linksOf_fresh hverify cl hcl
  · intro s a s' h k hstored
    obtain ⟨-, -, -, hwrite⟩ := acceptLinks_eq_some h
    exact (stored_writeLinks hwrite k).2 (.inl hstored)
  · intro a ha s s' h k hk
    have hsome : linksOf n a.header ≠ [] := by
      intro hnil
      simp [hnil] at hk
    obtain ⟨-, -, -, hwrite⟩ := acceptLinks_eq_some h
    exact (stored_writeLinks hwrite k).2 (.inr ⟨a.isBeaconChain, hrecorded a ha hsome, hk⟩)

theorem disjoint_parents {chain : List (Proposal K P)}
    (hrun : exec (acceptLinks n) s chain = some s') :
    chain.Pairwise fun (a b : Proposal K P) =>
      List.Disjoint [a.parent.number] [b.parent.number] := by
  -- a block counts its parent, and then lies above it
  refine Once.disjoint_of_exec (fun s k => k < s.number) ?_ ?_ ?_ hrun
  · intro s a s' h k hk
    obtain ⟨hparent, -⟩ := acceptLinks_eq_some h
    simp_all
  · intro s a s' h k hk
    obtain ⟨-, hnumber, -⟩ := acceptLinks_eq_some h
    omega
  · intro a _ s s' h k hk
    obtain ⟨hparent, hnumber, -⟩ := acceptLinks_eq_some h
    obtain rfl := mem_singleton.1 hk
    omega

theorem linkedOnce_of_headers {chain : List (Proposal K P)}
    (hrun : exec (acceptLinks n) s chain = some s')
    (hrecorded : Recorded n chain) (hheader : ∀ a ∈ chain, ((linksOf n a.header).map pair).Nodup) :
    LinkedOnce n chain := by
  unfold LinkedOnce recordedLinks
  rw [map_flatMap]
  exact nodup_flatMap.2 ⟨hheader, disjoint_pairs hrun hrecorded⟩

/-- The block that a signing is about. -/
def Signing.block (s : Signing) : ShardID × ℕ := (s.shardID, s.blockNumber)

/-- The slot of a block that a signing is about. -/
def Signing.place (s : Signing) : ShardID × ℕ × ℕ := (s.shardID, s.blockNumber, s.slot)

/-- The linked blocks. -/
def linkedBlocks (cls : List CrossLink) : List (ShardID × ℕ) :=
  cls.map fun cl => (cl.shardID, cl.blockNumber)

/-- The blocks whose signers a beacon block may count: the linked ones and its parent. -/
def countedBlocks (n : BeaconNode K P S) (a : Proposal K P) : List (ShardID × ℕ) :=
  linkedBlocks (linksOf n a.header) ++ [(0, a.parent.number)]

/-- What is counted is about the blocks, each slot once if the blocks are different. -/
structure Counts (blocks : List (ShardID × ℕ)) (l : List Signing) : Prop where
  mem : ∀ s ∈ l, s.block ∈ blocks
  nodup : blocks.Nodup → (l.map Signing.place).Nodup

theorem Counts.nil {blocks : List (ShardID × ℕ)} : Counts blocks [] := ⟨nofun, fun _ => .nil⟩

theorem Counts.append {bs bs' : List (ShardID × ℕ)} {l l' : List Signing} (h : Counts bs l)
    (h' : Counts bs' l') : Counts (bs ++ bs') (l ++ l') := by
  constructor
  · intro s hs
    rcases mem_append.1 hs with hs | hs
    · exact mem_append_left _ (h.mem s hs)
    · exact mem_append_right _ (h'.mem s hs)
  · intro hnodup
    rw [map_append]
    refine (h.nodup hnodup.of_append_left).append (h'.nodup hnodup.of_append_right) ?_
    intro place hplace hplace'
    obtain ⟨s, hs, rfl⟩ := mem_map.1 hplace
    obtain ⟨s', hs', heq⟩ := mem_map.1 hplace'
    have hblock := h'.mem s' hs'
    have hsame : s'.block = s.block := ext (mk.inj heq).1 (mk.inj (mk.inj heq).2).1
    rw [hsame] at hblock
    exact disjoint_of_nodup_append hnodup (h.mem s hs) hblock

theorem nodup_blockSigners {bitmap : List Byte} {c : Committee K}
    (h : blockSigners o bitmap c = .ok (payable, missing)) : (payable ++ missing).Nodup := by
  unfold blockSigners at h
  repeat' split at h
  all_goals try cases h
  have hrange : (range c.slots.length).Nodup := nodup_range
  refine Nodup.append (hrange.filter _) (hrange.filter _) ?_
  intro i hi hi'
  simp_all

theorem nodup_ballotResult {shardState : List (Committee K)} {shardID : ShardID}
    {bitmap : List Byte} (h : ballotResult o shardState shardID bitmap = .ok (payable, missing)) :
    (payable ++ missing).Nodup := by
  unfold ballotResult at h
  split at h
  · cases h
  · exact nodup_blockSigners h

omit [DecidableEq K] [Add P] [Sub P] [Zero P] in
theorem counts_blockSignings {shardID : ShardID} {blockNumber : ℕ}
    (h : (payable ++ missing).Nodup) :
    Counts [(shardID, blockNumber)] (blockSignings shardID blockNumber payable missing) := by
  constructor
  · intro s hs
    rcases mem_append.1 hs with hs | hs <;>
      obtain ⟨i, -, rfl⟩ := mem_map.1 hs <;> exact mem_singleton_self _
  · intro _
    have hplaces : (blockSignings shardID blockNumber payable missing).map Signing.place =
        (payable ++ missing).map fun i => (shardID, blockNumber, i) := by
      simp [blockSignings, Signing.place, Function.comp_def]
    rw [hplaces]
    exact h.map fun i j hij => (mk.inj (mk.inj hij).2).2

theorem counts_countLinks {l : List Signing} (h : countLinks o chain cls = .ok l) :
    Counts (linkedBlocks cls) l := by
  induction cls generalizing l with
  | nil =>
    cases h
    exact .nil
  | cons cl cls ih =>
    unfold countLinks at h
    split_ifs at h
    · -- a link to a block before staking is passed over
      exact (Counts.nil : Counts [_] []).append (ih h)
    · split at h
      · cases h
      · obtain ⟨⟨payable, missing⟩, hballot, h⟩ := Outcome.bind_eq_ok.1 h
        obtain ⟨rest, hrest, h⟩ := Outcome.bind_eq_ok.1 h
        cases h
        exact (counts_blockSignings (nodup_ballotResult hballot)).append (ih hrest)

theorem counts_countHeader {a : Proposal K P} {l : List Signing} (h : countHeader n a = .ok l) :
    Counts (linkedBlocks (linksOf n a.header)) l := by
  unfold countHeader at h
  unfold linksOf
  split_ifs at h ⊢
  · cases h
    exact .nil
  · cases hdecode : n.decode a.header.crossLinks with
    | none => rw [hdecode] at h; cases h
    | some crossLinks =>
      rw [hdecode] at h
      exact counts_countLinks h

theorem counts_countStaked {a : Proposal K P} {l : List Signing} (h : countStaked n a = .ok l) :
    Counts (countedBlocks n a) l := by
  unfold countStaked at h
  split at h
  · cases h
    exact .nil
  · obtain ⟨linked, hlinked, h⟩ := Outcome.bind_eq_ok.1 h
    split at h
    · cases h
    · obtain ⟨⟨payable, missing⟩, hballot, h⟩ := Outcome.bind_eq_ok.1 h
      cases h
      unfold ballotResultBeaconchain at hballot
      split at hballot
      · cases hballot
      · exact (counts_countHeader hlinked).append (counts_blockSignings (nodup_ballotResult hballot))

theorem counts_countPreStaking {a : Proposal K P} {l : List Signing}
    (h : countPreStaking n a = .ok l) : Counts (countedBlocks n a) l := by
  unfold countPreStaking at h
  split at h
  · cases h
    exact .nil
  · split at h
    · cases h
    · split at h
      · cases h
      · obtain ⟨⟨signers, missing⟩, hballot, h⟩ := Outcome.bind_eq_ok.1 h
        dsimp only at h
        split at h
        · cases h
        · cases h
          have hnodup := (nodup_ballotResult hballot).of_append_left
          exact Counts.nil.append (counts_blockSignings (by simpa using hnodup))

theorem counts_signings {a : Proposal K P} : Counts (countedBlocks n a) (signings n a) := by
  unfold signings
  split
  case h_2 => exact .nil
  case h_1 l hcount =>
    unfold countSigs at hcount
    dsimp only at hcount
    split at hcount
    · split at hcount <;> cases hcount
      exact .nil
    · split at hcount
      · exact counts_countStaked hcount
      · exact counts_countPreStaking hcount

theorem counts_chain (chain : List (Proposal K P)) :
    Counts (chain.flatMap (countedBlocks n)) (chain.flatMap (signings n)) := by
  induction chain with
  | nil => exact .nil
  | cons a chain ih => exact counts_signings.append ih

omit [DecidableEq K] [Add P] [Sub P] [Zero P] in
theorem map_pair (cls : List CrossLink) :
    (linkedBlocks cls).map (fun k => (k.1, UInt64.ofNat k.2)) = cls.map pair := by
  simp [linkedBlocks, Function.comp_def, pair, CrossLink.blockNum]

/-- If no beacon block is linked, the slots of the linked blocks and of the parents are counted
once. -/
theorem countedOnce_of_linkedOnce {chain : List (Proposal K P)}
    (hrun : exec (acceptLinks n) s chain = some s') (hforeign : Foreign n chain)
    (h : LinkedOnce n chain) : CountedOnce n chain := by
  unfold LinkedOnce recordedLinks at h
  rw [map_flatMap] at h
  obtain ⟨hheader, hpairs⟩ := nodup_flatMap.1 h
  have hmem : ∀ a ∈ chain, ∀ k, (0, k) ∉ linkedBlocks (linksOf n a.header) := by
    intro a ha k hk
    obtain ⟨cl, hcl, heq⟩ := mem_map.1 hk
    exact hforeign a ha cl hcl (Prod.mk.inj heq).1
  refine (counts_chain (n := n) chain).nodup (nodup_flatMap.2 ⟨fun a ha => ?_, ?_⟩)
  · refine nodup_append.2 ⟨?_, nodup_singleton _, ?_⟩
    · exact Nodup.of_map _ (map_pair _ ▸ hheader a ha)
    · rintro k hk _ hk' rfl
      exact hmem a ha _ (mem_singleton.1 hk' ▸ hk)
  · refine (hpairs.and (disjoint_parents hrun)).imp_of_mem fun {a b} ha hb hab k hk hk' => ?_
    obtain ⟨hlinks, hparent⟩ := hab
    rcases mem_append.1 hk with hk | hk <;> rcases mem_append.1 hk' with hk' | hk'
    · have hin : ∀ cls : List CrossLink, k ∈ linkedBlocks cls →
          (k.1, UInt64.ofNat k.2) ∈ cls.map pair := by
        intro cls hk
        exact map_pair cls ▸ mem_map_of_mem hk
      exact hlinks (hin _ hk) (hin _ hk')
    · exact hmem a ha _ (mem_singleton.1 hk' ▸ hk)
    · exact hmem b hb _ (mem_singleton.1 hk ▸ hk')
    · have hsame := (mem_singleton.1 hk).symm.trans (mem_singleton.1 hk')
      exact hparent (mem_singleton_self _) (mem_singleton.2 (Prod.mk.inj hsame).2)

/-- **When every shard block is rewarded once**: no header links a block twice. -/
theorem linkedOnce_iff {n : BeaconNode K P S} {chain : List (Proposal K P)} {s s' : BeaconChain}
    (hrun : exec (acceptLinks n) s chain = some s') (hrecorded : Recorded n chain)
    (hforeign : Foreign n chain) :
    LinkedOnce n chain ∧ CountedOnce n chain ↔
      ∀ a ∈ chain, ((linksOf n a.header).map pair).Nodup := by
  constructor
  · rintro ⟨hlinked, -⟩
    unfold LinkedOnce recordedLinks at hlinked
    rw [map_flatMap] at hlinked
    exact (nodup_flatMap.1 hlinked).1
  · intro hheader
    have hlinked := linkedOnce_of_headers hrun hrecorded hheader
    exact ⟨hlinked, countedOnce_of_linkedOnce hrun hforeign hlinked⟩

/-! ## Links of a small beacon chain -/

namespace Repeated

/-- A link to the block with this number, signed by the whole committee of its shard. -/
def link (shardID : ShardID) (blockNumber : ℕ) : CrossLink where
  hash := 7
  blockNumber
  viewID := 5
  signature :=
    Chain.constructCommitPayload (fun _ => true) 1 7 (.ofNat blockNumber) 5 ++ replicate 48 0
  bitmap := [0xFF, 0x0F]
  shardID
  epoch := 1

/-- A byte of the header is a link: its first half the shard, its second the block number. -/
def node : BeaconNode ℕ ℤ (List Byte) where
  crypto := { Double.crypto with verifyHash := fun sig _ payload => sig.take 48 == payload }
  decode bytes := some (bytes.map fun b => link (.ofNat (b.toNat / 16)) (b.toNat % 16))

/-- A block of the staking era on block `number`, with these links. -/
def proposal (number : ℕ) (crossLinks : List Byte) : Proposal ℕ ℤ where
  engine := newEngine
  chain := { Double.chain with
    isStaking := fun _ => true
    readShardState := fun _ =>
      some [Rounding.winners, { Rounding.winners with shardID := 1 }] }
  header := ⟨1, number + 1, crossLinks, [0xFF, 0x0F]⟩
  parent := ⟨1, number⟩
  noReward := false
  sigsReady := true
  isBeaconChain := rfl
  isChild := rfl

/-- Block 8 is the current one, and no link is stored. -/
def start : BeaconChain := ⟨fun _ _ => none, 8⟩

/-- Two blocks, with links to the blocks 5 and 6, and to block 7, of shard 1. -/
def twoBlocks : List (Proposal ℕ ℤ) := [proposal 8 [0x15, 0x16], proposal 9 [0x17]]

end Repeated

open Repeated (node start proposal twoBlocks)

/-- Two blocks with three links are accepted, and every block is rewarded once. -/
theorem linkedOnce_twoBlocks : ∃ s',
    exec (acceptLinks node) start twoBlocks = some s' ∧ (recordedLinks node twoBlocks).length = 3 ∧
      LinkedOnce node twoBlocks ∧ CountedOnce node twoBlocks := by
  obtain ⟨s', hrun⟩ := isSome_iff_exists.1 (by decide +kernel :
    (exec (acceptLinks node) start twoBlocks).isSome)
  refine ⟨s', hrun, by decide +kernel, (linkedOnce_iff hrun ?_ ?_).2 ?_⟩
  · simp [Recorded, twoBlocks, proposal, Double.chain]
  · unfold Foreign
    decide +kernel
  · decide +kernel

/-- **A link is paid twice**: a header with the same link two times is accepted. -/
theorem link_paid_twice :
    (exec (acceptLinks node) start [proposal 8 [0x15, 0x15]]).isSome = true ∧
      ¬ LinkedOnce node [proposal 8 [0x15, 0x15]] ∧
      (signings node (proposal 8 [0x15, 0x15])).count ⟨1, 5, 0, true⟩ = 2 ∧
      (exec (acceptLinks node) start [proposal 8 [0x08]]).isSome = true ∧
      (signings node (proposal 8 [0x08])).count ⟨0, 8, 0, true⟩ = 2 := by
  refine ⟨?_, ?_, ?_, ?_, ?_⟩
  · decide +kernel
  · unfold LinkedOnce
    decide +kernel
  · decide +kernel
  · decide +kernel
  · decide +kernel

end DyShard.CrossShard
