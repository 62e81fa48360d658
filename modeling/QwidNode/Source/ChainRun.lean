import QwidNode.Source.Linked

/-!
# Runs of blocks and rewinds

A run starts from a node with a genesis block and its snapshots. Blocks that stand on the tip are
checked and applied, and stored or refused at any point; rewinds go to any height at or below the
tip; in between the node may prune snapshots and do anything that leaves the ledger and the stored
blocks alone.
-/
namespace QwidNode.Source
open Lib AList Word
variable {σ : Type} {env : Env σ} {s t u : Node σ}
variable {α : Type} {db : Db σ} {k : Int64} {newBlock lastBlock b block : Block}

/-- The genesis block and its snapshots are there, and their coins add up to its supply. -/
def Db.Grounded (db : Db σ) : Prop :=
  ∃ bl accounts staking, db.loadBlock 0 = some bl ∧
    db.accountsAt.lookup 0 = some (.whole accounts) ∧
    db.stakingAt.lookup 0 = some (some staking) ∧
    (loadedLedger accounts staking).getSupplyInAccounts +
      (loadedLedger accounts staking).getSupplyInStakedAccounts.1 +
      (loadedLedger accounts staking).getSupplyInStakedAccounts.2 + bl.blockFee - bl.supply = 0

/-- The node is at the top of a linked chain, its snapshots decode, and the genesis ones are
there. -/
structure Sound (env : Env σ) (s : Node σ) : Prop where
  chain : s.db.chain.LinkedTo (blockView env) s.height
  small : s.height.toInt < 2 ^ 62
  accounts : ∀ k stored, s.db.accountsAt.lookup k = some stored → ∃ whole, stored = .whole whole
  staking : ∀ k stored, s.db.stakingAt.lookup k = some stored → ∃ whole, stored = some whole
  ground : s.db.Grounded

/-- Nothing happens to the ledger, the stored blocks and the height. Snapshots may be pruned,
except those of the genesis block (`account/snapshotRetention.go`). -/
structure Idle (s t : Node σ) : Prop where
  ledger : t.ledger = s.ledger
  height : t.height = s.height
  chain : t.db.chain = s.db.chain
  accountsAt : ∀ k x, t.db.accountsAt.lookup k = some x → s.db.accountsAt.lookup k = some x
  stakingAt : ∀ k x, t.db.stakingAt.lookup k = some x → s.db.stakingAt.lookup k = some x
  accountsGround : t.db.accountsAt.lookup 0 = s.db.accountsAt.lookup 0
  stakingGround : t.db.stakingAt.lookup 0 = s.db.stakingAt.lookup 0

/-- A block is accepted on the tip, stored on it and becomes the tip, with its snapshots. -/
structure Extended (env : Env σ) (s : Node σ) (newBlock lastBlock block : Block) (t : Node σ) :
    Prop where
  tip : s.db.loadBlock s.height = some lastBlock
  next : newBlock.height = s.height + 1
  base : checkBaseBlock env newBlock lastBlock = .ok ()
  accepted : ∃ u, checkBlockAndTransferFunds env newBlock lastBlock s = .ok block u ∧
    t.ledger = u.ledger
  here : t.db.loadBlock newBlock.height = some block
  elsewhere : ∀ k, k ≠ newBlock.height → t.db.loadBlock k = s.db.loadBlock k
  height : t.height = newBlock.height
  accountsAt : t.db.accountsAt = s.db.accountsAt.insert newBlock.height
    (.whole (t.ledger.accounts, t.ledger.recoveryBinds))
  stakingAt : t.db.stakingAt = s.db.stakingAt.insert newBlock.height
    (some (t.ledger.staking, t.ledger.stakeChangedAt))

/-- The chain is cut at a target whose snapshots are loaded; what the EVM journal then undoes
is `env.evmReverted`. -/
structure Rewound (env : Env σ) (s : Node σ) (target : Int64)
    (accounts : FinMap AddressBytes Account × FinMap Hash RecoveryBind)
    (staking : FinMap (Nat × AddressBytes) StakingAccount × FinMap Nat Int64) (t : Node σ) :
    Prop where
  nonneg : 0 ≤ target
  below : target ≤ s.height
  accountsAt : s.db.accountsAt.lookup target = some (.whole accounts)
  stakingAt : s.db.stakingAt.lookup target = some (some staking)
  ledger : ∃ evm, t.ledger = (env.evmReverted target evm (loadedLedger accounts staking)).2
  height : t.height = target
  low : ∀ k, k ≤ target → t.db.loadBlock k = s.db.loadBlock k
  high : ∀ k, target < k → t.db.loadBlock k = none
  accountsLow : ∀ k, k ≤ target → t.db.accountsAt.lookup k = s.db.accountsAt.lookup k
  stakingLow : ∀ k, k ≤ target → t.db.stakingAt.lookup k = s.db.stakingAt.lookup k

/-- What a step of a run does to the chain, its snapshots and the ledger. -/
inductive ChainStep (env : Env σ) (s t : Node σ) : Prop where
  | extended {newBlock lastBlock block : Block} (how : Extended env s newBlock lastBlock block t)
  | rewound {target : Int64} {accounts : FinMap AddressBytes Account × FinMap Hash RecoveryBind}
      {staking : FinMap (Nat × AddressBytes) StakingAccount × FinMap Nat Int64}
      (how : Rewound env s target accounts staking t)
  | idle (how : Idle s t)

/-- Runs of blocks offered on the tip, rewinds, and anything that leaves the chain alone. -/
inductive ChainRun (env : Env σ) (start : Node σ) : Node σ → Prop where
  | start : ChainRun env start start
  | block {s : Node σ} {newBlock lastBlock : Block} (before : ChainRun env start s)
      (fault : StoreFault) (tip : s.db.loadBlock s.height = some lastBlock)
      (next : newBlock.height = s.height + 1) (small : s.height.toInt + 1 < 2 ^ 62)
      (base : checkBaseBlock env newBlock lastBlock = .ok ()) :
      ChainRun env start (s.applyAndStore env fault newBlock lastBlock).1
  | rewind {s : Node σ} (before : ChainRun env start s) (height : Int64)
      (down : height ≤ s.height) :
      ChainRun env start (s.resetAccountsAndBlocksSync env height)
  | between {s t : Node σ} (before : ChainRun env start s) (idle : Idle s t) :
      ChainRun env start t

theorem Db.Grounded.restorable (ground : db.Grounded) : db.restorable 0 = true := by
  obtain ⟨_, _, _, -, accounts, staking, -⟩ := ground
  simp [Db.restorable, accounts, staking]

theorem Db.Grounded.delta {s : Node σ} (ground : s.db.Grounded) :
    (supplyInvariantDelta s 0).2 = some 0 := by
  obtain ⟨bl, accounts, staking, block, stored, shards, sums⟩ := ground
  unfold supplyInvariantDelta Node.loadAccounts
  simp only [block, stored, Stored.load]
  unfold Node.loadStakingAccounts
  simp only [shards]
  exact congrArg some sums

theorem rewindTarget_isSome (floor : Int64) (n : Nat) (s : Node σ) (ground : s.db.Grounded) :
    ∃ target, (rewindTarget floor (n + 1) s).2 = some target := by
  induction n generalizing s with
  | zero =>
    unfold rewindTarget
    have zero : Int64.ofNat 0 = 0 := rfl
    simp only [zero, ground.restorable, Bool.true_eq_false, if_false]
    split
    · exact ⟨0, rfl⟩
    · have audit := ground.delta
      cases run : supplyInvariantDelta s 0 with
      | mk u result =>
        rw [run] at audit
        cases audit
        exact ⟨0, rfl⟩
  | succ n ih =>
    unfold rewindTarget
    dsimp only
    split
    · exact ih s ground
    · split
      · exact ⟨_, rfl⟩
      · have audited := ledgerOnly_supplyInvariantDelta s (Int64.ofNat (n + 1))
        cases run : supplyInvariantDelta s (Int64.ofNat (n + 1)) with
        | mk u result =>
          rw [run] at audited
          cases result with
          | none => exact ⟨_, rfl⟩
          | some delta =>
            dsimp only
            split
            · exact ⟨_, rfl⟩
            · exact ih u (audited.db ▸ ground)

theorem Node.loadAccounts_whole {height : Int64}
    {whole : FinMap AddressBytes Account × FinMap Hash RecoveryBind}
    (stored : s.db.accountsAt.lookup height = some (.whole whole)) :
    (s.loadAccounts height).2 = true := by
  unfold loadAccounts
  rw [stored]
  rfl

theorem Node.loadStakingAccounts_whole {height : Int64}
    {whole : FinMap (Nat × AddressBytes) StakingAccount × FinMap Nat Int64}
    (stored : s.db.stakingAt.lookup height = some (some whole)) :
    (s.loadStakingAccounts height).2 = true := by
  unfold loadStakingAccounts
  rw [stored]

theorem Node.reset_goes_through (env : Env σ) (ground : s.db.Grounded)
    (accounts : ∀ k stored, s.db.accountsAt.lookup k = some stored → ∃ whole, stored = .whole whole)
    (staking : ∀ k stored, s.db.stakingAt.lookup k = some stored → ∃ whole, stored = some whole)
    (height : Int64) : (s.reset env height).2 ≠ .noTarget ∧
      (s.reset env height).2 ≠ .accountsFail ∧ (s.reset env height).2 ≠ .stakingFail := by
  obtain ⟨target, found⟩ := rewindTarget_isSome
    (rewindHeight height - Common.maxStartupRewind) (rewindHeight height).toNatClampNeg s ground
  have searched : LedgerOnly s (consistentRewindTarget s (rewindHeight height)).1 :=
    ledgerOnly_rewindTarget _ _ s
  unfold reset
  cases search : consistentRewindTarget s (rewindHeight height) with
  | mk u result =>
    rw [search] at searched
    have reached : result = some target := by
      rw [← found]
      exact (congrArg Prod.snd search).symm
    subst reached
    obtain ⟨restorable, -⟩ := rewindTarget_some search
    simp only [Db.restorable, Bool.and_eq_true, Option.isSome_iff_exists] at restorable
    obtain ⟨⟨-, storedAccounts, inAccounts⟩, storedStaking, inStaking⟩ := restorable
    obtain ⟨wholeAccounts, rfl⟩ := accounts target _ inAccounts
    obtain ⟨wholeStaking, rfl⟩ := staking target _ inStaking
    have first : (u.loadAccounts target).2 = true :=
      loadAccounts_whole (by rw [searched.db]; exact inAccounts)
    have accountsOnly := u.ledgerOnly_loadAccounts target
    cases load : u.loadAccounts target with
    | mk v ok =>
      rw [load] at first accountsOnly
      cases first
      have second : (v.loadStakingAccounts target).2 = true :=
        loadStakingAccounts_whole (by rw [accountsOnly.db, searched.db]; exact inStaking)
      cases load' : v.loadStakingAccounts target with
      | mk w ok' =>
        rw [load'] at second
        cases second
        obtain ⟨dexLoaded, evmLoaded, outcome, -⟩ := rewindTo_spec env w target
        simp only [load, load', outcome]
        exact ⟨nofun, nofun, nofun⟩

theorem lookup_downTo_erase {k target : Int64} (low : k ≤ target) (top : Int64) (m : FinMap Int64 α) :
    (downTo (fun m h => m.erase h) target top m).lookup k = m.lookup k := by
  obtain ⟨n, count⟩ : ∃ n, (top.toInt - target.toInt).toNat = n := ⟨_, rfl⟩
  induction n generalizing top m with
  | zero =>
    have reached : top ≤ target := le_iff.mpr (by omega)
    rw [downTo_of_le _ reached]
  | succ n ih =>
    have above : target < top := lt_iff.mpr (by omega)
    have range := toInt_range top
    have lower := toInt_range target
    have exact := toInt_pred (a := top) (by omega)
    have other : k ≠ top := by
      rintro rfl
      exact absurd above (Int64.not_lt.mpr low)
    rw [downTo_step _ above, ih (top - 1) (m.erase top) (by omega), lookup_erase_ne other]

theorem lookup_of_downTo_erase {k target : Int64} {v : α} (top : Int64) (m : FinMap Int64 α)
    (found : (downTo (fun m h => m.erase h) target top m).lookup k = some v) :
    m.lookup k = some v := by
  unfold downTo at found
  generalize (List.range (top.toInt - target.toInt).toNat).map (fun i => top - Int64.ofNat i) =
    heights at found
  induction heights generalizing m with
  | nil => exact found
  | cons h rest ih =>
    have before := ih (m.erase h) found
    by_cases same : k = h
    · rw [same, lookup_erase] at before
      cases before
    · rwa [lookup_erase_ne same] at before

/-- The node holds the chain and the snapshots of another, whatever its ledger is. A failed
application leaves such a node, and so does a block whose height could not be stored. -/
structure SameStorage (env : Env σ) (s u : Node σ) : Prop where
  chain : u.db.chain.LinkedTo (blockView env) s.height
  loads : ∀ k, u.db.loadBlock k = s.db.loadBlock k
  accountsAt : u.db.accountsAt = s.db.accountsAt
  stakingAt : u.db.stakingAt = s.db.stakingAt

theorem Sound.sameStorage (sound : Sound env s) (kept : StorageKept s u) :
    SameStorage env s u where
  chain := kept.chain ▸ sound.chain
  loads k := by rw [Db.loadBlock_eq, Db.loadBlock_eq, kept.chain]
  accountsAt := congrArg (·.accountsAt) kept.stored
  stakingAt := congrArg (·.stakingAt) kept.stored

theorem Db.Grounded.of_same {db db' : Db σ} (ground : db.Grounded)
    (loads : db'.loadBlock 0 = db.loadBlock 0)
    (accounts : db'.accountsAt.lookup 0 = db.accountsAt.lookup 0)
    (staking : db'.stakingAt.lookup 0 = db.stakingAt.lookup 0) : db'.Grounded := by
  obtain ⟨bl, whole, shards, block, stored, held, sums⟩ := ground
  exact ⟨bl, whole, shards, loads.trans block, accounts.trans stored, staking.trans held, sums⟩

theorem Sound.reset (sound : Sound env s) (same : SameStorage env s u) (height : Int64)
    (down : height ≤ s.height) :
    ∃ target accounts staking,
      Rewound env s target accounts staking (u.resetAccountsAndBlocksSync env height) ∧
        Sound env (u.resetAccountsAndBlocksSync env height) := by
  have ground : u.db.Grounded := sound.ground.of_same (same.loads 0)
    (by rw [same.accountsAt]) (by rw [same.stakingAt])
  obtain ⟨noTarget, noAccounts, noStaking⟩ := Node.reset_goes_through env ground
    (same.accountsAt ▸ sound.accounts) (same.stakingAt ▸ sound.staking) height
  unfold Node.resetAccountsAndBlocksSync
  rcases Node.reset_cases env u height with ⟨stopped, -⟩ |
    ⟨target, accounts, staking, -, -, ⟨nonneg, low⟩, whole, shards, rewound⟩
  · rcases stopped with stopped | stopped | stopped
    · exact absurd stopped noTarget
    · exact absurd stopped noAccounts
    · exact absurd stopped noStaking
  · have below : target ≤ s.height := by
      unfold rewindHeight at low
      split at low
      · exact Int64.le_trans low sound.chain.nonneg
      · exact Int64.le_trans low down
    have loaded : { u with ledger := loadedLedger accounts staking }.db.chain.LinkedTo
        (blockView env) s.height := same.chain
    obtain ⟨removed, top, linked, -, top_le⟩ := rewindTo_chain loaded sound.small nonneg
    obtain ⟨dexLoaded, evmLoaded, -, spec⟩ :=
      Node.rewindTo_spec env { u with ledger := loadedLedger accounts staking } target
    rw [rewound]
    generalize (Node.rewindTo env { u with ledger := loadedLedger accounts staking }
      target).1 = t at removed linked spec ⊢
    obtain ⟨lastAccounts, accountsAt⟩ := spec.accountsAt
    obtain ⟨lastStaking, stakingAt⟩ := spec.stakingAt
    rw [same.accountsAt] at accountsAt whole
    rw [same.stakingAt] at stakingAt shards
    have kept : ∀ k, k ≤ target → t.db.loadBlock k = s.db.loadBlock k :=
      fun k under => (removed.low k under).trans (same.loads k)
    -- the block at the target stays, so the cut chain reaches it
    have reached : top = target := by
      obtain ⟨b, found⟩ := sound.chain.load_isSome nonneg below
      have here := (linked.load_facts ((kept target (Int64.le_refl target)).trans found)).2.2.2.2
      exact Int64.le_antisymm top_le here
    have cut : Rewound env s target accounts staking t :=
      { nonneg := nonneg
        below := below
        accountsAt := whole
        stakingAt := shards
        ledger := ⟨u.evm, spec.ledger⟩
        height := spec.height
        low := kept
        high := removed.high
        accountsLow := fun k under => by rw [accountsAt, lookup_downTo_erase under]
        stakingLow := fun k under => by rw [stakingAt, lookup_downTo_erase under] }
    have smaller : target.toInt < 2 ^ 62 := by
      have small := sound.small
      rw [le_iff] at below
      omega
    refine ⟨target, accounts, staking, cut, ?_, ?_, ?_, ?_, ?_⟩
    · rw [spec.height, ← reached]
      exact linked
    · rw [spec.height]
      exact smaller
    · intro k stored found
      rw [accountsAt] at found
      exact sound.accounts k stored (lookup_of_downTo_erase _ _ found)
    · intro k stored found
      rw [stakingAt] at found
      exact sound.staking k stored (lookup_of_downTo_erase _ _ found)
    · exact sound.ground.of_same (kept 0 nonneg) (cut.accountsLow 0 nonneg) (cut.stakingLow 0 nonneg)

theorem Node.commitHeight_snapshots (env : Env σ) (s : Node σ) (height : Int64) :
    (s.commitHeight env height).db.accountsAt = s.db.accountsAt.insert height
        (.whole (s.ledger.accounts, s.ledger.recoveryBinds)) ∧
      (s.commitHeight env height).db.stakingAt = s.db.stakingAt.insert height
        (some (s.ledger.staking, s.ledger.stakeChangedAt)) := by
  unfold commitHeight Db.applyWrites snapshotWrites
  simp only [List.foldl_cons, List.foldl_nil]
  split
  · exact ⟨rfl, rfl⟩
  · exact ⟨rfl, rfl⟩

theorem Sound.fits (binds : HashBinds env) (sound : Sound env s)
    (tip : s.db.loadBlock s.height = some lastBlock) (next : newBlock.height = s.height + 1)
    (small : s.height.toInt + 1 < 2 ^ 62) (base : checkBaseBlock env newBlock lastBlock = .ok ()) :
    Fits env s s.height newBlock ∧ newBlock.height.toInt = s.height.toInt + 1 := by
  have nonneg := sound.chain.nonneg
  rw [le_iff, toInt_zero] at nonneg
  have exact := toInt_succ (a := s.height) (by omega)
  have positive : 0 < newBlock.height := by
    rw [next, lt_iff, exact, toInt_zero]
    omega
  have parent : newBlock.previousHash = lastBlock.blockHash := by
    unfold checkBaseBlock at base
    simp only [ite_error_eq_ok, not_and, not_not] at base
    exact (base.2.2.2.2.1 positive).symm
  refine ⟨?_, by rw [next, exact]⟩
  exact
    { hashed := binds.checked _ _ (checkBaseBlock_valid base)
      stands := by
        refine ⟨positive, lastBlock, ?_, parent⟩
        change s.db.chain.load (newBlock.height - 1) = some lastBlock
        rw [next, Int64.add_sub_cancel]
        exact tip
      lower := by
        rw [next, le_iff, exact]
        omega
      upper := .inr next
      small := by
        rw [next, exact]
        exact small }

theorem Fits.storeBlock_error (binds : HashBinds env) {top : Int64} {fault : StoreFault} {e : Error}
    (fits : Fits env s top b) (new : top < b.height)
    (chain : s.db.chain.LinkedTo (blockView env) top) (run : storeBlock fault b s = .error e t) :
    t.db.chain.LinkedTo (blockView env) top ∧ (∀ k, t.db.loadBlock k = s.db.loadBlock k) ∧
      t.db.accountsAt = s.db.accountsAt ∧ t.db.stakingAt = s.db.stakingAt := by
  refine ⟨((storeBlock_linked binds fault fits chain).1 e t run).1, ?_⟩
  cases fault with
  | none => cases run
  | atBlock =>
    cases run
    exact ⟨fun _ => rfl, rfl, rfl⟩
  | atHeight =>
    cases run
    refine ⟨fun k => ?_, rfl, rfl⟩
    by_cases other : k = b.height
    · have absent : s.db.blockByHeight.lookup k = none := by
        cases indexed : s.db.blockByHeight.lookup k with
        | none => rfl
        | some hash =>
          have stored := ((chain.stored k).mp (by
            change (s.db.blockByHeight.lookup k).isSome = true
            rw [indexed]
            rfl)).2
          rw [other] at stored
          exact absurd new (Int64.not_lt.mpr stored)
      have before : s.db.loadBlock k = none := by rw [Db.loadBlock, absent]; rfl
      rw [before]
      change (s.db.blockByHeight.lookup k).bind _ = none
      rw [absent]
      rfl
    · exact chain.load_put binds.height fits.hashed other

theorem forall_lookup_insert {P : α → Prop} {m : FinMap Int64 α} {h : Int64} {v : α}
    (old : ∀ k x, m.lookup k = some x → P x) (new : P v) (k : Int64) (x : α)
    (found : (m.insert h v).lookup k = some x) : P x := by
  by_cases same : k = h
  · rw [same, lookup_insert] at found
    cases found
    exact new
  · rw [lookup_insert_ne same] at found
    exact old k x found

theorem Sound.applyAndStore (binds : HashBinds env) (sound : Sound env s) (fault : StoreFault)
    (tip : s.db.loadBlock s.height = some lastBlock) (next : newBlock.height = s.height + 1)
    (small : s.height.toInt + 1 < 2 ^ 62) (base : checkBaseBlock env newBlock lastBlock = .ok ()) :
    ChainStep env s (s.applyAndStore env fault newBlock lastBlock).1 ∧
      Sound env (s.applyAndStore env fault newBlock lastBlock).1 := by
  obtain ⟨fits, exact⟩ := sound.fits binds tip next small base
  have last : lastBlock.height = s.height := (sound.chain.load_facts tip).1
  have cuts : ∀ {u : Node σ}, SameStorage env s u →
      ChainStep env s (u.resetAccountsAndBlocksSync env lastBlock.height) ∧
        Sound env (u.resetAccountsAndBlocksSync env lastBlock.height) := by
    intro u same
    obtain ⟨target, accounts, staking, cut, sound'⟩ :=
      sound.reset same lastBlock.height (last ▸ Int64.le_refl _)
    exact ⟨.rewound cut, sound'⟩
  have keeps := storageKept_checkBlockAndTransferFunds env newBlock lastBlock
  unfold Node.applyAndStore
  cases run : checkBlockAndTransferFunds env newBlock lastBlock s with
  | error e u => exact cuts (sound.sameStorage (keeps.of_error run))
  | ok block u =>
    have kept := keeps.of_ok run
    obtain ⟨reward, totalFee, _, _, _, via⟩ := checkBlockAndTransferFunds_ok run
    have filled := via.filled
    have height : block.height = newBlock.height := by rw [filled]
    have chain : u.db.chain.LinkedTo (blockView env) s.height := kept.chain ▸ sound.chain
    have fits' : Fits env u s.height block := by
      rw [filled]
      exact fits.filled binds kept _
    have new : s.height < block.height := by
      rw [height, lt_iff, exact]
      omega
    cases store : storeBlock fault block u with
    | error e v =>
      obtain ⟨linked, loads, accountsAt, stakingAt⟩ :=
        fits'.storeBlock_error binds new chain store
      have same := sound.sameStorage kept
      simp only [store]
      exact cuts ⟨linked, fun k => (loads k).trans (same.loads k),
        accountsAt.trans same.accountsAt, stakingAt.trans same.stakingAt⟩
    | ok _ v =>
      obtain ⟨linked, here, elsewhere, -⟩ := (storeBlock_linked binds fault fits' chain).2 v store
      have stored : v.ledger = u.ledger ∧ v.db.accountsAt = u.db.accountsAt ∧
          v.db.stakingAt = u.db.stakingAt := by
        cases fault with
        | none =>
          cases store
          exact ⟨rfl, rfl, rfl⟩
        | atBlock => cases store
        | atHeight => cases store
      obtain ⟨ledger, keptAccounts, keptStaking⟩ := stored
      have same := sound.sameStorage kept
      have commits := v.commitHeight_snapshots env block.height
      rw [keptAccounts, same.accountsAt, height] at commits
      rw [keptStaking, same.stakingAt] at commits
      have loads : ∀ k, (v.commitHeight env block.height).db.loadBlock k = v.db.loadBlock k :=
        fun k => by rw [Db.loadBlock_eq, Node.chain_commitHeight, ← Db.loadBlock_eq]
      simp only [store]
      rw [height] at here elsewhere loads linked ⊢
      have step : Extended env s newBlock lastBlock block (v.commitHeight env newBlock.height) :=
        { tip := tip
          next := next
          base := base
          accepted := ⟨u, run, ledger⟩
          here := (loads _).trans here
          elsewhere := fun k other => (loads k).trans ((elsewhere k other).trans (same.loads k))
          height := rfl
          accountsAt := commits.1
          stakingAt := commits.2 }
      refine ⟨.extended step, ?_, ?_, ?_, ?_, ?_⟩
      · rw [Node.chain_commitHeight]
        exact linked
      · exact exact ▸ small
      · rw [step.accountsAt]
        exact forall_lookup_insert sound.accounts ⟨_, rfl⟩
      · rw [step.stakingAt]
        exact forall_lookup_insert sound.staking ⟨_, rfl⟩
      · have above : 0 ≠ newBlock.height := by
          intro zero
          have nonneg := sound.chain.nonneg
          rw [le_iff, toInt_zero] at nonneg
          rw [← zero, toInt_zero] at exact
          omega
        refine sound.ground.of_same (step.elsewhere 0 above) ?_ ?_
        · rw [step.accountsAt, lookup_insert_ne above]
        · rw [step.stakingAt, lookup_insert_ne above]

theorem Sound.idle (sound : Sound env s) (idle : Idle s t) : Sound env t := by
  refine ⟨?_, idle.height ▸ sound.small, fun k x found => sound.accounts k x (idle.accountsAt k x found),
    fun k x found => sound.staking k x (idle.stakingAt k x found), ?_⟩
  · rw [idle.chain, idle.height]
    exact sound.chain
  · refine sound.ground.of_same ?_ idle.accountsGround idle.stakingGround
    rw [Db.loadBlock_eq, Db.loadBlock_eq, idle.chain]

theorem pred_le {k top j : Int64} (positive : 0 < k) (low : k ≤ top) (under : j ≤ k - 1) :
    j ≤ top := by
  have range := toInt_range k
  rw [lt_iff, toInt_zero] at positive
  have exact := toInt_pred (a := k) (by omega)
  rw [le_iff] at low under ⊢
  omega

theorem Extended.heights (sound : Sound env s) (step : Extended env s newBlock lastBlock block t) :
    newBlock.height.toInt = s.height.toInt + 1 ∧ newBlock.height - 1 = s.height ∧
      newBlock.height ≠ 0 ∧ ∀ k, k ≤ newBlock.height → k ≤ s.height ∨ k = newBlock.height := by
  have nonneg := sound.chain.nonneg
  have small := sound.small
  rw [le_iff, toInt_zero] at nonneg
  have next : newBlock.height.toInt = s.height.toInt + 1 := by
    rw [step.next]
    exact toInt_succ (by omega)
  refine ⟨next, by rw [step.next, Int64.add_sub_cancel], ?_, ?_⟩
  · intro zero
    rw [zero, toInt_zero] at next
    omega
  · intro k low
    by_cases here : k = newBlock.height
    · exact .inr here
    · refine .inl (le_iff.mpr ?_)
      rw [le_iff] at low
      have : k.toInt ≠ newBlock.height.toInt := fun same => here (Int64.toInt_inj.mp same)
      omega

theorem Extended.below (sound : Sound env s) (step : Extended env s newBlock lastBlock block t)
    (low : k ≤ s.height) : t.db.loadBlock k = s.db.loadBlock k := by
  refine step.elsewhere k ?_
  rintro rfl
  have next := (step.heights sound).1
  rw [le_iff] at low
  omega

theorem Idle.loads (idle : Idle s t) (k : Int64) : t.db.loadBlock k = s.db.loadBlock k := by
  rw [Db.loadBlock_eq, Db.loadBlock_eq, idle.chain]

theorem Extended.filled (step : Extended env s newBlock lastBlock block t) :
    block = { newBlock with blockFee := block.blockFee } := by
  obtain ⟨u, run, -⟩ := step.accepted
  obtain ⟨_, _, _, _, _, via⟩ := checkBlockAndTransferFunds_ok run
  conv_lhs => rw [via.filled]
  rw [via.filled]

theorem ChainStep.pairs {Q : Db σ → Int64 → Block → Block → Prop} (sound : Sound env s)
    (sound' : Sound env t) (step : ChainStep env s t)
    (congr : ∀ {db db' : Db σ} {k b p}, (∀ j, j ≤ k - 1 → db'.loadBlock j = db.loadBlock j) →
      Q db k b p → Q db' k b p)
    (new : ∀ {newBlock lastBlock block}, Extended env s newBlock lastBlock block t →
      Q t.db newBlock.height block lastBlock)
    (old : ∀ k b p, 0 < k → s.db.loadBlock k = some b → s.db.loadBlock (k - 1) = some p →
      Q s.db k b p) (k : Int64) (b p : Block) (positive : 0 < k)
    (stored : t.db.loadBlock k = some b) (parent : t.db.loadBlock (k - 1) = some p) :
    Q t.db k b p := by
  have low := (sound'.chain.load_facts stored).2.2.2.2
  -- up to a height at which both nodes hold the same blocks
  have keeps : ∀ top, k ≤ top → (∀ j, j ≤ top → t.db.loadBlock j = s.db.loadBlock j) →
      Q t.db k b p := by
    intro top under same
    rw [same k under] at stored
    rw [same (k - 1) (pred_le positive under (Int64.le_refl _))] at parent
    exact congr (fun j low' => same j (pred_le positive under low')) (old k b p positive stored parent)
  cases step with
  | extended how =>
    obtain ⟨-, back, -, between⟩ := how.heights sound
    rw [how.height] at low
    rcases between k low with under | rfl
    · exact keeps s.height under fun j low' => how.below sound low'
    · rw [how.here] at stored
      cases stored
      rw [back, how.below sound (Int64.le_refl _), how.tip] at parent
      cases parent
      exact new how
  | rewound how => exact keeps _ (how.height ▸ low) how.low
  | idle how => exact keeps t.height low fun j _ => how.loads j

theorem ChainRun.keeps (binds : HashBinds env) {start : Node σ} {P : Node σ → Prop}
    (sound : Sound env start) (base : P start)
    (step : ∀ s t, Sound env s → Sound env t → ChainStep env s t → P s → P t)
    (run : ChainRun env start s) : Sound env s ∧ P s := by
  induction run with
  | start => exact ⟨sound, base⟩
  | block before fault tip next small base ih =>
    obtain ⟨taken, after⟩ := ih.1.applyAndStore binds fault tip next small base
    exact ⟨after, step _ _ ih.1 after taken ih.2⟩
  | @rewind s before height down ih =>
    have same : SameStorage env s s := ih.1.sameStorage (refl_of StorageKept s)
    obtain ⟨target, accounts, staking, cut, after⟩ := ih.1.reset same height down
    exact ⟨after, step _ _ ih.1 after (.rewound cut) ih.2⟩
  | between before idle ih =>
    have after := ih.1.idle idle
    exact ⟨after, step _ _ ih.1 after (.idle idle) ih.2⟩

/-- A stored block, without its fee, passed the base check on its parent. -/
def BaseChecked (env : Env σ) (b p : Block) : Prop :=
  ∃ newBlock, b = { newBlock with blockFee := b.blockFee } ∧ checkBaseBlock env newBlock p = .ok ()

theorem ChainRun.checked (binds : HashBinds env) {start : Node σ} (sound : Sound env start)
    (first : start.height = 0) (run : ChainRun env start s) :
    Sound env s ∧ s.db.loadBlock 0 = start.db.loadBlock 0 ∧
      ∀ k b p, 0 < k → s.db.loadBlock k = some b → s.db.loadBlock (k - 1) = some p →
        BaseChecked env b p := by
  refine ChainRun.keeps (P := fun s => s.db.loadBlock 0 = start.db.loadBlock 0 ∧
      ∀ k b p, 0 < k → s.db.loadBlock k = some b → s.db.loadBlock (k - 1) = some p →
        BaseChecked env b p) binds sound ⟨rfl, ?_⟩ ?_ run
  · intro k b p positive stored
    have low := (sound.chain.load_facts stored).2.2.2.2
    rw [first] at low
    exact absurd (Int64.lt_of_lt_of_le positive low) Int64.lt_irrefl
  · rintro s t sound sound' step ⟨ground, pairs⟩
    refine ⟨?_, step.pairs (Q := fun _ _ => BaseChecked env) sound sound' (fun _ kept => kept)
      (fun how => ⟨_, how.filled, how.base⟩) pairs⟩
    rw [← ground]
    cases step with
    | extended how => exact how.below sound sound.chain.nonneg
    | rewound how => exact how.low 0 how.nonneg
    | idle how => exact how.loads 0

def stampHash (b : Block) : Hash :=
  BitVec.ofNat 256 (b.height.toBitVec.toNat * 2 ^ 64 + b.blockTimeStamp.toBitVec.toNat)

def Env.stamped : Env Unit :=
  { Env.permissive with
    calcBlockHash := stampHash
    baseBlockValid := fun b _ => stampHash b == b.blockHash }

theorem Env.stamped_binds : HashBinds Env.stamped where
  checked b p valid := beq_iff_eq.mp valid
  fee b fee := rfl
  height b b' equal := by
    have value : stampHash b = stampHash b' := equal
    have nat := congrArg BitVec.toNat value
    simp only [stampHash, BitVec.toNat_ofNat] at nat
    have first := b.height.toBitVec.isLt
    have second := b'.height.toBitVec.isLt
    have third := b.blockTimeStamp.toBitVec.isLt
    have fourth := b'.blockTimeStamp.toBitVec.isLt
    apply Int64.toBitVec_inj.mp
    apply BitVec.eq_of_toNat_eq
    change b.height.toBitVec.toNat = b'.height.toBitVec.toNat
    omega

def supplyAfter : Nat → Int64
  | 0 => calculatedSupply (Node.small [] []).ledger 0 0
  | n + 1 => supplyAfter n + getReward (supplyAfter n)

def stamped (height : Nat) (blockTimeStamp : Int64) (previousHash : Hash) : Block :=
  let b := { Block.operated (Int64.ofNat height) (supplyAfter height) [] with
    blockTimeStamp, previousHash }
  { b with blockHash := stampHash b }

def genesisBlock : Block := stamped 0 0 0

def Node.genesis (b : Block) : Node Unit :=
  let s := Node.small [] []
  { s with
    db :=
      { blocks := AList.insert b.blockHash b ∅
        blockByHeight := AList.insert (0 : Int64) b.blockHash ∅
        accountsAt := AList.insert (0 : Int64) (.whole (s.ledger.accounts, s.ledger.recoveryBinds)) ∅
        stakingAt := AList.insert (0 : Int64) (some (s.ledger.staking, s.ledger.stakeChangedAt)) ∅ } }

theorem Db.chain_genesis {env : Env σ} (blocks : db.blocks = AList.insert b.blockHash b ∅)
    (byHeight : db.blockByHeight = AList.insert (0 : Int64) b.blockHash ∅) (height : b.height = 0)
    (hashed : env.calcBlockHash b = b.blockHash) : db.chain.LinkedTo (blockView env) 0 := by
  unfold chain
  rw [blocks, byHeight]
  exact ChainStore.LinkedTo.single height hashed

theorem Sound.genesis {env : Env Unit} (height : b.height = 0)
    (hashed : env.calcBlockHash b = b.blockHash) (supply : b.supply = supplyAfter 0 + b.blockFee) :
    Sound env (Node.genesis b) where
  chain := Db.chain_genesis rfl rfl height hashed
  small := by
    change (0 : Int64).toInt < 2 ^ 62
    decide
  accounts := forall_lookup_insert nofun ⟨_, rfl⟩
  staking := forall_lookup_insert nofun ⟨_, rfl⟩
  ground := by
    refine ⟨b, ((Node.small [] []).ledger.accounts, (Node.small [] []).ledger.recoveryBinds),
      ((Node.small [] []).ledger.staking, (Node.small [] []).ledger.stakeChangedAt), ?_, ?_, ?_, ?_⟩
    · have indexed : (Node.genesis b).db.blockByHeight.lookup 0 = some b.blockHash :=
        lookup_insert _
      have found : (Node.genesis b).db.blocks.lookup b.blockHash = some b := lookup_insert _
      rw [Db.loadBlock, indexed]
      exact found
    · exact lookup_insert _
    · exact lookup_insert _
    · rw [supply]
      have sums : (loadedLedger ((Node.small [] []).ledger.accounts,
          (Node.small [] []).ledger.recoveryBinds) ((Node.small [] []).ledger.staking,
          (Node.small [] []).ledger.stakeChangedAt)).getSupplyInAccounts +
          (Node.small [] []).ledger.getSupplyInStakedAccounts.1 +
          (Node.small [] []).ledger.getSupplyInStakedAccounts.2 = supplyAfter 0 := by decide +kernel
      refine (congrArg (· + b.blockFee - (supplyAfter 0 + b.blockFee)) sums).trans ?_
      exact Int64.sub_self _

end QwidNode.Source
