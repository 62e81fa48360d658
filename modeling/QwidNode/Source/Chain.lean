import QwidNode.Source.ApplyBlock

/-!
# Stored blocks, rewinds, startup and the block handler

Source: `blocks/Block.go:126-201`, `database/helperDB.go:3-58`, `account/heightMeta.go`,
`services/helperReset.go`, `services/helperLoadBlockchain.go:27-176`,
`blocks/processBlock.go:302-318` and `services/nonceService/onmessage.go:264-395`. Key
registrations, Merkle trees, oracle submissions, votes and snapshot pruning (every
`SnapshotPruneInterval` blocks) are left out.
-/
namespace QwidNode.Source
open Lib
variable {σ : Type}

def Db.putBlock (db : Db σ) (block : Block) : Db σ :=
  { db with blocks := db.blocks.insert block.blockHash block }

def Db.putBlockHeight (db : Db σ) (block : Block) : Db σ :=
  { db with blockByHeight := db.blockByHeight.insert block.height block.blockHash }

def Db.loadBlock (db : Db σ) (height : Int64) : Option Block :=
  (db.blockByHeight.lookup height).bind db.blocks.lookup

def Db.unmarkIncluded (db : Db σ) (hashes : List Hash) : Db σ :=
  { db with includedTx := hashes.foldl (fun m hash => m.erase hash) db.includedTx }

/-- `RemoveBlockFromDB`: marks first, then the block, then its height. -/
def Db.removeBlockFromDB (db : Db σ) (height : Int64) : Db σ :=
  let db := match db.loadBlock height with
    | some block => db.unmarkIncluded block.transactionsHashes
    | none => db
  match db.blockByHeight.lookup height with
  | none => db
  | some hash =>
    { db with blocks := db.blocks.erase hash, blockByHeight := db.blockByHeight.erase height }

/-- The height and the error returned, with the heights looked up, the last one first. -/
structure Search (ε : Type) where
  height : Int64
  error : Option ε
  lookups : List Int64

section HeightSearch
variable {ε : Type} (lookup : Int64 → Except ε Bool)

/-- The bisection; `none` is a search that has not ended within its fuel. -/
def narrow : Nat → Int64 → Int64 → List Int64 → Option (Search ε)
  | 0, _, _, _ => none
  | fuel + 1, lo, hi, seen =>
    if 1 < hi - lo then
      let mid := lo + (hi - lo) / 2
      match lookup mid with
      | .error e => some ⟨lo, some e, mid :: seen⟩
      | .ok true => narrow fuel mid hi (mid :: seen)
      | .ok false => narrow fuel lo mid (mid :: seen)
    else some ⟨lo, none, seen⟩

def gallop (rounds : Nat) : Nat → Int64 → Int64 → List Int64 → Option (Search ε)
  | 0, _, _, _ => none
  | fuel + 1, lo, hi, seen =>
    match lookup hi with
    | .error e => some ⟨lo, some e, hi :: seen⟩
    | .ok true => gallop rounds fuel hi (hi * 2) (hi :: seen)
    | .ok false => narrow lookup rounds lo hi (hi :: seen)

def lastContiguousHeight (fuel : Nat) : Option (Search ε) :=
  match lookup 0 with
  | .error e => some ⟨-1, some e, [0]⟩
  | .ok true => gallop lookup fuel fuel 0 1 [0]
  | .ok false => some ⟨-1, none, [0]⟩

end HeightSearch

/-- The height found where no lookup fails; 64 rounds are enough for 64-bit heights. -/
def storedTop (stored : Int64 → Bool) : Int64 :=
  match lastContiguousHeight (fun k => (.ok (stored k) : Except Unit Bool)) 64 with
  | some search => search.height
  | none => -1

def StoredUpTo (stored : Int64 → Bool) (top : Int64) : Prop :=
  ∀ k, stored k = true ↔ 0 ≤ k ∧ k ≤ top

def Db.lastHeightStoredInBlocks (db : Db σ) : Int64 :=
  storedTop fun h => (db.blockByHeight.lookup h).isSome

/-- The last-height lookup of the snapshots: the record, or the search. -/
def lastHeightStored (recorded : Option Int64) (stored : Int64 → Bool) : Int64 :=
  recorded.getD (storedTop stored)

def raiseLastStoredHeightMeta (recorded : Option Int64) (height : Int64) : Option Int64 :=
  match recorded with
  | some cur => if height ≤ cur then some cur else some height
  | none => some height

def Db.restorable (db : Db σ) (height : Int64) : Bool :=
  decide (0 ≤ height) && (db.accountsAt.lookup height).isSome &&
    (db.stakingAt.lookup height).isSome

def Node.loadAccounts (s : Node σ) (height : Int64) : Node σ × Bool :=
  match s.db.accountsAt.lookup height with
  | none => (s, false)
  | some snapshot =>
    let loaded := snapshot.load (s.ledger.accounts, s.ledger.recoveryBinds)
    ({ s with ledger :=
        { s.ledger with accounts := loaded.1.1, recoveryBinds := loaded.1.2 } }, loaded.2)

/-- `LoadStakingAccounts`: it decodes aside and swaps the shards in last. -/
def Node.loadStakingAccounts (s : Node σ) (height : Int64) : Node σ × Bool :=
  match s.db.stakingAt.lookup height with
  | some (some snapshot) =>
    ({ s with ledger :=
        { s.ledger with staking := snapshot.1, stakeChangedAt := snapshot.2 } }, true)
  | _ => (s, false)

/-- The snapshot at a height or at the closest one of the `n` heights below it. -/
def closestBelow {α : Type} (m : FinMap Int64 α) (height : Int64) : Nat → Option α
  | 0 => m.lookup height
  | n + 1 => (m.lookup height).or (closestBelow m (height - 1) n)

/-- The snapshot `LoadDexAccounts` reads: it looks back `MaxStartupRewind` heights, not
below zero. -/
def Db.closestDex (db : Db σ) (height : Int64) :
    Option (Stored (FinMap AddressBytes DexAccount)) :=
  closestBelow db.dexAt height
    (min height.toNatClampNeg Common.maxStartupRewind.toNatClampNeg)

def Node.loadDexAccounts (s : Node σ) (height : Int64) : Node σ × Bool :=
  match s.db.closestDex height with
  | none => (s, false)
  | some snapshot =>
    let loaded := snapshot.load s.dex
    ({ s with dex := loaded.1 }, loaded.2)

def Db.closestEvm (db : Db σ) (height : Int64) : Option (Stored σ) :=
  closestBelow db.evmAt height height.toNatClampNeg

def Node.loadEvmAtOrBelow (env : Env σ) (s : Node σ) (height : Int64) : Node σ × Bool :=
  match s.db.closestEvm height with
  | none => (s, false)
  | some (.whole value) => ({ s with evm := env.evmLoaded s.evm value }, true)
  | some (.broken write) => ({ s with evm := write s.evm }, false)

def Db.removeEvmAbove (db : Db σ) (height : Int64) : Db σ :=
  let above := db.evmAt.keys.filter fun h => decide (height < h)
  { db with evmAt := above.foldl (fun m h => m.erase h) db.evmAt }

/-- `RevertVMToBlockHeight`: undo, load, and keep what is in memory when the load fails. The
flag says whether the load succeeded. -/
def Node.revertVMToBlockHeight (env : Env σ) (s : Node σ) (height : Int64) : Node σ × Bool :=
  let reverted := env.evmReverted height s.evm s.ledger
  let s := { s with evm := reverted.1, ledger := reverted.2 }
  let loaded := s.loadEvmAtOrBelow env height
  let s := if loaded.2 then loaded.1 else { loaded.1 with evm := env.evmMarked loaded.1.evm }
  ({ s with db := s.db.removeEvmAbove height }, loaded.2)

/-- `SupplyInvariantDelta`: it loads the snapshots, and keeps what it loaded when a later
one fails. -/
def supplyInvariantDelta (s : Node σ) (height : Int64) : Node σ × Option Int64 :=
  match s.db.loadBlock height with
  | none => (s, none)
  | some bl =>
    match s.loadAccounts height with
    | (s, false) => (s, none)
    | (s, true) =>
      match s.loadStakingAccounts height with
      | (s, false) => (s, none)
      | (s, true) =>
        (s, some (s.ledger.getSupplyInAccounts + s.ledger.getSupplyInStakedAccounts.1 +
          s.ledger.getSupplyInStakedAccounts.2 + bl.blockFee - bl.supply))

def rewindTarget (floor : Int64) : Nat → Node σ → Node σ × Option Int64
  | 0, s => (s, none)
  | n + 1, s =>
    let h := Int64.ofNat n
    if s.db.restorable h = false then rewindTarget floor n s
    else if h < floor then (s, some h)
    else
      match supplyInvariantDelta s h with
      | (s, none) => (s, some h)
      | (s, some delta) => if delta = 0 then (s, some h) else rewindTarget floor n s

def consistentRewindTarget (s : Node σ) (height : Int64) : Node σ × Option Int64 :=
  rewindTarget (height - Common.maxStartupRewind) (height.toNatClampNeg + 1) s

/-- Calls `f` at every height from `top` down to the one above `height`. -/
def downTo {α : Type} (f : α → Int64 → α) (height top : Int64) (a : α) : α :=
  ((List.range (top.toInt - height.toInt).toNat).map fun i => top - Int64.ofNat i).foldl f a

/-- Remove the snapshots above the target and lower their recorded heights. -/
def Db.removeSnapshotsAbove (db : Db σ) (height ha hsa hd : Int64) : Db σ :=
  { db with
    accountsAt := downTo (fun m h => m.erase h) height ha db.accountsAt
    stakingAt := downTo (fun m h => m.erase h) height hsa db.stakingAt
    dexAt := downTo (fun m h => m.erase h) height hd db.dexAt
    accountsLast := some height
    stakingLast := some height
    dexLast := some height }

/-- How a rewind ends: it stops for want of a target or at a load, or it reaches its
target, with or without the DEX and EVM snapshots. -/
inductive ResetOutcome where
  | noTarget
  | accountsFail
  | stakingFail
  | rewound (target : Int64) (dexLoaded evmLoaded : Bool)
deriving DecidableEq, Repr

/-- The part of the rewind after the accounts and the stakes are loaded. -/
def Node.rewindTo (env : Env σ) (s : Node σ) (height : Int64) : Node σ × ResetOutcome :=
  let (s, dexLoaded) := s.loadDexAccounts height
  let ha := lastHeightStored s.db.accountsLast fun h => (s.db.accountsAt.lookup h).isSome
  let hsa := lastHeightStored s.db.stakingLast fun h => (s.db.stakingAt.lookup h).isSome
  let hb := s.db.lastHeightStoredInBlocks
  let hd := lastHeightStored s.db.dexLast fun h => (s.db.dexAt.lookup h).isSome
  let (s, evmLoaded) := s.revertVMToBlockHeight env height
  let s := { s with db := downTo Db.removeBlockFromDB height hb s.db }
  let s := s.undoPendingPoolsAbove height
  ({ s with db := s.db.removeSnapshotsAbove height ha hsa hd, height },
    .rewound height dexLoaded evmLoaded)

def rewindHeight (height : Int64) : Int64 := if height < 0 then 0 else height

def Node.reset (env : Env σ) (s : Node σ) (height : Int64) : Node σ × ResetOutcome :=
  match consistentRewindTarget s (rewindHeight height) with
  | (s, none) => (s, .noTarget)
  | (s, some target) =>
    match s.loadAccounts target with
    | (s, false) => (s, .accountsFail)
    | (s, true) =>
      match s.loadStakingAccounts target with
      | (s, false) => (s, .stakingFail)
      | (s, true) => s.rewindTo env target

def Node.resetAccountsAndBlocksSync (env : Env σ) (s : Node σ) (height : Int64) : Node σ :=
  (s.reset env height).1

def Db.blockLinked (env : Env σ) (db : Db σ) (height : Int64) : Bool :=
  match db.loadBlock height, db.loadBlock (height - 1) with
  | some bl, some parent =>
    bl.height == height && bl.previousHash == parent.blockHash &&
      env.calcBlockHash bl == bl.blockHash
  | _, _ => false

def checkBlockConsistency (env : Env σ) (s : Node σ) (height : Int64) : Node σ × Bool :=
  if height ≤ 0 then (s, true)
  else if s.db.blockLinked env height && s.db.restorable height then
    match supplyInvariantDelta s height with
    | (s, none) => (s, false)
    | (s, some delta) =>
      if delta ≠ 0 then (s, false)
      else
        match s.loadDexAccounts height with
        | (s, false) => (s, false)
        | (s, true) =>
          match s.loadEvmAtOrBelow env height with
          | (s, false) => (s, false)
          | (s, true) =>
            (s, s.db.stateCommitAt.lookup height == some (env.stateRoot s.ledger s.dex s.evm))
  else (s, false)

def findConsistent (env : Env σ) (lowest : Int64) : Nat → Int64 → Node σ → Node σ × Option Int64
  | 0, _, s => (s, none)
  | fuel + 1, h, s =>
    if h < lowest then (s, none)
    else
      match checkBlockConsistency env s h with
      | (s, true) => (s, some h)
      | (s, false) => findConsistent env lowest fuel (h - 1) s

/-- `checkMainChain` on a database that has a genesis block, with the height it starts
from. The loop visits at most `MaxStartupRewind + 1` heights. -/
def checkMainChain (env : Env σ) (s : Node σ) : Node σ :=
  let height := s.db.lastHeightStoredInBlocks
  if height ≤ 0 then { s with height }
  else
    let lowest := if height - Common.maxStartupRewind < 1 then 1
      else height - Common.maxStartupRewind
    match findConsistent env lowest (Common.maxStartupRewind.toNatClampNeg + 1) height s with
    | (s, some good) =>
      if good ≠ height then s.resetAccountsAndBlocksSync env good
      else { s.undoPendingPoolsAbove good with height := good }
    | (s, none) => s.resetAccountsAndBlocksSync env (lowest - 1)

inductive StoreFault where
  | none
  | atBlock
  | atHeight
deriving DecidableEq, Repr

def storeBlock (fault : StoreFault) (block : Block) : NodeM σ Unit :=
  match fault with
  | .atBlock => throw .storeBlockFails
  | .atHeight => do
    modifyDb fun db => db.putBlock block
    throw .storeBlockFails
  | .none => do
    modifyDb fun db => db.putBlock block
    modifyDb fun db => db.putBlockHeight block

def Node.isAllTransactions (s : Node σ) (block : Block) : Bool :=
  block.transactionsHashes.all fun hash =>
    s.poolTxEscrow.hasTransaction hash || s.poolTxMultiSign.hasTransaction hash ||
      s.poolsTx.hasTransaction hash || (s.db.poolTx.lookup hash).isSome ||
      (s.db.confirmedTx.lookup hash).isSome

/-- The durable writes after `StoreBlock`, one by one: accounts, EVM, staking, DEX with
their recorded heights, and the commit marker last. -/
def snapshotWrites (env : Env σ) (s : Node σ) (height : Int64) : List (Db σ → Db σ) :=
  [fun db => { db with
      accountsAt := db.accountsAt.insert height
        (.whole (s.ledger.accounts, s.ledger.recoveryBinds)) },
   fun db => { db with accountsLast := raiseLastStoredHeightMeta db.accountsLast height },
   fun db => if env.evmChanged s.evm then
      { db with evmAt := db.evmAt.insert height (.whole s.evm) } else db,
   fun db => { db with
      stakingAt := db.stakingAt.insert height
        (some (s.ledger.staking, s.ledger.stakeChangedAt)) },
   fun db => { db with stakingLast := raiseLastStoredHeightMeta db.stakingLast height },
   fun db => { db with dexAt := db.dexAt.insert height (.whole s.dex) },
   fun db => { db with dexLast := raiseLastStoredHeightMeta db.dexLast height },
   fun db => { db with
      stateCommitAt :=
        db.stateCommitAt.insert height (env.stateRoot s.ledger s.dex s.evm) }]

def Db.applyWrites (db : Db σ) (writes : List (Db σ → Db σ)) : Db σ :=
  writes.foldl (fun db write => write db) db

/-- The state once a stored block's snapshots are written and the height is set. -/
def Node.commitHeight (env : Env σ) (s : Node σ) (height : Int64) : Node σ :=
  { s with
    evm := if env.evmChanged s.evm then env.evmStored s.evm else s.evm
    db := s.db.applyWrites (snapshotWrites env s height)
    height }

inductive BlockOutcome where
  | rejected
  | notStored
  | accepted (block : Block)
deriving DecidableEq, Repr

/-- `CheckBlockAndTransferFunds` and `StoreBlock`, with a reset when either fails. -/
def Node.applyAndStore (env : Env σ) (s : Node σ) (fault : StoreFault)
    (newBlock lastBlock : Block) : Node σ × BlockOutcome :=
  match checkBlockAndTransferFunds env newBlock lastBlock s with
  | .error _ s => (s.resetAccountsAndBlocksSync env lastBlock.height, .rejected)
  | .ok block s =>
    match storeBlock fault block s with
    | .error _ s => (s.resetAccountsAndBlocksSync env lastBlock.height, .notStored)
    | .ok _ s => (s.commitHeight env block.height, .accepted block)

/-- The loop of the `bl` case over the blocks of a message. The tip is read once, before the
loop, and the first block that is not stored ends it. -/
def receiveBlocks (env : Env σ) (h : Int64) (lastBlock : Block) :
    List (Block × StoreFault) → Node σ → Node σ
  | [], s => s
  | (newBlock, fault) :: rest, s =>
    if newBlock.height ≠ h + 1 then s
    else if newBlock.previousHash ≠ lastBlock.blockHash then s
    else
      match checkBaseBlock env newBlock lastBlock with
      | .error _ => s
      | .ok _ =>
        if s.isAllTransactions newBlock then
          match s.applyAndStore env fault newBlock lastBlock with
          | (s, .accepted _) => receiveBlocks env h lastBlock rest s
          | (s, _) => s
        else s

def Node.onBlocks (env : Env σ) (s : Node σ) (received : List (Block × StoreFault)) : Node σ :=
  match s.db.loadBlock s.height with
  | none => s
  | some lastBlock => receiveBlocks env s.height lastBlock received s

end QwidNode.Source
