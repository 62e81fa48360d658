import QwidNode.Lib.Reader
import QwidNode.Lib.SortedEntries
import QwidNode.Lib.Utf8
import QwidNode.Source.Eligibility
import QwidNode.Source.Retention
import QwidNode.Source.StateDB

/-!
# What a snapshot holds and how it is read

Source: `account/accountsStates.go:87-231`, `account/baseAccount.go:146-264`,
`account/stakeAccount.go:349-494`, `account/dexAccount.go:23-108`,
`account/accountsStakingStates.go:22-165`, `account/accountsDexStates.go:21-137`,
`common/helper.go:131-147` and `core/stateDB/persistence.go:15-91`. A decoder is a reader of bytes
that faults where the source would panic or read fewer bytes than a field has.

The lists of transactions of an account are written as two zero counts and read only for the
counters of older snapshots. A map that is not sorted is written in the order of the iteration,
which is an argument. The state of the EVM is JSON: its text is a parameter, of which only is
assumed that strings come back as UTF-8.
-/
namespace QwidNode.Source
open Lib Reader FinMap

abbrev ByteReader := Reader UInt8

def readInt64 : ByteReader Int64 := field 8 getInt64FromByte
def readAddress : ByteReader AddressBytes := field 20 addressOfBytes
def readHash : ByteReader Hash := field 32 hashOfBytes
def readByte : ByteReader UInt8 := field 1 fun b => b.headD 0

/-- A count that is refused when negative, or when more entries of `width` bytes are announced
than fit before the last `reserve` bytes. -/
def readCount (reserve width : Nat) : ByteReader Nat := do
  let n ← readInt64
  check fun left => 0 ≤ n.toInt ∧ n.toInt ≤ ((left - reserve) / width : Nat)
  return n.toInt.toNat

def readRecord {α : Type} (unmarshal : ByteReader α) : ByteReader α := do
  check (4 ≤ ·)
  let lb ← field 4 bytesToNat
  check (lb ≤ ·)
  framed lb unmarshal

def readEntry {α : Type} (unmarshal : ByteReader α) : ByteReader (AddressBytes × α) := do
  check (20 ≤ ·)
  let address ← readAddress
  let acc ← readRecord unmarshal
  return (address, acc)

namespace Account

def marshal (a : Account) : Bytes :=
  getByteInt64 a.balance ++ (a.address.getBytes ++ (getByteInt64 a.transactionDelay ++
  ([a.multiSignNumber] ++ ([UInt8.ofNat a.multiSignAddresses.length] ++
  (a.multiSignAddresses.flatMap AddressBytes.getBytes ++ ((getByteInt64 0 ++ getByteInt64 0) ++
  ((getByteInt64 a.sentCount ++ getByteInt64 a.receivedCount) ++
  ((a.recoveryCommit.getBytes ++ (a.recoveryPendingCommit.getBytes ++
    getByteInt64 a.recoveryPendingHeight)) ++
  (a.spareCommit.getBytes ++ a.sparePendingCommit.getBytes)))))))))

def readHistory : ByteReader (List Hash × List Hash) := do
  let nts ← readCount 0 32
  let transactionsSender ← times nts readHash
  check (8 ≤ ·)
  let ntr ← readCount 0 32
  let transactionsRecipient ← times ntr readHash
  return (transactionsSender, transactionsRecipient)

def readCounters : ByteReader (Int64 × Int64) := do
  let sentCount ← readInt64
  let receivedCount ← readInt64
  return (sentCount, receivedCount)

def readRecovery : ByteReader (AddressBytes × AddressBytes × Int64) := do
  let recoveryCommit ← readAddress
  let recoveryPendingCommit ← readAddress
  let recoveryPendingHeight ← readInt64
  return (recoveryCommit, recoveryPendingCommit, recoveryPendingHeight)

def readSpares : ByteReader (AddressBytes × AddressBytes) := do
  let spareCommit ← readAddress
  let sparePendingCommit ← readAddress
  return (spareCommit, sparePendingCommit)

/-- `Account.Unmarshal`. A snapshot without counters has the lengths of its lists. -/
def unmarshal : ByteReader Account := do
  check (38 ≤ ·)
  let balance ← readInt64
  let address ← readAddress
  let transactionDelay ← readInt64
  let multiSignNumber ← readByte
  let msa ← readByte
  check (msa.toNat * 20 ≤ ·)
  let multiSignAddresses ← times msa.toNat readAddress
  let lists ← optionally 16 readHistory ([], [])
  let counters ← optionally 16 readCounters
    (Int64.ofNat lists.1.length, Int64.ofNat lists.2.length)
  let recovery ← optionally 48 readRecovery (0, 0, 0)
  let spares ← optionally 40 readSpares (0, 0)
  return {
    balance, address, transactionDelay, multiSignNumber, multiSignAddresses
    sentCount := counters.1, receivedCount := counters.2
    recoveryCommit := recovery.1, recoveryPendingCommit := recovery.2.1
    recoveryPendingHeight := recovery.2.2
    spareCommit := spares.1, sparePendingCommit := spares.2 }

end Account

structure AccountsType where
  allAccounts : FinMap AddressBytes Account
  recoveryBinds : FinMap Hash RecoveryBind
  height : Int64

namespace AccountsType

def marshalBind (e : Hash × RecoveryBind) : Bytes :=
  e.1.getBytes ++ (e.2.identity.getBytes ++ (e.2.payload.getBytes ++ getByteInt64 e.2.height))

/-- An address and the record of its account, as both maps of accounts write it. -/
def marshalEntry {α : Type} (marshal : α → Bytes) (e : AddressBytes × α) : Bytes :=
  e.1.getBytes ++ bytesToLenAndBytes (marshal e.2)

/-- `AccountsType.Marshal`, with the accounts in the order of the iteration. -/
def marshal (accounts : List (AddressBytes × Account)) (binds : FinMap Hash RecoveryBind)
    (height : Int64) : Bytes :=
  getByteInt64 (Int64.ofNat accounts.length) ++
  (accounts.flatMap (marshalEntry Account.marshal) ++
  (getByteInt64 (Int64.ofNat (binds.sortedWith id).length) ++
  ((binds.sortedWith id).flatMap marshalBind ++ getByteInt64 height)))

def readBind : ByteReader (Hash × RecoveryBind) := do
  let key ← readHash
  let identity ← readAddress
  let payload ← readHash
  let height ← readInt64
  return (key, ⟨identity, payload, height⟩)

def readBinds : ByteReader (List (Hash × RecoveryBind)) := do
  check (16 ≤ ·)
  let n ← readCount 8 92
  times n readBind

def unmarshal : ByteReader AccountsType := do
  check (16 ≤ ·)
  let accountCount ← readCount 0 20
  let accounts ← times accountCount (readEntry Account.unmarshal)
  let binds ← optionally 9 readBinds []
  check (· = 8)
  let height ← readInt64
  return ⟨ofPairs accounts, ofPairs binds, height⟩

end AccountsType

namespace StakingAccount

def marshalTriple (t : Int64 × Int64 × Int64) : Bytes :=
  getByteInt64 t.1 ++ (getByteInt64 t.2.1 ++ getByteInt64 t.2.2)

def marshalDetail (d : StakingDetail) : Bytes :=
  marshalTriple (d.amount, d.reward, d.lastUpdated)

def marshalDetails (e : Int64 × List StakingDetail) : Bytes :=
  getByteInt64 e.1 ++ (getByteInt64 (Int64.ofNat e.2.length) ++ e.2.flatMap marshalDetail)

def marshal (a : StakingAccount) : Bytes :=
  getByteInt64 a.stakedBalance ++ (getByteInt64 a.stakingRewards ++
  (getByteInt64 (Int64.ofNat a.lockedAmount.length) ++ (a.locks.flatMap marshalTriple ++
  (a.delegatedAccount.getBytes ++ (a.address.getBytes ++
  ([if a.operationalAccount then 1 else 0] ++
  (getByteInt64 (Int64.ofNat (a.stakingDetails.sortedWith id).length) ++
  ((a.stakingDetails.sortedWith id).flatMap marshalDetails ++
  (getByteInt64 a.operationalSince ++ (getByteInt64 a.lastStakeHeight ++
  (a.randCommit.getBytes ++ getByteInt64 a.randCommitHeight)))))))))))

def readTriple : ByteReader (Int64 × Int64 × Int64) := do
  let first ← readInt64
  let second ← readInt64
  let third ← readInt64
  return (first, second, third)

def readDetail : ByteReader StakingDetail := do
  check (24 ≤ ·)
  let detail ← readTriple
  return ⟨detail.1, detail.2.1, detail.2.2⟩

def readDetails : ByteReader (Int64 × List StakingDetail) := do
  check (16 ≤ ·)
  let key ← readInt64
  let detailCount ← readCount 0 24
  let details ← times detailCount readDetail
  return (key, details)

def readRandCommit : ByteReader (Hash × Int64) := do
  let randCommit ← readHash
  let randCommitHeight ← readInt64
  return (randCommit, randCommitHeight)

def unmarshal : ByteReader StakingAccount := do
  check (64 ≤ ·)
  let stakedBalance ← readInt64
  let stakingRewards ← readInt64
  let numLocked ← readCount 0 24
  let locks ← times numLocked readTriple
  check (49 ≤ ·)
  let delegatedAccount ← readAddress
  let address ← readAddress
  let operational ← readByte
  let detailsCount ← readCount 0 16
  let details ← times detailsCount readDetails
  let operationalSince ← optionally 8 readInt64 0
  let lastStakeHeight ← optionally 8 readInt64 0
  let rand ← optionally 40 readRandCommit (0, 0)
  return {
    stakedBalance, stakingRewards
    lockedAmount := locks.map fun t => t.1
    releasePerBlock := locks.map fun t => t.2.1
    lockedInitBlock := locks.map fun t => t.2.2
    delegatedAccount, address
    operationalAccount := decide (0 < operational)
    stakingDetails := ofPairs details
    operationalSince, lastStakeHeight
    randCommit := rand.1, randCommitHeight := rand.2 }

end StakingAccount

structure StakingAccountsType where
  allStakingAccounts : FinMap AddressBytes StakingAccount
  stakeChangedAt : Int64

namespace StakingAccountsType

/-- `StakingAccountsType.Marshal`, with the accounts in the order of the iteration. -/
def marshal (accounts : List (AddressBytes × StakingAccount)) (stakeChangedAt : Int64) : Bytes :=
  getByteInt64 (Int64.ofNat accounts.length) ++
  (accounts.flatMap (AccountsType.marshalEntry StakingAccount.marshal) ++
    getByteInt64 stakeChangedAt)

def unmarshal : ByteReader StakingAccountsType := do
  check (8 ≤ ·)
  let accountCount ← readCount 0 20
  let accounts ← times accountCount (readEntry StakingAccount.unmarshal)
  let stakeChangedAt ← optionally 8 readInt64 0
  return ⟨ofPairs accounts, stakeChangedAt⟩

end StakingAccountsType

namespace DexAccount

def marshalOwner (e : AddressBytes × CoinTokenDetails) : Bytes :=
  e.1.getBytes ++ (getByteInt64 e.2.coinBalance ++ getByteInt64 e.2.tokenBalance)

/-- `DexAccount.Marshal`, with the address of the token, which nothing else reads, and the owners in
the order of the iteration. -/
def marshal (d : DexAccount) (tokenAddress : AddressBytes)
    (owners : List (AddressBytes × CoinTokenDetails)) : Bytes :=
  getByteInt64 d.coinPool ++ (getByteInt64 d.tokenPool ++ (getByteInt64 d.tokenPrice ++
  (tokenAddress.getBytes ++ (getByteInt64 (Int64.ofNat owners.length) ++
    owners.flatMap marshalOwner))))

def readOwner : ByteReader (AddressBytes × CoinTokenDetails) := do
  check (36 ≤ ·)
  let owner ← readAddress
  let coinBalance ← readInt64
  let tokenBalance ← readInt64
  return (owner, ⟨coinBalance, tokenBalance⟩)

def unmarshal : ByteReader DexAccount := do
  check (52 ≤ ·)
  let coinPool ← readInt64
  let tokenPool ← readInt64
  let tokenPrice ← readInt64
  let _ ← readAddress
  let detailsCount ← readCount 0 36
  let owners ← times detailsCount readOwner
  return { balances := ofPairs owners, coinPool, tokenPool, tokenPrice }

end DexAccount

/-- A pool with what its record holds besides: the address of its token and the order in which its
owners are written. -/
structure WrittenPool where
  account : DexAccount
  tokenAddress : AddressBytes
  owners : List (AddressBytes × CoinTokenDetails)

def WrittenPool.marshal (p : WrittenPool) : Bytes := p.account.marshal p.tokenAddress p.owners

/-- `DexAccountsType.Marshal`, with the pools in the order of the iteration. -/
def marshalDexAccounts (pools : List (AddressBytes × WrittenPool)) : Bytes :=
  getByteInt64 (Int64.ofNat pools.length) ++
    pools.flatMap (AccountsType.marshalEntry WrittenPool.marshal)

def unmarshalDexAccounts : ByteReader (FinMap AddressBytes DexAccount) := do
  check (8 ≤ ·)
  let accountCount ← readCount 0 20
  let pools ← times accountCount (readEntry DexAccount.unmarshal)
  return ofPairs pools

def TokenInfo.asText (t : TokenInfo) : TokenInfo :=
  { t with name := Utf8.coerce t.name, symbols := Utf8.coerce t.symbols }

def StateAccount.persisted (sa : StateAccount) : StateAccount where
  accounts := sa.accounts
  codes := sa.codes
  codeHashes := sa.codeHashes
  statesHashes := sa.statesHashes
  nonces := sa.nonces
  states := sa.states
  balances := sa.balances
  tokens := sa.tokens.mapValues TokenInfo.asText

structure StateJson (τ : Type) where
  marshal : StateAccount → τ
  unmarshal : τ → Option StateAccount
  /-- Keys, numbers and byte slices come back as they were, strings as UTF-8. -/
  reads : ∀ sa, unmarshal (marshal sa) = some sa.persisted

def loadAccounts (db : KeyValues) (height : Int64) : Option AccountsType :=
  (db.lookup (snapshotKey accountsDBPrefix height)).bind fun b =>
    (AccountsType.unmarshal b).toOption

def loadStakingAccounts (db : KeyValues) (height : Int64) : Option (List StakingAccountsType) :=
  (List.range 256).mapM fun i =>
    (db.lookup (stakingShardKey height (UInt8.ofNat i))).bind fun b =>
      (StakingAccountsType.unmarshal b).toOption

def loadDexAccounts (db : KeyValues) (height : Int64) : Option (FinMap AddressBytes DexAccount) :=
  (db.lookup (snapshotKey dexAccountsDBPrefix height)).bind fun b =>
    (unmarshalDexAccounts b).toOption

def Ledger.ofLoaded (accounts : AccountsType) (shards : List StakingAccountsType) : Ledger where
  accounts := accounts.allAccounts
  recoveryBinds := accounts.recoveryBinds
  staking := ofPairs (shards.zipIdx.flatMap fun shard =>
    shard.1.allStakingAccounts.pairs.map fun e => ((shard.2, e.1), e.2))
  stakeChangedAt := ofPairs (shards.zipIdx.map fun shard =>
    (shard.2, shard.1.stakeChangedAt))

def loadState {τ : Type} (json : StateJson τ) (db : KeyValues) (evm : FinMap Int64 τ)
    (height : Int64) (memory : StateAccount) :
    Option (Ledger × FinMap AddressBytes DexAccount × StateAccount) := do
  let accounts ← loadAccounts db height
  let shards ← loadStakingAccounts db height
  let dex ← loadDexAccounts db height
  let stored ← (evm.lookup height).bind json.unmarshal
  return (Ledger.ofLoaded accounts shards, dex, memory.loadedOver stored)

def storeEvmState {τ : Type} (json : StateJson τ) (evm : FinMap Int64 τ) (height : Int64)
    (sa : StateAccount) : FinMap Int64 τ :=
  evm.insert height (json.marshal sa)

structure Iteration (l : Ledger) (dex : FinMap AddressBytes DexAccount) where
  accounts : List (AddressBytes × Account)
  accounts_perm : accounts.Perm l.accounts.pairs
  shards : Nat → List (AddressBytes × StakingAccount)
  shards_perm : ∀ n, (shards n).Perm (l.shardEntries n)
  pools : List (AddressBytes × WrittenPool)
  pools_perm : (pools.map fun e => (e.1, e.2.account)).Perm dex.pairs
  owners_perm : ∀ e ∈ pools, e.2.owners.Perm e.2.account.balances.pairs

def Iteration.listed (l : Ledger) (dex : FinMap AddressBytes DexAccount) : Iteration l dex where
  accounts := l.accounts.pairs
  accounts_perm := .refl _
  shards := l.shardEntries
  shards_perm _ := .refl _
  pools := dex.pairs.map fun e => (e.1, ⟨e.2, e.1, e.2.balances.pairs⟩)
  pools_perm := by
    rw [List.map_map]
    exact .of_eq (List.map_id' _)
  owners_perm e member := by
    obtain ⟨_, _, rfl⟩ := List.mem_map.mp member
    exact .refl _

def Iteration.snapshot {l : Ledger} {dex : FinMap AddressBytes DexAccount} (it : Iteration l dex)
    (accountsHeight : Int64) (root : Bytes) : Snapshot where
  accounts := AccountsType.marshal it.accounts l.recoveryBinds accountsHeight
  shards i := StakingAccountsType.marshal (it.shards i.toNat)
    ((l.stakeChangedAt.lookup i.toNat).getD 0)
  dex := marshalDexAccounts it.pools
  root

end QwidNode.Source
