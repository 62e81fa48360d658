import QwidNode.Lib.Framing
import QwidNode.Lib.SortedEntries
import QwidNode.Source.Bytes
import QwidNode.Source.Eligibility
import QwidNode.Source.StateDB

/-!
# What the state root hashes

Source: `blocks/stateRoot.go:29-156` and `:221-277`. `HashedState` holds the fields that
`computeStateRoot` writes, the entries of every map in the order of their keys, and
`HashedState.stream` is what it feeds to the hash.
-/
namespace QwidNode.Source
open Lib List

/-- The fields of an account that are hashed; the others are blanked. -/
def Account.hashed (a : Account) : Account :=
  { a with address := 0, sentCount := 0, receivedCount := 0 }

/-- The fields of a staking entry that are hashed; the others are blanked. -/
def StakingAccount.hashed (a : StakingAccount) : StakingAccount :=
  { a with address := 0, stakingDetails := ∅ }

/-- The fields of a DEX pool that are hashed: all of them, the owners in order. -/
structure HashedPool where
  coinPool : Int64
  tokenPool : Int64
  tokenPrice : Int64
  owners : List (AddressBytes × CoinTokenDetails)
deriving DecidableEq

def DexAccount.hashed (d : DexAccount) : HashedPool :=
  ⟨d.coinPool, d.tokenPool, d.tokenPrice, d.balances.sortedWith id⟩

@[ext] structure HashedState where
  accounts : List (AddressBytes × Account)
  recoveryBinds : List (Hash × RecoveryBind)
  staking : List (Nat × List (AddressBytes × StakingAccount))
  dex : List (AddressBytes × HashedPool)
  evmAccounts : List (AddressBytes × Unit)
  codes : List (AddressBytes × Bytes)
  nonces : List (AddressBytes × UInt64)
  statesHashes : List (AddressBytes × List (Hash × Hash))
  tokens : List (AddressBytes × TokenInfo)

def Ledger.hashedShards (l : Ledger) : List (Nat × List (AddressBytes × StakingAccount)) :=
  ((List.range 256).map fun id =>
    (id, sortByKey ((l.shardEntries id).map fun e => (e.1, e.2.hashed)))).filter
    fun shard => !shard.2.isEmpty

def hashedState (l : Ledger) (dex : FinMap AddressBytes DexAccount) (sa : StateAccount) :
    HashedState where
  accounts := l.accounts.sortedWith Account.hashed
  recoveryBinds := l.recoveryBinds.sortedWith id
  staking := l.hashedShards
  dex := dex.sortedWith DexAccount.hashed
  evmAccounts := sa.accounts.sortedWith fun _ => ()
  codes := sa.codes.sortedWith id
  nonces := sa.nonces.sortedWith id
  statesHashes := sa.statesHashes.sortedWith fun slots => slots.sortedWith id
  tokens := sa.tokens.sortedWith id

def rootBytes (b : Bytes) : Bytes := getByteInt64 (Int64.ofNat b.length) ++ b

def rootI64 (v : Int64) : Bytes := getByteInt64 v

def rootBool (v : Bool) : Bytes := rootI64 (if v then 1 else 0)

def rootI64s (vs : List Int64) : Bytes := rootI64 (Int64.ofNat vs.length) ++ vs.flatMap rootI64

def rootAddress (a : AddressBytes) : Bytes := rootBytes a.getBytes

def rootHash (h : Hash) : Bytes := rootBytes h.getBytes

def accountStream (e : AddressBytes × Account) : Bytes :=
  rootAddress e.1 ++ (rootI64 e.2.balance ++ (rootI64 e.2.transactionDelay ++
    (rootI64 (Int64.ofNat e.2.multiSignNumber.toNat) ++
    (rootI64 (Int64.ofNat e.2.multiSignAddresses.length) ++
    (e.2.multiSignAddresses.flatMap rootAddress ++
    (rootAddress e.2.recoveryCommit ++ (rootAddress e.2.recoveryPendingCommit ++
    (rootI64 e.2.recoveryPendingHeight ++ (rootAddress e.2.spareCommit ++
      rootAddress e.2.sparePendingCommit)))))))))

def recoveryBindStream (e : Hash × RecoveryBind) : Bytes :=
  rootHash e.1 ++ (rootAddress e.2.identity ++ (rootHash e.2.payload ++ rootI64 e.2.height))

def stakingStream (e : AddressBytes × StakingAccount) : Bytes :=
  rootAddress e.1 ++ (rootI64 e.2.stakedBalance ++ (rootI64 e.2.stakingRewards ++
    (rootI64s e.2.lockedAmount ++ (rootI64s e.2.releasePerBlock ++ (rootI64s e.2.lockedInitBlock ++
    (rootAddress e.2.delegatedAccount ++ (rootBool e.2.operationalAccount ++
    (rootI64 e.2.operationalSince ++ (rootI64 e.2.lastStakeHeight ++ (rootHash e.2.randCommit ++
      rootI64 e.2.randCommitHeight))))))))))

def shardStream (shard : Nat × List (AddressBytes × StakingAccount)) : Bytes :=
  rootI64 (Int64.ofNat shard.1) ++ shard.2.flatMap stakingStream

def ownerStream (e : AddressBytes × CoinTokenDetails) : Bytes :=
  rootAddress e.1 ++ (rootI64 e.2.coinBalance ++ rootI64 e.2.tokenBalance)

def poolStream (e : AddressBytes × HashedPool) : Bytes :=
  rootAddress e.1 ++ (rootI64 e.2.coinPool ++ (rootI64 e.2.tokenPool ++
    (rootI64 e.2.tokenPrice ++ e.2.owners.flatMap ownerStream)))

def codeStream (e : AddressBytes × Bytes) : Bytes := rootAddress e.1 ++ rootBytes e.2

def nonceStream (e : AddressBytes × UInt64) : Bytes := rootAddress e.1 ++ rootI64 e.2.toInt64

def slotStream (e : Hash × Hash) : Bytes := rootHash e.1 ++ rootHash e.2

def storageStream (e : AddressBytes × List (Hash × Hash)) : Bytes :=
  rootAddress e.1 ++ e.2.flatMap slotStream

def tokenStream (e : AddressBytes × TokenInfo) : Bytes :=
  rootAddress e.1 ++ (rootBytes e.2.name ++ (rootBytes e.2.symbols ++
    rootI64 (Int64.ofNat e.2.decimals.toNat)))

/-- The texts `accounts`, `recovery-binds`, `staking`, `dex` and `evm`. -/
def accountsSection : Bytes := [97, 99, 99, 111, 117, 110, 116, 115]
def recoveryBindsSection : Bytes :=
  [114, 101, 99, 111, 118, 101, 114, 121, 45, 98, 105, 110, 100, 115]
def stakingSection : Bytes := [115, 116, 97, 107, 105, 110, 103]
def dexSection : Bytes := [100, 101, 120]
def evmSection : Bytes := [101, 118, 109]

def HashedState.stream (s : HashedState) : Bytes :=
  rootBytes accountsSection ++ (s.accounts.flatMap accountStream ++
  (rootBytes recoveryBindsSection ++ (s.recoveryBinds.flatMap recoveryBindStream ++
  (rootBytes stakingSection ++ (s.staking.flatMap shardStream ++
  (rootBytes dexSection ++ (s.dex.flatMap poolStream ++
  (rootBytes evmSection ++ ((s.evmAccounts.flatMap fun e => rootAddress e.1) ++
  (s.codes.flatMap codeStream ++ (s.nonces.flatMap nonceStream ++
  (s.statesHashes.flatMap storageStream ++ s.tokens.flatMap tokenStream))))))))))))

def stateRootStream (l : Ledger) (dex : FinMap AddressBytes DexAccount) (sa : StateAccount) :
    Bytes :=
  (hashedState l dex sa).stream

section Framed

private theorem ofNat_length_inj {m n : Nat} (fits : m < 2 ^ 63) (fits' : n < 2 ^ 63)
    (same : Int64.ofNat m = Int64.ofNat n) : m = n := by
  have value := congrArg Int64.toInt same
  rw [Int64.toInt_ofNat_of_lt fits, Int64.toInt_ofNat_of_lt fits'] at value
  exact Int.ofNat.inj value

theorem framed_i64 : FramedOn (fun _ : Int64 => True) rootI64 :=
  .of_length (fun _ _ => getByteInt64_length _) fun _ _ _ _ same => getByteInt64_injective same

theorem framed_bytes : FramedOn (fun b : Bytes => b.length < 2 ^ 63) rootBytes := by
  intro a b x y fits fits' same
  rw [rootBytes, rootBytes, append_assoc, append_assoc] at same
  obtain ⟨lengths, contents⟩ := framed_i64.split same
  exact append_inj contents (ofNat_length_inj fits fits' lengths)

theorem framed_address : FramedOn (fun _ : AddressBytes => True) rootAddress := by
  intro a b x y _ _ same
  have fits : ∀ a : AddressBytes, a.getBytes.length < 2 ^ 63 := fun a => by
    rw [AddressBytes.getBytes_length]
    decide
  obtain ⟨bytes, rest⟩ := framed_bytes (fits a) (fits b) same
  exact ⟨AddressBytes.getBytes_injective bytes, rest⟩

theorem framed_hash : FramedOn (fun _ : Hash => True) rootHash := by
  intro a b x y _ _ same
  have fits : ∀ a : Hash, a.getBytes.length < 2 ^ 63 := fun a => by
    rw [Hash.getBytes_length]
    decide
  obtain ⟨bytes, rest⟩ := framed_bytes (fits a) (fits b) same
  exact ⟨Hash.getBytes_injective bytes, rest⟩

theorem framed_bool : FramedOn (fun _ : Bool => True) rootBool := by
  intro a b x y _ _ same
  obtain ⟨value, rest⟩ := framed_i64.split same
  refine ⟨?_, rest⟩
  revert value
  cases a <;> cases b <;> decide

private theorem framed_counted {α : Type} {P : α → Prop} {enc : α → Bytes}
    (framed : FramedOn P enc) {xs ys : List α} {x y : Bytes} (good : ∀ a ∈ xs, P a)
    (good' : ∀ a ∈ ys, P a) (fits : xs.length < 2 ^ 63) (fits' : ys.length < 2 ^ 63)
    (same : rootI64 (Int64.ofNat xs.length) ++ (xs.flatMap enc ++ x) =
      rootI64 (Int64.ofNat ys.length) ++ (ys.flatMap enc ++ y)) : xs = ys ∧ x = y := by
  obtain ⟨counts, contents⟩ := framed_i64.split same
  exact framed.flatMap good good' (ofNat_length_inj fits fits' counts) contents

theorem framed_i64s : FramedOn (fun vs : List Int64 => vs.length < 2 ^ 63) rootI64s := by
  intro a b x y fits fits' same
  rw [rootI64s, rootI64s, append_assoc, append_assoc] at same
  exact framed_counted framed_i64 (fun _ _ => trivial) (fun _ _ => trivial) fits fits' same

private theorem byte_inj {m n : UInt8}
    (same : Int64.ofNat m.toNat = Int64.ofNat n.toNat) : m = n :=
  UInt8.toNat_inj.mp (ofNat_length_inj (lt_trans m.toNat_lt (by decide))
    (lt_trans n.toNat_lt (by decide)) same)

def Account.Sized (a : Account) : Prop := a.multiSignAddresses.length < 2 ^ 63

def StakingAccount.Sized (a : StakingAccount) : Prop :=
  a.lockedAmount.length < 2 ^ 63 ∧ a.releasePerBlock.length < 2 ^ 63 ∧
    a.lockedInitBlock.length < 2 ^ 63

def TokenInfo.Sized (t : TokenInfo) : Prop := t.name.length < 2 ^ 63 ∧ t.symbols.length < 2 ^ 63

theorem framed_account :
    FramedOn (fun e : AddressBytes × Account => e.2.Sized ∧ e.2.hashed = e.2) accountStream := by
  rintro ⟨k, a⟩ ⟨k', b⟩ x y ⟨sized, blank⟩ ⟨sized', blank'⟩ same
  simp only [accountStream, append_assoc] at same
  obtain ⟨rfl, same1⟩ := framed_address.split same
  obtain ⟨balance, same2⟩ := framed_i64.split same1
  obtain ⟨delay, same3⟩ := framed_i64.split same2
  obtain ⟨number, same4⟩ := framed_i64.split same3
  obtain ⟨addresses, same5⟩ := framed_counted framed_address (fun _ _ => trivial)
    (fun _ _ => trivial) sized sized' same4
  obtain ⟨recovery, same6⟩ := framed_address.split same5
  obtain ⟨recoveryPending, same7⟩ := framed_address.split same6
  obtain ⟨height, same8⟩ := framed_i64.split same7
  obtain ⟨spare, same9⟩ := framed_address.split same8
  obtain ⟨sparePending, rest⟩ := framed_address.split same9
  have equal : a.hashed = b.hashed := by
    rw [Account.hashed, Account.hashed, balance, delay, byte_inj number, addresses, recovery,
      recoveryPending, height, spare, sparePending]
  exact ⟨Prod.ext rfl (blank.symm.trans (equal.trans blank')), rest⟩

theorem framed_recoveryBind :
    FramedOn (fun _ : Hash × RecoveryBind => True) recoveryBindStream := by
  rintro ⟨k, ⟨identity, payload, height⟩⟩ ⟨k', ⟨identity', payload', height'⟩⟩ x y _ _ same
  simp only [recoveryBindStream, append_assoc] at same
  obtain ⟨rfl, same1⟩ := framed_hash.split same
  obtain ⟨rfl, same2⟩ := framed_address.split same1
  obtain ⟨rfl, same3⟩ := framed_hash.split same2
  obtain ⟨rfl, rest⟩ := framed_i64.split same3
  exact ⟨rfl, rest⟩

theorem framed_staking : FramedOn
    (fun e : AddressBytes × StakingAccount => e.2.Sized ∧ e.2.hashed = e.2) stakingStream := by
  rintro ⟨k, a⟩ ⟨k', b⟩ x y ⟨sized, blank⟩ ⟨sized', blank'⟩ same
  simp only [stakingStream, append_assoc] at same
  obtain ⟨rfl, same1⟩ := framed_address.split same
  obtain ⟨staked, same2⟩ := framed_i64.split same1
  obtain ⟨rewards, same3⟩ := framed_i64.split same2
  obtain ⟨locked, same4⟩ := framed_i64s sized.1 sized'.1 same3
  obtain ⟨release, same5⟩ := framed_i64s sized.2.1 sized'.2.1 same4
  obtain ⟨init, same6⟩ := framed_i64s sized.2.2 sized'.2.2 same5
  obtain ⟨delegated, same7⟩ := framed_address.split same6
  obtain ⟨operational, same8⟩ := framed_bool.split same7
  obtain ⟨since, same9⟩ := framed_i64.split same8
  obtain ⟨last, same10⟩ := framed_i64.split same9
  obtain ⟨commit, same11⟩ := framed_hash.split same10
  obtain ⟨height, rest⟩ := framed_i64.split same11
  have equal : a.hashed = b.hashed := by
    rw [StakingAccount.hashed, StakingAccount.hashed, staked, rewards, locked, release, init,
      delegated, operational, since, last, commit, height]
  exact ⟨Prod.ext rfl (blank.symm.trans (equal.trans blank')), rest⟩

theorem framed_owner :
    FramedOn (fun _ : AddressBytes × CoinTokenDetails => True) ownerStream := by
  rintro ⟨k, ⟨coin, token⟩⟩ ⟨k', ⟨coin', token'⟩⟩ x y _ _ same
  simp only [ownerStream, append_assoc] at same
  obtain ⟨rfl, same1⟩ := framed_address.split same
  obtain ⟨rfl, same2⟩ := framed_i64.split same1
  obtain ⟨rfl, rest⟩ := framed_i64.split same2
  exact ⟨rfl, rest⟩

theorem framed_code :
    FramedOn (fun e : AddressBytes × Bytes => e.2.length < 2 ^ 63) codeStream := by
  rintro ⟨k, code⟩ ⟨k', code'⟩ x y fits fits' same
  simp only [codeStream, append_assoc] at same
  obtain ⟨rfl, same1⟩ := framed_address.split same
  obtain ⟨rfl, rest⟩ := framed_bytes fits fits' same1
  exact ⟨rfl, rest⟩

theorem framed_nonce : FramedOn (fun _ : AddressBytes × UInt64 => True) nonceStream := by
  rintro ⟨k, nonce⟩ ⟨k', nonce'⟩ x y _ _ same
  simp only [nonceStream, append_assoc] at same
  obtain ⟨rfl, same1⟩ := framed_address.split same
  obtain ⟨value, rest⟩ := framed_i64.split same1
  have back := congrArg Int64.toUInt64 value
  rw [UInt64.toUInt64_toInt64, UInt64.toUInt64_toInt64] at back
  exact ⟨Prod.ext rfl back, rest⟩

theorem framed_slot : FramedOn (fun _ : Hash × Hash => True) slotStream := by
  rintro ⟨k, v⟩ ⟨k', v'⟩ x y _ _ same
  simp only [slotStream, append_assoc] at same
  obtain ⟨rfl, same1⟩ := framed_hash.split same
  obtain ⟨rfl, rest⟩ := framed_hash.split same1
  exact ⟨rfl, rest⟩

theorem framed_token :
    FramedOn (fun e : AddressBytes × TokenInfo => e.2.Sized) tokenStream := by
  rintro ⟨k, ⟨name, symbols, decimals⟩⟩ ⟨k', ⟨name', symbols', decimals'⟩⟩ x y sized sized' same
  simp only [tokenStream, append_assoc] at same
  obtain ⟨rfl, same1⟩ := framed_address.split same
  obtain ⟨rfl, same2⟩ := framed_bytes sized.1 sized'.1 same1
  obtain ⟨rfl, same3⟩ := framed_bytes sized.2 sized'.2 same2
  obtain ⟨number, rest⟩ := framed_i64.split same3
  obtain rfl := byte_inj number
  exact ⟨rfl, rest⟩

/-! Entries that hold a list without its number are framed once the number is known. -/

theorem framed_shard : FramedBy
    (fun shard : Nat × List (AddressBytes × StakingAccount) => shard.1 < 256 ∧
      ∀ e ∈ shard.2, e.2.Sized ∧ e.2.hashed = e.2)
    (fun shard => shard.2.length) shardStream := by
  rintro ⟨id, entries⟩ ⟨id', entries'⟩ x y good good' count same
  simp only [shardStream, append_assoc] at same
  obtain ⟨number, same1⟩ := framed_i64.split same
  obtain ⟨rfl, rest⟩ := framed_staking.flatMap good.2 good'.2 count same1
  obtain rfl : id = id' := ofNat_length_inj (lt_trans good.1 (by decide))
    (lt_trans good'.1 (by decide)) number
  exact ⟨rfl, rest⟩

theorem framed_pool : FramedBy (fun _ : AddressBytes × HashedPool => True)
    (fun e => e.2.owners.length) poolStream := by
  rintro ⟨k, ⟨coin, token, price, owners⟩⟩ ⟨k', ⟨coin', token', price', owners'⟩⟩ x y _ _ count same
  simp only [poolStream, append_assoc] at same
  obtain ⟨rfl, same1⟩ := framed_address.split same
  obtain ⟨rfl, same2⟩ := framed_i64.split same1
  obtain ⟨rfl, same3⟩ := framed_i64.split same2
  obtain ⟨rfl, same4⟩ := framed_i64.split same3
  obtain ⟨rfl, rest⟩ := framed_owner.flatMap (fun _ _ => trivial) (fun _ _ => trivial) count same4
  exact ⟨rfl, rest⟩

theorem framed_storage : FramedBy (fun _ : AddressBytes × List (Hash × Hash) => True)
    (fun e => e.2.length) storageStream := by
  rintro ⟨k, slots⟩ ⟨k', slots'⟩ x y _ _ count same
  simp only [storageStream, append_assoc] at same
  obtain ⟨rfl, same1⟩ := framed_address.split same
  obtain ⟨rfl, rest⟩ := framed_slot.flatMap (fun _ _ => trivial) (fun _ _ => trivial) count same1
  exact ⟨rfl, rest⟩

end Framed
end QwidNode.Source
