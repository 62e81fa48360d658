import QwidNode.Source.Ranking
import QwidNode.Source.SnapshotFacts
import QwidNode.Source.StateRoot

/-!
# What a snapshot gives back

Accounts, staking shards and pools come back with every field, whatever the order their maps were
written in. The state of the EVM is JSON, which replaces every byte of a string that is not UTF-8,
and a contract chooses the bytes of its token's name and symbol, which the state root hashes. So
the root survives a store and a load exactly when these texts are UTF-8
(`snapshot_restores_iff`); a token with the name `ff` changes it (`name_comes_back_longer`).

No byte string makes a decoder panic or read past its end.
-/
namespace QwidNode.Guarantees.SnapshotRoundTrip
open Source Lib Ledger FinMap StakingAccount Account DexAccount AccountsType StakingAccountsType
  TokenInfo List AList Option Prod

/-- The sizes that the length fields of a snapshot have room for. A transaction carries at most 255
co-signers, a token has texts of at most 4096 bytes, and there are 256 shards. -/
structure Storable (l : Ledger) (dex : FinMap AddressBytes DexAccount) (sa : StateAccount) :
    Prop where
  accounts : l.accounts.entries.length < 2 ^ 63
  cosigners : ∀ k a, l.accounts.lookup k = some a → a.multiSignAddresses.length ≤ 255
  binds : l.recoveryBinds.entries.length < 2 ^ 63
  shards : l.staking.entries.length < 2 ^ 63
  staking : ∀ k a, l.staking.lookup k = some a → k.1 < 256 ∧ a.Storable
  pools : dex.entries.length < 2 ^ 63
  owners : ∀ k d, dex.lookup k = some d → 52 + d.balances.entries.length * 36 < 2 ^ 32
  tokens : ∀ k t, sa.tokens.lookup k = some t → t.name.length ≤ 4096 ∧ t.symbols.length ≤ 4096

def Utf8Texts (sa : StateAccount) : Prop :=
  ∀ k t, sa.tokens.lookup k = some t → Utf8.valid t.name = true ∧ Utf8.valid t.symbols = true

section Restored
variable {l : Ledger} {dex : FinMap AddressBytes DexAccount} {sa : StateAccount}

def restoredShard (it : Iteration l dex) (n : Nat) : StakingAccountsType :=
  ⟨ofPairs ((it.shards n).map fun e => (e.1, e.2.restored)),
    (l.stakeChangedAt.lookup n).getD 0⟩

def restoredLedger (it : Iteration l dex) (accountsHeight : Int64) : Ledger :=
  .ofLoaded ⟨ofPairs it.accounts, ofPairs (l.recoveryBinds.sortedWith id),
    accountsHeight⟩ ((List.range 256).map (restoredShard it))

def restoredPools (it : Iteration l dex) : FinMap AddressBytes DexAccount :=
  ofPairs (it.pools.map fun e => (e.1, e.2.restored))

variable (it : Iteration l dex)

theorem restoredShard_lookup (n : Nat) (a : AddressBytes) :
    (restoredShard it n).allStakingAccounts.lookup a =
      (l.staking.lookup (n, a)).map restored :=
  lookup_ofPairs_map (fun a => l.staking.lookup (n, a))
    (fun _ _ => (it.shards_perm n).mem_iff.trans mem_shardEntries) restored a

theorem getElem?_shards (n : Nat) :
    ((List.range 256).map (restoredShard it))[n]? =
      if n < 256 then some (restoredShard it n) else none := by
  rw [List.getElem?_map]
  by_cases inside : n < 256
  · rw [List.getElem?_range inside, if_pos inside]
    rfl
  · rw [List.getElem?_eq_none (by simpa using inside), if_neg inside]
    rfl

variable (accountsHeight : Int64)

theorem restored_accounts (k : AddressBytes) :
    (restoredLedger it accountsHeight).accounts.lookup k = l.accounts.lookup k :=
  lookup_ofPairs_perm it.accounts_perm k

theorem restored_recoveryBinds (k : Hash) :
    (restoredLedger it accountsHeight).recoveryBinds.lookup k = l.recoveryBinds.lookup k :=
  lookup_ofPairs_perm (sortByKey_perm _) k

theorem restored_staking (inRange : ∀ k a, l.staking.lookup k = some a → k.1 < 256)
    (k : Nat × AddressBytes) : (restoredLedger it accountsHeight).staking.lookup k =
      (l.staking.lookup k).map restored := by
  refine lookup_ofPairs (fun k => (l.staking.lookup k).map restored) ?_ k
  rintro ⟨n, a⟩ v
  rw [mem_flatMap]
  constructor
  · rintro ⟨⟨shard, m⟩, indexed, member⟩
    obtain ⟨⟨b, w⟩, stored, same⟩ := List.mem_map.mp member
    obtain ⟨key, rfl⟩ := Prod.mk.inj same
    obtain ⟨rfl, rfl⟩ := Prod.mk.inj key
    rw [mk_mem_zipIdx_iff_getElem?, getElem?_shards] at indexed
    by_cases inside : m < 256
    · rw [if_pos inside] at indexed
      obtain rfl := Option.some.inj indexed
      rw [← restoredShard_lookup it]
      exact mem_pairs.mp stored
    · rw [if_neg inside] at indexed
      cases indexed
  · intro found
    obtain ⟨w, stored, -⟩ := Option.map_eq_some_iff.mp found
    have inside := inRange (n, a) w stored
    refine ⟨(restoredShard it n, n), ?_, List.mem_map.mpr ⟨(a, v), ?_, rfl⟩⟩
    · rw [mk_mem_zipIdx_iff_getElem?, getElem?_shards, if_pos inside]
    · rw [mem_pairs, restoredShard_lookup]
      exact found

def restoredStamp (l : Ledger) (n : Nat) : Option Int64 :=
  if n < 256 then some ((l.stakeChangedAt.lookup n).getD 0) else none

theorem restored_stakeChangedAt (n : Nat) :
    (restoredLedger it accountsHeight).stakeChangedAt.lookup n = restoredStamp l n := by
  rw [restoredLedger, ofLoaded, lookup_ofPairs (restoredStamp l)]
  intro m v
  rw [List.mem_map, restoredStamp]
  constructor
  · rintro ⟨⟨shard, m⟩, indexed, same⟩
    obtain ⟨rfl, rfl⟩ := Prod.mk.inj same
    rw [mk_mem_zipIdx_iff_getElem?, getElem?_shards] at indexed
    by_cases inside : m < 256
    · rw [if_pos inside] at indexed ⊢
      obtain rfl := Option.some.inj indexed
      rfl
    · rw [if_neg inside] at indexed
      cases indexed
  · intro found
    by_cases inside : m < 256
    · rw [if_pos inside] at found
      refine ⟨(restoredShard it m, m), ?_, Prod.ext rfl (Option.some.inj found)⟩
      rw [mk_mem_zipIdx_iff_getElem?, getElem?_shards, if_pos inside]
    · rw [if_neg inside] at found
      cases found

theorem restored_sameStakes (inRange : ∀ k a, l.staking.lookup k = some a → k.1 < 256) :
    SameStakes l (restoredLedger it accountsHeight) where
  entries k := by
    rw [restored_staking it accountsHeight inRange, Option.map_map]
    rfl
  inRange := inRange
  changed n inside := by
    rw [restored_stakeChangedAt, restoredStamp, if_pos inside]
    rfl

theorem pools_one (k : AddressBytes) (p p' : WrittenPool) (first : (k, p) ∈ it.pools)
    (second : (k, p') ∈ it.pools) : p = p' := by
  have keys : (it.pools.map fst).Nodup := by
    have listed := (it.pools_perm.map fst).nodup_iff.mpr (nodup_pairs id dex)
    rwa [List.map_map] at listed
  exact congrArg snd (List.inj_on_of_nodup_map keys first second rfl)

theorem restored_pools (k : AddressBytes) :
    ((restoredPools it).lookup k).map DexAccount.hashed = (dex.lookup k).map DexAccount.hashed := by
  have written : ∀ k p, (k, p) ∈ it.pools ↔ (ofPairs it.pools).lookup k = some p :=
    fun _ _ => (lookup_ofPairs_iff (pools_one it)).symm
  have account : ((ofPairs it.pools).lookup k).map WrittenPool.account = dex.lookup k := by
    refine Option.ext fun d => ?_
    rw [← mem_pairs, ← it.pools_perm.mem_iff, List.mem_map, map_eq_some_iff]
    constructor
    · rintro ⟨p, found, rfl⟩
      exact ⟨(k, p), (written k p).mpr found, rfl⟩
    · rintro ⟨⟨k', p⟩, member, same⟩
      obtain ⟨rfl, rfl⟩ := Prod.mk.inj same
      exact ⟨p, (written k' p).mp member, rfl⟩
  rw [restoredPools, lookup_ofPairs_map _ written, ← account, Option.map_map, Option.map_map]
  refine Option.map_congr fun p found => ?_
  have owners := it.owners_perm (k, p) ((written k p).mpr found)
  have sorted : (ofPairs p.owners).sortedWith id = p.account.balances.sortedWith id :=
    sortedWith_eq_iff.mpr fun owner => by rw [lookup_ofPairs_perm owners]
  rw [Function.comp_apply, Function.comp_apply, DexAccount.hashed, DexAccount.hashed, ← sorted]
  rfl

theorem mem_hashedEntries {n : Nat} {a : AddressBytes} {w : StakingAccount} :
    (a, w) ∈ (l.shardEntries n).map (fun e => (e.1, e.2.hashed)) ↔
      (l.staking.lookup (n, a)).map StakingAccount.hashed = some w := by
  rw [List.mem_map, map_eq_some_iff]
  constructor
  · rintro ⟨⟨b, v⟩, member, same⟩
    obtain ⟨rfl, rfl⟩ := Prod.mk.inj same
    exact ⟨v, mem_shardEntries.mp member, rfl⟩
  · rintro ⟨v, found, rfl⟩
    exact ⟨(a, v), mem_shardEntries.mpr found, rfl⟩

theorem nodup_hashedEntries (l : Ledger) (n : Nat) :
    (((l.shardEntries n).map fun e => (e.1, e.2.hashed)).map fst).Nodup := by
  rw [List.map_map]
  exact nodup_shardEntries l n

theorem hashedShards_congr {l' : Ledger}
    (same : ∀ k, (l'.staking.lookup k).map StakingAccount.hashed =
      (l.staking.lookup k).map StakingAccount.hashed) : l'.hashedShards = l.hashedShards := by
  have shard : ∀ id, sortByKey ((l'.shardEntries id).map fun e => (e.1, e.2.hashed)) =
      sortByKey ((l.shardEntries id).map fun e => (e.1, e.2.hashed)) := by
    intro id
    refine sortByKey_congr (nodup_hashedEntries l' id) (nodup_hashedEntries l id) ?_
    rintro ⟨a, w⟩
    rw [mem_hashedEntries, mem_hashedEntries, same]
  unfold hashedShards
  simp only [shard]

theorem hashedState_restored (inRange : ∀ k a, l.staking.lookup k = some a → k.1 < 256)
    (memory : StateAccount) :
    hashedState (restoredLedger it accountsHeight) (restoredPools it)
      (memory.loadedOver sa.persisted) =
      { hashedState l dex sa with tokens := sa.tokens.sortedWith asText } := by
  have accounts : (restoredLedger it accountsHeight).accounts.sortedWith Account.hashed =
      l.accounts.sortedWith Account.hashed :=
    sortedWith_eq_iff.mpr fun k => by rw [restored_accounts]
  have binds : (restoredLedger it accountsHeight).recoveryBinds.sortedWith id =
      l.recoveryBinds.sortedWith id :=
    sortedWith_eq_iff.mpr fun k => by rw [restored_recoveryBinds]
  have staking : (restoredLedger it accountsHeight).hashedShards = l.hashedShards := by
    refine hashedShards_congr fun k => ?_
    rw [restored_staking it accountsHeight inRange, Option.map_map]
    rfl
  have pools : (restoredPools it).sortedWith DexAccount.hashed = dex.sortedWith DexAccount.hashed :=
    sortedWith_eq_iff.mpr (restored_pools it)
  have tokens : (sa.tokens.mapValues asText).sortedWith id =
      sa.tokens.sortedWith asText :=
    sortedWith_eq_iff.mpr fun k => by rw [lookup_mapValues, Option.map_id, id]
  exact HashedState.ext accounts binds staking pools rfl rfl rfl rfl tokens

end Restored

section Texts
variable {sa : StateAccount}

theorem asText_eq_iff {t : TokenInfo} :
    t.asText = t ↔ Utf8.valid t.name = true ∧ Utf8.valid t.symbols = true := by
  rw [← Utf8.coerce_eq_iff, ← Utf8.coerce_eq_iff]
  constructor
  · intro same
    exact ⟨congrArg TokenInfo.name same, congrArg TokenInfo.symbols same⟩
  · rintro ⟨name, symbols⟩
    rw [asText, name, symbols]

theorem sortedTexts_eq_iff :
    sa.tokens.sortedWith asText = sa.tokens.sortedWith id ↔ Utf8Texts sa := by
  rw [sortedWith_eq_iff]
  refine forall_congr' fun k => ?_
  cases sa.tokens.lookup k with
  | none => simp
  | some t =>
    rw [map_some, map_some, Option.some.injEq, id, asText_eq_iff]
    simp

theorem textStream_eq_iff (small : ∀ k t, sa.tokens.lookup k = some t →
      t.name.length ≤ 4096 ∧ t.symbols.length ≤ 4096) :
    (sa.tokens.sortedWith asText).flatMap tokenStream =
      (sa.tokens.sortedWith id).flatMap tokenStream ↔ Utf8Texts sa := by
  rw [← sortedTexts_eq_iff]
  refine ⟨fun same => ?_, congrArg _⟩
  have sized : ∀ e ∈ sa.tokens.sortedWith id, e.2.Sized := by
    rintro ⟨k, t⟩ member
    obtain ⟨t', found, rfl⟩ := Option.map_eq_some_iff.mp (mem_sortedWith.mp member)
    have bound := small k t' found
    exact ⟨lt_of_le_of_lt bound.1 (by decide), lt_of_le_of_lt bound.2 (by decide)⟩
  have sized' : ∀ e ∈ sa.tokens.sortedWith asText, e.2.Sized := by
    rintro ⟨k, t⟩ member
    obtain ⟨t', found, rfl⟩ := Option.map_eq_some_iff.mp (mem_sortedWith.mp member)
    have bound := small k t' found
    have name := Utf8.coerce_length_le t'.name
    have symbols := Utf8.coerce_length_le t'.symbols
    exact ⟨lt_of_le_of_lt (name.trans (Nat.mul_le_mul_left 3 bound.1)) (by decide),
      lt_of_le_of_lt (symbols.trans (Nat.mul_le_mul_left 3 bound.2)) (by decide)⟩
  have counts : (sa.tokens.sortedWith asText).length =
      (sa.tokens.sortedWith id).length := by
    rw [sortedWith, sortedWith, (sortByKey_perm _).length_eq,
      (sortByKey_perm _).length_eq, length_map, length_map]
  have whole := congrArg (· ++ ([] : Bytes)) same
  exact (framed_token.flatMap sized' sized counts whole).1

end Texts

section Loaded
variable {l : Ledger} {dex : FinMap AddressBytes DexAccount} {sa : StateAccount} {h : Int64}

theorem accounts_decoded (storable : Storable l dex sa) (it : Iteration l dex)
    (accountsHeight : Int64) :
    AccountsType.unmarshal (AccountsType.marshal it.accounts l.recoveryBinds accountsHeight) =
      .value ⟨ofPairs it.accounts, ofPairs (l.recoveryBinds.sortedWith id),
        accountsHeight⟩ [] := by
  refine AccountsType.unmarshal_marshal ?_ ?_ ?_
  · rw [it.accounts_perm.length_eq, pairs_length]
    exact storable.accounts
  · rw [sortedWith, (sortByKey_perm _).length_eq, length_map]
    exact storable.binds
  · rintro ⟨k, a⟩ member
    exact storable.cosigners k a (mem_pairs.mp (it.accounts_perm.mem_iff.mp member))

theorem shard_decoded (storable : Storable l dex sa) (it : Iteration l dex) (n : Nat) :
    StakingAccountsType.unmarshal (StakingAccountsType.marshal (it.shards n)
      ((l.stakeChangedAt.lookup n).getD 0)) = .value (restoredShard it n) [] := by
  refine StakingAccountsType.unmarshal_marshal ?_ ?_
  · have listed : (l.shardEntries n).length ≤ l.staking.entries.length := by
      rw [shardEntries, length_map]
      exact length_filter_le _ _
    rw [(it.shards_perm n).length_eq]
    exact lt_of_le_of_lt listed storable.shards
  · rintro ⟨k, a⟩ member
    exact (storable.staking (n, k) a
      (mem_shardEntries.mp ((it.shards_perm n).mem_iff.mp member))).2

theorem pools_decoded (storable : Storable l dex sa) (it : Iteration l dex) :
    unmarshalDexAccounts (marshalDexAccounts it.pools) = .value (restoredPools it) [] := by
  refine unmarshalDexAccounts_marshal ?_ ?_
  · have listed := it.pools_perm.length_eq
    rw [length_map, pairs_length] at listed
    rw [listed]
    exact storable.pools
  · intro e member
    have owners := (it.owners_perm e member).length_eq
    have account : (e.1, e.2.account) ∈ dex.pairs :=
      it.pools_perm.mem_iff.mp (List.mem_map.mpr ⟨e, member, rfl⟩)
    rw [WrittenPool.marshal_length, owners, pairs_length]
    exact storable.owners e.1 e.2.account (mem_pairs.mp account)

theorem loadState_stored {τ : Type} (json : StateJson τ) (storable : Storable l dex sa)
    (it : Iteration l dex) (db : KeyValues) (evm : FinMap Int64 τ) (memory : StateAccount)
    (accountsHeight : Int64) (root : Bytes) (nonneg : 0 ≤ h) :
    loadState json (storeState db h (it.snapshot accountsHeight root))
      (storeEvmState json evm h sa) h memory =
      some (restoredLedger it accountsHeight, restoredPools it,
        memory.loadedOver sa.persisted) := by
  have accounts : loadAccounts (storeState db h (it.snapshot accountsHeight root)) h =
      some ⟨ofPairs it.accounts, ofPairs (l.recoveryBinds.sortedWith id),
        accountsHeight⟩ := by
    rw [loadAccounts_storeState nonneg, Iteration.snapshot, accounts_decoded storable it]
    rfl
  have shards : loadStakingAccounts (storeState db h (it.snapshot accountsHeight root)) h =
      some ((List.range 256).map (restoredShard it)) := by
    refine loadStakingAccounts_storeState fun i small => ?_
    have number : (UInt8.ofNat i).toNat = i := by
      rw [UInt8.toNat_ofNat']
      omega
    have written : (it.snapshot accountsHeight root).shards (UInt8.ofNat i) =
        StakingAccountsType.marshal (it.shards i) ((l.stakeChangedAt.lookup i).getD 0) := by
      rw [Iteration.snapshot]
      dsimp only
      rw [number]
    rw [written, shard_decoded storable it]
    rfl
  have pools : loadDexAccounts (storeState db h (it.snapshot accountsHeight root)) h =
      some (restoredPools it) := by
    rw [loadDexAccounts_storeState nonneg, Iteration.snapshot, pools_decoded storable it]
    rfl
  have stored : ((storeEvmState json evm h sa).lookup h).bind json.unmarshal =
      some sa.persisted := by
    rw [storeEvmState, lookup_insert, bind_some, json.reads]
  rw [loadState, accounts, shards, pools, stored]
  rfl

theorem stream_restored_iff (storable : Storable l dex sa) (it : Iteration l dex)
    (accountsHeight : Int64) (memory : StateAccount) :
    stateRootStream (restoredLedger it accountsHeight) (restoredPools it)
      (memory.loadedOver sa.persisted) = stateRootStream l dex sa ↔ Utf8Texts sa := by
  rw [← textStream_eq_iff storable.tokens, stateRootStream, stateRootStream,
    hashedState_restored it accountsHeight fun k a found => (storable.staking k a found).1]
  simp only [HashedState.stream, append_cancel_left_eq]
  rfl

end Loaded

/-- Storing a state and loading it gives a state with the same root stream and the same ranking. -/
def Restores {τ : Type} (json : StateJson τ) (db : KeyValues) (evm : FinMap Int64 τ)
    (memory : StateAccount) (height accountsHeight : Int64) (root : Bytes) {l : Ledger}
    {dex : FinMap AddressBytes DexAccount} (it : Iteration l dex) (sa : StateAccount) : Prop :=
  ∃ l' dex' sa', loadState json (storeState db height (it.snapshot accountsHeight root))
      (storeEvmState json evm height sa) height memory = some (l', dex', sa') ∧
    stateRootStream l' dex' sa' = stateRootStream l dex sa ∧
    (∀ n, l'.eligibleOperator n = l.eligibleOperator n) ∧
    ∀ n < 256, ∀ id < 256, l'.ranksBefore n id = l.ranksBefore n id

def DecodersSafe (bytes : Bytes) : Prop :=
  AccountsType.unmarshal bytes ≠ .fault ∧ Account.unmarshal bytes ≠ .fault ∧
    StakingAccountsType.unmarshal bytes ≠ .fault ∧ StakingAccount.unmarshal bytes ≠ .fault ∧
    unmarshalDexAccounts bytes ≠ .fault ∧ DexAccount.unmarshal bytes ≠ .fault

theorem decodersSafe (bytes : Bytes) : DecodersSafe bytes :=
  ⟨(AccountsType.safe_unmarshal _).not_fault, (Account.safe_unmarshal _).not_fault,
    (StakingAccountsType.safe_unmarshal _).not_fault, (StakingAccount.safe_unmarshal _).not_fault,
    (safe_unmarshalDexAccounts _).not_fault, (DexAccount.safe_unmarshal _).not_fault⟩

/-- A stored state comes back exactly when the texts of its tokens are UTF-8, and every byte string
is decoded or refused. -/
theorem snapshot_restores_iff {τ : Type} (json : StateJson τ) {l : Ledger}
    {dex : FinMap AddressBytes DexAccount} {sa : StateAccount} (storable : Storable l dex sa)
    (it : Iteration l dex) (db : KeyValues) (evm : FinMap Int64 τ) (memory : StateAccount)
    {height : Int64} (nonneg : 0 ≤ height) (accountsHeight : Int64) (root : Bytes) :
    (Restores json db evm memory height accountsHeight root it sa ↔ Utf8Texts sa) ∧
      ∀ bytes, DecodersSafe bytes := by
  have loaded := loadState_stored json storable it db evm memory accountsHeight root nonneg
  have stream := stream_restored_iff storable it accountsHeight memory
  have ranking := restored_sameStakes it accountsHeight fun k a found =>
    (storable.staking k a found).1
  refine ⟨⟨?_, fun texts => ?_⟩, decodersSafe⟩
  · rintro ⟨l', dex', sa', again, same, -⟩
    rw [loaded, Option.some.injEq] at again
    obtain ⟨rfl, rfl, rfl⟩ : _ ∧ _ ∧ _ := by simpa only [Prod.mk.injEq] using again
    exact stream.mp same
  · exact ⟨_, _, _, loaded, stream.mpr texts, ranking.eligibleOperator,
      fun n inside id inside' => ranking.ranksBefore inside inside'⟩

def ledger : Ledger where
  accounts := (∅ : FinMap AddressBytes Account).insert 1
    { address := 1, balance := 5, multiSignNumber := 1, multiSignAddresses := [3] }
  staking := (∅ : FinMap (Nat × AddressBytes) StakingAccount).insert (1, 2)
    { address := 2, stakedBalance := 10, operationalAccount := true }
  stakeChangedAt := (∅ : FinMap Nat Int64).insert 1 7

def pools : FinMap AddressBytes DexAccount :=
  (∅ : FinMap AddressBytes DexAccount).insert 9
    { balances := (∅ : FinMap AddressBytes CoinTokenDetails).insert 1 ⟨4, 6⟩, coinPool := 4 }

def named (name : Bytes) : StateAccount where
  tokens := (∅ : FinMap AddressBytes TokenInfo).insert 9 ⟨name, [81], 2⟩

def keptFields : StateJson StateAccount := ⟨StateAccount.persisted, some, fun _ => rfl⟩

theorem lookup_single {κ α : Type} [DecidableEq κ] {k k' : κ} {v w : α}
    (found : ((∅ : FinMap κ α).insert k v).lookup k' = some w) : k' = k ∧ w = v := by
  by_cases same : k' = k
  · rw [same, lookup_insert] at found
    exact ⟨same, (Option.some.inj found).symm⟩
  · rw [lookup_insert_ne same] at found
    cases found

theorem storable_named {name : Bytes} (small : name.length ≤ 4096) :
    Storable ledger pools (named name) where
  accounts := by decide
  cosigners k a found := by
    obtain ⟨-, rfl⟩ := lookup_single found
    decide
  binds := by decide
  shards := by decide
  staking k a found := by
    obtain ⟨rfl, rfl⟩ := lookup_single found
    refine ⟨by decide, rfl, rfl, ?_⟩
    rw [StakingAccount.marshal_length]
    decide
  pools := by decide
  owners k d found := by
    obtain ⟨-, rfl⟩ := lookup_single found
    decide
  tokens k t found := by
    obtain ⟨-, rfl⟩ := lookup_single found
    have symbol : ([81] : Bytes).length ≤ 4096 := by decide
    exact ⟨small, symbol⟩

theorem utf8Texts_named {name : Bytes} : Utf8Texts (named name) ↔ Utf8.valid name = true := by
  constructor
  · intro texts
    exact (texts 9 ⟨name, [81], 2⟩ (lookup_insert _)).1
  · intro valid k t found
    obtain ⟨-, rfl⟩ := lookup_single found
    have symbol : Utf8.valid [81] = true := by decide
    exact ⟨valid, symbol⟩

/-- A token called `Q€` comes back. -/
theorem euro_comes_back : Storable ledger pools (named [81, 0xE2, 0x82, 0xAC]) ∧
    Restores keptFields ∅ ∅ {} 3 3 [] (Iteration.listed ledger pools)
      (named [81, 0xE2, 0x82, 0xAC]) :=
  ⟨storable_named (by decide),
    (snapshot_restores_iff keptFields (storable_named (by decide)) (Iteration.listed ledger pools)
      ∅ ∅ {} (by decide) 3 []).1.mpr (utf8Texts_named.mpr (by decide))⟩

/-- A token whose name is the byte `ff` comes back with the three bytes of U+FFFD, and the root
changes. -/
theorem name_comes_back_longer : Storable ledger pools (named [0xFF]) ∧
    ¬ Restores keptFields ∅ ∅ {} 3 3 [] (Iteration.listed ledger pools) (named [0xFF]) := by
  have storable : Storable ledger pools (named [0xFF]) := storable_named (by decide)
  refine ⟨storable, ?_⟩
  rintro ⟨l', dex', sa', again, same, -⟩
  rw [loadState_stored keptFields storable (Iteration.listed ledger pools) ∅ ∅ {} 3 [] (by decide),
    Option.some.injEq] at again
  obtain ⟨rfl, rfl, rfl⟩ : _ ∧ _ ∧ _ := by simpa only [Prod.mk.injEq] using again
  have texts := (stream_restored_iff storable (Iteration.listed ledger pools) 3 {}).mp same
  exact absurd (utf8Texts_named.mp texts) (by decide)

end QwidNode.Guarantees.SnapshotRoundTrip
