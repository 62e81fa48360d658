import QwidNode.Source.StateRoot

/-!
# How much of the state its root determines

The stream that is hashed delimits every field and section. It does not say how many entries a
staking shard, the owners of a pool, the storage of a contract and the maps of the EVM have, nor
where one of these ends.
-/
namespace QwidNode.Guarantees.RootDetermines
open Source Lib List

structure Layout where
  shards : List Nat
  owners : List Nat
  evmAccounts : Nat
  codes : Nat
  nonces : Nat
  slots : List Nat
  tokens : Nat
deriving DecidableEq, Repr

def layout (s : HashedState) : Layout where
  shards := s.staking.map fun shard => shard.2.length
  owners := s.dex.map fun e => e.2.owners.length
  evmAccounts := s.evmAccounts.length
  codes := s.codes.length
  nonces := s.nonces.length
  slots := s.statesHashes.map fun e => e.2.length
  tokens := s.tokens.length

/-- What hashed states of a node have in common: unhashed fields are blank, shard numbers are
bytes, and slices are no longer than slices can be. -/
structure WellFormed (s : HashedState) : Prop where
  accounts : ∀ e ∈ s.accounts, e.2.Sized ∧ e.2.hashed = e.2
  staking : ∀ shard ∈ s.staking, shard.1 < 256 ∧ ∀ e ∈ shard.2, e.2.Sized ∧ e.2.hashed = e.2
  codes : ∀ e ∈ s.codes, e.2.length < 2 ^ 63
  tokens : ∀ e ∈ s.tokens, e.2.Sized

private def StartsWith (n : Nat) (z : Bytes) : Prop := z.take 8 = getByteInt64 (Int64.ofNat n)

private theorem startsWith_rootBytes (b z : Bytes) : StartsWith b.length (rootBytes b ++ z) := by
  rw [StartsWith, rootBytes, append_assoc, take_left' (getByteInt64_length _)]

private theorem not_startsWith {m n : Nat} {z : Bytes} (other : StartsWith m z)
    (different : Int64.ofNat m ≠ Int64.ofNat n) : ¬ StartsWith n z :=
  fun this => different (getByteInt64_injective (other.symm.trans this))

section Determined
variable {s t : HashedState}

private theorem accounts_framed (wf : WellFormed s) (wf' : WellFormed t) {x y : Bytes}
    (same : s.accounts.flatMap accountStream ++ (rootBytes recoveryBindsSection ++ x) =
      t.accounts.flatMap accountStream ++ (rootBytes recoveryBindsSection ++ y)) :
    s.accounts = t.accounts ∧ x = y := by
  have begins : ∀ e : AddressBytes × Account, e.2.Sized ∧ e.2.hashed = e.2 →
      ∀ z, StartsWith 20 (accountStream e ++ z) := by
    intro e _ z
    rw [accountStream, rootAddress, append_assoc, ← e.1.getBytes_length]
    exact startsWith_rootBytes _ _
  have ends : ∀ z, ¬ StartsWith 20 (rootBytes recoveryBindsSection ++ z) := fun z =>
    not_startsWith (startsWith_rootBytes recoveryBindsSection z) (by decide)
  obtain ⟨accounts, rest⟩ := framed_account.flatMap_until begins wf.accounts wf'.accounts (ends x)
    (ends y) same
  exact ⟨accounts, append_cancel_left rest⟩

private theorem recoveryBinds_framed {x y : Bytes}
    (same : s.recoveryBinds.flatMap recoveryBindStream ++ (rootBytes stakingSection ++ x) =
      t.recoveryBinds.flatMap recoveryBindStream ++ (rootBytes stakingSection ++ y)) :
    s.recoveryBinds = t.recoveryBinds ∧ x = y := by
  have begins : ∀ e : Hash × RecoveryBind, True →
      ∀ z, StartsWith 32 (recoveryBindStream e ++ z) := by
    intro e _ z
    rw [recoveryBindStream, rootHash, append_assoc, ← e.1.getBytes_length]
    exact startsWith_rootBytes _ _
  have ends : ∀ z, ¬ StartsWith 32 (rootBytes stakingSection ++ z) := fun z =>
    not_startsWith (startsWith_rootBytes stakingSection z) (by decide)
  obtain ⟨binds, rest⟩ := framed_recoveryBind.flatMap_until begins (fun _ _ => trivial)
    (fun _ _ => trivial) (ends x) (ends y) same
  exact ⟨binds, append_cancel_left rest⟩

theorem eq_of_stream (wf : WellFormed s) (wf' : WellFormed t) (same : s.stream = t.stream)
    (counts : layout s = layout t) : s = t := by
  rw [layout, layout, Layout.mk.injEq] at counts
  obtain ⟨shards, owners, evmAccounts, codes, nonces, slots, tokens⟩ := counts
  have everything := append_cancel_left same
  obtain ⟨eqAccounts, same1⟩ := accounts_framed wf wf' everything
  obtain ⟨eqBinds, same2⟩ := recoveryBinds_framed same1
  obtain ⟨eqStaking, same3⟩ := framed_shard.flatMap wf.staking wf'.staking shards same2
  obtain ⟨eqDex, same4⟩ := framed_pool.flatMap (fun _ _ => trivial) (fun _ _ => trivial) owners
    (append_cancel_left same3)
  have framed_key : FramedOn (fun _ : AddressBytes × Unit => True) fun e => rootAddress e.1 :=
    fun a b x y _ _ eq => (framed_address trivial trivial eq).imp_left fun key => Prod.ext key rfl
  obtain ⟨eqEvm, same5⟩ := framed_key.flatMap (fun _ _ => trivial) (fun _ _ => trivial) evmAccounts
    (append_cancel_left same4)
  obtain ⟨eqCodes, same6⟩ := framed_code.flatMap wf.codes wf'.codes codes same5
  obtain ⟨eqNonces, same7⟩ := framed_nonce.flatMap (fun _ _ => trivial) (fun _ _ => trivial) nonces
    same6
  obtain ⟨eqSlots, same8⟩ := framed_storage.flatMap (fun _ _ => trivial) (fun _ _ => trivial) slots
    same7
  have last : s.tokens.flatMap tokenStream ++ [] = t.tokens.flatMap tokenStream ++ [] := by
    rw [append_nil, append_nil, same8]
  obtain ⟨eqTokens, -⟩ := framed_token.flatMap wf.tokens wf'.tokens tokens last
  exact HashedState.ext eqAccounts eqBinds eqStaking eqDex eqEvm eqCodes eqNonces eqSlots eqTokens

end Determined

structure Sliced (l : Ledger) (sa : StateAccount) : Prop where
  accounts : ∀ k a, l.accounts.lookup k = some a → a.Sized
  staking : ∀ k a, l.staking.lookup k = some a → a.Sized
  codes : ∀ k code, sa.codes.lookup k = some code → code.length < 2 ^ 63
  tokens : ∀ k t, sa.tokens.lookup k = some t → t.Sized

theorem wellFormed_hashedState {l : Ledger} {sa : StateAccount} (sliced : Sliced l sa)
    (dex : FinMap AddressBytes DexAccount) : WellFormed (hashedState l dex sa) where
  accounts := by
    rintro ⟨k, a⟩ member
    obtain ⟨b, found, rfl⟩ := Option.map_eq_some_iff.mp (FinMap.mem_sortedWith.mp member)
    exact ⟨sliced.accounts k b found, rfl⟩
  staking := by
    intro shard member
    obtain ⟨listed, -⟩ := List.mem_filter.mp member
    obtain ⟨id, inRange, rfl⟩ := List.mem_map.mp listed
    refine ⟨List.mem_range.mp inRange, fun e inShard => ?_⟩
    obtain ⟨⟨k, a⟩, entry, rfl⟩ := List.mem_map.mp (mem_sortByKey.mp inShard)
    obtain ⟨⟨key, b⟩, stored, same⟩ := List.mem_map.mp entry
    obtain ⟨rfl, rfl⟩ := Prod.mk.inj same
    have found := AList.mem_lookup_iff.mpr (List.mem_filter.mp stored).1
    exact ⟨sliced.staking key b found, rfl⟩
  codes := by
    rintro ⟨k, code⟩ member
    obtain ⟨b, found, rfl⟩ := Option.map_eq_some_iff.mp (FinMap.mem_sortedWith.mp member)
    exact sliced.codes k b found
  tokens := by
    rintro ⟨k, t⟩ member
    obtain ⟨b, found, rfl⟩ := Option.map_eq_some_iff.mp (FinMap.mem_sortedWith.mp member)
    exact sliced.tokens k b found

/-- Two states with one stream have the same hashed fields exactly when they have the same numbers
of entries. -/
theorem stream_determines_iff {l l' : Ledger} {dex dex' : FinMap AddressBytes DexAccount}
    {sa sa' : StateAccount} (sliced : Sliced l sa) (sliced' : Sliced l' sa')
    (same : stateRootStream l dex sa = stateRootStream l' dex' sa') :
    hashedState l dex sa = hashedState l' dex' sa' ↔
      layout (hashedState l dex sa) = layout (hashedState l' dex' sa') :=
  ⟨congrArg layout, eq_of_stream (wellFormed_hashedState sliced dex)
    (wellFormed_hashedState sliced' dex') same⟩

def twoAccounts : StateAccount :=
  { accounts := ((∅ : FinMap AddressBytes Account).insert 1 { address := 1 }).insert 2
      { address := 2 } }

/-- No account, and under the first address a code whose bytes are the second address. -/
def oneCode : StateAccount :=
  { codes := (∅ : FinMap AddressBytes Bytes).insert 1 (2 : AddressBytes).getBytes }

private theorem sliced_twoAccounts : Sliced {} twoAccounts :=
  ⟨by simp, by simp, by simp [twoAccounts], by simp [twoAccounts]⟩

/-- A state and itself with its accounts entered in the other order. -/
theorem stream_determines_reordered :
    hashedState {} ∅ twoAccounts = hashedState {} ∅ { twoAccounts with
      accounts := ((∅ : FinMap AddressBytes Account).insert 2 { address := 2 }).insert 1
        { address := 1 } } :=
  (stream_determines_iff sliced_twoAccounts
    ⟨by simp, by simp, by simp [twoAccounts], by simp [twoAccounts]⟩ (by decide +kernel)).mpr
    (by decide +kernel)

/-- The two states have one stream and different hashed fields. -/
theorem account_reads_like_code :
    stateRootStream {} ∅ twoAccounts = stateRootStream {} ∅ oneCode ∧
      (hashedState {} ∅ twoAccounts).codes ≠ (hashedState {} ∅ oneCode).codes := by
  decide +kernel

end QwidNode.Guarantees.RootDetermines
