import QwidNode.Source.Turns

/-!
# The pending pools by hash

What the two pending pools hold under each hash, in memory (`pooled`) and in their database
mirrors (`mirrored`), and what each operation does to that. The discarding functions
`RemoveBadTransactionByHash` and `RemoveDuplicateTransactionByHash` take a hash out of both
memory pools but only out of the escrow mirror.
-/
namespace QwidNode.Source
open Lib AList
variable {σ : Type} {env : Env σ} {s t u : Node σ} {hash : Hash}

namespace Node

def pooled (s : Node σ) : PoolType → Hash → Option Transaction
  | .escrow, hash => s.poolTxEscrow.transactions.lookup hash
  | .multiSign, hash => s.poolTxMultiSign.transactions.lookup hash
  | .standard, _ => none

/-- The transaction the database mirror of a pending pool holds under a hash. -/
def mirrored (s : Node σ) : PoolType → Hash → Option Transaction
  | .escrow, hash => s.db.escrowPool.lookup hash
  | .multiSign, hash => s.db.multiSignPool.lookup hash
  | .standard, _ => none

theorem pooled_hash {pool : PoolType} {hash : Hash} {tx : Transaction}
    (found : s.pooled pool hash = some tx) : tx.hash = hash := by
  cases pool with
  | standard => cases found
  | escrow => exact (TransactionPool.mem_held_of_lookup found).2
  | multiSign => exact (TransactionPool.mem_held_of_lookup found).2

theorem pooled_eq (s : Node σ) {pool : PoolType} (pending : pool ≠ .standard) :
    s.pooled pool = fun key => (s.pool pool).transactions.lookup key := by
  cases pool with
  | standard => exact absurd rfl pending
  | escrow => rfl
  | multiSign => rfl

theorem mirrored_eq (s : Node σ) (pool : PoolType) :
    s.mirrored pool = fun key => (s.mirror pool).lookup key := by
  cases pool <;> rfl

section
variable {kind : PoolType} (pending : kind ≠ .standard) (s : Node σ) (pool : PoolType) (key : Hash)
include pending

theorem pooled_removeFrom (hash : Hash) : (s.removeFrom kind hash).pooled pool key =
    if pool = kind ∧ key = hash then none else s.pooled pool key := by
  by_cases same : pool = kind
  · subst same
    have removed := TransactionPool.lookup_removeTransactionByHash (s.pool pool) hash key
    simp [pooled_eq _ pending, removeFrom_pool, removed]
  · rw [if_neg fun both => same both.1]
    by_cases standard : pool = .standard
    · subst standard
      rfl
    · rw [pooled_eq _ standard, pooled_eq _ standard, removeFrom_pool_ne s hash same]

theorem mirrored_removeFrom (hash : Hash) : (s.removeFrom kind hash).mirrored pool key =
    if pool = kind ∧ key = hash then none else s.mirrored pool key := by
  simp only [mirrored_eq, removeFrom_mirror _ _ pending]
  by_cases same : pool = kind
  · subst same
    rw [if_pos rfl]
    by_cases equal : key = hash
    · rw [if_pos ⟨rfl, equal⟩, equal, lookup_erase]
    · rw [if_neg fun both => equal both.2, lookup_erase_ne equal]
  · rw [if_neg same, if_neg fun both => same both.1]

end

end Node

namespace TransactionPool

/-- `AddTransaction` refuses the hash: it is banned, or new and the pool is full. -/
def refuses {kind : PoolType} (tp : TransactionPool kind) (hash : Hash) : Prop :=
  tp.banned hash = true ∨
    (tp.transactions.lookup hash = none ∧ tp.maxTransactions ≤ tp.transactions.keys.length)

instance {kind : PoolType} (tp : TransactionPool kind) (hash : Hash) :
    Decidable (tp.refuses hash) := by unfold refuses; infer_instance

theorem addTransaction_lookup {kind : PoolType} (pending : kind ≠ .standard)
    (tp : TransactionPool kind) (tx : Transaction) (key hash : Hash) :
    ((tp.addTransaction tx key).2 = true ↔ ¬ tp.refuses tx.hash) ∧
      (tp.addTransaction tx key).1.transactions.lookup hash =
        (if hash = tx.hash ∧ tp.transactions.lookup tx.hash = none ∧ ¬ tp.refuses tx.hash then some tx
          else tp.transactions.lookup hash) ∧
      (tp.addTransaction tx key).1.maxTransactions = tp.maxTransactions := by
  have size : tp.priorityQueue.length = tp.transactions.keys.length := by
    rw [← tp.queue_keys.length_eq, List.length_map]
  unfold addTransaction refuses
  by_cases ban : tp.banned tx.hash = true
  · rw [if_pos ban]
    simp [ban, banTransactionByHash]
  rw [if_neg ban]
  split
  · next body found => simp [ban, found]
  · next fresh =>
    have grown := insertItem_perm (tp.addPendingLocked tx) tx
      (priorityOf kind tx key) fresh
    have length : ((tp.addPendingLocked tx).insertItem tx
        (priorityOf kind tx key) fresh).priorityQueue.length =
          tp.transactions.keys.length + 1 := by
      rw [grown.length_eq, List.length_cons, ← size]
      rfl
    have inserted : ((tp.addPendingLocked tx).insertItem tx
        (priorityOf kind tx key) fresh).transactions =
          tp.transactions.insert tx.hash tx := rfl
    simp only [length]
    split
    · next room =>
      have fits : ¬ (tp.banned tx.hash = true ∨ (tp.transactions.lookup tx.hash = none ∧
          tp.maxTransactions ≤ tp.transactions.keys.length)) := by
        rintro (bad | ⟨-, full⟩)
        · exact ban bad
        · omega
      refine ⟨iff_of_true rfl fits, ?_, rfl⟩
      rw [inserted]
      by_cases same : hash = tx.hash
      · rw [if_pos ⟨same, fresh, fits⟩, same, lookup_insert]
      · rw [if_neg fun both => same both.1, lookup_insert_ne same]
    · next crowded =>
      have full : tp.banned tx.hash = true ∨ (tp.transactions.lookup tx.hash = none ∧
          tp.maxTransactions ≤ tp.transactions.keys.length) := .inr ⟨fresh, by omega⟩
      rw [shrink_pending pending]
      refine ⟨iff_of_false (by simp) (not_not.mpr full), ?_, ?_⟩
      · rw [if_neg fun both => both.2.2 full]
        simp only [lookup_dropItem, subPendingLocked_transactions,
          inserted]
        by_cases same : hash = tx.hash
        · rw [if_pos same, same, fresh]
        · rw [if_neg same, lookup_insert_ne same]
      · simp only [dropItem_maxTransactions]
        rfl

theorem addTransaction_bans {kind : PoolType} (pending : kind ≠ .standard)
    {tp : TransactionPool kind} {tx : Transaction} {key : Hash} (free : tp.banned tx.hash = false) :
    (tp.addTransaction tx key).1.bannedTransactions = tp.bannedTransactions := by
  unfold addTransaction
  rw [if_neg (by simp [free])]
  split
  · rfl
  · dsimp only
    split
    · rfl
    · rw [shrink_pending pending, dropItem_bannedTransactions]
      rfl

theorem removeTransactionByHash_rest {kind : PoolType} (tp : TransactionPool kind) (hash : Hash) :
    (tp.removeTransactionByHash hash).maxTransactions = tp.maxTransactions ∧
      (tp.removeTransactionByHash hash).bannedTransactions = tp.bannedTransactions := by
  unfold removeTransactionByHash
  split
  · exact ⟨dropItem_maxTransactions _ _, dropItem_bannedTransactions _ _⟩
  · exact ⟨rfl, rfl⟩

end TransactionPool

namespace Node

section
variable {kind : PoolType} (pending : kind ≠ .standard) (s : Node σ) (tx : Transaction)
  (pool : PoolType) (key : Hash)
include pending

theorem pooled_addTo : (s.addTo kind tx).1.pooled pool key =
    if pool = kind ∧ key = tx.hash ∧ s.pooled kind tx.hash = none ∧ ¬ (s.pool kind).refuses tx.hash
    then some tx else s.pooled pool key := by
  by_cases same : pool = kind
  · subst same
    have added := (TransactionPool.addTransaction_lookup pending (s.pool pool) tx
      (fileKey pool tx) key).2.1
    simp [pooled_eq _ pending, addTo_pool, added]
  · rw [if_neg fun all => same all.1]
    by_cases standard : pool = .standard
    · subst standard
      rfl
    · rw [pooled_eq _ standard, pooled_eq _ standard, addTo_pool_ne s tx same]

theorem addTo_taken_iff : (s.addTo kind tx).2 = true ↔ ¬ (s.pool kind).refuses tx.hash := by
  rw [addTo_taken]
  exact (TransactionPool.addTransaction_lookup pending (s.pool kind) tx (fileKey kind tx) tx.hash).1

theorem mirrored_addTo : (s.addTo kind tx).1.mirrored pool key =
    if pool = kind ∧ key = tx.hash ∧ ¬ (s.pool kind).refuses tx.hash then some tx
    else s.mirrored pool key := by
  simp only [mirrored_eq, addTo_mirror _ _ pending, addTo_taken_iff pending]
  by_cases own : pool = kind ∧ ¬ (s.pool kind).refuses tx.hash
  · rw [if_pos own]
    by_cases equal : key = tx.hash
    · rw [if_pos ⟨own.1, equal, own.2⟩, equal, lookup_insert]
    · rw [if_neg fun all => equal all.2.1, lookup_insert_ne equal, own.1]
  · rw [if_neg own, if_neg fun all => own ⟨all.1, all.2.2⟩]

end

structure Discarded (hash : Hash) (s t : Node σ) : Prop where
  pooled : ∀ pool key, t.pooled pool key = if key = hash then none else s.pooled pool key
  mirrored : ∀ pool key, t.mirrored pool key =
    if pool = .escrow ∧ key = hash then none else s.mirrored pool key

theorem Discarded.of_same (discarded : Discarded hash s t) (pooled : u.pooled = t.pooled)
    (mirrored : u.mirrored = t.mirrored) : Discarded hash s u :=
  ⟨by rw [pooled]; exact discarded.pooled, by rw [mirrored]; exact discarded.mirrored⟩

theorem Discarded.again (first : Discarded hash s t) (second : Discarded hash t u) :
    Discarded hash s u := by
  constructor
  · intro pool key
    rw [second.pooled, first.pooled]
    split <;> rfl
  · intro pool key
    rw [second.mirrored, first.mirrored]
    split <;> rfl

theorem discarded_removeFromPools (s : Node σ) (hash : Hash) :
    Discarded hash s (s.removeFromPools hash) := by
  have after : ∀ u : Node σ, u.pooled = s.pooled → u.mirrored = s.mirrored →
      Discarded hash s { u.removeEscrowTransaction hash with
        poolTxMultiSign :=
          (u.removeEscrowTransaction hash).poolTxMultiSign.removeTransactionByHash hash } := by
    intro u pooled mirrored
    constructor
    · intro pool key
      rw [← pooled]
      cases pool with
      | standard => exact (ite_self none).symm
      | escrow =>
        apply (pooled_removeFrom (show PoolType.escrow ≠ .standard by decide) u .escrow key
          hash).trans
        simp
      | multiSign =>
        change ((u.removeEscrowTransaction hash).poolTxMultiSign.removeTransactionByHash
          hash).transactions.lookup key = _
        rw [TransactionPool.lookup_removeTransactionByHash, removeEscrowTransaction_multiSign]
        rfl
    · intro pool key
      rw [← mirrored]
      exact mirrored_removeFrom (show PoolType.escrow ≠ .standard by decide) u pool key hash
  exact after { s with poolsTx := s.poolsTx.removeTransactionByHash hash } rfl rfl

theorem discarded_removeDuplicateTransactionByHash (s : Node σ) (hash : Hash) :
    Discarded hash s (s.removeDuplicateTransactionByHash hash) :=
  (s.discarded_removeFromPools hash).of_same rfl rfl

theorem discarded_removeBadTransactionByHash (s : Node σ) (hash : Hash) :
    Discarded hash s (s.removeBadTransactionByHash env hash) := by
  have first := s.discarded_removeFromPools hash
  have stored : ∀ db : Db σ, db.escrowPool = (s.removeFromPools hash).db.escrowPool →
      db.multiSignPool = (s.removeFromPools hash).db.multiSignPool →
      Discarded hash s { s.removeFromPools hash with db := db } := by
    intro db escrow multiSign
    refine first.of_same rfl (funext fun pool => funext fun key => ?_)
    cases pool with
    | standard => rfl
    | escrow => exact congrArg (AList.lookup key) escrow
    | multiSign => exact congrArg (AList.lookup key) multiSign
  have cleaned : Discarded hash s { s.removeFromPools hash with
      db := ((s.removeFromPools hash).db.keepBad env hash).removePoolTx hash } := by
    unfold Db.keepBad
    split
    · exact stored _ rfl rfl
    · exact stored _ rfl rfl
  unfold removeBadTransactionByHash dropIncluded
  dsimp only
  split
  · exact (cleaned.again (discarded_removeDuplicateTransactionByHash _ hash)).of_same rfl rfl
  · exact cleaned.of_same rfl rfl

end Node
end QwidNode.Source
