import QwidNode.Guarantees.Affordability

/-!
# The recorded spend of a sender

Source: `transactionsPool/poolTx.go:64-213` and `:343-416`. A pool keeps, beside its transactions,
the sum of `fee + Amount` of each sender.
-/
namespace QwidNode.Guarantees.PendingSpend
open Lib Source TransactionPool
variable {t : PoolType} {tp : TransactionPool t} {tx : Transaction} {hash : Hash}

inductive PoolOp where
  | add (tx : Transaction) (hash2check : Hash)
  | remove (hash : Hash)
  | pop (hash : Hash)
  | clear
  | ban (hash : Hash)
  | block (hash : Hash)

def PoolOp.run (tp : TransactionPool t) : PoolOp → TransactionPool t
  | .add tx hash2check => (tp.addTransaction tx hash2check).1
  | .remove hash => tp.removeTransactionByHash hash
  | .pop hash => (tp.popTransactionByHash hash).1
  | .clear => cleared tp
  | .ban hash => tp.banTransactionByHash hash
  | .block hash => tp.blockTransactionByHash hash

def pooled (tp : TransactionPool t) : List Transaction := tp.priorityQueue.map Item.transaction

/-- The record of every sender is the sum over its pooled transactions. -/
def Exact (tp : TransactionPool t) : Prop :=
  ∀ a, (tp.pendingSpend a).toInt = spentBy a (pooled tp)

/-- Without `tx`, its sender's transactions spend an amount that is not negative and fits. -/
def RestFits (txs : List Transaction) (tx : Transaction) : Prop :=
  0 ≤ spentBy tx.sender txs - exactSpend tx ∧ spentBy tx.sender txs - exactSpend tx < 2 ^ 63

/-- A new transaction keeps its sender's sum within a word, and so does the rest after any eviction
from a full pool; what is removed leaves a rest that fits; what is popped spends nothing. -/
def PoolOp.Fits (tp : TransactionPool t) : PoolOp → Prop
  | .add tx _ => tp.banned tx.hash = false → tp.transactions.lookup tx.hash = none →
      (-2 ^ 63 ≤ spentBy tx.sender (tx :: pooled tp) ∧
        spentBy tx.sender (tx :: pooled tp) < 2 ^ 63) ∧
      (tp.maxTransactions ≤ tp.priorityQueue.length →
        ∀ v ∈ tx :: pooled tp, RestFits (tx :: pooled tp) v)
  | .remove hash => ∀ tx, tp.transactions.lookup hash = some tx → RestFits (pooled tp) tx
  | .pop hash => ∀ tx, tp.transactions.lookup hash = some tx → exactSpend tx = 0
  | _ => True

def AllFit (tp : TransactionPool t) : List PoolOp → Prop
  | [] => True
  | op :: rest => op.Fits tp ∧ AllFit (op.run tp) rest

theorem exact_remove (exact : Exact tp) (found : tp.transactions.lookup hash = some tx)
    (fits : RestFits (pooled tp) tx) : Exact (tp.removeTransactionByHash hash) := by
  intro a
  have sum := exactPending_remove found a
  rw [exactPending, exactPending] at sum
  rw [pooled, sum, pendingSpend_remove found]
  by_cases own : tx.sender = a
  · subst own
    obtain ⟨nonneg, small⟩ := fits
    have left := toInt_sub_txSpend (tp.pendingSpend tx.sender) tx
    rw [exact tx.sender, Int.bmod_eq_of_le (by omega) (by omega)] at left
    rw [if_pos rfl, if_pos rfl]
    change _ = spentBy tx.sender (pooled tp) - exactSpend tx
    split
    · next low =>
      rw [Word.le_iff, left, Word.toInt_zero] at low
      rw [Word.toInt_zero]
      omega
    · exact left
  · rw [if_neg own, if_neg own, Int.sub_zero]
    exact exact a

theorem exact_grown (exact : Exact tp) (priority : Int64)
    (fresh : tp.transactions.lookup tx.hash = none)
    (fits : -2 ^ 63 ≤ spentBy tx.sender (tx :: pooled tp) ∧
      spentBy tx.sender (tx :: pooled tp) < 2 ^ 63) :
    Exact ((tp.addPendingLocked tx).insertItem tx priority fresh) := by
  intro a
  have sum := exactPending_grown priority fresh a
  rw [exactPending, exactPending] at sum
  rw [pooled, sum, pendingSpend_grown priority fresh]
  by_cases own : tx.sender = a
  · subst own
    rw [spentBy_cons, if_pos rfl] at fits
    rw [if_pos rfl, if_pos rfl, toInt_add_txSpend, exact tx.sender, Int.add_comm,
      Int.bmod_eq_of_le (by omega) (by omega)]
    rfl
  · rw [if_neg own, if_neg own, Int.zero_add]
    exact exact a

theorem RestFits.perm {txs txs' : List Transaction} (perm : txs.Perm txs') (fits : RestFits txs tx) :
    RestFits txs' tx := by
  rwa [RestFits, spentBy_perm _ perm.symm]

theorem exact_shrink {grown : TransactionPool t} (exact : Exact grown)
    (added : grown.transactions.lookup tx.hash = some tx)
    (fits : ∀ v ∈ pooled grown, RestFits (pooled grown) v) : Exact (grown.shrink tx).1 := by
  have removes {hash : Hash} {v : Transaction} (found : grown.transactions.lookup hash = some v) :
      Exact ((grown.subPendingLocked v).dropItem hash) := by
    obtain ⟨item, member, -, rfl⟩ := lookup_eq_some_iff.mp found
    have removed := exact_remove exact found (fits _ (List.mem_map_of_mem member))
    rwa [removeTransactionByHash, found] at removed
  cases t with
  | standard =>
    rw [shrink]
    cases first : grown.minQueue.head? with
    | none => exact exact
    | some item =>
      have stored := grown.stored item
        (grown.minQueue_perm.mem_iff.mp (List.mem_of_mem_head? first))
      simp only [stored]
      exact removes stored
  | escrow => exact removes added
  | multiSign => exact removes added

theorem exact_add (exact : Exact tp) (hash2check : Hash)
    (fits : (PoolOp.add tx hash2check).Fits tp) : Exact (tp.addTransaction tx hash2check).1 := by
  rw [addTransaction]
  by_cases refused : tp.banned tx.hash = true
  · rw [if_pos refused]
    exact exact
  rw [if_neg refused]
  split
  · exact exact
  · next fresh =>
    obtain ⟨inRange, evicts⟩ := fits (by simpa using refused) fresh
    have grown := exact_grown exact (priorityOf t tx hash2check) fresh inRange
    have perm := insertItem_perm (tp.addPendingLocked tx) tx
      (priorityOf t tx hash2check) fresh
    dsimp only
    split
    · exact grown
    · next large =>
      have txs := perm.map Item.transaction
      rw [perm.length_eq, List.length_cons] at large
      refine exact_shrink grown ?_ fun v member => ?_
      · exact AList.lookup_insert _
      · exact (evicts (Nat.le_of_lt_succ (not_le.mp large)) v (txs.mem_iff.mp member)).perm txs.symm

theorem exact_pop (exact : Exact tp)
    (fits : ∀ tx, tp.transactions.lookup hash = some tx → exactSpend tx = 0) :
    Exact (tp.popTransactionByHash hash).1 := by
  intro a
  rw [popTransactionByHash, pendingSpend,
    dropItem_pendingBySender]
  refine (exact a).trans ?_
  cases found : tp.transactions.lookup hash with
  | none => rw [dropItem_of_absent found]
  | some tx =>
    obtain ⟨item, member, rfl, rfl⟩ := lookup_eq_some_iff.mp found
    have perm := (dropItem_perm member).map Item.transaction
    rw [pooled, ← spentBy_perm a perm, List.map_cons, spentBy_cons, fits _ found, ite_self,
      Int.zero_add]
    rfl

theorem PoolOp.exact_run (exact : Exact tp) (op : PoolOp) (fits : op.Fits tp) :
    Exact (op.run tp) := by
  cases op with
  | add tx hash2check => exact exact_add exact hash2check fits
  | remove hash =>
    rw [PoolOp.run]
    cases found : tp.transactions.lookup hash with
    | none => rwa [removeTransactionByHash, found]
    | some tx => exact exact_remove exact found (fits tx found)
  | pop hash => exact exact_pop exact fits
  | clear => exact fun a => rfl
  | ban hash => exact exact
  | block hash => exact exact

/-- After every run of operations that fit, the recorded spend of each sender is the sum of
`fee + Amount` over its pooled transactions. -/
theorem pending_spend_exact (maxTransactions : Nat) (ops : List PoolOp)
    (fits : AllFit (newPool t maxTransactions) ops) (a : AddressBytes) :
    ((ops.foldl PoolOp.run (newPool t maxTransactions)).pendingSpend a).toInt =
      spentBy a (pooled (ops.foldl PoolOp.run (newPool t maxTransactions))) := by
  suffices all : ∀ tp : TransactionPool t, Exact tp → AllFit tp ops → Exact (ops.foldl PoolOp.run tp)
    from all _ (fun _ => rfl) fits a
  clear fits
  induction ops with
  | nil => exact fun tp exact _ => exact
  | cons op rest ih => exact fun tp exact fits => ih _ (op.exact_run exact fits.1) fits.2

/-- The main pool, with room for two transactions, after some operations. -/
def mainPool (ops : List PoolOp) : TransactionPool .standard :=
  ops.foldl PoolOp.run (newPool .standard 2)

def replacedTransfer : List PoolOp :=
  [.add smallTransfer 0, .add (.plain 0x55 0x77 200 2 5) 0, .remove smallTransfer.hash]

theorem small_transfer_recorded :
    ((mainPool replacedTransfer).pendingSpend 0x55).toInt =
      spentBy 0x55 (pooled (mainPool replacedTransfer)) := by
  refine pending_spend_exact 2 replacedTransfer ⟨fun _ _ => ⟨by decide +kernel, fun full => ?_⟩,
    fun _ _ => ⟨by decide +kernel, fun full => ?_⟩, fun tx found => ?_, trivial⟩ 0x55
  · exact absurd full (by decide)
  · exact absurd full (by decide +kernel)
  · have first : tx = smallTransfer :=
      Option.some.inj (found.symm.trans (by decide +kernel))
    subst first
    exact ⟨by decide +kernel, by decide +kernel⟩

def withdrawal : Transaction :=
  .plain 0x55 0x1000000000000000000000000000000000000 (-100000) 2 5

/-- Two transactions that pass verification: popping one leaves its spend on the record, and
removing one beside a negative amount drops the record of the other. -/
theorem record_of_popped_and_removed :
    Verified Env.permissive (payer 50000 []).ledger (parentContext (.plain 5 100 [])) smallTransfer ∧
    Verified Env.permissive (payer 50000 []).ledger (parentContext (.plain 5 100 [])) withdrawal ∧
    ((mainPool [.add smallTransfer 0, .pop smallTransfer.hash]).pendingSpend 0x55).toInt ≠
      spentBy 0x55 (pooled (mainPool [.add smallTransfer 0, .pop smallTransfer.hash])) ∧
    ((mainPool [.add smallTransfer 0, .add withdrawal 0, .remove smallTransfer.hash]).pendingSpend
      0x55).toInt ≠ spentBy 0x55 (pooled
        (mainPool [.add smallTransfer 0, .add withdrawal 0, .remove smallTransfer.hash])) :=
  ⟨by decide +kernel, by decide +kernel, by decide +kernel, by decide +kernel⟩

end QwidNode.Guarantees.PendingSpend
