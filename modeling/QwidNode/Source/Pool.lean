import QwidNode.Lib.Heap
import QwidNode.Source.Account

/-!
# The transaction pools

Source: `transactionsPool/poolTx.go` and `basePool.go`. A pool keeps its transactions in a map and
in two heaps over the same items, ordered by priority in opposite directions.
-/
namespace QwidNode.Source
open Lib AList

inductive PoolType where
  | standard
  | escrow
  | multiSign
deriving DecidableEq, Repr

structure Item where
  transaction : Transaction
  value : Hash
  priority : Int64
deriving DecidableEq, Repr

def Item.before (a b : Item) : Bool := decide (b.priority < a.priority)

def Item.cheaper (a b : Item) : Bool := decide (a.priority < b.priority)

def Item.servedBefore (a b : Item) : Prop :=
  b.priority < a.priority ∨ (a.priority = b.priority ∧ a.value ≤ b.value)

instance : DecidableRel Item.servedBefore := fun a b => by
  unfold Item.servedBefore; infer_instance

/-- `transactionsPool.TransactionPool`; its `typePool` never changes and is a parameter. -/
structure TransactionPool (typePool : PoolType) where
  transactions : FinMap Hash Transaction := ∅
  bannedTransactions : FinMap Hash Nat := ∅
  priorityQueue : List Item := []
  minQueue : List Item := []
  maxTransactions : Nat := Common.maxTransactionInPool
  pendingBySender : FinMap AddressBytes Int64 := ∅
  queue_keys : (priorityQueue.map Item.value).Perm transactions.keys := by exact .refl _
  minQueue_perm : minQueue.Perm priorityQueue := by exact .refl _
  stored : ∀ item ∈ priorityQueue, transactions.lookup item.value = some item.transaction := by
    simp
  keyed : ∀ item ∈ priorityQueue, item.value = item.transaction.hash := by simp

def TransactionPool.empty (typePool : PoolType) : TransactionPool typePool := {}

def TransactionPool.newPool (t : PoolType) (maxTransactions : Nat) : TransactionPool t :=
  { empty t with maxTransactions := maxTransactions }

def TransactionPool.cleared {t : PoolType} (tp : TransactionPool t) : TransactionPool t :=
  { newPool t tp.maxTransactions with bannedTransactions := tp.bannedTransactions }

def txSpend (tx : Transaction) : Int64 :=
  match tx.calcFee with
  | some fee => fee + tx.amount
  | none => 0

namespace TransactionPool
variable {t : PoolType}

def pendingSpend (tp : TransactionPool t) (sender : AddressBytes) : Int64 :=
  (tp.pendingBySender.lookup sender).getD 0

def addPendingLocked (tp : TransactionPool t) (tx : Transaction) : TransactionPool t :=
  { tp with
    pendingBySender :=
      tp.pendingBySender.insert tx.sender (tp.pendingSpend tx.sender + txSpend tx) }

def subPendingLocked (tp : TransactionPool t) (tx : Transaction) : TransactionPool t :=
  let left := tp.pendingSpend tx.sender - txSpend tx
  { tp with
    pendingBySender :=
      if left ≤ 0 then tp.pendingBySender.erase tx.sender
      else tp.pendingBySender.insert tx.sender left }

def getTransactionByHash (tp : TransactionPool t) (hash : Hash) : Option Transaction :=
  tp.transactions.lookup hash

def hasTransaction (tp : TransactionPool t) (hash : Hash) : Bool :=
  (tp.transactions.lookup hash).isSome

def priorityOf (typePool : PoolType) (tx : Transaction) (hash2check : Hash) : Int64 :=
  match typePool with
  | .standard => tx.gasPrice
  | .escrow => tx.height + tx.txData.escrowTransactionsDelay
  | .multiSign => hashInt64 hash2check

theorem mem_keys_iff {tp : TransactionPool t} {hash : Hash} :
    hash ∈ tp.transactions.keys ↔ ∃ item ∈ tp.priorityQueue, item.value = hash := by
  rw [← tp.queue_keys.mem_iff, List.mem_map]

theorem lookup_eq_some_iff {tp : TransactionPool t} {hash : Hash} {tx : Transaction} :
    tp.transactions.lookup hash = some tx ↔
      ∃ item ∈ tp.priorityQueue, item.value = hash ∧ item.transaction = tx := by
  constructor
  · intro found
    have key : hash ∈ tp.transactions.keys :=
      AList.mem_keys.mpr (AList.lookup_isSome.mp (by rw [found]; rfl))
    obtain ⟨item, member, rfl⟩ := mem_keys_iff.mp key
    have same := tp.stored item member
    rw [found] at same
    exact ⟨item, member, rfl, (Option.some.inj same).symm⟩
  · rintro ⟨item, member, rfl, rfl⟩
    exact tp.stored item member

theorem queue_values_nodup (tp : TransactionPool t) :
    (tp.priorityQueue.map Item.value).Nodup :=
  tp.queue_keys.nodup_iff.mpr tp.transactions.keys_nodup

theorem queue_value_inj {tp : TransactionPool t} {a b : Item} (ha : a ∈ tp.priorityQueue)
    (hb : b ∈ tp.priorityQueue) (same : a.value = b.value) : a = b :=
  List.inj_on_of_nodup_map tp.queue_values_nodup ha hb same

def insertItem (tp : TransactionPool t) (tx : Transaction) (priority : Int64)
    (fresh : tp.transactions.lookup tx.hash = none) : TransactionPool t :=
  let item : Item := ⟨tx, tx.hash, priority⟩
  have absent : tx.hash ∉ tp.transactions.keys := by
    rw [← AList.mem_keys]; exact AList.lookup_eq_none.mp fresh
  { tp with
    transactions := tp.transactions.insert tx.hash tx
    priorityQueue := Heap.push Item.before tp.priorityQueue item
    minQueue := Heap.push Item.cheaper tp.minQueue item
    queue_keys := by
      rw [keys_insert, List.erase_of_not_mem absent]
      exact ((Heap.push_perm _ _ _).map _).trans (tp.queue_keys.cons _)
    minQueue_perm := (Heap.push_perm _ _ _).trans
      ((tp.minQueue_perm.cons _).trans (Heap.push_perm _ _ _).symm)
    stored := by
      intro other member
      rcases List.mem_cons.mp ((Heap.push_perm _ _ _).mem_iff.mp member) with rfl | old
      · exact lookup_insert _
      · have different : other.value ≠ tx.hash := fun same =>
          absent (mem_keys_iff.mpr ⟨other, old, same⟩)
        rw [lookup_insert_ne different]
        exact tp.stored other old
    keyed := by
      intro other member
      rcases List.mem_cons.mp ((Heap.push_perm _ _ _).mem_iff.mp member) with rfl | old
      · rfl
      · exact tp.keyed other old }

theorem remove_item_perm (tp : TransactionPool t) {hash : Hash} (less : Item → Item → Bool)
    {heap : List Item} (perm : heap.Perm tp.priorityQueue)
    (known : hash ∈ tp.transactions.keys) :
    ∃ item ∈ tp.priorityQueue, item.value = hash ∧
      (item :: Heap.remove less heap (heap.findIdx (·.value == hash))).Perm
        tp.priorityQueue := by
  obtain ⟨item, member, value⟩ := mem_keys_iff.mp known
  obtain ⟨found, inHeap, equal, removed⟩ := Heap.remove_findIdx_perm less heap
    (·.value == hash) ⟨item, perm.mem_iff.mpr member, by simpa using value⟩
  exact ⟨found, perm.mem_iff.mp inHeap, by simpa using equal, removed.trans perm⟩

def dropItem (tp : TransactionPool t) (hash : Hash) : TransactionPool t :=
  match found : tp.transactions.lookup hash with
  | none => tp
  | some _ =>
    have known : hash ∈ tp.transactions.keys :=
      AList.mem_keys.mpr (AList.lookup_isSome.mp (by rw [found]; rfl))
    have main := remove_item_perm tp Item.before (.refl _) known
    have mirror := remove_item_perm tp Item.cheaper tp.minQueue_perm known
    { tp with
      transactions := tp.transactions.erase hash
      priorityQueue :=
        Heap.remove Item.before tp.priorityQueue (tp.priorityQueue.findIdx (·.value == hash))
      minQueue := Heap.remove Item.cheaper tp.minQueue (tp.minQueue.findIdx (·.value == hash))
      queue_keys := by
        obtain ⟨item, _, rfl, removed⟩ := main
        have keys := (removed.map Item.value).trans tp.queue_keys
        rw [keys_erase]
        exact (List.perm_cons _).mp (keys.trans (List.perm_cons_erase known))
      minQueue_perm := by
        obtain ⟨item, member, value, removed⟩ := main
        obtain ⟨item', member', value', removed'⟩ := mirror
        have same : item' = item := queue_value_inj member' member (value'.trans value.symm)
        subst same
        exact (List.perm_cons _).mp (removed'.trans removed.symm)
      stored := by
        obtain ⟨item, _, value, removed⟩ := main
        intro other member
        have old : other ∈ tp.priorityQueue :=
          removed.mem_iff.mp (List.mem_cons_of_mem item member)
        have distinct := (removed.map Item.value).nodup_iff.mpr tp.queue_values_nodup
        have different : other.value ≠ hash := by
          intro same
          rw [List.map_cons, List.nodup_cons] at distinct
          exact distinct.1 (List.mem_map.mpr ⟨other, member, same.trans value.symm⟩)
        rw [lookup_erase_ne different]
        exact tp.stored other old
      keyed := by
        obtain ⟨item, _, _, removed⟩ := main
        intro other member
        exact tp.keyed other (removed.mem_iff.mp (List.mem_cons_of_mem item member)) }

/-- `BanTransactionByHash`: the counter stops at `NumberWhenWillBan`. -/
def banTransactionByHash (tp : TransactionPool t) (hash : Hash) : TransactionPool t :=
  { tp with
    bannedTransactions := tp.bannedTransactions.insert hash
      (min ((tp.bannedTransactions.lookup hash).getD 0 + 1) Common.numberWhenWillBan) }

def blockTransactionByHash (tp : TransactionPool t) (hash : Hash) : TransactionPool t :=
  { tp with
    bannedTransactions := tp.bannedTransactions.insert hash Common.numberWhenWillBan }

def banned (tp : TransactionPool t) (hash : Hash) : Bool :=
  decide (Common.maxNumberOfTxBans < (tp.bannedTransactions.lookup hash).getD 0)

/-- What `AddTransaction` does when the new item makes the pool too large: the escrow and
multi-signature pools refuse it, the main pool evicts its cheapest item. -/
def shrink (tp : TransactionPool t) (tx : Transaction) : TransactionPool t × Bool :=
  match t with
  | .standard =>
    match tp.minQueue.head? with
    | none => (tp, true)
    | some removed =>
      let debited := match tp.transactions.lookup removed.value with
        | some evTx => tp.subPendingLocked evTx
        | none => tp
      (debited.dropItem removed.value, true)
  | _ => ((tp.subPendingLocked tx).dropItem tx.hash, false)

/-- `AddTransaction`. A transaction that is already pooled counts as added. -/
def addTransaction (tp : TransactionPool t) (tx : Transaction) (hash2check : Hash) :
    TransactionPool t × Bool :=
  if tp.banned tx.hash then (tp.banTransactionByHash tx.hash, false)
  else
    match found : tp.transactions.lookup tx.hash with
    | some _ => (tp, true)
    | none =>
      let grown := (tp.addPendingLocked tx).insertItem tx
        (priorityOf t tx hash2check) found
      if grown.priorityQueue.length ≤ tp.maxTransactions then (grown, true)
      else grown.shrink tx

def removeTransactionByHash (tp : TransactionPool t) (hash : Hash) : TransactionPool t :=
  match tp.transactions.lookup hash with
  | some tx => (tp.subPendingLocked tx).dropItem hash
  | none => tp

/-- `PopTransactionByHash`: unlike the removal above it leaves `pendingBySender` alone. -/
def popTransactionByHash (tp : TransactionPool t) (hash : Hash) :
    TransactionPool t × Option Transaction :=
  (tp.dropItem hash, tp.transactions.lookup hash)

def peekTransactions (tp : TransactionPool t) (n : Nat) (heightOrHash : Int64) :
    List Transaction :=
  let n := min n tp.transactions.keys.length
  match t with
  | .standard =>
    ((tp.priorityQueue.insertionSort Item.servedBefore).take n).filterMap
      fun item => tp.transactions.lookup item.value
  | .escrow =>
    ((tp.priorityQueue.take n).filter fun item => decide (item.priority ≤ heightOrHash)).filterMap
      fun item => tp.transactions.lookup item.transaction.hash
  | .multiSign =>
    ((tp.priorityQueue.take n).filter fun item => heightOrHash == item.priority).filterMap
      fun item => tp.transactions.lookup item.transaction.hash

end TransactionPool
end QwidNode.Source
