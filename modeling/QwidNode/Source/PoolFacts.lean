import QwidNode.Source.Pool

/-!
# What the pool operations do to the set of pooled items

Each operation is described by its effect on the queued items up to order, which is
all that block application depends on. `addTransaction_cases` is the inversion of
`AddTransaction` for the two pending pools, which never evict.
-/
namespace QwidNode.Source.TransactionPool
open Lib Item
variable {t : PoolType}
variable {tp : TransactionPool t} {hash : Hash} {item : Item} {tx : Transaction}

@[simp] theorem addPendingLocked_priorityQueue (tp : TransactionPool t) (tx : Transaction) :
    (tp.addPendingLocked tx).priorityQueue = tp.priorityQueue := rfl

@[simp] theorem subPendingLocked_priorityQueue (tp : TransactionPool t) (tx : Transaction) :
    (tp.subPendingLocked tx).priorityQueue = tp.priorityQueue := rfl

@[simp] theorem subPendingLocked_transactions (tp : TransactionPool t) (tx : Transaction) :
    (tp.subPendingLocked tx).transactions = tp.transactions := rfl

@[simp] theorem banTransactionByHash_priorityQueue (tp : TransactionPool t) (hash : Hash) :
    (tp.banTransactionByHash hash).priorityQueue = tp.priorityQueue := rfl

@[simp] theorem banTransactionByHash_transactions (tp : TransactionPool t) (hash : Hash) :
    (tp.banTransactionByHash hash).transactions = tp.transactions := rfl

@[simp] theorem dropItem_bannedTransactions (tp : TransactionPool t) (hash : Hash) :
    (tp.dropItem hash).bannedTransactions = tp.bannedTransactions := by
  unfold dropItem
  split <;> rfl

@[simp] theorem dropItem_pendingBySender (tp : TransactionPool t) (hash : Hash) :
    (tp.dropItem hash).pendingBySender = tp.pendingBySender := by
  unfold dropItem
  split <;> rfl

@[simp] theorem dropItem_maxTransactions (tp : TransactionPool t) (hash : Hash) :
    (tp.dropItem hash).maxTransactions = tp.maxTransactions := by
  unfold dropItem
  split <;> rfl

theorem dropItem_of_absent (absent : tp.transactions.lookup hash = none) :
    tp.dropItem hash = tp := by
  unfold dropItem
  split
  · rfl
  · next found => rw [absent] at found; cases found

theorem lookup_dropItem (tp : TransactionPool t) (hash other : Hash) :
    (tp.dropItem hash).transactions.lookup other =
      if other = hash then none else tp.transactions.lookup other := by
  by_cases same : other = hash
  · subst same
    rw [if_pos rfl]
    unfold dropItem
    split
    · next absent => exact absent
    · exact AList.lookup_erase other tp.transactions
  · rw [if_neg same]
    unfold dropItem
    split
    · rfl
    · exact AList.lookup_erase_ne same

theorem dropItem_perm (member : item ∈ tp.priorityQueue) :
    (item :: (tp.dropItem item.value).priorityQueue).Perm tp.priorityQueue := by
  have known : item.value ∈ tp.transactions.keys := mem_keys_iff.mpr ⟨item, member, rfl⟩
  obtain ⟨found, inQueue, value, removed⟩ :=
    remove_item_perm tp before (.refl _) known
  have same : found = item := queue_value_inj inQueue member value
  subst same
  unfold dropItem
  split
  · next absent =>
    rw [tp.stored found member] at absent
    cases absent
  · exact removed

theorem mem_dropItem :
    item ∈ (tp.dropItem hash).priorityQueue ↔ item ∈ tp.priorityQueue ∧ item.value ≠ hash := by
  cases found : tp.transactions.lookup hash with
  | none =>
    rw [dropItem_of_absent found]
    refine ⟨fun member => ⟨member, fun same => ?_⟩, And.left⟩
    rw [← same, tp.stored item member] at found
    cases found
  | some tx =>
    obtain ⟨gone, inQueue, rfl, _⟩ := lookup_eq_some_iff.mp found
    have perm := dropItem_perm inQueue
    have distinct := (perm.map Item.value).nodup_iff.mpr tp.queue_values_nodup
    rw [List.map_cons, List.nodup_cons] at distinct
    constructor
    · intro member
      exact ⟨perm.mem_iff.mp (List.mem_cons_of_mem gone member),
        fun same => distinct.1 (List.mem_map.mpr ⟨item, member, same⟩)⟩
    · rintro ⟨member, different⟩
      rcases List.mem_cons.mp (perm.mem_iff.mpr member) with rfl | stays
      · exact absurd rfl different
      · exact stays

theorem removeTransactionByHash_eq (tp : TransactionPool t) (hash : Hash) :
    (tp.removeTransactionByHash hash).priorityQueue = (tp.dropItem hash).priorityQueue ∧
      (tp.removeTransactionByHash hash).transactions = (tp.dropItem hash).transactions := by
  unfold removeTransactionByHash
  cases found : tp.transactions.lookup hash with
  | none =>
    rw [dropItem_of_absent found]
    exact ⟨rfl, rfl⟩
  | some tx =>
    simp only
    unfold dropItem
    simp only [subPendingLocked_transactions]
    constructor
    · split <;> rfl
    · split <;> rfl

theorem mem_removeTransactionByHash :
    item ∈ (tp.removeTransactionByHash hash).priorityQueue ↔
      item ∈ tp.priorityQueue ∧ item.value ≠ hash := by
  rw [(removeTransactionByHash_eq tp hash).1, mem_dropItem]

theorem lookup_removeTransactionByHash (tp : TransactionPool t) (hash other : Hash) :
    (tp.removeTransactionByHash hash).transactions.lookup other =
      if other = hash then none else tp.transactions.lookup other := by
  rw [(removeTransactionByHash_eq tp hash).2, lookup_dropItem]

def newItem (t : PoolType) (tx : Transaction) (hash2check : Hash) : Item :=
  ⟨tx, tx.hash, priorityOf t tx hash2check⟩

theorem insertItem_perm (tp : TransactionPool t) (tx : Transaction) (priority : Int64)
    (fresh : tp.transactions.lookup tx.hash = none) :
    (tp.insertItem tx priority fresh).priorityQueue.Perm
      (⟨tx, tx.hash, priority⟩ :: tp.priorityQueue) := Heap.push_perm _ _ _

theorem shrink_pending (pending : t ≠ .standard) (tp : TransactionPool t) (tx : Transaction) :
    tp.shrink tx = ((tp.subPendingLocked tx).dropItem tx.hash, false) := by
  cases t with
  | standard => exact absurd rfl pending
  | escrow => rfl
  | multiSign => rfl

theorem addTransaction_cases (pending : t ≠ .standard) (tp : TransactionPool t)
    (tx : Transaction) (hash2check : Hash) :
    ((tp.addTransaction tx hash2check).2 = false ∧
        (tp.addTransaction tx hash2check).1.priorityQueue.Perm tp.priorityQueue) ∨
      (tp.addTransaction tx hash2check = (tp, true) ∧
        (tp.transactions.lookup tx.hash).isSome) ∨
      ((tp.addTransaction tx hash2check).2 = true ∧
        tp.transactions.lookup tx.hash = none ∧
        (tp.addTransaction tx hash2check).1.priorityQueue.Perm
          (newItem t tx hash2check :: tp.priorityQueue)) := by
  unfold addTransaction
  split
  · exact .inl ⟨rfl, .refl _⟩
  · split
    · next found => exact .inr (.inl ⟨rfl, by rw [found]; rfl⟩)
    · next fresh =>
      have grown := insertItem_perm (tp.addPendingLocked tx) tx
        (priorityOf t tx hash2check) fresh
      simp only
      split
      · exact .inr (.inr ⟨rfl, fresh, grown⟩)
      · rw [shrink_pending pending]
        refine .inl ⟨rfl, ?_⟩
        -- the refused item is the one that was just pushed
        have member : (⟨tx, tx.hash, priorityOf t tx hash2check⟩ : Item) ∈
            (((tp.addPendingLocked tx).insertItem tx
              (priorityOf t tx hash2check) fresh).subPendingLocked tx).priorityQueue :=
          grown.mem_iff.mpr List.mem_cons_self
        exact (List.perm_cons _).mp ((dropItem_perm member).trans grown)

def held (tp : TransactionPool t) : Multiset Transaction := ↑(tp.priorityQueue.map transaction)

theorem mem_held : tx ∈ tp.held ↔ tp.transactions.lookup tx.hash = some tx := by
  rw [lookup_eq_some_iff]
  simp only [held, Multiset.mem_coe, List.mem_map]
  constructor
  · rintro ⟨item, member, rfl⟩
    exact ⟨item, member, tp.keyed item member, rfl⟩
  · rintro ⟨item, member, -, rfl⟩
    exact ⟨item, member, rfl⟩

theorem mem_held_of_lookup (found : tp.transactions.lookup hash = some tx) :
    tx ∈ tp.held ∧ tx.hash = hash := by
  obtain ⟨item, member, value, body⟩ := lookup_eq_some_iff.mp found
  have filed : tx.hash = hash := by rw [← body, ← value]; exact (tp.keyed item member).symm
  exact ⟨mem_held.mpr (filed ▸ found), filed⟩

@[simp] theorem held_banTransactionByHash (tp : TransactionPool t) (hash : Hash) :
    (tp.banTransactionByHash hash).held = tp.held := rfl

theorem held_addTransaction (pending : t ≠ .standard) (tp : TransactionPool t)
    (tx : Transaction) (hash2check : Hash) :
    ((tp.addTransaction tx hash2check).1.held = tp.held ∧
        ((tp.addTransaction tx hash2check).2 = true → (tp.transactions.lookup tx.hash).isSome)) ∨
      ((tp.addTransaction tx hash2check).1.held = tx ::ₘ tp.held ∧
        (tp.addTransaction tx hash2check).2 = true ∧ tp.transactions.lookup tx.hash = none) := by
  rcases addTransaction_cases pending tp tx hash2check with
    ⟨refused, same⟩ | ⟨same, pooled⟩ | ⟨taken, fresh, grown⟩
  · exact .inl ⟨Multiset.coe_eq_coe.mpr (same.map _), by simp [refused]⟩
  · exact .inl ⟨by rw [same], fun _ => pooled⟩
  · exact .inr ⟨Multiset.coe_eq_coe.mpr (grown.map transaction), taken, fresh⟩

theorem held_removeTransactionByHash (found : tp.transactions.lookup hash = some tx) :
    tp.held = tx ::ₘ (tp.removeTransactionByHash hash).held := by
  obtain ⟨item, member, rfl, rfl⟩ := lookup_eq_some_iff.mp found
  have perm := (dropItem_perm member).map transaction
  rw [List.map_cons] at perm
  unfold held
  rw [(removeTransactionByHash_eq tp item.value).1]
  exact (Multiset.coe_eq_coe.mpr perm).symm

theorem held_removeTransactionByHash_of_none (absent : tp.transactions.lookup hash = none) :
    (tp.removeTransactionByHash hash).held = tp.held := by
  unfold held
  rw [(removeTransactionByHash_eq tp hash).1, dropItem_of_absent absent]

theorem held_removeTransactionByHash_le (tp : TransactionPool t) (hash : Hash) :
    (tp.removeTransactionByHash hash).held ≤ tp.held := by
  cases found : tp.transactions.lookup hash with
  | none => exact le_of_eq (held_removeTransactionByHash_of_none found)
  | some tx =>
    rw [held_removeTransactionByHash found]
    exact Multiset.le_cons_self _ tx

theorem held_hash_inj {tx tx' : Transaction} (inside : tx ∈ tp.held) (inside' : tx' ∈ tp.held)
    (same : tx.hash = tx'.hash) : tx = tx' := by
  have found := mem_held.mp inside
  rw [same, mem_held.mp inside'] at found
  exact (Option.some.inj found).symm

theorem mem_held_removeTransactionByHash :
    tx ∈ (tp.removeTransactionByHash hash).held ↔ tx ∈ tp.held ∧ tx.hash ≠ hash := by
  rw [mem_held, mem_held, lookup_removeTransactionByHash]
  by_cases same : tx.hash = hash
  · simp [same]
  · simp [same]

theorem filterMap_lookup (tp : TransactionPool t) (items : List Item)
    (inQueue : ∀ item ∈ items, item ∈ tp.priorityQueue) :
    (items.filterMap fun item => tp.transactions.lookup item.transaction.hash) =
      items.map transaction := by
  have found : ∀ item ∈ items,
      tp.transactions.lookup item.transaction.hash = (some ∘ transaction) item := by
    intro item member
    rw [← tp.keyed item (inQueue item member)]
    exact tp.stored item (inQueue item member)
  rw [List.filterMap_congr found, List.filterMap_eq_map]

theorem peekTransactions_multiSign (tp : TransactionPool .multiSign) (n : Nat) (key : Int64) :
    ∃ group : List Item, group.Sublist tp.priorityQueue ∧
      (∀ item ∈ group, item.priority = key) ∧
      tp.peekTransactions n key = group.map transaction := by
  refine ⟨(tp.priorityQueue.take (min n tp.transactions.keys.length)).filter
    fun item => key == item.priority, ?_, ?_, ?_⟩
  · exact List.filter_sublist.trans (List.take_sublist _ _)
  · intro item member
    have equal := (List.mem_filter.mp member).2
    exact (beq_iff_eq.mp equal).symm
  · exact filterMap_lookup tp _ fun item member =>
      List.mem_of_mem_take (List.mem_filter.mp member).1

theorem peekTransactions_multiSign_all (tp : TransactionPool .multiSign) (n : Nat) (key : Int64)
    (fits : tp.priorityQueue.length ≤ n) (same : ∀ item ∈ tp.priorityQueue, item.priority = key) :
    tp.peekTransactions n key = tp.priorityQueue.map transaction := by
  have size : tp.transactions.keys.length = tp.priorityQueue.length := by
    rw [← tp.queue_keys.length_eq, List.length_map]
  have all : tp.priorityQueue.filter (fun item => key == item.priority) = tp.priorityQueue :=
    List.filter_eq_self.mpr fun item member => by simp [same item member]
  have whole : tp.peekTransactions n key = ((tp.priorityQueue.take
      (min n tp.transactions.keys.length)).filter fun item => key == item.priority).filterMap
        fun item => tp.transactions.lookup item.transaction.hash := rfl
  rw [whole, size, Nat.min_eq_right fits, List.take_length, all]
  exact filterMap_lookup tp _ fun _ member => member

theorem peekTransactions_escrow (tp : TransactionPool .escrow) (n : Nat) (height : Int64) :
    ∃ due : List Item, due.Sublist tp.priorityQueue ∧
      (∀ item ∈ due, item.priority ≤ height) ∧
      tp.peekTransactions n height = due.map transaction := by
  refine ⟨(tp.priorityQueue.take (min n tp.transactions.keys.length)).filter
    fun item => decide (item.priority ≤ height), ?_, ?_, ?_⟩
  · exact List.filter_sublist.trans (List.take_sublist _ _)
  · intro item member
    exact of_decide_eq_true (List.mem_filter.mp member).2
  · exact filterMap_lookup tp _ fun item member =>
      List.mem_of_mem_take (List.mem_filter.mp member).1

theorem peekTransactions_escrow_eq (tp : TransactionPool .escrow) (n : Nat) (height : Int64) :
    tp.peekTransactions n height = ((tp.priorityQueue.take n).filter fun item =>
      decide (item.priority ≤ height)).map transaction := by
  have size : tp.transactions.keys.length = tp.priorityQueue.length := by
    rw [← tp.queue_keys.length_eq, List.length_map]
  have whole : tp.priorityQueue.take (min n tp.transactions.keys.length) =
      tp.priorityQueue.take n := by
    rw [size, ← List.take_eq_take_min]
  rw [← whole]
  exact filterMap_lookup tp _ fun item member =>
    List.mem_of_mem_take (List.mem_filter.mp member).1

def reorder {kind : PoolType} (tp : TransactionPool kind) (queue : List Item)
    (same : queue.Perm tp.priorityQueue) : TransactionPool kind :=
  { tp with
    priorityQueue := queue
    queue_keys := (same.map _).trans tp.queue_keys
    minQueue_perm := tp.minQueue_perm.trans same.symm
    stored := fun item member => tp.stored item (same.mem_iff.mp member)
    keyed := fun item member => tp.keyed item (same.mem_iff.mp member) }

end QwidNode.Source.TransactionPool
