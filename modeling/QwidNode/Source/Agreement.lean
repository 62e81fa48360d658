import QwidNode.Lib.TwoRuns
import QwidNode.Source.Pending

/-!
# Two nodes that agree

Besides the chain state, block application reads the bodies and the bans of some hashes, the array
of the escrow pool and the entries of the multi-signature pool in any order. Two nodes that agree on
this (`Agree`) go through block application alike.
-/
namespace QwidNode.Source
open Lib Db Item AList
variable {hash : Hash} {tx : Transaction}

namespace TransactionPool
variable {t : PoolType} {B T : Hash → Prop}

/-- Two pools with the same items and room, of which the hashes `B` are banned from both or from
neither, and whose counters agree on the hashes `T`. -/
structure Same (B T : Hash → Prop) (p q : TransactionPool t) : Prop where
  items : q.priorityQueue.Perm p.priorityQueue
  room : q.maxTransactions = p.maxTransactions
  verdicts : ∀ hash, B hash → q.banned hash = p.banned hash
  counts : ∀ hash, T hash → q.bannedTransactions.lookup hash = p.bannedTransactions.lookup hash

variable {p q : TransactionPool t}

theorem Same.lookup (same : Same B T p q) (hash : Hash) :
    q.transactions.lookup hash = p.transactions.lookup hash := by
  apply Option.ext
  intro tx
  simp only [lookup_eq_some_iff, same.items.mem_iff]

theorem queue_nodup (tp : TransactionPool t) : tp.priorityQueue.Nodup :=
  List.Nodup.of_map _ tp.queue_values_nodup

theorem Same.remove (same : Same B T p q) (hash : Hash) :
    Same B T (p.removeTransactionByHash hash) (q.removeTransactionByHash hash) where
  items := by
    apply (List.perm_ext_iff_of_nodup (queue_nodup _) (queue_nodup _)).mpr
    intro item
    rw [mem_removeTransactionByHash, mem_removeTransactionByHash, same.items.mem_iff]
  room := by
    rw [(removeTransactionByHash_rest q hash).1, (removeTransactionByHash_rest p hash).1, same.room]
  verdicts other known := by
    unfold TransactionPool.banned
    rw [(removeTransactionByHash_rest q hash).2, (removeTransactionByHash_rest p hash).2]
    exact same.verdicts other known
  counts := by
    rw [(removeTransactionByHash_rest q hash).2, (removeTransactionByHash_rest p hash).2]
    exact same.counts

theorem banned_congr {p q : TransactionPool t}
    (same : q.bannedTransactions.lookup hash = p.bannedTransactions.lookup hash) :
    q.banned hash = p.banned hash := by
  unfold TransactionPool.banned
  rw [same]

theorem banned_ban (tp : TransactionPool t) (banned : tp.banned hash = true) :
    (tp.banTransactionByHash hash).banned hash = true := by
  unfold TransactionPool.banned banTransactionByHash at *
  rw [decide_eq_true_eq] at banned ⊢
  rw [lookup_insert, Option.getD_some, lt_min_iff]
  exact ⟨by omega, by decide⟩

theorem banned_ban_ne (tp : TransactionPool t) {other : Hash} (differs : other ≠ hash) :
    (tp.banTransactionByHash hash).banned other = tp.banned other := by
  unfold TransactionPool.banned banTransactionByHash
  rw [lookup_insert_ne differs]

theorem Same.ban (same : Same B T p q) (hash : Hash)
    (sure : B hash → T hash ∨ p.banned hash = true) :
    Same B T (p.banTransactionByHash hash) (q.banTransactionByHash hash) := by
  have counts : ∀ other, T other → (q.banTransactionByHash hash).bannedTransactions.lookup other =
      (p.banTransactionByHash hash).bannedTransactions.lookup other := by
    intro other known
    unfold banTransactionByHash
    by_cases equal : other = hash
    · subst equal
      simp [same.counts other known]
    · simp only [lookup_insert_ne equal, same.counts other known]
  refine ⟨same.items, same.room, fun other known => ?_, counts⟩
  by_cases equal : other = hash
  · subst equal
    rcases sure known with counted | banned
    · exact banned_congr (counts other counted)
    · rw [banned_ban p banned, banned_ban q ((same.verdicts other known).trans banned)]
  · rw [banned_ban_ne q equal, banned_ban_ne p equal, same.verdicts other known]

theorem Same.refuses_iff (same : Same B T p q) (known : B hash) :
    q.refuses hash ↔ p.refuses hash := by
  have size : q.transactions.keys.length = p.transactions.keys.length := by
    rw [← q.queue_keys.length_eq, ← p.queue_keys.length_eq, List.length_map, List.length_map,
      same.items.length_eq]
  unfold refuses
  rw [same.verdicts hash known, same.lookup, same.room, size]

theorem Same.taken (pending : t ≠ .standard) (same : Same B T p q) (known : B tx.hash) (key : Hash) :
    (q.addTransaction tx key).2 = (p.addTransaction tx key).2 := by
  apply Bool.eq_iff_iff.mpr
  rw [(addTransaction_lookup pending q tx key tx.hash).1,
    (addTransaction_lookup pending p tx key tx.hash).1, same.refuses_iff known]

theorem Same.add (pending : t ≠ .standard) (same : Same B T p q) (known : B tx.hash) (key : Hash) :
    Same B T (p.addTransaction tx key).1 (q.addTransaction tx key).1 where
  items := by
    have taken := same.taken pending known key
    rcases addTransaction_cases pending p tx key with
      ⟨refused, perm⟩ | ⟨pooled, found⟩ | ⟨accepted, fresh, perm⟩
    · rcases addTransaction_cases pending q tx key with
        ⟨-, perm'⟩ | ⟨pooled', -⟩ | ⟨accepted', -⟩
      · exact perm'.trans (same.items.trans perm.symm)
      · rw [pooled', refused] at taken; cases taken
      · rw [accepted', refused] at taken; cases taken
    · rcases addTransaction_cases pending q tx key with
        ⟨refused', -⟩ | ⟨pooled', -⟩ | ⟨-, fresh', -⟩
      · rw [refused', pooled] at taken; cases taken
      · rw [pooled, pooled']; exact same.items
      · rw [same.lookup] at fresh'; rw [fresh'] at found; cases found
    · rcases addTransaction_cases pending q tx key with
        ⟨refused', -⟩ | ⟨-, found'⟩ | ⟨-, -, perm'⟩
      · rw [refused', accepted] at taken; cases taken
      · rw [same.lookup, fresh] at found'; cases found'
      · exact perm'.trans ((same.items.cons _).trans perm.symm)
  room := by
    rw [(addTransaction_lookup pending q tx key tx.hash).2.2,
      (addTransaction_lookup pending p tx key tx.hash).2.2, same.room]
  verdicts other looked := by
    have banned := same.verdicts tx.hash known
    cases ban : p.banned tx.hash with
    | true =>
      rw [ban] at banned
      unfold addTransaction
      rw [if_pos ban, if_pos banned]
      exact (same.ban tx.hash fun _ => .inr ban).verdicts other looked
    | false =>
      rw [ban] at banned
      have kept := same.verdicts other looked
      unfold TransactionPool.banned at kept ⊢
      rw [addTransaction_bans pending ban, addTransaction_bans pending banned]
      exact kept
  counts := by
    have banned := same.verdicts tx.hash known
    cases ban : p.banned tx.hash with
    | true =>
      rw [ban] at banned
      unfold addTransaction
      rw [if_pos ban, if_pos banned]
      exact (same.ban tx.hash fun _ => .inr ban).counts
    | false =>
      rw [ban] at banned
      rw [addTransaction_bans pending ban, addTransaction_bans pending banned]
      exact same.counts

theorem dropItem_queue (tp : TransactionPool t) (hash : Hash) :
    (tp.dropItem hash).priorityQueue =
      if (tp.transactions.lookup hash).isSome then
        Heap.remove before tp.priorityQueue (tp.priorityQueue.findIdx (·.value == hash))
      else tp.priorityQueue := by
  unfold dropItem
  split
  · next absent => simp [absent]
  · next found => simp [found]

theorem Same.remove_order (same : Same B T p q) (order : q.priorityQueue = p.priorityQueue)
    (hash : Hash) : (q.removeTransactionByHash hash).priorityQueue =
      (p.removeTransactionByHash hash).priorityQueue := by
  rw [(removeTransactionByHash_eq q hash).1, (removeTransactionByHash_eq p hash).1,
    dropItem_queue, dropItem_queue, same.lookup, order]

theorem addTransaction_queue (pending : t ≠ .standard) (tp : TransactionPool t)
    (tx : Transaction) (key : Hash) :
    (tp.addTransaction tx key).1.priorityQueue =
      if tp.banned tx.hash = true ∨ (tp.transactions.lookup tx.hash).isSome then tp.priorityQueue
      else if (Heap.push before tp.priorityQueue (newItem t tx key)).length ≤
          tp.maxTransactions then Heap.push before tp.priorityQueue (newItem t tx key)
      else Heap.remove before (Heap.push before tp.priorityQueue (newItem t tx key))
        ((Heap.push before tp.priorityQueue (newItem t tx key)).findIdx
          (·.value == tx.hash)) := by
  unfold addTransaction
  by_cases ban : tp.banned tx.hash = true
  · rw [if_pos ban, if_pos (.inl ban)]
    rfl
  rw [if_neg ban]
  split
  · next found =>
    rw [if_pos (.inr (by rw [found]; rfl))]
  · next fresh =>
    have open' : ¬ (tp.banned tx.hash = true ∨ (tp.transactions.lookup tx.hash).isSome) := by
      simp [ban, fresh]
    rw [if_neg open']
    dsimp only
    have grown : ((tp.addPendingLocked tx).insertItem tx (priorityOf t tx key) fresh).priorityQueue =
        Heap.push before tp.priorityQueue (newItem t tx key) := rfl
    rw [grown]
    split
    · exact grown
    · have pushed : (((tp.addPendingLocked tx).insertItem tx (priorityOf t tx key)
          fresh).subPendingLocked tx).transactions.lookup tx.hash = some tx := lookup_insert _
      rw [shrink_pending pending, dropItem_queue, if_pos (by rw [pushed]; rfl)]
      rfl

theorem Same.add_order (pending : t ≠ .standard) (same : Same B T p q)
    (order : q.priorityQueue = p.priorityQueue) (known : B tx.hash) (key : Hash) :
    (q.addTransaction tx key).1.priorityQueue = (p.addTransaction tx key).1.priorityQueue := by
  rw [addTransaction_queue pending, addTransaction_queue pending, same.verdicts _ known,
    same.lookup, same.room, order]

theorem addTransaction_fits (pending : t ≠ .standard) (tp : TransactionPool t) (tx : Transaction)
    (key : Hash) {n : Nat} (fits : tp.priorityQueue.length ≤ n) (room : tp.maxTransactions ≤ n) :
    (tp.addTransaction tx key).1.priorityQueue.length ≤ n := by
  rcases addTransaction_cases pending tp tx key with
    ⟨-, perm⟩ | ⟨pooled, -⟩ | ⟨accepted, fresh, perm⟩
  · rw [perm.length_eq]; exact fits
  · rw [pooled]; exact fits
  · have open' := (addTransaction_lookup pending tp tx key tx.hash).1.mp accepted
    have size : tp.priorityQueue.length = tp.transactions.keys.length := by
      rw [← tp.queue_keys.length_eq, List.length_map]
    have below : tp.transactions.keys.length < tp.maxTransactions := by
      by_contra full
      exact open' (.inr ⟨fresh, by omega⟩)
    rw [perm.length_eq, List.length_cons]
    omega

theorem peekTransactions_group (tp : TransactionPool .multiSign) {n : Nat} (key : Int64)
    (fits : tp.priorityQueue.length ≤ n) : tp.peekTransactions n key =
      (tp.priorityQueue.filter fun item => key == item.priority).map transaction := by
  have size : tp.transactions.keys.length = tp.priorityQueue.length := by
    rw [← tp.queue_keys.length_eq, List.length_map]
  have whole : tp.priorityQueue.take (min n tp.transactions.keys.length) = tp.priorityQueue := by
    rw [size, Nat.min_eq_right fits, List.take_length]
  rw [← filterMap_lookup tp (tp.priorityQueue.filter fun item => key == item.priority)
    fun item member => (List.mem_filter.mp member).1]
  change ((tp.priorityQueue.take (min n tp.transactions.keys.length)).filter _).filterMap _ = _
  rw [whole]

theorem Same.mono {B' T' : Hash → Prop} (same : Same B T p q) (fewer : ∀ hash, B' hash → B hash)
    (fewer' : ∀ hash, T' hash → T hash) : Same B' T' p q :=
  ⟨same.items, same.room, fun hash known => same.verdicts hash (fewer hash known),
    fun hash known => same.counts hash (fewer' hash known)⟩

end TransactionPool

/-- The hashes about which block application asks a node: those it looks up in the index of
included transactions, those that may wait in escrow, those it may offer to either pending pool,
and those it may cancel and offer to the escrow pool. -/
structure Reads where
  listed : Hash → Prop
  waits : Hash → Prop
  escrow : Hash → Prop
  multiSign : Hash → Prop
  cancelled : Hash → Prop

namespace Reads

def loose (B : Reads) : Reads :=
  { B with escrow := fun _ => False, multiSign := fun _ => False, cancelled := fun _ => False }

def without (B : Reads) (hash : Hash) : Reads :=
  { B with
    escrow := fun other => B.escrow other ∧ other ≠ hash
    multiSign := fun other => B.multiSign other ∧ other ≠ hash }

structure Offered (B : Reads) (hash : Hash) : Prop where
  waits : B.waits hash
  escrow : B.escrow hash
  multiSign : B.multiSign hash

def Unoffered (B : Reads) (hash : Hash) : Prop := ¬ B.escrow hash ∧ ¬ B.multiSign hash

theorem unoffered_loose (B : Reads) (hash : Hash) : B.loose.Unoffered hash := ⟨id, id⟩

theorem unoffered_without (B : Reads) (hash : Hash) : (B.without hash).Unoffered hash :=
  ⟨fun both => both.2 rfl, fun both => both.2 rfl⟩

end Reads

variable {σ : Type} {env : Env σ} {H : Hash → Prop} {B : Reads} {s s' t t' : Node σ}

/-- A node without its journal, mirrors, blocks, snapshots, height and record of events. -/
def Node.core (s : Node σ) : Node σ where
  ledger := s.ledger
  dex := s.dex
  evm := s.evm
  poolsTx := s.poolsTx
  poolTxEscrow := s.poolTxEscrow
  poolTxMultiSign := s.poolTxMultiSign
  db :=
    { poolTx := s.db.poolTx
      confirmedTx := s.db.confirmedTx
      badTx := s.db.badTx
      includedTx := s.db.includedTx }

namespace Node

theorem core_journalPendingChange (s : Node σ) (pool : PoolType) (added : Bool)
    (tx : Transaction) : (s.journalPendingChange pool added tx).core = s.core := by
  unfold journalPendingChange
  split
  · rfl
  · rfl

theorem core_setPool {kind : PoolType} (u : Node σ) (same : u.core = s.core)
    (tp : TransactionPool kind) (m m' : FinMap Hash Transaction) :
    (u.setPool kind tp m).core = (s.setPool kind tp m').core := by
  cases kind with
  | standard => exact congrArg (fun c : Node σ => { c with poolsTx := tp }) same
  | escrow => exact congrArg (fun c : Node σ => { c with poolTxEscrow := tp }) same
  | multiSign => exact congrArg (fun c : Node σ => { c with poolTxMultiSign := tp }) same

theorem core_removeFrom (s : Node σ) (kind : PoolType) (hash : Hash) :
    (s.removeFrom kind hash).core =
      (s.setPool kind ((s.pool kind).removeTransactionByHash hash) (s.mirror kind)).core := by
  unfold removeFrom
  dsimp only
  split
  · rw [pool_journalPendingChange]
    exact core_setPool _ (core_journalPendingChange s _ _ _) _ _ _
  · exact core_setPool s rfl _ _ _

theorem core_addTo (s : Node σ) (kind : PoolType) (tx : Transaction) :
    (s.addTo kind tx).1.core = (s.setPool kind
      ((s.pool kind).addTransaction tx (fileKey kind tx)).1 (s.mirror kind)).core := by
  unfold addTo
  dsimp only
  split
  · rw [pool_journalPendingChange, pool_setPool]
    exact (core_setPool _ (core_journalPendingChange _ _ _ _) _ _ _).trans (by cases kind <;> rfl)
  · rfl

end Node

theorem Db.loadTx?_storeTx (db : Db σ) (p p' : TxPrefix) (tx : Transaction) (hash : Hash) :
    (db.storeTx p tx).loadTx? env p' hash =
      if p' = p ∧ hash = tx.hash then (some tx).filter (bodyMatches env hash)
      else db.loadTx? env p' hash := by
  by_cases equal : hash = tx.hash
  · subst equal
    cases p <;> cases p' <;> simp [loadTx?, txs, Db.storeTx]
  · cases p <;> cases p' <;>
      simp [loadTx?, txs, Db.storeTx, equal, lookup_insert_ne equal]

theorem Db.storeTx_included (db : Db σ) (p : TxPrefix) (tx : Transaction) :
    (db.storeTx p tx).includedTx = db.includedTx := by
  cases p <;> rfl

theorem Db.keepBad_included (db : Db σ) (hash : Hash) :
    (db.keepBad env hash).includedTx = db.includedTx := by
  unfold Db.keepBad
  split
  · exact storeTx_included _ _ _
  · rfl

theorem Db.loadTx?_keepBad (db : Db σ) (p : TxPrefix) (hash other : Hash) :
    (db.keepBad env hash).loadTx? env p other =
      if p = .bad ∧ other = hash then (db.badBody env hash).or (db.loadTx? env p other)
      else db.loadTx? env p other := by
  unfold Db.keepBad
  cases body : db.badBody env hash with
  | none => simp
  | some tx =>
    have loaded : bodyMatches env hash tx = true := by
      rcases Option.or_eq_some_iff.mp body with found | ⟨-, found⟩
      · exact loadTx?_matches found
      · exact loadTx?_matches found
    have filed : tx.hash = hash := (bodyMatches_iff.mp loaded).1
    simp only [loadTx?_storeTx, filed]
    by_cases here : p = .bad ∧ other = hash
    · rw [if_pos here, if_pos here, here.2]
      simp [Option.filter, loaded]
    · rw [if_neg here, if_neg here]

/-- Two nodes in the same chain state that agree on what block application looks up: bodies
under the hashes `H`, the rest under the hashes `B`. The heap array of the escrow pool, in which
matured transfers are settled, is the same; the multi-signature pool has the same items. -/
structure Agree (env : Env σ) (H : Hash → Prop) (B : Reads) (s s' : Node σ) : Prop where
  ledger : s'.ledger = s.ledger
  dex : s'.dex = s.dex
  evm : s'.evm = s.evm
  included : ∀ hash, B.listed hash → s'.db.includedTx.lookup hash = s.db.includedTx.lookup hash
  loads : ∀ p hash, H hash → s'.db.loadTx? env p hash = s.db.loadTx? env p hash
  memory : ∀ hash, H hash →
    s'.poolsTx.getTransactionByHash hash = s.poolsTx.getTransactionByHash hash
  escrow : s.poolTxEscrow.Same B.escrow B.cancelled s'.poolTxEscrow
  order : s'.poolTxEscrow.priorityQueue = s.poolTxEscrow.priorityQueue
  waiting : ∀ hash, (s.poolTxEscrow.getTransactionByHash hash).isSome → B.waits hash
  multiSign : s.poolTxMultiSign.Same B.multiSign (fun _ => False) s'.poolTxMultiSign
  fits : s.poolTxMultiSign.priorityQueue.length ≤ Common.maxTransactionInPool
  room : s.poolTxMultiSign.maxTransactions ≤ Common.maxTransactionInPool

theorem Agree.loose (agree : Agree env H B s s') : Agree env H B.loose s s' :=
  { agree with
    escrow := agree.escrow.mono (fun _ => False.elim) fun _ => False.elim
    multiSign := agree.multiSign.mono (fun _ => False.elim) fun _ => id }

theorem Agree.without (agree : Agree env H B s s') (hash : Hash) :
    Agree env H (B.without hash) s s' :=
  { agree with
    escrow := agree.escrow.mono (fun _ both => both.1) fun _ => id
    multiSign := agree.multiSign.mono (fun _ both => both.1) fun _ => id }

theorem Agree.of_loose (agree : Agree env H B s s') (later : Agree env H B.loose t t')
    (frame : LoadFrame s t) (frame' : LoadFrame s' t') : Agree env H B t t' := by
  obtain ⟨_, _, rfl⟩ := frame
  obtain ⟨_, _, rfl⟩ := frame'
  exact { later with escrow := agree.escrow, multiSign := agree.multiSign }

namespace Agree
variable (agree : Agree env H B s s')
include agree

theorem of_core (first : t.core = s.core) (second : t'.core = s'.core) : Agree env H B t t' := by
  have cores : Agree env H B s.core s'.core := { agree with }
  rw [← first, ← second] at cores
  exact { cores with }

theorem withLedger (l : Ledger) :
    Agree env H B { s with ledger := l } { s' with ledger := l } := { agree with ledger := rfl }

theorem withEscrow {p q : TransactionPool .escrow} (same : p.Same B.escrow B.cancelled q)
    (order : q.priorityQueue = p.priorityQueue)
    (waiting : ∀ hash, (p.getTransactionByHash hash).isSome → B.waits hash) :
    Agree env H B { s with poolTxEscrow := p } { s' with poolTxEscrow := q } :=
  { agree with escrow := same, order := order, waiting := waiting }

theorem withMultiSign {p q : TransactionPool .multiSign}
    (same : p.Same B.multiSign (fun _ => False) q)
    (fits : p.priorityQueue.length ≤ Common.maxTransactionInPool)
    (room : p.maxTransactions ≤ Common.maxTransactionInPool) :
    Agree env H B { s with poolTxMultiSign := p } { s' with poolTxMultiSign := q } :=
  { agree with multiSign := same, fits := fits, room := room }

theorem removeEscrow (hash : Hash) :
    Agree env H B (s.removeEscrowTransaction hash) (s'.removeEscrowTransaction hash) := by
  have removed := agree.withEscrow (agree.escrow.remove hash)
    (agree.escrow.remove_order agree.order hash) fun other found => by
      unfold TransactionPool.getTransactionByHash at found
      rw [TransactionPool.lookup_removeTransactionByHash] at found
      split at found
      · cases found
      · exact agree.waiting other found
  exact removed.of_core (s.core_removeFrom .escrow hash) (s'.core_removeFrom .escrow hash)

theorem dropMultiSign (hash : Hash) :
    Agree env H B
      { s with poolTxMultiSign := s.poolTxMultiSign.removeTransactionByHash hash }
      { s' with poolTxMultiSign := s'.poolTxMultiSign.removeTransactionByHash hash } := by
  apply agree.withMultiSign (agree.multiSign.remove hash)
  · have fewer : (s.poolTxMultiSign.removeTransactionByHash hash).priorityQueue.length ≤
        s.poolTxMultiSign.priorityQueue.length :=
      ((TransactionPool.queue_nodup _).subperm fun item member =>
        (TransactionPool.mem_removeTransactionByHash.mp member).1).length_le
    exact fewer.trans agree.fits
  · rw [(TransactionPool.removeTransactionByHash_rest _ hash).1]
    exact agree.room

theorem removeMultiSign (hash : Hash) :
    Agree env H B (s.removeMultiSignTransaction hash) (s'.removeMultiSignTransaction hash) :=
  (agree.dropMultiSign hash).of_core (s.core_removeFrom .multiSign hash)
    (s'.core_removeFrom .multiSign hash)

theorem addEscrow (tx : Transaction) (known : B.escrow tx.hash) (waits : B.waits tx.hash) :
    Agree env H B (s.addEscrowTransaction tx).1 (s'.addEscrowTransaction tx).1 := by
  have added := agree.withEscrow (agree.escrow.add (by decide) known tx.hash)
    (agree.escrow.add_order (by decide) agree.order known tx.hash) fun other found => by
      unfold TransactionPool.getTransactionByHash at found
      rw [(TransactionPool.addTransaction_lookup (by decide) _ tx tx.hash other).2.1] at found
      split at found
      · next new => rw [new.1]; exact waits
      · exact agree.waiting other found
  exact added.of_core (s.core_addTo .escrow tx) (s'.core_addTo .escrow tx)

theorem addEscrow_taken (tx : Transaction) (known : B.escrow tx.hash) :
    (s'.addEscrowTransaction tx).2 = (s.addEscrowTransaction tx).2 := by
  rw [(s'.addEscrowTransaction_pools tx).2.2, (s.addEscrowTransaction_pools tx).2.2]
  exact agree.escrow.taken (by decide) known tx.hash

theorem addMultiSign (tx : Transaction) (known : B.multiSign tx.hash) :
    Agree env H B (s.addMultiSignTransaction tx).1 (s'.addMultiSignTransaction tx).1 := by
  have added := agree.withMultiSign
    (agree.multiSign.add (by decide) known (multiSignPoolKeyFor tx))
    (TransactionPool.addTransaction_fits (by decide) _ tx (multiSignPoolKeyFor tx) agree.fits
      agree.room)
    (by
      rw [(TransactionPool.addTransaction_lookup (by decide) _ tx (multiSignPoolKeyFor tx)
        tx.hash).2.2]
      exact agree.room)
  exact added.of_core (s.core_addTo .multiSign tx) (s'.core_addTo .multiSign tx)

theorem addMultiSign_taken (tx : Transaction) (known : B.multiSign tx.hash) :
    (s'.addMultiSignTransaction tx).2 = (s.addMultiSignTransaction tx).2 := by
  rw [(s'.addMultiSignTransaction_pools tx).2.2, (s.addMultiSignTransaction_pools tx).2.2]
  exact agree.multiSign.taken (by decide) known (multiSignPoolKeyFor tx)

theorem banEscrow (hash : Hash) (sure : B.escrow hash → B.cancelled hash) :
    Agree env H B { s with poolTxEscrow := s.poolTxEscrow.banTransactionByHash hash }
      { s' with poolTxEscrow := s'.poolTxEscrow.banTransactionByHash hash } :=
  agree.withEscrow (agree.escrow.ban hash fun known => .inl (sure known)) agree.order agree.waiting

theorem banEverywhere (hash : Hash) (unoffered : B.Unoffered hash) :
    Agree env H B (s.banEverywhere hash) (s'.banEverywhere hash) :=
  { agree with
    escrow := agree.escrow.ban hash fun known => absurd known unoffered.1
    multiSign := agree.multiSign.ban hash fun known => absurd known unoffered.2 }

theorem removeFromPools (hash : Hash) :
    Agree env H B (s.removeFromPools hash) (s'.removeFromPools hash) := by
  have main : Agree env H B
      { s with poolsTx := s.poolsTx.removeTransactionByHash hash }
      { s' with poolsTx := s'.poolsTx.removeTransactionByHash hash } := by
    refine { agree with memory := fun other known => ?_ }
    have same := agree.memory other known
    unfold TransactionPool.getTransactionByHash at same ⊢
    rw [TransactionPool.lookup_removeTransactionByHash,
      TransactionPool.lookup_removeTransactionByHash, same]
  exact (main.removeEscrow hash).dropMultiSign hash

theorem withDb {db db' : Db σ}
    (included : ∀ hash, B.listed hash → db'.includedTx.lookup hash = db.includedTx.lookup hash)
    (loads : ∀ p hash, H hash → db'.loadTx? env p hash = db.loadTx? env p hash) :
    Agree env H B { s with db := db } { s' with db := db' } :=
  { agree with included := included, loads := loads }

theorem removePoolTx (hash : Hash) :
    Agree env H B { s with db := s.db.removePoolTx hash }
      { s' with db := s'.db.removePoolTx hash } := by
  apply agree.withDb
  · exact agree.included
  · intro p other known
    have same := agree.loads p other known
    cases p with
    | pool =>
      by_cases equal : other = hash
      · subst equal
        simp [loadTx?, txs, Db.removePoolTx]
      · simpa only [loadTx?, txs, Db.removePoolTx, lookup_erase_ne equal] using same
    | confirmed => exact same
    | bad => exact same

theorem storeTx (p : TxPrefix) (tx : Transaction) :
    Agree env H B { s with db := s.db.storeTx p tx } { s' with db := s'.db.storeTx p tx } := by
  apply agree.withDb
  · intro other listed
    rw [storeTx_included, storeTx_included, agree.included other listed]
  · intro p' other known
    rw [loadTx?_storeTx, loadTx?_storeTx, agree.loads p' other known]

theorem removeDuplicate (hash : Hash) (unoffered : B.Unoffered hash) :
    Agree env H B (s.removeDuplicateTransactionByHash hash)
      (s'.removeDuplicateTransactionByHash hash) :=
  ((agree.removeFromPools hash).removePoolTx hash).banEverywhere hash unoffered

theorem keepBad (hash : Hash) :
    Agree env H B { s with db := s.db.keepBad env hash }
      { s' with db := s'.db.keepBad env hash } := by
  apply agree.withDb
  · intro other listed
    rw [keepBad_included, keepBad_included, agree.included other listed]
  · intro p other known
    rw [loadTx?_keepBad, loadTx?_keepBad]
    by_cases here : p = .bad ∧ other = hash
    · -- the bodies agree because the hash is one of those that are looked up
      rw [if_pos here, if_pos here, agree.loads _ _ known]
      rw [here.2] at known
      unfold badBody
      rw [agree.loads _ _ known, agree.loads _ _ known]
    · rw [if_neg here, if_neg here, agree.loads _ _ known]

theorem dropIncluded (hash : Hash) (listed : B.listed hash) (unoffered : B.Unoffered hash) :
    Agree env H B (s.dropIncluded hash) (s'.dropIncluded hash) := by
  unfold Node.dropIncluded
  rw [agree.included hash listed]
  split
  · exact agree.removeDuplicate hash unoffered
  · exact agree

theorem removeBad (hash : Hash) (listed : B.listed hash) (unoffered : B.Unoffered hash) :
    Agree env H B (s.removeBadTransactionByHash env hash)
      (s'.removeBadTransactionByHash env hash) := by
  unfold Node.removeBadTransactionByHash
  refine banEverywhere (dropIncluded ?_ hash listed unoffered) hash unoffered
  exact ((agree.removeFromPools hash).keepBad hash).removePoolTx hash

theorem markVoided (hash : Hash) (height : Int64) (reason : UInt8) :
    Agree env H B (s.markVoided hash height reason) (s'.markVoided hash height reason) :=
  agree.of_core rfl rfl

theorem findTxInMemoryPools (known : H hash) :
    s'.findTxInMemoryPools hash = s.findTxInMemoryPools hash := by
  unfold Node.findTxInMemoryPools
  rw [agree.memory hash known]
  unfold TransactionPool.getTransactionByHash
  rw [agree.escrow.lookup, agree.multiSign.lookup]

theorem validateEscrowCancellation (tx : Transaction) (height : Int64) :
    validateEscrowCancellation s' tx height =
      validateEscrowCancellation s tx height := by
  unfold Source.validateEscrowCancellation TransactionPool.getTransactionByHash
  simp only [agree.escrow.lookup, agree.ledger]

theorem cancellationError (tx : Transaction) (height : Int64) :
    cancellationError s' tx height = cancellationError s tx height := by
  unfold Source.cancellationError
  rw [agree.validateEscrowCancellation]

theorem multiSignGroup (main : Hash) : (multiSignGroup s' main).Perm (multiSignGroup s main) := by
  have fits := agree.fits
  rw [← agree.multiSign.items.length_eq] at fits
  unfold Source.multiSignGroup
  rw [TransactionPool.peekTransactions_group _ _ fits,
    TransactionPool.peekTransactions_group _ _ agree.fits]
  exact (agree.multiSign.items.filter _).map _

theorem peekEscrow (n : Nat) (height : Int64) :
    s'.poolTxEscrow.peekTransactions n height = s.poolTxEscrow.peekTransactions n height := by
  rw [TransactionPool.peekTransactions_escrow_eq, TransactionPool.peekTransactions_escrow_eq,
    agree.order]

end Agree
end QwidNode.Source
