import QwidNode.Source.CheckFacts
import QwidNode.Source.Produce
import QwidNode.Source.PoolFacts

/-!
# What a sender can spend, over the integers

`CheckBlockTransfers` compares a running balance with `fee + Amount`, and `admitToPool`
a pending sum; both are computed in 64-bit words. The check pass decides as the integers do
as long as no single `fee + Amount` leaves the word range, and only then.
-/
namespace QwidNode.Guarantees
open Lib Source Word TransactionPool AList
variable {σ : Type}
variable {acc : Account} {s' : Node σ} {hash : Hash}

def exactSpend (tx : Transaction) : Int :=
  match tx.calcFee with
  | some fee => fee.toInt + tx.amount.toInt
  | none => 0

/-- The exact sum of `fee + Amount` over the transactions one sender has in a list. -/
def spentBy (a : AddressBytes) (txs : List Transaction) : Int :=
  ((txs.filter fun tx => tx.sender == a).map exactSpend).sum

theorem calcFee_nonneg {tx : Transaction} {fee : Int64} (charged : tx.calcFee = some fee) :
    0 ≤ fee.toInt := by
  unfold Transaction.calcFee at charged
  split at charged
  · cases charged
  · next signs =>
    rw [not_or, Int64.not_lt, Int64.not_lt, le_iff, le_iff, toInt_zero] at signs
    simp only at charged
    split at charged
    · cases charged
    · next tested =>
      have product : tx.gasPrice * tx.gasUsage = fee := Option.some.inj charged
      rw [← product]
      exact mul_nonneg_of_div signs.1 signs.2 fun paid =>
        not_not.mp fun different => tested ⟨paid, different⟩

theorem exactSpend_of_charged {tx : Transaction} {fee : Int64} (charged : tx.calcFee = some fee) :
    exactSpend tx = fee.toInt + tx.amount.toInt := by
  simp only [exactSpend, charged]

section Block
variable {env : Env σ} {block : Block} {s : Node σ} {tx : Transaction} {fee : Int64}
  {c c' : CheckState} {txs : List Transaction}

def CoveredFrom (s : Node σ) (c : CheckState) : Prop :=
  ∀ a acc, s.ledger.account? a = some acc → 0 ≤ (c.balanceOf a acc).toInt

/-- Every prefix of a list is covered, for every account, by its running balance. -/
def PrefixesCovered (s : Node σ) (c : CheckState) (txs : List Transaction) : Prop :=
  ∀ a acc, s.ledger.account? a = some acc →
    ∀ k, spentBy a (txs.take k) ≤ (c.balanceOf a acc).toInt

theorem spentBy_cons (a : AddressBytes) (tx : Transaction) (txs : List Transaction) :
    spentBy a (tx :: txs) = (if tx.sender = a then exactSpend tx else 0) + spentBy a txs := by
  by_cases own : tx.sender = a
  · simp [spentBy, own]
  · simp [spentBy, own]

theorem debit_exact {balance amount fee : Int64} (held : 0 ≤ balance.toInt)
    (feeNonneg : 0 ≤ fee.toInt) (inRange : fee.toInt + amount.toInt < 2 ^ 63)
    (covered : ¬ balance - (fee + amount) < 0) :
    (balance - (fee + amount)).toInt = balance.toInt - (fee.toInt + amount.toInt) ∧
      fee.toInt + amount.toInt ≤ balance.toInt := by
  have amountRange := toInt_range amount
  have balanceRange := toInt_range balance
  have total : (fee + amount).toInt = fee.toInt + amount.toInt :=
    toInt_add_of_fits (by omega) inRange
  rw [lt_iff, toInt_zero] at covered
  -- a difference above the range would have wrapped to a negative one
  rcases toInt_sub_cases balance (fee + amount) with h | h | h <;> omega

theorem balanceOf_passes (passes : Passes env block s tx fee c c') {a : AddressBytes}
    (found : s.ledger.account? a = some acc) :
    c'.balanceOf a acc =
      if tx.sender = a then c.balanceOf a acc - (fee + tx.amount) else c.balanceOf a acc := by
  obtain ⟨own, ownFound, _, _, debited⟩ := passes.sound
  by_cases same : tx.sender = a
  · subst same
    rw [ownFound] at found
    cases found
    rw [if_pos rfl, CheckState.balanceOf, debited, lookup_insert]
    rfl
  · rw [if_neg same]
    simp only [CheckState.balanceOf, debited, lookup_insert_ne (Ne.symm same)]

theorem passes_exact (passes : Passes env block s tx fee c c') (covered : CoveredFrom s c)
    (inRange : exactSpend tx < 2 ^ 63) {a : AddressBytes} (found : s.ledger.account? a = some acc) :
    (c'.balanceOf a acc).toInt =
        (c.balanceOf a acc).toInt - (if tx.sender = a then exactSpend tx else 0) ∧
      0 ≤ (c'.balanceOf a acc).toInt := by
  have charged := exactSpend_of_charged passes.charged
  rw [balanceOf_passes passes found]
  by_cases same : tx.sender = a
  · subst same
    obtain ⟨own, ownFound, _, enough, _⟩ := passes.sound
    have equal : own = acc := Option.some.inj (ownFound.symm.trans found)
    subst equal
    rw [charged] at inRange ⊢
    have debited := debit_exact (covered tx.sender own ownFound)
      (calcFee_nonneg passes.charged) inRange enough
    rw [if_pos rfl, if_pos rfl, debited.1]
    exact ⟨rfl, Int.sub_nonneg.mpr debited.2⟩
  · rw [if_neg same, if_neg same, Int.sub_zero]
    exact ⟨rfl, covered a acc found⟩

theorem prefixesCovered_iff (passed : PassesAll env block s txs c c')
    (covered : CoveredFrom s c) :
    PrefixesCovered s c txs ↔ ∀ tx ∈ txs, exactSpend tx < 2 ^ 63 := by
  induction passed with
  | nil c =>
    refine ⟨by simp, fun _ a acc found k => ?_⟩
    rw [List.take_nil]
    exact covered a acc found
  | @cons tx rest fee c c₁ c' first others ih =>
    constructor
    · intro prefixes
      obtain ⟨own, ownFound, _, _, _⟩ := first.sound
      have inRange : exactSpend tx < 2 ^ 63 := by
        have one := prefixes tx.sender own ownFound 1
        rw [List.take_succ_cons, List.take_zero, spentBy_cons, if_pos rfl] at one
        have range := toInt_range (c.balanceOf tx.sender own)
        simp only [spentBy, List.filter_nil, List.map_nil, List.sum_nil] at one
        omega
      have next : PrefixesCovered s c₁ rest := by
        intro a acc found k
        have longer := prefixes a acc found (k + 1)
        have debited := passes_exact first covered inRange found
        rw [List.take_succ_cons, spentBy_cons] at longer
        omega
      intro other member
      rcases List.mem_cons.mp member with rfl | member
      · exact inRange
      · exact (ih fun a acc found => (passes_exact first covered inRange found).2).mp next
          other member
    · intro inRange a acc found k
      have own := inRange tx List.mem_cons_self
      have debited := passes_exact first covered own found
      cases k with
      | zero =>
        rw [List.take_zero]
        exact covered a acc found
      | succ k =>
        have rest := (ih fun a acc found => (passes_exact first covered own found).2).mpr
          (fun other member => inRange other (List.mem_cons_of_mem tx member)) a acc found k
        rw [List.take_succ_cons, spentBy_cons]
        omega

end Block

section Pool
variable {t : PoolType} {tp : TransactionPool t} {tx : Transaction} {s : Node σ}

/-- The exact sum of `fee + Amount` over a sender's pooled transactions. -/
def exactPending (tp : TransactionPool t) (a : AddressBytes) : Int :=
  spentBy a (tp.priorityQueue.map Item.transaction)

theorem spentBy_perm (a : AddressBytes) {xs ys : List Transaction} (perm : xs.Perm ys) :
    spentBy a xs = spentBy a ys :=
  ((perm.filter _).map _).sum_eq

theorem toInt_add_txSpend (p : Int64) (tx : Transaction) :
    (p + txSpend tx).toInt = (p.toInt + exactSpend tx).bmod (2 ^ 64) := by
  unfold txSpend exactSpend
  cases tx.calcFee with
  | none => simp
  | some fee => simp

theorem toInt_sub_txSpend (p : Int64) (tx : Transaction) :
    (p - txSpend tx).toInt = (p.toInt - exactSpend tx).bmod (2 ^ 64) := by
  unfold txSpend exactSpend
  cases tx.calcFee with
  | none => simp
  | some fee => simp

def Tracks (tp : TransactionPool t) : Prop :=
  ∀ a, exactPending tp a ≤ (tp.pendingSpend a).toInt

theorem pendingSpend_grown (priority : Int64)
    (fresh : tp.transactions.lookup tx.hash = none) (a : AddressBytes) :
    ((tp.addPendingLocked tx).insertItem tx priority fresh).pendingSpend a =
      if tx.sender = a then tp.pendingSpend a + txSpend tx else tp.pendingSpend a := by
  by_cases own : tx.sender = a
  · subst own
    rw [if_pos rfl]
    simp [pendingSpend, insertItem,
      addPendingLocked, lookup_insert]
  · rw [if_neg own]
    simp [pendingSpend, insertItem,
      addPendingLocked, lookup_insert_ne (Ne.symm own)]

theorem exactPending_grown (priority : Int64)
    (fresh : tp.transactions.lookup tx.hash = none) (a : AddressBytes) :
    exactPending ((tp.addPendingLocked tx).insertItem tx priority fresh) a =
      (if tx.sender = a then exactSpend tx else 0) + exactPending tp a := by
  have perm := (insertItem_perm (tp.addPendingLocked tx) tx priority fresh).map
    Item.transaction
  rw [exactPending, spentBy_perm a perm, List.map_cons, spentBy_cons]
  rfl

/-- The transaction that an addition to the main pool evicts: the cheapest one, the new one
included, when the pool has no room. -/
def evicted (tp : TransactionPool .standard) (tx : Transaction) : Option Transaction :=
  if fresh : tp.transactions.lookup tx.hash = none then
    let grown := (tp.addPendingLocked tx).insertItem tx (priorityOf .standard tx tx.hash) fresh
    if grown.priorityQueue.length ≤ tp.maxTransactions then none
    else grown.minQueue.head?.map Item.transaction
  else none

/-- An addition to the main pool stays in range, and so does the record of what it evicts. -/
structure AdmissionFits (tp : TransactionPool .standard) (tx : Transaction) : Prop where
  inRange : (tp.pendingSpend tx.sender).toInt + exactSpend tx < 2 ^ 63
  evicts : ∀ ev, evicted tp tx = some ev → if ev.sender = tx.sender then 0 ≤ exactSpend ev
    else (tp.pendingSpend ev.sender).toInt - exactSpend ev < 2 ^ 63

def RemovalFits (tp : TransactionPool t) (hash : Hash) : Prop :=
  ∀ tx, tp.transactions.lookup hash = some tx →
    (tp.pendingSpend tx.sender).toInt - exactSpend tx < 2 ^ 63

/-- A popped transaction has no negative spend, and fits if it is put back. -/
def CancelFits (tp : TransactionPool .standard) (owner : AddressBytes) (hash : Hash) : Prop :=
  ∀ tx, tp.transactions.lookup hash = some tx → 0 ≤ exactSpend tx ∧
    (tx.sender ≠ owner → AdmissionFits (tp.popTransactionByHash hash).1 tx)

theorem addTransaction_fresh {tp : TransactionPool .standard} (notBanned : tp.banned tx.hash = false)
    (fresh : tp.transactions.lookup tx.hash = none) :
    ∃ grown, grown = (tp.addPendingLocked tx).insertItem tx (priorityOf .standard tx tx.hash) fresh ∧
      ((evicted tp tx = none ∧ (tp.addTransaction tx tx.hash).1 = grown) ∨
        ∃ ev, evicted tp tx = some ev ∧ grown.transactions.lookup ev.hash = some ev ∧
          (tp.addTransaction tx tx.hash).1 = grown.removeTransactionByHash ev.hash) := by
  refine ⟨_, rfl, ?_⟩
  rw [evicted, dif_pos fresh, addTransaction, notBanned, if_neg Bool.false_ne_true]
  split
  · next found => exact absurd (found.symm.trans fresh) (Option.some_ne_none _)
  · dsimp only
    generalize (tp.addPendingLocked tx).insertItem tx (priorityOf .standard tx tx.hash) fresh = grown
    split
    · exact .inl ⟨rfl, rfl⟩
    · next large =>
      rw [shrink]
      cases first : grown.minQueue.head? with
      | none =>
        have none' : grown.priorityQueue = [] := by
          have mirror := grown.minQueue_perm
          rw [List.head?_eq_none_iff.mp first] at mirror
          exact mirror.nil_eq.symm
        rw [none'] at large
        exact absurd (Nat.zero_le _) large
      | some item =>
        have member := grown.minQueue_perm.mem_iff.mp (List.mem_of_mem_head? first)
        have stored := grown.stored item member
        have key := grown.keyed item member
        refine .inr ⟨item.transaction, rfl, key ▸ stored, ?_⟩
        rw [← key, removeTransactionByHash, stored]
        simp only [stored]

theorem admitToPool_admitted (run : s.admitToPool tx = (s', .admitted)) :
    s.poolsTx.banned tx.hash = false ∧ s.poolsTx.transactions.lookup tx.hash = none ∧
      s'.poolsTx = (s.poolsTx.addTransaction tx tx.hash).1 ∧
      ∃ acc, s.ledger.account? tx.sender = some acc ∧
        (s.poolsTx.pendingSpend tx.sender + txSpend tx).toInt ≤ acc.balance.toInt := by
  unfold Node.admitToPool at run
  split at run
  · cases run
  split at run
  · cases run
  split at run
  · cases run
  cases charged : tx.calcFee with
  | none =>
    simp only [charged] at run
    cases run
  | some fee =>
    simp only [charged] at run
    split at run
    · cases run
    next payable =>
    split at run
    · next added =>
      cases run
      have fresh : s.poolsTx.transactions.lookup tx.hash = none := by
        by_contra pooled
        simp_all [hasTransaction, Option.isSome_iff_ne_none]
      refine ⟨?_, fresh, rfl, ?_⟩
      · rw [addTransaction] at added
        split at added
        · cases added
        · next notBanned => simpa using notBanned
      · unfold Node.payable at payable
        cases found : s.ledger.account? tx.sender with
        | none => simp [found] at payable
        | some acc =>
          refine ⟨acc, rfl, ?_⟩
          simp only [found, Bool.not_eq_false, Bool.not_eq_true', decide_eq_false_iff_not,
            Int64.not_lt, le_iff] at payable
          simpa only [txSpend, charged] using payable
    · cases run

theorem exactPending_remove (found : tp.transactions.lookup hash = some tx) (a : AddressBytes) :
    exactPending (tp.removeTransactionByHash hash) a =
      exactPending tp a - (if tx.sender = a then exactSpend tx else 0) := by
  obtain ⟨item, member, value, body⟩ := lookup_eq_some_iff.mp found
  subst value
  subst body
  have perm := (dropItem_perm member).map Item.transaction
  have whole := spentBy_perm a perm
  rw [List.map_cons, spentBy_cons] at whole
  rw [exactPending, (removeTransactionByHash_eq tp item.value).1, exactPending]
  omega

theorem pendingSpend_remove (found : tp.transactions.lookup hash = some tx) (a : AddressBytes) :
    (tp.removeTransactionByHash hash).pendingSpend a =
      if tx.sender = a then
        (if tp.pendingSpend a - txSpend tx ≤ 0 then 0 else tp.pendingSpend a - txSpend tx)
      else tp.pendingSpend a := by
  have record : (tp.removeTransactionByHash hash).pendingBySender =
      if tp.pendingSpend tx.sender - txSpend tx ≤ 0 then tp.pendingBySender.erase tx.sender
      else tp.pendingBySender.insert tx.sender (tp.pendingSpend tx.sender - txSpend tx) := by
    simp only [removeTransactionByHash, found,
      dropItem_pendingBySender]
    rfl
  change ((tp.removeTransactionByHash hash).pendingBySender.lookup a).getD 0 = _
  rw [record]
  by_cases low : tp.pendingSpend tx.sender - txSpend tx ≤ 0
  · rw [if_pos low]
    by_cases own : tx.sender = a
    · subst own
      rw [if_pos rfl, if_pos low, lookup_erase]
      rfl
    · rw [if_neg own, lookup_erase_ne (Ne.symm own)]
      rfl
  · rw [if_neg low]
    by_cases own : tx.sender = a
    · subst own
      rw [if_pos rfl, if_neg low, lookup_insert]
      rfl
    · rw [if_neg own, lookup_insert_ne (Ne.symm own)]
      rfl

theorem removed_tracks (tracks : Tracks tp) (fits : RemovalFits tp hash) :
    Tracks (tp.removeTransactionByHash hash) := by
  intro a
  cases found : tp.transactions.lookup hash with
  | none =>
    simpa only [removeTransactionByHash, found] using tracks a
  | some tx =>
    have known := tracks a
    have recorded := toInt_sub_txSpend (tp.pendingSpend tx.sender) tx
    have larger := le_bmod (fits tx found)
    rw [exactPending_remove found, pendingSpend_remove found]
    by_cases own : tx.sender = a
    · subst own
      rw [if_pos rfl, if_pos rfl]
      split
      · next low =>
        rw [le_iff, toInt_zero] at low
        rw [toInt_zero]
        omega
      · omega
    · rw [if_neg own, if_neg own]
      omega

theorem grown_tracks (tracks : Tracks tp) (priority : Int64)
    (fresh : tp.transactions.lookup tx.hash = none)
    (inRange : (tp.pendingSpend tx.sender).toInt + exactSpend tx < 2 ^ 63) :
    Tracks ((tp.addPendingLocked tx).insertItem tx priority fresh) := by
  intro a
  have known := tracks a
  rw [exactPending_grown, pendingSpend_grown]
  by_cases same : tx.sender = a
  · subst same
    have larger := le_bmod inRange
    rw [if_pos rfl, if_pos rfl, toInt_add_txSpend]
    omega
  · rw [if_neg same, if_neg same]
    omega

theorem AdmissionFits.removal {pool grown : TransactionPool .standard} {ev : Transaction}
    (fits : AdmissionFits pool tx) (fresh : pool.transactions.lookup tx.hash = none)
    (isGrown : grown = (pool.addPendingLocked tx).insertItem tx
      (priorityOf .standard tx tx.hash) fresh)
    (here : evicted pool tx = some ev) (found : grown.transactions.lookup ev.hash = some ev) :
    RemovalFits grown ev.hash := by
  intro other found'
  obtain rfl : ev = other := Option.some.inj (found.symm.trans found')
  have condition := fits.evicts ev here
  rw [isGrown, pendingSpend_grown]
  by_cases own : tx.sender = ev.sender
  · rw [if_pos own.symm] at condition
    have range := toInt_range (if tx.sender = ev.sender then pool.pendingSpend ev.sender +
      txSpend tx else pool.pendingSpend ev.sender)
    omega
  · rw [if_neg (Ne.symm own)] at condition
    rwa [if_neg own]

theorem added_tracks {pool : TransactionPool .standard} (tracks : Tracks pool)
    (fits : pool.banned tx.hash = false → pool.transactions.lookup tx.hash = none →
      AdmissionFits pool tx) : Tracks (pool.addTransaction tx tx.hash).1 := by
  cases banned : pool.banned tx.hash with
  | true =>
    rw [addTransaction, if_pos banned]
    exact tracks
  | false =>
    cases found : pool.transactions.lookup tx.hash with
    | some old =>
      rw [addTransaction, banned, if_neg Bool.false_ne_true]
      split
      · exact tracks
      · next fresh => exact absurd (found.symm.trans fresh) nofun
    | none =>
      have fits := fits banned found
      obtain ⟨grown, isGrown, kept | ⟨ev, here, stored, left⟩⟩ := addTransaction_fresh banned found
      · rw [kept.2, isGrown]
        exact grown_tracks tracks _ found fits.inRange
      · rw [left]
        exact removed_tracks (isGrown ▸ grown_tracks tracks _ found fits.inRange)
          (fits.removal found isGrown here stored)

theorem exactPending_admitted (run : s.admitToPool tx = (s', .admitted)) :
    exactPending s'.poolsTx tx.sender = exactPending s.poolsTx tx.sender + exactSpend tx -
      (match evicted s.poolsTx tx with
        | some ev => if ev.sender = tx.sender then exactSpend ev else 0
        | none => 0) := by
  obtain ⟨banned, fresh, pool, -⟩ := admitToPool_admitted run
  have whole := exactPending_grown (priorityOf .standard tx tx.hash) fresh tx.sender
  rw [if_pos rfl] at whole
  rw [pool]
  obtain ⟨grown, isGrown, kept | ⟨ev, here, stored, left⟩⟩ := addTransaction_fresh banned fresh
  · rw [kept.1, kept.2, isGrown, whole]
    dsimp only
    omega
  · rw [here, left, exactPending_remove stored, isGrown, whole]
    dsimp only
    omega

theorem admitted_covered (tracks : Tracks s.poolsTx) (fits : AdmissionFits s.poolsTx tx)
    (run : s.admitToPool tx = (s', .admitted)) :
    Tracks s'.poolsTx ∧ ∀ acc, s.ledger.account? tx.sender = some acc →
      exactPending s'.poolsTx tx.sender ≤ acc.balance.toInt := by
  obtain ⟨-, -, pool, own, found, compared⟩ := admitToPool_admitted run
  refine ⟨pool ▸ added_tracks tracks fun _ _ => fits, fun acc found' => ?_⟩
  obtain rfl : own = acc := Option.some.inj (found.symm.trans found')
  have larger := le_bmod fits.inRange
  have known := tracks tx.sender
  rw [toInt_add_txSpend] at compared
  rw [exactPending_admitted run]
  have less : 0 ≤ (match evicted s.poolsTx tx with
      | some ev => if ev.sender = tx.sender then exactSpend ev else 0
      | none => 0) := by
    cases here : evicted s.poolsTx tx with
    | none => exact le_rfl
    | some ev =>
      have condition := fits.evicts ev here
      dsimp only
      split
      · next own => rwa [if_pos own] at condition
      · exact le_rfl
  omega

theorem admitted_covered_iff
    (recordExact : (s.poolsTx.pendingSpend tx.sender).toInt = exactPending s.poolsTx tx.sender)
    (others : ∀ ev, evicted s.poolsTx tx = some ev → ev.sender ≠ tx.sender)
    (run : s.admitToPool tx = (s', .admitted)) (found : s.ledger.account? tx.sender = some acc) :
    exactPending s'.poolsTx tx.sender ≤ acc.balance.toInt ↔
      (s.poolsTx.pendingSpend tx.sender).toInt + exactSpend tx < 2 ^ 63 := by
  obtain ⟨-, -, -, own, found', compared⟩ := admitToPool_admitted run
  obtain rfl : own = acc := Option.some.inj (found'.symm.trans found)
  rw [toInt_add_txSpend] at compared
  have pending := exactPending_admitted run
  have range := toInt_range own.balance
  have grown : exactPending s'.poolsTx tx.sender =
      exactPending s.poolsTx tx.sender + exactSpend tx := by
    rw [pending]
    cases here : evicted s.poolsTx tx with
    | none => exact Int.sub_zero _
    | some ev =>
      dsimp only
      rw [if_neg (others ev here), Int.sub_zero]
  constructor
  · intro covered
    omega
  · intro inRange
    have larger := le_bmod inRange
    omega

theorem popped_tracks (tracks : Tracks tp)
    (nonneg : ∀ tx, tp.transactions.lookup hash = some tx → 0 ≤ exactSpend tx) :
    Tracks (tp.popTransactionByHash hash).1 := by
  intro a
  have known := tracks a
  rw [popTransactionByHash, pendingSpend, dropItem_pendingBySender]
  cases found : tp.transactions.lookup hash with
  | none => rwa [dropItem_of_absent found]
  | some tx =>
    have removed := exactPending_remove found a
    rw [exactPending, (removeTransactionByHash_eq tp hash).1] at removed
    have spend := nonneg tx found
    refine le_trans ?_ known
    rw [exactPending, removed]
    split <;> omega

theorem cancelled_tracks (tracks : Tracks s.poolsTx) {owner : AddressBytes}
    (fits : CancelFits s.poolsTx owner hash) : Tracks (s.handleCNCL owner hash).poolsTx := by
  have rest : Tracks (s.poolsTx.popTransactionByHash hash).1 :=
    popped_tracks tracks fun tx found => (fits tx found).1
  rw [Node.handleCNCL]
  cases found : s.poolsTx.transactions.lookup hash with
  | none =>
    rw [popTransactionByHash, found]
    exact tracks
  | some tx =>
    rw [popTransactionByHash, found] at rest ⊢
    dsimp only
    split
    · exact rest
    · next other =>
      have putBack := (fits tx found).2 other
      rw [popTransactionByHash] at putBack
      exact added_tracks rest fun _ _ => putBack

/-- A history of the main pool in which all that changes the record fits: from an empty pool, new
or after `Clear`, by admissions, removals, cancellations and steps that leave queue and record
alone, as bans do. -/
inductive PoolRun : Node σ → Prop where
  | start {s : Node σ} (queue : s.poolsTx.priorityQueue = [])
      (record : s.poolsTx.pendingBySender = ∅) : PoolRun s
  | admission {s : Node σ} {tx : Transaction} (before : PoolRun s)
      (fits : (s.admitToPool tx).2 = .admitted → AdmissionFits s.poolsTx tx) :
      PoolRun (s.admitToPool tx).1
  | removal {s : Node σ} {hash : Hash} (before : PoolRun s) (fits : RemovalFits s.poolsTx hash) :
      PoolRun (s.dropPooled hash)
  | cancellation {s : Node σ} {owner : AddressBytes} {hash : Hash} (before : PoolRun s)
      (fits : CancelFits s.poolsTx owner hash) : PoolRun (s.handleCNCL owner hash)
  | elsewhere {s s' : Node σ} (before : PoolRun s)
      (queue : s'.poolsTx.priorityQueue = s.poolsTx.priorityQueue)
      (record : s'.poolsTx.pendingBySender = s.poolsTx.pendingBySender) : PoolRun s'

theorem admitToPool_other (other : (s.admitToPool tx).2 ≠ .admitted) :
    (s.admitToPool tx).1.poolsTx.priorityQueue = s.poolsTx.priorityQueue ∧
      (s.admitToPool tx).1.poolsTx.pendingBySender = s.poolsTx.pendingBySender := by
  unfold Node.admitToPool at other ⊢
  split at other
  · rw [if_pos (by assumption)]
    exact ⟨rfl, rfl⟩
  next height =>
  rw [if_neg height]
  split at other
  · rw [if_pos (by assumption)]
    exact ⟨rfl, rfl⟩
  next unknown =>
  rw [if_neg unknown]
  split at other
  · rw [if_pos (by assumption)]
    exact ⟨rfl, rfl⟩
  next size =>
  rw [if_neg size]
  cases charged : tx.calcFee with
  | none => exact ⟨rfl, rfl⟩
  | some fee =>
    simp only [charged] at other ⊢
    split at other
    · rw [if_pos (by assumption)]
      exact ⟨rfl, rfl⟩
    next payable =>
    rw [if_neg payable]
    split at other
    · exact absurd rfl other
    next refused =>
    rw [if_neg refused]
    -- the main pool refuses only what is banned
    unfold addTransaction at refused ⊢
    split at refused
    · rw [if_pos (by assumption)]
      exact ⟨rfl, rfl⟩
    next notBanned =>
    exfalso
    apply refused
    split
    · rfl
    · simp only
      split
      · rfl
      · simp only [shrink]
        split <;> rfl

theorem poolRun_tracks (run : PoolRun s) : Tracks s.poolsTx := by
  induction run with
  | start queue record =>
    intro a
    simp [exactPending, spentBy, queue, pendingSpend, record]
  | @admission s tx before fits ih =>
    cases verdict : (s.admitToPool tx).2 with
    | admitted => exact (admitted_covered ih (fits verdict) (Prod.ext rfl verdict)).1
    | _ =>
      have refused : (s.admitToPool tx).2 ≠ .admitted := by rw [verdict]; decide
      have same := admitToPool_other refused
      intro a
      simpa only [exactPending, pendingSpend, same.1, same.2] using ih a
  | removal before fits ih => exact removed_tracks ih fits
  | cancellation before fits ih => exact cancelled_tracks ih fits
  | elsewhere before queue record ih =>
    intro a
    simpa only [exactPending, pendingSpend, queue, record] using ih a

end Pool

/-- Affordability against the integers. An accepted block covers every prefix exactly when
no `fee + Amount` in it leaves the word range. In every pool history whose admissions, removals
and cancellations fit, an admitted transaction is covered together with all that its sender has
pooled; and where the record is exact and nothing of the sender is evicted, the range is necessary
too. -/
theorem spending_covered_iff (env : Env σ) :
    (∀ (block lastBlock : Block) (s t u : Node σ) (r : Int64 × Int64) (txs : List Transaction),
      checkBlockTransfers env block lastBlock s = .ok r t →
      loadAll env lastBlock block.transactionsHashes s = .ok txs u →
      (∀ a acc, s.ledger.account? a = some acc → 0 ≤ acc.balance) →
      ((∀ a acc, s.ledger.account? a = some acc →
          ∀ k, spentBy a (txs.take k) ≤ acc.balance.toInt) ↔
        ∀ tx ∈ txs, exactSpend tx < 2 ^ 63)) ∧
    (∀ (s s' : Node σ) (tx : Transaction) (acc : Account),
      s.admitToPool tx = (s', .admitted) → s.ledger.account? tx.sender = some acc →
      (PoolRun s → AdmissionFits s.poolsTx tx →
        exactPending s'.poolsTx tx.sender ≤ acc.balance.toInt) ∧
      ((s.poolsTx.pendingSpend tx.sender).toInt = exactPending s.poolsTx tx.sender →
        (∀ ev, evicted s.poolsTx tx = some ev → ev.sender ≠ tx.sender) →
        (exactPending s'.poolsTx tx.sender ≤ acc.balance.toInt ↔
          (s.poolsTx.pendingSpend tx.sender).toInt + exactSpend tx < 2 ^ 63))) := by
  refine ⟨fun block lastBlock s t u r txs accepted loaded balances => ?_,
    fun s s' tx acc run found => ⟨fun history fits => ?_, fun recordExact others => ?_⟩⟩
  · obtain ⟨reward, totalFee⟩ := r
    obtain ⟨txs', c, loaded', _, passed, _⟩ := checkBlockTransfers_ok accepted
    rw [loaded] at loaded'
    cases loaded'
    have ledger : t.ledger = s.ledger := (loadAll_ok loaded).1.ledger
    have covered : CoveredFrom t {} := by
      intro a acc found
      rw [ledger] at found
      exact le_iff.mp (balances a acc found)
    have decided := prefixesCovered_iff passed covered
    simpa only [PrefixesCovered, ledger, CheckState.balanceOf, lookup_empty,
      Option.getD_none] using decided
  · exact (admitted_covered (poolRun_tracks history) fits run).2 acc found
  · exact admitted_covered_iff recordExact others run found

def payer (balance : Int64) (txs : List Transaction) : Node Unit where
  evm := ()
  ledger := { accounts :=
    (∅ : FinMap AddressBytes Account).insert 0x55 { address := 0x55, balance := balance } }
  db := { poolTx := txs.foldl (fun m tx => m.insert tx.hash tx) ∅ }

def hugeTransfer : Transaction := .plain 0x55 0x77 9223372036854775807 1 5

/-- The word `fee + Amount` of the huge transfer is negative, so a balance of 1000 passes. -/
theorem huge_transfer_accepted :
    (∃ r t, checkBlockTransfers Env.permissive
        (.plain 6 (100 + getReward 100) [hugeTransfer.hash]) (.plain 5 100 [])
        (payer 1000 [hugeTransfer]) = .ok r t) ∧
      ((payer 1000 [hugeTransfer]).ledger.account? 0x55).map (·.balance) = some 1000 ∧
      (1000 : Int64).toInt < spentBy 0x55 [hugeTransfer] :=
  ⟨succeeds_iff.mp (by decide +kernel), by decide +kernel, by decide +kernel⟩

def smallTransfer : Transaction := .plain 0x55 0x77 100 1 5

theorem small_transfer_covered :
    ∀ k, spentBy 0x55 ([smallTransfer].take k) ≤ (50000 : Int64).toInt := by
  obtain ⟨r, t, accepted⟩ : ∃ r t, checkBlockTransfers Env.permissive
      (.plain 6 (100 + getReward 100) [smallTransfer.hash]) (.plain 5 100 [])
      (payer 50000 [smallTransfer]) = .ok r t := succeeds_iff.mp (by decide +kernel)
  have loaded : loadAll Env.permissive (.plain 5 100 []) [smallTransfer.hash]
      (payer 50000 [smallTransfer]) = .ok [smallTransfer] (payer 50000 [smallTransfer]) := rfl
  have balances : ∀ a acc, (payer 50000 [smallTransfer]).ledger.account? a = some acc →
      0 ≤ acc.balance := by
    intro a acc found
    have member := FinMap.mem_values_of_lookup found
    have all : ∀ w ∈ FinMap.values (payer 50000 [smallTransfer]).ledger.accounts,
        0 ≤ w.balance := by decide +kernel
    exact all acc member
  have decided := (spending_covered_iff Env.permissive).1 _ _ _ _ _ _ _ accepted loaded balances
  exact decided.mpr (by decide +kernel) 0x55 { address := 0x55, balance := 50000 }
    (by decide +kernel)

end QwidNode.Guarantees
