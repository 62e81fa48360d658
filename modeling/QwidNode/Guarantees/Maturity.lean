import QwidNode.Guarantees.Policy
import QwidNode.Source.EscrowPass
import QwidNode.Source.Blocks

/-!
# Matured escrows settle on time

Source: `ProcessTransactionsEscrow`, called last by `ProcessBlockTransfers`, which only logs its
error. The pass ends at the first entry that is refused, so an entry of one sender can hold up the
due entries of all others.
-/
namespace QwidNode.Guarantees
open Source Lib Lib.Debits TransactionPool Transaction Item Multiset
variable {σ : Type} {env : Env σ} {s t : Node σ} {e f : Transaction} {height : Int64}

def reordered (s : Node σ) (queue : List Item)
    (same : queue.Perm s.poolTxEscrow.priorityQueue) : Node σ :=
  { s with poolTxEscrow := s.poolTxEscrow.reorder queue same }

def dueTotal (s : Node σ) (height : Int64) (a : AddressBytes) : Int :=
  ((s.escrowed.filter fun e => e.sender = a ∧ s.ledger.escrowDue height e = true).map
    fun e => e.amount.toInt).sum

def CoveredDue (s : Node σ) (height : Int64) (e : Transaction) : Prop :=
  s.ledger.escrowDue height e = true ∧ dueTotal s height e.sender ≤ s.ledger.balances e.sender

instance (s : Node σ) (height : Int64) (e : Transaction) : Decidable (CoveredDue s height e) := by
  unfold CoveredDue; infer_instance

/-- No entry that was due and covered before the pass is left after it. -/
def OnTime (s : Node σ) (height : Int64) (t : Node σ) : Prop :=
  ∀ e ∈ t.escrowed, ¬ CoveredDue s height e

def served (s : Node σ) (height : Int64) : List Transaction :=
  (s.poolTxEscrow.priorityQueue.filter fun item => decide (item.priority ≤ height)).map
    transaction

/-- The entry ends the pass in some order: it is stuck, or its sender cannot pay it together
with everything it owes to others. -/
def Obstructs (s : Node σ) (height : Int64) (f : Transaction) : Prop :=
  s.ledger.escrowStuck f ∨ (s.ledger.escrowPays height f = true ∧
    s.ledger.balances f.sender < f.amount.toInt +
      outgoing (payments s.ledger height ((served s height).filter (· ≠ f))) f.sender)

instance (s : Node σ) (height : Int64) (f : Transaction) : Decidable (Obstructs s height f) := by
  unfold Obstructs; infer_instance

/-- Where an entry is due and covered, all entries fit into one pass, its own priority has been
reached and it is not a delegated one, and no entry of anybody obstructs. -/
def Unobstructed (s : Node σ) (height : Int64) : Prop :=
  ∀ e ∈ s.escrowed, CoveredDue s height e →
    s.poolTxEscrow.priorityQueue.length ≤ Common.maxTransactionInPool ∧ e ∈ served s height ∧
      e.routingAccount = some none ∧ ∀ f ∈ served s height, ¬ Obstructs s height f

instance (s : Node σ) (height : Int64) : Decidable (Unobstructed s height) := by
  unfold Unobstructed; infer_instance

/-- What verification and inclusion enforce on everything that is held, and a ledger that is
not negative and whose coins fit into a word. -/
structure Payable (s : Node σ) : Prop where
  amounts : ∀ e ∈ s.escrowed, 0 ≤ e.amount.toInt
  direct : ∀ e ∈ s.escrowed, e.txParam.multiSignTx = zerosHash
  nonneg : s.ledger.NonNeg
  bounded : s.ledger.coins < 2 ^ 63

section Orders
variable {queue : List Item} (same : queue.Perm s.poolTxEscrow.priorityQueue)

def passed (queue : List Item) (height : Int64) : List Transaction :=
  ((queue.take Common.maxTransactionInPool).filter fun item =>
    decide (item.priority ≤ height)).map transaction

theorem mem_escrowed : e ∈ s.escrowed ↔ s.pooled .escrow e.hash = some e :=
  mem_held

theorem escrowed_reordered : (reordered s queue same).escrowed = s.escrowed :=
  Multiset.coe_eq_coe.mpr (same.map _)

include same in
theorem hashes_nodup : (queue.map fun item => item.transaction.hash).Nodup := by
  have values : (queue.map value).Nodup :=
    (same.map _).nodup_iff.mpr s.poolTxEscrow.queue_values_nodup
  have equal : (queue.map fun item => item.transaction.hash) = queue.map value :=
    List.map_congr_left fun item member =>
      (s.poolTxEscrow.keyed item (same.mem_iff.mp member)).symm
  rw [equal]
  exact values

include same in
theorem mem_escrowed_of_queue {item : Item} (member : item ∈ queue) :
    item.transaction ∈ s.escrowed :=
  Multiset.mem_coe.mpr (List.mem_map.mpr ⟨item, same.mem_iff.mp member, rfl⟩)

include same in
theorem mem_escrowed_of_passed (member : f ∈ passed queue height) : f ∈ s.escrowed := by
  obtain ⟨item, inside, rfl⟩ := List.mem_map.mp member
  exact mem_escrowed_of_queue same (List.mem_of_mem_take (List.mem_filter.mp inside).1)

theorem escrowed_hash_inj (first : e ∈ s.escrowed) (second : f ∈ s.escrowed)
    (equal : e.hash = f.hash) : e = f := by
  rw [mem_escrowed] at first second
  rw [equal, second] at first
  exact (Option.some.inj first).symm

theorem escrowPass_eq (height : Int64) :
    finalState (processTransactionsEscrow env height (reordered s queue same)) =
      finalState ((passed queue height).forM (settleEscrow env height) (reordered s queue same)) := by
  unfold processTransactionsEscrow
  rw [get_bind_run, peekTransactions_escrow_eq]
  rfl

theorem not_onTime_of_kept (member : e ∈ s.escrowed) (covered : CoveredDue s height e)
    (kept : t.pooled .escrow e.hash = s.pooled .escrow e.hash) : ¬ OnTime s height t := by
  intro onTime
  apply onTime e _ covered
  rw [mem_escrowed, kept]
  exact mem_escrowed.mp member

end Orders

section Settles
variable {queue : List Item} (same : queue.Perm s.poolTxEscrow.priorityQueue)

include same in
theorem passed_perm (height : Int64)
    (fits : s.poolTxEscrow.priorityQueue.length ≤ Common.maxTransactionInPool) :
    (passed queue height).Perm (served s height) := by
  rw [passed, List.take_of_length_le (by rw [same.length_eq]; exact fits)]
  exact (same.filter _).map _

include same in
theorem passed_nodup (height : Int64) : ((passed queue height).map hash).Nodup := by
  have sub : ((passed queue height).map hash).Sublist
      (queue.map fun item => item.transaction.hash) := by
    rw [passed, List.map_map]
    exact (List.filter_sublist.trans (List.take_sublist _ _)).map _
  exact sub.nodup (hashes_nodup same)

include same in
theorem payments_made (payable : Payable s)
    (fits : s.poolTxEscrow.priorityQueue.length ≤ Common.maxTransactionInPool)
    (clear : ∀ f ∈ served s height, ¬ Obstructs s height f) :
    (payAll (payments s.ledger height (passed queue height)) s.ledger.balances).isSome := by
  apply payAll_isSome
  · intro p member
    obtain ⟨f, inside, rfl⟩ := List.mem_map.mp member
    exact payable.amounts f (mem_escrowed_of_passed same (List.mem_filter.mp inside).1)
  · intro l p r split
    obtain ⟨before, later, equal, rfl, cons⟩ := List.map_eq_append_iff.mp split
    obtain ⟨f, after, rfl, rfl, rfl⟩ := List.map_eq_cons_iff.mp cons
    obtain ⟨member, pays⟩ := List.mem_filter.mp
      (equal ▸ List.mem_append_right before List.mem_cons_self)
    have perm := passed_perm same height fits
    -- the other payments of the pass are those of the served entries without this one
    have others : (((served s height).filter (· ≠ f)).filter (s.ledger.escrowPays height)).Perm
        (before ++ after) := by
      have distinct : (before ++ f :: after).Nodup :=
        equal ▸ (List.Nodup.of_map _ (passed_nodup same height)).filter _
      have removed : (before ++ f :: after).filter (· ≠ f) = before ++ after := by
        have absent := (List.nodup_cons.mp (List.nodup_middle.mp distinct)).1
        rw [List.filter_append, List.filter_cons_of_neg (by simp), ← List.filter_append]
        apply List.filter_eq_self.mpr
        intro x inside
        exact decide_eq_true fun equal => absent (equal ▸ inside)
      rw [← removed, ← equal, List.filter_filter, List.filter_filter]
      have swap : (fun x => s.ledger.escrowPays height x && decide (x ≠ f)) =
          fun x => decide (x ≠ f) && s.ledger.escrowPays height x := by
        funext x
        exact Bool.and_comm _ _
      rw [swap]
      exact perm.symm.filter _
    have total : outgoing (payments s.ledger height ((served s height).filter (· ≠ f))) f.sender =
        outgoing (before.map payment ++ after.map payment) f.sender := by
      rw [← List.map_append]
      exact outgoing_perm (others.map _)
    have free := clear f (perm.mem_iff.mp member)
    change f.amount.toInt + _ ≤ s.ledger.balances f.sender
    by_contra short
    apply free (.inr ⟨pays, _⟩)
    rw [total]
    exact not_le.mp short

theorem settles_on_time (payable : Payable s) (clear : Unobstructed s height) :
    OnTime s height (finalState (processTransactionsEscrow env height (reordered s queue same))) := by
  intro e left covered
  have member : e ∈ s.escrowed := by
    have le := processTransactionsEscrow_le env height (reordered s queue same)
    rw [escrowed_reordered] at le
    exact mem_of_le le left
  obtain ⟨fits, reached, routed, free⟩ := clear e member covered
  have perm := passed_perm same height fits
  obtain ⟨ends, settled⟩ := settleAll_run env height s.ledger
    (passed queue height) (u := reordered s queue same) (.refl _) payable.nonneg payable.bounded
    (fun f inside => payable.direct f (mem_escrowed_of_passed same inside))
    (fun f inside => payable.amounts f (mem_escrowed_of_passed same inside))
    (fun f inside stuck => free f (perm.mem_iff.mp inside) (.inl stuck))
    (passed_nodup same height)
  have success : succeeds ((passed queue height).forM (settleEscrow env height)
      (reordered s queue same)) = true := by
    rw [ends]
    exact payments_made same payable fits free
  have gone := settled success e (perm.mem_iff.mpr reached) routed covered.1
  rw [escrowPass_eq, mem_escrowed, gone] at left
  cases left

end Settles

section Late

theorem exists_item (member : e ∈ s.escrowed) :
    ∃ item ∈ s.poolTxEscrow.priorityQueue, item.transaction = e :=
  List.mem_map.mp (Multiset.mem_coe.mp member)

theorem late_of_not_passed {queue : List Item} (same : queue.Perm s.poolTxEscrow.priorityQueue)
    (member : e ∈ s.escrowed) (covered : CoveredDue s height e)
    (skipped : e ∈ passed queue height → ∃ n, e.routingAccount = some (some n)) :
    ¬ OnTime s height
      (finalState (processTransactionsEscrow env height (reordered s queue same))) := by
  rw [escrowPass_eq]
  apply not_onTime_of_kept member covered
  refine keptAt_settleAll env height _ (passed queue height) ?_ _ .escrow
  intro f inside equal
  have one : e = f := escrowed_hash_inj member (mem_escrowed_of_passed same inside) equal
  subst one
  exact skipped inside

def LateInSomeOrder (env : Env σ) (s : Node σ) (height : Int64) : Prop :=
  ∃ queue, ∃ same : queue.Perm s.poolTxEscrow.priorityQueue, ¬ OnTime s height
    (finalState (processTransactionsEscrow env height (reordered s queue same)))

theorem late_of_overfull (member : e ∈ s.escrowed) (covered : CoveredDue s height e)
    (full : Common.maxTransactionInPool < s.poolTxEscrow.priorityQueue.length) :
    LateInSomeOrder env s height := by
  obtain ⟨item, inside, rfl⟩ := exists_item member
  have same : (s.poolTxEscrow.priorityQueue.erase item ++ [item]).Perm
      s.poolTxEscrow.priorityQueue :=
    (List.perm_append_singleton _ _).trans (List.perm_cons_erase inside).symm
  refine ⟨_, same, late_of_not_passed same member covered fun looked => ?_⟩
  have short : Common.maxTransactionInPool ≤ (s.poolTxEscrow.priorityQueue.erase item).length := by
    rw [List.length_erase_of_mem inside]
    omega
  rw [passed, List.take_append_of_le_length short] at looked
  obtain ⟨other, taken, equal⟩ := List.mem_map.mp looked
  have erased := List.mem_of_mem_take (List.mem_filter.mp taken).1
  have queued := List.mem_of_mem_erase erased
  have one : other = item := by
    apply queue_value_inj queued inside
    rw [s.poolTxEscrow.keyed _ queued, s.poolTxEscrow.keyed _ inside, equal]
  subst one
  have distinct : s.poolTxEscrow.priorityQueue.Nodup :=
    List.Nodup.of_map _ s.poolTxEscrow.queue_values_nodup
  exact absurd erased distinct.not_mem_erase

theorem late_of_stuck (member : e ∈ s.escrowed) (covered : CoveredDue s height e)
    (reached : f ∈ served s height) (stuck : s.ledger.escrowStuck f) :
    LateInSomeOrder env s height := by
  obtain ⟨item, inside, rfl⟩ := List.mem_map.mp reached
  obtain ⟨queued, due⟩ := List.mem_filter.mp inside
  have same : (item :: s.poolTxEscrow.priorityQueue.erase item).Perm
      s.poolTxEscrow.priorityQueue := (List.perm_cons_erase queued).symm
  refine ⟨_, same, ?_⟩
  obtain ⟨rest, first⟩ : ∃ rest, passed (item :: s.poolTxEscrow.priorityQueue.erase item) height =
      item.transaction :: rest := by
    rw [passed, show Common.maxTransactionInPool = Common.maxTransactionInPool - 1 + 1 from rfl,
      List.take_succ_cons, List.filter_cons, if_pos due, List.map_cons]
    exact ⟨_, rfl⟩
  obtain ⟨error, run⟩ := settleEscrow_stuck env height
    (s := reordered s _ same) (e := item.transaction) stuck
  have ended : (passed (item :: s.poolTxEscrow.priorityQueue.erase item) height).forM
      (settleEscrow env height) (reordered s _ same) = .error error (reordered s _ same) := by
    rw [first]
    exact bind_of_error run
  rw [escrowPass_eq, ended]
  exact not_onTime_of_kept member covered rfl

/-- The entries of a sender to others that are paid before `f`, and the rest of the queue. -/
def owed (s : Node σ) (height : Int64) (f : Transaction) (item : Item) : Bool :=
  decide (item.priority ≤ height) && s.ledger.escrowPays height item.transaction &&
    decide (item.transaction.sender = f.sender ∧ item.transaction.recipient ≠ f.sender)

theorem outgoing_owed {item : Item} (queued : item ∈ s.poolTxEscrow.priorityQueue)
    (due : decide (item.priority ≤ height) = true) :
    outgoing (payments s.ledger height ((served s height).filter (· ≠ item.transaction)))
        item.transaction.sender =
      outgoing ((((s.poolTxEscrow.priorityQueue.erase item).filter
        (owed s height item.transaction)).map transaction).map payment)
          item.transaction.sender := by
  have distinct : (s.poolTxEscrow.priorityQueue.map fun item => item.transaction.hash).Nodup :=
    hashes_nodup (.refl _)
  have others : ((served s height).filter (· ≠ item.transaction)).Perm
      (((s.poolTxEscrow.priorityQueue.erase item).filter fun item =>
        decide (item.priority ≤ height)).map transaction) := by
    have queue := List.perm_cons_erase queued
    have absent : ∀ other ∈ s.poolTxEscrow.priorityQueue.erase item,
        other.transaction ≠ item.transaction := by
      have listed := (queue.map fun item => item.transaction.hash).nodup_iff.mp distinct
      rw [List.map_cons, List.nodup_cons] at listed
      intro other member equal
      exact listed.1 (List.mem_map.mpr ⟨other, member, congrArg hash equal⟩)
    apply (((queue.filter fun item => decide (item.priority ≤ height)).map
      transaction).filter _).trans
    rw [List.filter_cons, if_pos due, List.map_cons, List.filter_cons_of_neg (by simp)]
    rw [List.filter_eq_self.mpr]
    intro other member
    obtain ⟨entry, inside, rfl⟩ := List.mem_map.mp member
    exact decide_eq_true (absent entry (List.mem_filter.mp inside).1)
  have list : ((payments s.ledger height (((s.poolTxEscrow.priorityQueue.erase item).filter
      fun item => decide (item.priority ≤ height)).map transaction)).filter fun p =>
        p.payer = item.transaction.sender ∧ p.payee ≠ item.transaction.sender) =
      (((s.poolTxEscrow.priorityQueue.erase item).filter (owed s height item.transaction)).map
        transaction).map payment := by
    rw [payments, List.filter_map, List.filter_filter, List.filter_map, List.filter_filter]
    congr 2
    apply List.filter_congr
    intro entry _
    rw [Bool.eq_iff_iff]
    simp only [owed, Function.comp, Bool.and_eq_true, decide_eq_true_eq]
    exact ⟨fun all => ⟨⟨all.2, all.1.2⟩, all.1.1⟩, fun all => ⟨⟨all.2, all.1.2⟩, all.1.1⟩⟩
  have total := outgoing_perm (a := item.transaction.sender)
    ((others.filter (s.ledger.escrowPays height)).map payment)
  rw [← list, outgoing_filter]
  exact total

theorem due_total_ge (payable : Payable s) {item : Item} {earlier later : List Item}
    (same : (earlier ++ item :: later).Perm s.poolTxEscrow.priorityQueue)
    (pays : s.ledger.escrowPays height item.transaction = true)
    (owes : ∀ other ∈ earlier, s.ledger.escrowPays height other.transaction = true ∧
      other.transaction.sender = item.transaction.sender ∧
      other.transaction.recipient ≠ item.transaction.sender)
    (covered : dueTotal s height item.transaction.sender ≤
      s.ledger.balances item.transaction.sender) :
    item.transaction.amount.toInt + outgoing ((earlier.map transaction).map
      payment) item.transaction.sender ≤ s.ledger.balances item.transaction.sender := by
  have due : ∀ g : Transaction, s.ledger.escrowPays height g = true →
      s.ledger.escrowDue height g = true := by
    intro g paid
    simp only [Ledger.escrowPays, Bool.and_eq_true] at paid
    exact paid.1.2
  have total : outgoing ((earlier.map transaction).map payment)
      item.transaction.sender =
        ((earlier.map transaction).map fun g => g.amount.toInt).sum := by
    rw [outgoing, List.filter_eq_self.mpr, List.map_map]
    · rfl
    · intro p inside
      obtain ⟨g, taken, rfl⟩ := List.mem_map.mp inside
      obtain ⟨other, early, rfl⟩ := List.mem_map.mp taken
      exact decide_eq_true (owes other early).2
  have whole : s.escrowed = (item.transaction ::ₘ ↑(earlier.map transaction)) +
      (↑(later.map transaction) : Multiset Transaction) := by
    have listed : s.escrowed = ↑((earlier ++ item :: later).map transaction) :=
      (Multiset.coe_eq_coe.mpr (same.map _)).symm
    rw [listed, cons_coe, coe_add]
    apply Multiset.coe_eq_coe.mpr
    rw [List.map_append, List.map_cons]
    exact List.perm_middle
  have chosen : (item.transaction ::ₘ (↑(earlier.map transaction) : Multiset Transaction)).filter
      (fun g => g.sender = item.transaction.sender ∧ s.ledger.escrowDue height g = true) =
        item.transaction ::ₘ ↑(earlier.map transaction) := by
    apply Multiset.filter_eq_self.mpr
    intro g inside
    rcases Multiset.mem_cons.mp inside with rfl | inside
    · exact ⟨rfl, due _ pays⟩
    · obtain ⟨other, early, rfl⟩ := List.mem_map.mp (Multiset.mem_coe.mp inside)
      exact ⟨(owes other early).2.1, due _ (owes other early).1⟩
  have others : 0 ≤ (((↑(later.map transaction) : Multiset Transaction).filter fun g =>
      g.sender = item.transaction.sender ∧ s.ledger.escrowDue height g = true).map
        fun g => g.amount.toInt).sum := by
    apply Multiset.sum_nonneg
    intro amount inside
    obtain ⟨g, taken, rfl⟩ := Multiset.mem_map.mp inside
    apply payable.amounts g
    rw [whole]
    exact Multiset.mem_add.mpr (.inr (Multiset.mem_filter.mp taken).1)
  rw [dueTotal, whole, filter_add, chosen, Multiset.map_add, sum_add,
    Multiset.map_cons, Multiset.sum_cons, Multiset.map_coe, sum_coe] at covered
  rw [total]
  omega

theorem late_of_short (payable : Payable s) (member : e ∈ s.escrowed)
    (covered : CoveredDue s height e)
    (fits : s.poolTxEscrow.priorityQueue.length ≤ Common.maxTransactionInPool)
    (reached : f ∈ served s height) (pays : s.ledger.escrowPays height f = true)
    (short : s.ledger.balances f.sender < f.amount.toInt +
      outgoing (payments s.ledger height ((served s height).filter (· ≠ f))) f.sender) :
    LateInSomeOrder env s height := by
  obtain ⟨item, inside, rfl⟩ := List.mem_map.mp reached
  obtain ⟨queued, due⟩ := List.mem_filter.mp inside
  rw [outgoing_owed queued due] at short
  have owes : ∀ other ∈ (s.poolTxEscrow.priorityQueue.erase item).filter
      (owed s height item.transaction), decide (other.priority ≤ height) = true ∧
        s.ledger.escrowPays height other.transaction = true ∧
        other.transaction.sender = item.transaction.sender ∧
        other.transaction.recipient ≠ item.transaction.sender := by
    intro other taken
    have conditions := (List.mem_filter.mp taken).2
    simp only [owed, Bool.and_eq_true, decide_eq_true_eq] at conditions ⊢
    exact ⟨conditions.1.1, conditions.1.2, conditions.2⟩
  generalize first : (s.poolTxEscrow.priorityQueue.erase item).filter
    (owed s height item.transaction) = earlier at short owes
  have same : (earlier ++ item :: (s.poolTxEscrow.priorityQueue.erase item).filter
      fun other => !owed s height item.transaction other).Perm s.poolTxEscrow.priorityQueue := by
    rw [← first]
    exact List.perm_middle.trans (((List.filter_append_perm _ _).cons item).trans
      (List.perm_cons_erase queued).symm)
  refine ⟨_, same, ?_⟩
  generalize (s.poolTxEscrow.priorityQueue.erase item).filter
    (fun other => !owed s height item.transaction other) = later at same
  obtain ⟨rest, order⟩ : ∃ rest, passed (earlier ++ item :: later) height =
      (earlier.map transaction ++ [item.transaction]) ++ rest := by
    rw [passed, List.take_of_length_le (by rw [same.length_eq]; exact fits), List.filter_append,
      List.filter_cons, if_pos due, List.filter_eq_self.mpr fun other taken => (owes other taken).1,
      List.map_append, List.map_cons]
    exact ⟨_, List.append_cons _ _ _⟩
  have facts : ∀ g ∈ earlier.map transaction ++ [item.transaction], g ∈ s.escrowed ∧
      s.ledger.escrowPays height g = true ∧ g.sender = item.transaction.sender := by
    intro g inside
    rcases List.mem_append.mp inside with early | last
    · obtain ⟨other, taken, rfl⟩ := List.mem_map.mp early
      exact ⟨mem_escrowed_of_queue same (List.mem_append_left _ taken), (owes other taken).2.1,
        (owes other taken).2.2.1⟩
    · rw [List.mem_singleton.mp last]
      exact ⟨mem_escrowed_of_queue (.refl _) queued, pays, rfl⟩
  have foreign : e.sender ≠ item.transaction.sender := by
    intro equal
    exact absurd short (not_lt.mpr (due_total_ge payable same pays (fun other taken =>
      (owes other taken).2) (equal ▸ covered.2)))
  have list : payments s.ledger height (earlier.map transaction ++ [item.transaction]) =
      (earlier.map transaction).map payment ++ [item.transaction.payment] := by
    rw [payments, List.filter_eq_self.mpr fun g inside => (facts g inside).2.1, List.map_append]
    rfl
  generalize earlier.map transaction ++ [item.transaction] = entries at order facts list
  have distinct : (entries.map hash).Nodup := by
    have all := passed_nodup same height
    rw [order, List.map_append] at all
    exact all.of_append_left
  obtain ⟨ends, -⟩ := settleAll_run env height s.ledger entries (u := reordered s _ same) (.refl _)
    payable.nonneg payable.bounded (fun g inside => payable.direct g (facts g inside).1)
    (fun g inside => payable.amounts g (facts g inside).1)
    (fun g inside => Ledger.not_escrowStuck_of_pays (facts g inside).2.1) distinct
  have unpaid : payAll (payments s.ledger height entries) s.ledger.balances = none := by
    rw [list]
    apply payAll_eq_none _ short
    intro p inside
    obtain ⟨g, taken, rfl⟩ := List.mem_map.mp inside
    obtain ⟨other, early, rfl⟩ := List.mem_map.mp taken
    exact (owes other early).2.2
  change _ = (payAll _ s.ledger.balances).isSome at ends
  rw [unpaid] at ends
  rw [escrowPass_eq, order]
  apply not_onTime_of_kept member covered
  cases run : entries.forM (settleEscrow env height) (reordered s _ same) with
  | ok _ t =>
    rw [run] at ends
    cases ends
  | error error t =>
    rw [forM_append_of_error rest run]
    have kept := keptAt_settleAll env height e.hash entries (fun g inside equal => by
        have one := escrowed_hash_inj member (facts g inside).1 equal
        exact absurd (one ▸ (facts g inside).2.2) foreign) (reordered s _ same)
    rw [run] at kept
    exact kept .escrow

end Late

/-- The pass over the escrow pool leaves no covered due entry, in whatever order the pool yields
its entries, exactly when nobody obstructs. The pass that ends a block whose transfers were
applied is one of these. -/
theorem matured_escrows_settle_iff (env : Env σ) (height : Int64) (s : Node σ)
    (payable : Payable s) :
    ((∀ queue, ∀ same : queue.Perm s.poolTxEscrow.priorityQueue, OnTime s height
        (finalState (processTransactionsEscrow env height (reordered s queue same)))) ↔
      Unobstructed s height) ∧
      ∀ block reward start t begun processed rewarded, block.height = height →
        AppliedVia env block reward start t begun processed rewarded s →
        Unobstructed s height → OnTime s height t := by
  have settles : Unobstructed s height → ∀ queue, ∀ same : queue.Perm
      s.poolTxEscrow.priorityQueue, OnTime s height
        (finalState (processTransactionsEscrow env height (reordered s queue same))) :=
    fun clear queue same => settles_on_time same payable clear
  refine ⟨⟨fun always e member covered => ?_, settles⟩, ?_⟩
  · have never : ¬ LateInSomeOrder env s height :=
      fun ⟨queue, same, late⟩ => late (always queue same)
    have fits : s.poolTxEscrow.priorityQueue.length ≤ Common.maxTransactionInPool :=
      not_lt.mp fun full => never (late_of_overfull member covered full)
    have clear : ∀ f ∈ served s height, ¬ Obstructs s height f := by
      rintro f reached (stuck | ⟨pays, short⟩)
      · exact never (late_of_stuck member covered reached stuck)
      · exact never (late_of_short payable member covered fits reached pays short)
    have perm := passed_perm (.refl s.poolTxEscrow.priorityQueue) height fits
    have reached : e ∈ served s height := by
      by_contra outside
      exact never ⟨_, .refl _, late_of_not_passed (.refl _) member covered fun looked =>
        absurd (perm.mem_iff.mp looked) outside⟩
    refine ⟨fits, reached, ?_, clear⟩
    rcases Ledger.not_escrowStuck_cases fun stuck => clear e reached (.inl stuck) with
      delegated | ⟨routed, -⟩
    · exact absurd ⟨_, .refl _, late_of_not_passed (.refl _) member covered fun _ => delegated⟩ never
    · exact routed
  · rintro block reward start t begun processed rewarded rfl applied clear
    rw [applied.final]
    exact settles clear _ (.refl _)

def maturedTransfer : Transaction := { heldTransfer with height := 6 }

def unpaidTransfer : Transaction := { plain 0x66 0x77 5000 2 5 with height := 6 }

def dueNode (held : List Transaction) : Node Unit :=
  held.foldl (fun s tx => (s.addEscrowTransaction tx).1)
    (.small [{ address := 0x55, balance := 200000000000, transactionDelay := 100 },
      { address := 0x66, balance := 1000, transactionDelay := 100 }] [])

/-- At height 106 both transfers are due. The block is accepted, and the transfer of `0x55`,
which `0x55` can pay, is still pending: the one of `0x66` ended the pass. -/
theorem unpaid_transfer_delays_others :
    CoveredDue (dueNode [unpaidTransfer, maturedTransfer]) 106 maturedTransfer ∧
      ¬ OnTime (dueNode [unpaidTransfer, maturedTransfer]) 106
        (finalState (processTransactionsEscrow Env.permissive 106
          (dueNode [unpaidTransfer, maturedTransfer]))) ∧
      ∃ block t, checkBlockAndTransferFunds Env.permissive
          ((dueNode [unpaidTransfer, maturedTransfer]).nextBlock 106 [])
          ((dueNode [unpaidTransfer, maturedTransfer]).parentBlock 105)
          (dueNode [unpaidTransfer, maturedTransfer]) = .ok block t ∧
        t.pooled .escrow maturedTransfer.hash = some maturedTransfer ∧
        maturedTransfer.amount ≤ (t.ledger.accountOrNew maturedTransfer.sender).balance := by
  have covered : CoveredDue (dueNode [unpaidTransfer, maturedTransfer]) 106 maturedTransfer := by
    decide +kernel
  have left : (finalState (processTransactionsEscrow Env.permissive 106
      (dueNode [unpaidTransfer, maturedTransfer]))).pooled .escrow maturedTransfer.hash =
        some maturedTransfer := by decide +kernel
  exact ⟨covered, fun onTime => onTime _ (mem_escrowed.mpr left) covered, by decide +kernel⟩

def secondTransfer : Transaction := { plain 0x55 0x77 5000 2 5 with height := 6 }

/-- Without it, the two transfers of `0x55` are settled in every order. -/
theorem matured_transfer_settles :
    CoveredDue (dueNode [maturedTransfer, secondTransfer]) 106 maturedTransfer ∧
      CoveredDue (dueNode [maturedTransfer, secondTransfer]) 106 secondTransfer ∧
      ∀ queue, ∀ same : queue.Perm
          (dueNode [maturedTransfer, secondTransfer]).poolTxEscrow.priorityQueue,
        OnTime (dueNode [maturedTransfer, secondTransfer]) 106 (finalState
          (processTransactionsEscrow Env.permissive 106
            (reordered (dueNode [maturedTransfer, secondTransfer]) queue same))) := by
  have payable : Payable (dueNode [maturedTransfer, secondTransfer]) :=
    ⟨by decide +kernel, by decide +kernel,
      ⟨by decide +kernel, by decide +kernel, by decide +kernel⟩, by decide +kernel⟩
  exact ⟨by decide +kernel, by decide +kernel, (matured_escrows_settle_iff Env.permissive 106
    (dueNode [maturedTransfer, secondTransfer]) payable).1.mpr (by decide +kernel)⟩

end QwidNode.Guarantees
