import QwidNode.Guarantees.Policy
import QwidNode.Source.Journal

/-!
# The journal as an undo of the pending pools

Source: `transactionsPool/pendingJournal.go`, called by `ProcessBlockTransfers` and by every rewind.
While blocks above a height are applied, or fail, the journal is a log of the changes made to the
two pending pools since that height.
-/
namespace QwidNode.Guarantees
open Source Lib Lib.UndoLog Relation Word Node PendingPart List AList
variable {σ : Type} {env : Env σ} {s t u : Node σ} {target : Int64}
  {start : PoolType × Hash → Option Transaction} {log : List ((Int64 × Nat) × JournalEntry)}

/-- The journal entries above `target`, newest first, record how the pools came from `start`
to what they hold. -/
structure Journaled (target : Int64) (start : PoolType × Hash → Option Transaction)
    (log : List ((Int64 × Nat) × JournalEntry)) (s : Node σ) : Prop where
  agree : s.mirrored = s.pooled
  awake : s.journalPaused = false
  recorded : UndoLog.Recorded (Within s.capacity) start (log.map fun x => x.2.change) s.pendingMap
  sorted : log.Pairwise fun x y => journalAfter x.1 y.1 ∧ x.1 ≠ y.1
  complete : ∀ k e, (k, e) ∈ log ↔ s.db.pendingJournal.lookup k = some e ∧ target < k.1
  positive : ∀ x ∈ log, 0 < x.1.1
  pending : ∀ x ∈ log, x.2.pool ≠ .standard

structure Positioned (target : Int64) (log : List ((Int64 × Nat) × JournalEntry))
    (s : Node σ) : Prop where
  above : 0 < s.journalHeight → target < s.journalHeight
  newest : 0 < s.journalHeight → ∀ x ∈ log, x.1.1 < s.journalHeight ∨
    (x.1.1 = s.journalHeight ∧ x.1.2 < s.journalSeq)

def Tracked (target : Int64) (start : PoolType × Hash → Option Transaction) (s : Node σ) : Prop :=
  ∃ log, Journaled target start log s ∧ Positioned target log s

theorem Journaled.of_same (inv : Journaled target start log s) (pooled : t.pooled = s.pooled)
    (mirrored : t.mirrored = s.mirrored) (journal : t.journalPart = s.journalPart)
    (capacity : t.capacity = s.capacity) : Journaled target start log t where
  agree := mirrored.trans (inv.agree.trans pooled.symm)
  awake := (congrArg (fun part => part.2.2.2) journal).trans inv.awake
  recorded := by
    have map : t.pendingMap = s.pendingMap := funext fun k => congrFun (congrFun pooled k.1) k.2
    rw [map, capacity]
    exact inv.recorded
  sorted := inv.sorted
  complete := by
    rw [show t.db.pendingJournal = s.db.pendingJournal from congrArg Prod.fst journal]
    exact inv.complete
  positive := inv.positive
  pending := inv.pending

theorem Tracked.of_same (inv : Tracked target start s) (pooled : t.pooled = s.pooled)
    (mirrored : t.mirrored = s.mirrored) (journal : t.journalPart = s.journalPart)
    (capacity : t.capacity = s.capacity) : Tracked target start t := by
  obtain ⟨log, journaled, positioned⟩ := inv
  have height : t.journalHeight = s.journalHeight := congrArg (fun part => part.2.1) journal
  have seq : t.journalSeq = s.journalSeq := congrArg (fun part => part.2.2.1) journal
  apply Exists.intro log
  apply And.intro (journaled.of_same pooled mirrored journal capacity)
  constructor
  · rw [height]
    exact positioned.above
  · rw [height, seq]
    exact positioned.newest

theorem Tracked.finish (inv : Tracked target start s) : Tracked target start s.endPendingPoolJournal := by
  obtain ⟨log, journaled, -⟩ := inv
  have same : Journaled target start log s.endPendingPoolJournal :=
    { agree := journaled.agree, awake := journaled.awake, recorded := journaled.recorded,
      sorted := journaled.sorted, complete := journaled.complete, positive := journaled.positive,
      pending := journaled.pending }
  have closed : ¬ (0 : Int64) < s.endPendingPoolJournal.journalHeight := by
    change ¬ (0 : Int64) < 0
    decide
  exact ⟨log, same, fun opened => absurd opened closed, fun opened => absurd opened closed⟩

section Record
variable {pool : PoolType} {added : Bool} {tx : Transaction}

theorem journalPart_record (opened : 0 < s.journalHeight) (awake : s.journalPaused = false) :
    (s.journalPendingChange pool added tx).journalPart =
      (s.db.pendingJournal.insert (s.journalHeight, s.journalSeq) ⟨pool, added, tx⟩,
        s.journalHeight, s.journalSeq + 1, false) := by
  have closed : ¬ (s.journalHeight ≤ 0 ∨ s.journalPaused = true) := by
    rw [awake, le_iff]
    rw [lt_iff] at opened
    simp only [Bool.false_eq_true, or_false]
    omega
  unfold journalPendingChange
  rw [if_neg closed, ← awake]
  rfl

theorem Positioned.fresh (positioned : Positioned target log s) (opened : 0 < s.journalHeight)
    {x : (Int64 × Nat) × JournalEntry} (member : x ∈ log) :
    (s.journalHeight, s.journalSeq) ≠ x.1 := by
  intro same
  have before := positioned.newest opened x member
  rw [← same, lt_iff] at before
  simp only at before
  omega

theorem Tracked.record (journaled : Journaled target start log s)
    (positioned : Positioned target log s) (opened : 0 < s.journalHeight)
    (pending : pool ≠ .standard) (agree : t.mirrored = t.pooled) (capacity : t.capacity = s.capacity)
    (journal : t.journalPart = (s.journalPendingChange pool added tx).journalPart)
    (recorded : UndoLog.Recorded (Within s.capacity) start
      (⟨(pool, tx.hash), added, tx⟩ :: log.map fun x => x.2.change) t.pendingMap) :
    Tracked target start t := by
  rw [journalPart_record opened journaled.awake] at journal
  have entries : t.db.pendingJournal =
      s.db.pendingJournal.insert (s.journalHeight, s.journalSeq) ⟨pool, added, tx⟩ :=
    congrArg Prod.fst journal
  have height : t.journalHeight = s.journalHeight := congrArg (fun part => part.2.1) journal
  have seq : t.journalSeq = s.journalSeq + 1 := congrArg (fun part => part.2.2.1) journal
  have later : ∀ x ∈ log, journalAfter (s.journalHeight, s.journalSeq) x.1 := by
    intro x member
    rcases positioned.newest opened x member with below | ⟨same, before⟩
    · exact journalAfter_of_lt (journaled.positive x member) below
    · exact .inr ⟨same.symm, le_of_lt before⟩
  refine ⟨((s.journalHeight, s.journalSeq), ⟨pool, added, tx⟩) :: log, ?_, ?_⟩
  · exact {
      agree := agree
      awake := congrArg (fun part => part.2.2.2) journal
      recorded := by rw [capacity]; exact recorded
      sorted := List.pairwise_cons.mpr
        ⟨fun x member => ⟨later x member, positioned.fresh opened member⟩, journaled.sorted⟩
      complete := by
        intro k e
        rw [List.mem_cons, entries]
        by_cases same : k = (s.journalHeight, s.journalSeq)
        · have outside : (k, e) ∉ log := fun member => positioned.fresh opened member same.symm
          rw [same, lookup_insert]
          rw [same] at outside
          simp only [Prod.mk.injEq, true_and, outside, or_false, Option.some.injEq,
            positioned.above opened, and_true]
          exact eq_comm
        · rw [lookup_insert_ne same, ← journaled.complete]
          simp [same]
      positive := List.forall_mem_cons.mpr ⟨opened, journaled.positive⟩
      pending := List.forall_mem_cons.mpr ⟨pending, journaled.pending⟩ }
  · constructor
    · rw [height]
      exact positioned.above
    · rw [height, seq]
      intro _ x member
      rcases List.mem_cons.mp member with rfl | member
      · exact .inr ⟨rfl, Nat.lt_succ_self _⟩
      · rcases positioned.newest opened x member with below | ⟨same, before⟩
        · exact .inl below
        · exact .inr ⟨same, Nat.lt_succ_of_lt before⟩

/-- The pool refuses the hash, or does not hold it yet and the journal is open. -/
def Addable (pool : PoolType) (hash : Hash) (s : Node σ) : Prop :=
  s.refuses pool hash ∨ (s.pooled pool hash = none ∧ 0 < s.journalHeight)

def Removable (pool : PoolType) (hash : Hash) (s : Node σ) : Prop :=
  s.pooled pool hash = none ∨ 0 < s.journalHeight

theorem Tracked.add (inv : Tracked target start s) (pool : PoolType) (tx : Transaction)
    (addable : Addable pool tx.hash s) :
    Tracked target start (s.addPending pool tx) := by
  by_cases refused : s.refuses pool tx.hash
  · have same := pooled_addPending_refused refused
    exact inv.of_same same.1 same.2 (journalPart_addPending.1 refused) capacity_addPending.1
  obtain ⟨fresh, opened⟩ := addable.resolve_left refused
  obtain ⟨log, journaled, positioned⟩ := inv
  have pending : pool ≠ .standard := by
    rintro rfl
    exact refused (refuses_standard _)
  have grown := pooled_addPending_fresh fresh refused
  have map : (s.addPending pool tx).pendingMap =
      Function.update s.pendingMap (pool, tx.hash) (some tx) := by
    apply pendingMap_ext
    intro p key
    rw [(grown p key).1]
    simp [Function.update_apply, pendingMap, Prod.ext_iff]
  have room : Node.entries (s.pooled pool) < s.capacity pool :=
    not_le.mp fun full => refused (.inr ⟨fresh, full⟩)
  apply Tracked.record journaled positioned opened pending _ capacity_addPending.1
    (journalPart_addPending.2 refused)
  · rw [map]
    exact .add (pool, tx.hash) tx journaled.recorded fresh
      (within_add fresh room journaled.recorded.holds)
  · funext p key
    rw [(grown p key).1, (grown p key).2, journaled.agree]

theorem Tracked.remove (inv : Tracked target start s) (pool : PoolType) (hash : Hash)
    (pending : pool ≠ .standard)
    (removable : Removable pool hash s) : Tracked target start (s.removePending pool hash) := by
  have shrunk := @pooled_removePending σ s pool hash pending
  have journal := @journalPart_removePending σ s pool hash
  cases found : s.pooled pool hash with
  | none =>
    rw [found] at journal
    have absent : ∀ p key, (if p = pool ∧ key = hash then none else s.pooled p key) =
        s.pooled p key := by
      intro p key
      split
      · next both => rw [both.1, both.2, found]
      · rfl
    apply inv.of_same _ _ journal capacity_removePending.1
    · funext p key
      rw [(shrunk p key).1, absent]
    · obtain ⟨log, journaled, -⟩ := inv
      funext p key
      rw [(shrunk p key).2, journaled.agree, absent]
  | some tx =>
    rw [found] at journal
    obtain ⟨log, journaled, positioned⟩ := inv
    have opened : 0 < s.journalHeight := removable.resolve_left (by simp [found])
    have named : tx.hash = hash := pooled_hash found
    have map : (s.removePending pool hash).pendingMap =
        Function.update s.pendingMap (pool, tx.hash) none := by
      apply pendingMap_ext
      intro p key
      rw [(shrunk p key).1, named]
      simp [Function.update_apply, pendingMap, Prod.ext_iff]
    apply Tracked.record journaled positioned opened pending _ capacity_removePending.1 journal
    · rw [map]
      exact .remove (pool, tx.hash) tx journaled.recorded (by rw [named]; exact found)
        (within_remove journaled.recorded.holds)
    · funext p key
      rw [(shrunk p key).1, (shrunk p key).2, journaled.agree]

end Record

theorem Journaled.selectedKeys (journaled : Journaled target start log s) {undo : Int64 → Bool}
    (above : ∀ h, undo h = true → target < h) :
    s.selectedKeys undo = (log.filter fun x => undo x.1.1).map Prod.fst := by
  have distinct : log.Pairwise fun x y => x.1 ≠ y.1 := journaled.sorted.imp And.right
  have unique : ((log.filter fun x => undo x.1.1).map Prod.fst).Nodup :=
    List.pairwise_map.mpr (distinct.filter _)
  apply List.Perm.eq_of_pairwise' (r := journalAfter)
  · exact pairwise_insertionSort journalAfter _
  · exact List.pairwise_map.mpr ((journaled.sorted.imp And.left).filter _)
  · apply (perm_insertionSort journalAfter _).trans
    rw [perm_ext_iff_of_nodup (s.db.pendingJournal.keys_nodup.filter _) unique]
    intro k
    simp only [List.mem_filter, List.mem_map, Prod.exists, exists_and_right, exists_eq_right]
    constructor
    · rintro ⟨member, chosen⟩
      obtain ⟨e, found⟩ := Option.isSome_iff_exists.mp
        (AList.lookup_isSome.mpr (AList.mem_keys.mpr member))
      exact ⟨⟨e, (journaled.complete k e).mpr ⟨found, above _ chosen⟩⟩, chosen⟩
    · rintro ⟨⟨e, member⟩, chosen⟩
      have found := ((journaled.complete k e).mp member).1
      exact ⟨AList.mem_keys.mp (AList.lookup_isSome.mp (by rw [found]; rfl)), chosen⟩

theorem Journaled.undo (journaled : Journaled target start log s) (undo : Int64 → Bool)
    (above : ∀ h, undo h = true → target < h)
    (newest : log.Pairwise fun x y => undo y.1.1 = true → undo x.1.1 = true)
    (free : ∀ x ∈ log, undo x.1.1 = true → x.2.added = false →
      s.bannedFrom x.2.pool x.2.transaction.hash = false) :
    Journaled target start (log.filter fun x => !undo x.1.1) (s.undoJournalKeys undo) := by
  have keys := journaled.selectedKeys above
  have split := newest_append (fun x : (Int64 × Nat) × JournalEntry => undo x.1.1) newest
  have distinct : log.Pairwise fun x y => x.1 ≠ y.1 := journaled.sorted.imp And.right
  unfold undoJournalKeys
  rw [keys]
  cases chosen : log.filter (fun x => undo x.1.1) with
  | nil =>
    have all : (log.filter fun x => !undo x.1.1) = log := by
      rw [chosen, nil_append] at split
      exact split.symm
    rw [all]
    exact journaled
  | cons x rest =>
    rw [if_neg (by simp), ← chosen]
    have recorded := journaled.recorded
    rw [split, map_append] at recorded
    have rewound := undoKeys_exact (s := { s with journalPaused := true })
      (log.filter fun x => undo x.1.1) rfl journaled.agree
      (List.pairwise_map.mpr (distinct.filter _))
      (fun y member => ((journaled.complete y.1 y.2).mp (List.mem_filter.mp member).1).1)
      (fun y member => journaled.pending y (List.mem_filter.mp member).1)
      (fun y member => free y (List.mem_filter.mp member).1 (List.mem_filter.mp member).2)
      recorded
    exact {
      agree := rewound.agree
      awake := rfl
      recorded := by
        have before := rewound.recorded
        rw [← rewound.capacity] at before
        exact before
      sorted := journaled.sorted.filter _
      complete := by
        intro k e
        change _ ↔ (List.foldl undoKey _ _).db.pendingJournal.lookup k = some e ∧ _
        rw [rewound.journal, List.mem_filter, journaled.complete]
        by_cases member : k ∈ (log.filter fun x => undo x.1.1).map Prod.fst
        · have taken : undo k.1 = true := by
            obtain ⟨y, inside, rfl⟩ := List.mem_map.mp member
            exact (List.mem_filter.mp inside).2
          simp [member, taken]
        · have kept : ∀ e', (k, e') ∈ log → undo k.1 = false := by
            intro e' inside
            by_contra taken
            exact member (List.mem_map.mpr
              ⟨(k, e'), List.mem_filter.mpr ⟨inside, by simpa using taken⟩, rfl⟩)
          rw [if_neg member]
          constructor
          · exact fun both => both.1
          · intro both
            exact ⟨both, by simp [kept e ((journaled.complete k e).mpr both)]⟩
      positive := fun y member => journaled.positive y (List.mem_filter.mp member).1
      pending := fun y member => journaled.pending y (List.mem_filter.mp member).1 }

/-- The condition on one pool step. A pool takes a hash only if it does not hold it yet, and
gives one up only while the journal is open. A discarded hash is not in the multi-signature
pool. A block is above the target and not below an entry of the journal, and what the journal
removed at its height may be taken back. -/
def Undoable (target : Int64) : PoolEvent → Node σ → Prop
  | .elsewhere, _ => True
  | .hold tx, s => Addable .escrow tx.hash s
  | .share tx, s => Addable .multiSign tx.hash s
  | .move tx, s => s.pooled .multiSign tx.hash = none ∧ 0 < s.journalHeight
  | .settleEscrow tx _, s => Removable .escrow tx.hash s
  | .settleMultiSign tx _, s => Removable .multiSign tx.hash s
  | .cancel hash _, s => Removable .escrow hash s
  | .expire hash _, s => Removable .multiSign hash s
  | .orphan hash, s => Removable .multiSign hash s
  | .discard hash, s => Removable .escrow hash s ∧ s.pooled .multiSign hash = none
  | .begin height, s => target < height ∧
      ∀ k e, s.db.pendingJournal.lookup k = some e → target < k.1 → k.1 ≤ height ∧
        (k.1 = height → e.added = false → s.bannedFrom e.pool e.transaction.hash = false)
  | .finish, _ => True

theorem Tracked.elsewhere (inv : Tracked target start s) (other : Elsewhere s t) :
    Tracked target start t := by
  have field : ∀ {α : Type} (f : PendingPart → α), f t.pendingPart = f s.pendingPart :=
    fun f => congrArg f other.part
  apply inv.of_same other.pooled
  · funext pool key
    cases pool with
    | standard => rfl
    | escrow => exact congrArg (AList.lookup key) (field escrowDb)
    | multiSign => exact congrArg (AList.lookup key) (field multiSignDb)
  · exact field fun part => (part.journal, part.journalHeight, part.journalSeq, part.journalPaused)
  · exact capacity_of_max (field escrowMax) (field multiSignMax)

theorem Tracked.discard {hash : Hash} (inv : Tracked target start s)
    (removable : Removable .escrow hash s) (absent : s.pooled .multiSign hash = none) :
    Tracked target start (s.removeFromPools hash) := by
  have cleaned : Tracked target start { s with poolsTx := s.poolsTx.removeTransactionByHash hash } :=
    inv.of_same rfl rfl rfl rfl
  have removed := cleaned.remove .escrow hash (by decide) removable
  have other := removeEscrowTransaction_multiSign
    { s with poolsTx := s.poolsTx.removeTransactionByHash hash } hash
  apply removed.of_same
  · funext pool key
    cases pool with
    | standard => rfl
    | escrow => rfl
    | multiSign =>
      change ((removeEscrowTransaction { s with
          poolsTx := s.poolsTx.removeTransactionByHash hash }
        hash).poolTxMultiSign.removeTransactionByHash hash).transactions.lookup key =
          (removeEscrowTransaction { s with
            poolsTx := s.poolsTx.removeTransactionByHash hash }
              hash).poolTxMultiSign.transactions.lookup key
      rw [TransactionPool.lookup_removeTransactionByHash, other]
      split
      · next same => rw [same]; exact absent.symm
      · rfl
  · rfl
  · rfl
  · exact capacity_of_max rfl (TransactionPool.removeTransactionByHash_rest _ hash).1

theorem Tracked.begin {height : Int64} (inv : Tracked target start s)
    (undoable : Undoable target (.begin height) s) :
    Tracked target start (s.beginPendingPoolJournal height) := by
  obtain ⟨log, journaled, -⟩ := inv
  obtain ⟨above, entries⟩ := undoable
  have facts : ∀ x ∈ log, x.1.1 ≤ height ∧ (x.1.1 = height → x.2.added = false →
      s.bannedFrom x.2.pool x.2.transaction.hash = false) := by
    intro x member
    have found := (journaled.complete x.1 x.2).mp member
    exact entries x.1 x.2 found.1 found.2
  have below : ∀ x ∈ log, x.1.1 ≠ height → x.1.1 < height := by
    intro x member other
    have le := le_iff.mp (facts x member).1
    rw [lt_iff]
    have different : x.1.1.toInt ≠ height.toInt := fun same => other (Int64.toInt_inj.mp same)
    omega
  -- an entry that comes after one at the height is at the height too
  have newest : log.Pairwise fun x y => (y.1.1 == height) = true → (x.1.1 == height) = true := by
    apply journaled.sorted.imp_of_mem
    intro x y inside member order same
    rw [beq_iff_eq] at same ⊢
    by_contra other
    have less : x.1.1 < y.1.1 := same ▸ below x inside other
    exact order.2 (antisymm order.1
      (journalAfter_of_lt (journaled.positive x inside) less))
  have undone := journaled.undo (· == height)
    (fun h same => by rw [beq_iff_eq.mp same]; exact above) newest
    (fun x member same => (facts x member).2 (beq_iff_eq.mp same))
  refine ⟨log.filter fun x => !(x.1.1 == height), ?_, ?_⟩
  · exact {
      agree := undone.agree
      awake := undone.awake
      recorded := undone.recorded
      sorted := undone.sorted
      complete := undone.complete
      positive := undone.positive
      pending := undone.pending }
  · constructor
    · exact fun _ => above
    · intro _ x member
      obtain ⟨inside, other⟩ := List.mem_filter.mp member
      exact .inl (below x inside (by simpa using other))

theorem Tracked.step {e : PoolEvent} (happened : PoolStep e s t) (undoable : Undoable target e s)
    (inv : Tracked target start s) : Tracked target start t := by
  cases happened with
  | elsewhere other => exact inv.elsewhere other
  | hold _ tx => exact inv.add .escrow _ undoable
  | share _ tx => exact inv.add .multiSign _ undoable
  | move _ tx taken =>
    obtain ⟨fresh, opened⟩ := undoable
    have shared := inv.add .multiSign tx (.inr ⟨fresh, opened⟩)
    apply shared.remove .escrow _ (by decide) (.inr _)
    rw [journalHeight_addPending]
    exact opened
  | settleEscrow _ tx height =>
    exact (inv.remove .escrow _ (by decide) undoable).of_same rfl rfl rfl rfl
  | settleMultiSign _ tx height =>
    have logged : Tracked target start { s with log := .settled .multiSign tx height :: s.log } :=
      inv.of_same rfl rfl rfl rfl
    exact logged.remove .multiSign _ (by decide) undoable
  | cancel _ hash height =>
    exact (inv.remove .escrow _ (by decide) undoable).of_same rfl rfl rfl rfl
  | expire _ hash height =>
    exact (inv.remove .multiSign _ (by decide) undoable).of_same rfl rfl rfl rfl
  | orphan _ hash => exact inv.remove .multiSign _ (by decide) undoable
  | discard _ hash => exact inv.discard undoable.1 undoable.2
  | begin _ height => exact inv.begin undoable
  | finish => exact inv.finish

/-- A run of blocks above `target`, accepted or failed, from pools that equal their mirrors
and with no entry above `target` in the journal. When every pool step of it is undoable and no
entry that was removed is banned at the end, the undo restores both pools and both mirrors and
leaves no entry above `target`. -/
theorem undo_restores_pending (env : Env σ) (target : Int64) (s t : Node σ)
    (agree : s.mirrored = s.pooled) (room : Within s.capacity s.pendingMap)
    (awake : s.journalPaused = false) (closed : s.journalHeight ≤ 0)
    (clear : ∀ k ∈ s.db.pendingJournal.keys, k.1 ≤ target)
    (run : BlockRun env (Undoable target) s t)
    (free : ∀ k e, t.db.pendingJournal.lookup k = some e → target < k.1 → e.added = false →
      t.bannedFrom e.pool e.transaction.hash = false) :
    (t.undoPendingPoolsAbove target).pooled = s.pooled ∧
      (t.undoPendingPoolsAbove target).mirrored = s.mirrored ∧
      ∀ k ∈ (t.undoPendingPoolsAbove target).db.pendingJournal.keys, k.1 ≤ target := by
  have present : ∀ (u : Node σ) (k : Int64 × Nat), k ∈ u.db.pendingJournal.keys →
      ∃ e, u.db.pendingJournal.lookup k = some e := fun u k member =>
    Option.isSome_iff_exists.mp (AList.lookup_isSome.mpr (AList.mem_keys.mpr member))
  have begun : Tracked target s.pendingMap s := by
    refine ⟨[], ?_, fun opened => ?_, fun _ x member => absurd member not_mem_nil⟩
    · exact {
        agree := agree
        awake := awake
        recorded := .nil room
        sorted := .nil
        complete := by
          intro k e
          constructor
          · exact fun member => absurd member not_mem_nil
          · rintro ⟨found, above⟩
            have low := clear k (AList.mem_keys.mp (AList.lookup_isSome.mp (by rw [found]; rfl)))
            rw [le_iff] at low
            rw [lt_iff] at above
            omega
        positive := fun x member => absurd member not_mem_nil
        pending := fun x member => absurd member not_mem_nil }
    · rw [lt_iff] at opened
      rw [le_iff] at closed
      omega
  obtain ⟨log, journaled, -⟩ := run.keeps Tracked.step (fun other inv => inv.elsewhere other) begun
  have above : ∀ x ∈ log, target < x.1.1 := fun x member =>
    ((journaled.complete x.1 x.2).mp member).2
  have undone := journaled.undo (fun h => decide (target < h))
    (fun h chosen => of_decide_eq_true chosen)
    (journaled.sorted.imp_of_mem fun inside _ _ _ => decide_eq_true (above _ inside))
    (fun x member chosen => free x.1 x.2 ((journaled.complete x.1 x.2).mp member).1
      (of_decide_eq_true chosen))
  have nothing : (log.filter fun x => !decide (target < x.1.1)) = [] := by
    apply List.filter_eq_nil_iff.mpr
    intro x member
    simp [above x member]
  rw [nothing] at undone
  have back : (t.undoPendingPoolsAbove target).pooled = s.pooled := by
    funext pool hash
    exact congrFun undone.recorded.nil_eq (pool, hash)
  refine ⟨back, undone.agree.trans (back.trans agree.symm), fun k member => ?_⟩
  obtain ⟨e, found⟩ := present _ k member
  by_contra high
  apply not_mem_nil ((undone.complete k e).mpr ⟨found, _⟩)
  rw [le_iff] at high
  rw [lt_iff]
  omega

def sharedTransfer : Transaction := .plain 0x55 0x77 5 1 5

def firstApproval : Transaction :=
  let tx := Transaction.plain 0x66 0x66 0 2 5
  .hashed { tx with txParam := { tx.txParam with multiSignTx := sharedTransfer.hash } }

def secondApproval : Transaction :=
  let tx := Transaction.plain 0x66 0x66 0 3 5
  .hashed { tx with txParam := { tx.txParam with multiSignTx := firstApproval.hash } }

def approvingNode : Node Unit :=
  let s := small [{ address := 0x66, balance := 200000000000 }] [secondApproval]
  let s := (s.addMultiSignTransaction sharedTransfer).1
  let s := (s.addMultiSignTransaction firstApproval).1
  { s with db := { s.db with
      confirmedTx := s.db.confirmedTx.insert firstApproval.hash firstApproval
      includedTx := s.db.includedTx.insert firstApproval.hash 5 } }

/-- The next block is accepted. Its approval makes the source take the first approval for a
main transaction and add it to the pool that holds it already; the undo of that entry takes it
out, in memory and in the mirror. -/
theorem named_approval_lost_by_undo :
    approvingNode.pooled .multiSign firstApproval.hash = some firstApproval ∧
      approvingNode.mirrored .multiSign firstApproval.hash = some firstApproval ∧
      approvingNode.db.pendingJournal.keys = [] ∧
      ∃ block t, checkBlockAndTransferFunds Env.permissive
          (approvingNode.nextBlock 6 [secondApproval.hash]) (approvingNode.parentBlock 5)
          approvingNode = .ok block t ∧
        (t.undoPendingPoolsAbove 5).pooled .multiSign firstApproval.hash = none ∧
        (t.undoPendingPoolsAbove 5).mirrored .multiSign firstApproval.hash = none := by
  decide +kernel

def heldNode : Node Unit :=
  finalState (checkBlockAndTransferFunds Env.permissive
    ((escrowNode [heldTransfer]).nextBlock 6 [heldTransfer.hash])
    ((escrowNode [heldTransfer]).parentBlock 5) (escrowNode [heldTransfer]))

theorem heldNode_run :
    BlockRun Env.permissive (Undoable 5) (escrowNode [heldTransfer]) heldNode := by
  apply BlockRun.block .start
  have opened : Undoable 5 (.hold { heldTransfer with height := 6 })
      ((escrowNode [heldTransfer]).beginPendingPoolJournal 6) := .inr (by decide +kernel)
  have begun : Undoable 5 (.begin 6) (escrowNode [heldTransfer]) := by
    refine ⟨by decide, fun k e found => ?_⟩
    cases found
  apply ReflTransGen.head ⟨_, .begin _ 6, begun⟩
  apply ReflTransGen.head ⟨_, .hold _ { heldTransfer with height := 6 }, opened⟩
  apply ReflTransGen.head ⟨_, .finish _, trivial⟩
  refine .single ⟨_, .elsewhere ⟨?_, nil_suffix, fun hash found => ?_⟩, trivial⟩
  · exact ext_entries (by decide +kernel) (by decide +kernel) (by decide +kernel)
      (by decide +kernel)
  · cases found

/-- Undoing the block of a held transfer takes the transfer out of the escrow pool again. -/
theorem held_transfer_undone :
    heldNode.pooled .escrow heldTransfer.hash = some { heldTransfer with height := 6 } ∧
      (heldNode.undoPendingPoolsAbove 5).pooled = (escrowNode [heldTransfer]).pooled ∧
      (heldNode.undoPendingPoolsAbove 5).mirrored = (escrowNode [heldTransfer]).mirrored := by
  have empty : ∀ pool hash, (escrowNode [heldTransfer]).pooled pool hash = none := by
    intro pool hash
    cases pool <;> rfl
  have journal : heldNode.db.pendingJournal = (∅ : FinMap (Int64 × Nat) JournalEntry).insert (6, 0)
      ⟨.escrow, true, { heldTransfer with height := 6 }⟩ := AList.ext (by decide +kernel)
  have restored := undo_restores_pending Env.permissive 5 (escrowNode [heldTransfer]) heldNode
    (by funext pool hash; cases pool <;> rfl)
    (by intro pool; simp [Node.entries, pendingMap, empty]) rfl (by decide)
    (by decide) heldNode_run ?_
  · exact ⟨by decide +kernel, restored.1, restored.2.1⟩
  · intro k e found above removed
    rw [journal] at found
    by_cases same : k = (6, 0)
    · rw [same, lookup_insert, Option.some.injEq] at found
      rw [← found] at removed
      cases removed
    · rw [lookup_insert_ne same] at found
      cases found

end QwidNode.Guarantees
