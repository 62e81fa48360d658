import QwidNode.Lib.UndoLog
import QwidNode.Source.PoolSteps

/-!
# The journal of the pending pools

Source: `transactionsPool/pendingJournal.go`. `addPending` and `removePending` are the four
functions of the source with the pool as an argument.
-/
namespace QwidNode.Source
open Lib Lib.UndoLog TransactionPool Function Prod
variable {σ : Type} {env : Env σ} {s t u : Node σ}

namespace Node

def addPending (s : Node σ) : PoolType → Transaction → Node σ
  | .escrow, tx => (s.addEscrowTransaction tx).1
  | .multiSign, tx => (s.addMultiSignTransaction tx).1
  | .standard, _ => s

def removePending (s : Node σ) : PoolType → Hash → Node σ
  | .escrow, hash => s.removeEscrowTransaction hash
  | .multiSign, hash => s.removeMultiSignTransaction hash
  | .standard, _ => s

def bannedFrom (s : Node σ) : PoolType → Hash → Bool
  | .escrow, hash => s.poolTxEscrow.banned hash
  | .multiSign, hash => s.poolTxMultiSign.banned hash
  | .standard, _ => true

def capacity (s : Node σ) : PoolType → Nat
  | .escrow => s.poolTxEscrow.maxTransactions
  | .multiSign => s.poolTxMultiSign.maxTransactions
  | .standard => 0

noncomputable def entries (m : Hash → Option Transaction) : Nat := {h | (m h).isSome}.ncard

/-- A pending pool refuses a hash: it is banned, or new and the pool is full. -/
def refuses (s : Node σ) (pool : PoolType) (hash : Hash) : Prop :=
  s.bannedFrom pool hash = true ∨
    (s.pooled pool hash = none ∧ s.capacity pool ≤ entries (s.pooled pool))

theorem entries_lookup (m : FinMap Hash Transaction) :
    entries (fun h => m.lookup h) = m.keys.length := by
  have same : {h | (m.lookup h).isSome} = (m.keys.toFinset : Set Hash) := by
    ext h
    simp only [Set.mem_ofPred_eq, List.coe_toFinset, AList.lookup_isSome, AList.mem_keys]
  rw [entries, same, Set.ncard_coe_finset, List.toFinset_card_of_nodup m.keys_nodup]

section
variable (s : Node σ) {pool : PoolType} (pending : pool ≠ .standard)
include pending

theorem addPending_eq (tx : Transaction) : s.addPending pool tx = (s.addTo pool tx).1 := by
  cases pool with
  | standard => exact absurd rfl pending
  | escrow => rfl
  | multiSign => rfl

theorem removePending_eq (hash : Hash) : s.removePending pool hash = s.removeFrom pool hash := by
  cases pool with
  | standard => exact absurd rfl pending
  | escrow => rfl
  | multiSign => rfl

theorem bannedFrom_eq (hash : Hash) : s.bannedFrom pool hash = (s.pool pool).banned hash := by
  cases pool with
  | standard => exact absurd rfl pending
  | escrow => rfl
  | multiSign => rfl

theorem capacity_eq : s.capacity pool = (s.pool pool).maxTransactions := by
  cases pool with
  | standard => exact absurd rfl pending
  | escrow => rfl
  | multiSign => rfl

theorem refuses_iff (hash : Hash) : s.refuses pool hash ↔ (s.pool pool).refuses hash := by
  unfold refuses TransactionPool.refuses
  rw [pooled_eq s pending, entries_lookup, bannedFrom_eq s pending, capacity_eq s pending]

end

theorem refuses_standard (hash : Hash) : s.refuses .standard hash := .inl rfl

def journalPart (s : Node σ) : FinMap (Int64 × Nat) JournalEntry × Int64 × Nat × Bool :=
  (s.db.pendingJournal, s.journalHeight, s.journalSeq, s.journalPaused)

section Effects
variable {pool : PoolType} {tx : Transaction} {hash : Hash}

theorem pooled_addPending_refused (refused : s.refuses pool tx.hash) :
    (s.addPending pool tx).pooled = s.pooled ∧ (s.addPending pool tx).mirrored = s.mirrored := by
  by_cases standard : pool = .standard
  · subst standard
    exact ⟨rfl, rfl⟩
  rw [refuses_iff s standard] at refused
  rw [addPending_eq s standard]
  constructor
  · funext p key
    exact (pooled_addTo standard s tx p key).trans (if_neg fun all => all.2.2.2 refused)
  · funext p key
    exact (mirrored_addTo standard s tx p key).trans (if_neg fun all => all.2.2 refused)

theorem pooled_addPending_of_some (pool : PoolType) (tx : Transaction) {p : PoolType} {key : Hash}
    {body : Transaction} (found : s.pooled p key = some body) :
    (s.addPending pool tx).pooled p key = some body := by
  by_cases standard : pool = .standard
  · subst standard
    exact found
  rw [addPending_eq s standard]
  apply ((pooled_addTo standard s tx p key).trans (if_neg ?_)).trans found
  rintro ⟨rfl, rfl, absent, -⟩
  rw [absent] at found
  cases found

theorem pooled_addPending_fresh (fresh : s.pooled pool tx.hash = none)
    (welcome : ¬ s.refuses pool tx.hash) (p : PoolType) (key : Hash) :
    (s.addPending pool tx).pooled p key =
        (if p = pool ∧ key = tx.hash then some tx else s.pooled p key) ∧
      (s.addPending pool tx).mirrored p key =
        (if p = pool ∧ key = tx.hash then some tx else s.mirrored p key) := by
  have pending : pool ≠ .standard := by
    rintro rfl
    exact welcome (refuses_standard _)
  rw [refuses_iff s pending] at welcome
  have pooled := pooled_addTo pending s tx p key
  have mirrored := mirrored_addTo pending s tx p key
  simp only [fresh, welcome, not_false_eq_true, and_true] at pooled mirrored
  rw [addPending_eq s pending]
  exact ⟨pooled, mirrored⟩

theorem pooled_removePending (pending : pool ≠ .standard) (p : PoolType) (key : Hash) :
    (s.removePending pool hash).pooled p key =
        (if p = pool ∧ key = hash then none else s.pooled p key) ∧
      (s.removePending pool hash).mirrored p key =
        (if p = pool ∧ key = hash then none else s.mirrored p key) := by
  rw [removePending_eq s pending]
  exact ⟨pooled_removeFrom pending s p key hash, mirrored_removeFrom pending s p key hash⟩

theorem journalPart_setPool (tp : TransactionPool pool) (m : FinMap Hash Transaction) :
    (s.setPool pool tp m).journalPart = s.journalPart := by
  cases pool <;> rfl

theorem journalPart_journalPendingChange (same : t.journalPart = s.journalPart) (added : Bool) :
    (t.journalPendingChange pool added tx).journalPart =
      (s.journalPendingChange pool added tx).journalPart := by
  simp only [journalPart, Prod.mk.injEq] at same
  obtain ⟨journal, height, seq, paused⟩ := same
  unfold journalPendingChange journalPart
  rw [height, paused]
  split
  · simp [journal, height, seq, paused]
  · simp [journal, seq]

theorem journalPart_addPending :
    (s.refuses pool tx.hash → (s.addPending pool tx).journalPart = s.journalPart) ∧
      (¬ s.refuses pool tx.hash →
        (s.addPending pool tx).journalPart = (s.journalPendingChange pool true tx).journalPart) := by
  by_cases standard : pool = .standard
  · subst standard
    exact ⟨fun _ => rfl, fun welcome => absurd (refuses_standard _) welcome⟩
  rw [refuses_iff s standard, ← not_not (a := (s.pool pool).refuses tx.hash),
    ← addTo_taken_iff standard, addTo_taken, addPending_eq s standard, addTo]
  dsimp only
  split
  · next taken =>
    refine ⟨fun refused => absurd taken refused, fun _ => ?_⟩
    rw [journalPart_setPool, journalPart_journalPendingChange (journalPart_setPool _ _)]
  · next refused =>
    exact ⟨fun _ => journalPart_setPool _ _, fun taken => absurd (not_not.mp taken) refused⟩

theorem journalHeight_addPending : (s.addPending pool tx).journalHeight = s.journalHeight := by
  have written : (s.journalPendingChange pool true tx).journalHeight = s.journalHeight := by
    unfold journalPendingChange
    split
    · rfl
    · rfl
  by_cases refused : s.refuses pool tx.hash
  · exact congrArg (fun part => part.2.1) (journalPart_addPending.1 refused)
  · exact (congrArg (fun part => part.2.1) (journalPart_addPending.2 refused)).trans written

theorem journalPart_removePending :
    (s.removePending pool hash).journalPart =
      match s.pooled pool hash with
      | some tx => (s.journalPendingChange pool false tx).journalPart
      | none => s.journalPart := by
  by_cases standard : pool = .standard
  · subst standard
    rfl
  rw [removePending_eq s standard, removeFrom, journalPart_setPool, pooled_eq s standard,
    getTransactionByHash]
  dsimp only
  cases (s.pool pool).transactions.lookup hash <;> rfl

def bans (s : Node σ) : FinMap Hash Nat × FinMap Hash Nat :=
  (s.poolTxEscrow.bannedTransactions, s.poolTxMultiSign.bannedTransactions)

theorem bannedFrom_of_bans (same : t.bans = s.bans) : t.bannedFrom = s.bannedFrom := by
  have escrow : t.poolTxEscrow.bannedTransactions = s.poolTxEscrow.bannedTransactions :=
    congrArg fst same
  have multiSign : t.poolTxMultiSign.bannedTransactions = s.poolTxMultiSign.bannedTransactions :=
    congrArg snd same
  funext pool hash
  cases pool with
  | standard => rfl
  | escrow => simp only [bannedFrom, TransactionPool.banned, escrow]
  | multiSign => simp only [bannedFrom, TransactionPool.banned, multiSign]

theorem capacity_of_max (escrow : t.poolTxEscrow.maxTransactions = s.poolTxEscrow.maxTransactions)
    (multiSign : t.poolTxMultiSign.maxTransactions = s.poolTxMultiSign.maxTransactions) :
    t.capacity = s.capacity := by
  funext pool
  cases pool with
  | standard => rfl
  | escrow => exact escrow
  | multiSign => exact multiSign

theorem capacity_of_pools
    (same : ∀ p, (t.pool p).maxTransactions = (s.pool p).maxTransactions) :
    t.capacity = s.capacity :=
  capacity_of_max (same .escrow) (same .multiSign)

theorem capacity_addPending : (s.addPending pool tx).capacity = s.capacity ∧
    (s.bannedFrom pool tx.hash = false → (s.addPending pool tx).bans = s.bans) := by
  by_cases standard : pool = .standard
  · subst standard
    exact ⟨rfl, fun _ => rfl⟩
  rw [bannedFrom_eq s standard, addPending_eq s standard]
  refine ⟨capacity_of_pools fun p => ?_, fun free => ?_⟩
  · by_cases same : p = pool
    · subst same
      rw [addTo_pool]
      exact (addTransaction_lookup standard (s.pool p) tx (fileKey p tx) tx.hash).2.2
    · rw [addTo_pool_ne s tx same]
  · have each : ∀ p, ((s.addTo pool tx).1.pool p).bannedTransactions =
        (s.pool p).bannedTransactions := by
      intro p
      by_cases same : p = pool
      · subst same
        rw [addTo_pool, addTransaction_bans standard free]
      · rw [addTo_pool_ne s tx same]
    exact Prod.ext (each .escrow) (each .multiSign)

theorem capacity_removePending : (s.removePending pool hash).capacity = s.capacity ∧
    (s.removePending pool hash).bans = s.bans := by
  by_cases standard : pool = .standard
  · subst standard
    exact ⟨rfl, rfl⟩
  have each : ∀ p, ((s.removeFrom pool hash).pool p).maxTransactions =
      (s.pool p).maxTransactions ∧ ((s.removeFrom pool hash).pool p).bannedTransactions =
        (s.pool p).bannedTransactions := by
    intro p
    by_cases same : p = pool
    · subst same
      rw [removeFrom_pool]
      exact (s.pool p).removeTransactionByHash_rest hash
    · rw [removeFrom_pool_ne s hash same]
      exact ⟨rfl, rfl⟩
  rw [removePending_eq s standard]
  exact ⟨capacity_of_pools fun p => (each p).1, Prod.ext (each .escrow).2 (each .multiSign).2⟩

end Effects

def pendingMap (s : Node σ) (k : PoolType × Hash) : Option Transaction := s.pooled k.1 k.2

def Within (cap : PoolType → Nat) (m : PoolType × Hash → Option Transaction) : Prop :=
  ∀ pool, entries (fun hash => m (pool, hash)) ≤ cap pool

theorem finite_pooled (s : Node σ) (pool : PoolType) :
    {h | (s.pooled pool h).isSome}.Finite := by
  have finite : ∀ m : FinMap Hash Transaction, {h | (m.lookup h).isSome}.Finite := by
    intro m
    apply (m.keys.toFinset.finite_toSet).subset
    intro h found
    exact List.mem_toFinset.mpr (AList.mem_keys.mp (AList.lookup_isSome.mp found))
  cases pool with
  | standard => simp [pooled]
  | escrow => exact finite _
  | multiSign => exact finite _

theorem entries_add {pool : PoolType} {hash : Hash} {tx : Transaction}
    (fresh : s.pooled pool hash = none) :
    entries (fun h => Function.update s.pendingMap (pool, hash) (some tx) (pool, h)) =
      entries (s.pooled pool) + 1 := by
  have grown : {h | (Function.update s.pendingMap (pool, hash) (some tx) (pool, h)).isSome} =
      insert hash {h | (s.pooled pool h).isSome} := by
    ext h
    by_cases same : h = hash
    · simp [same]
    · simp [update_of_ne, same, pendingMap]
  have outside : hash ∉ {h | (s.pooled pool h).isSome} := by simp [fresh]
  unfold entries
  rw [grown, Set.ncard_insert_of_notMem outside (s.finite_pooled pool)]

theorem within_add {cap : PoolType → Nat} {pool : PoolType} {hash : Hash} {tx : Transaction}
    (fresh : s.pooled pool hash = none) (room : entries (s.pooled pool) < cap pool)
    (within : Within cap s.pendingMap) :
    Within cap (Function.update s.pendingMap (pool, hash) (some tx)) := by
  intro p
  by_cases same : p = pool
  · subst same
    rw [entries_add fresh]
    exact room
  · have others : (fun h => Function.update s.pendingMap (pool, hash) (some tx) (p, h)) =
        fun h => s.pendingMap (p, h) := by
      funext h
      exact update_of_ne (fun equal => same (congrArg fst equal)) _ _
    rw [others]
    exact within p

theorem within_remove {cap : PoolType → Nat} {k : PoolType × Hash}
    (within : Within cap s.pendingMap) : Within cap (Function.update s.pendingMap k none) := by
  intro p
  apply le_trans _ (within p)
  apply Set.ncard_le_ncard _ (s.finite_pooled p)
  intro h found
  by_cases same : (p, h) = k
  · simp [same] at found
  · change (Function.update s.pendingMap k none (p, h)).isSome = true at found
    rwa [update_of_ne same] at found

end Node

def JournalEntry.change (e : JournalEntry) : Change (PoolType × Hash) Transaction :=
  ⟨(e.pool, e.transaction.hash), e.added, e.transaction⟩

namespace Node

theorem undoPendingChange_eq (s : Node σ) (e : JournalEntry) :
    s.undoPendingChange e = if e.added then s.removePending e.pool e.transaction.hash
      else s.addPending e.pool e.transaction := by
  rcases e with ⟨pool, added, tx⟩
  cases pool <;> cases added <;> rfl

theorem pendingMap_ext {m : PoolType × Hash → Option Transaction}
    (same : ∀ p key, s.pooled p key = m (p, key)) : s.pendingMap = m := funext fun k => same k.1 k.2

theorem undoPendingChange_exact {cap : PoolType → Nat} {start : PoolType × Hash → Option Transaction}
    {log : List (Change (PoolType × Hash) Transaction)} {e : JournalEntry}
    (paused : s.journalPaused = true) (agree : s.mirrored = s.pooled) (size : s.capacity = cap)
    (pending : e.pool ≠ .standard)
    (free : e.added = false → s.bannedFrom e.pool e.transaction.hash = false)
    (recorded : Recorded (Within cap) start (e.change :: log) s.pendingMap) :
    (s.undoPendingChange e).pendingMap = e.change.undo s.pendingMap ∧
      (s.undoPendingChange e).mirrored = (s.undoPendingChange e).pooled ∧
      (s.undoPendingChange e).journalPart = s.journalPart ∧
      (s.undoPendingChange e).capacity = s.capacity ∧ (s.undoPendingChange e).bans = s.bans := by
  rw [undoPendingChange_eq]
  cases kind : e.added with
  | true =>
    have removed := @pooled_removePending σ s e.pool e.transaction.hash pending
    rw [if_pos rfl]
    refine ⟨?_, ?_, ?_, capacity_removePending.1, capacity_removePending.2⟩
    · apply pendingMap_ext
      intro p key
      rw [(removed p key).1]
      simp [Change.undo, JournalEntry.change, kind, update_apply, pendingMap, Prod.ext_iff]
    · funext p key
      rw [(removed p key).1, (removed p key).2, agree]
    · rw [journalPart_removePending]
      split
      · rw [s.journalPendingChange_paused paused]
      · rfl
  | false =>
    have fresh : s.pooled e.pool e.transaction.hash = none := recorded.free_of_removed kind
    have within := recorded.undo.holds
    have undone : e.change.undo s.pendingMap =
        Function.update s.pendingMap (e.pool, e.transaction.hash) (some e.transaction) := by
      simp [Change.undo, JournalEntry.change, kind]
    rw [undone] at within
    have welcome : ¬ s.refuses e.pool e.transaction.hash := by
      rintro (banned | ⟨-, full⟩)
      · rw [free kind] at banned
        cases banned
      · have room := within e.pool
        rw [entries_add fresh] at room
        rw [size] at full
        omega
    have added := pooled_addPending_fresh fresh welcome
    rw [if_neg (by simp)]
    refine ⟨?_, ?_, ?_, capacity_addPending.1, capacity_addPending.2 (free kind)⟩
    · rw [undone]
      apply pendingMap_ext
      intro p key
      rw [(added p key).1]
      simp [update_apply, pendingMap, Prod.ext_iff]
    · funext p key
      rw [(added p key).1, (added p key).2, agree]
    · rw [journalPart_addPending.2 welcome, s.journalPendingChange_paused paused]

structure Rewound (start : PoolType × Hash → Option Transaction)
    (older : List (Change (PoolType × Hash) Transaction)) (keys : List (Int64 × Nat))
    (s t : Node σ) : Prop where
  recorded : Recorded (Within s.capacity) start older t.pendingMap
  agree : t.mirrored = t.pooled
  capacity : t.capacity = s.capacity
  journal : ∀ k, t.db.pendingJournal.lookup k =
    if k ∈ keys then none else s.db.pendingJournal.lookup k

section Undo
variable {start : PoolType × Hash → Option Transaction}
  {older : List (Change (PoolType × Hash) Transaction)}

theorem undoKey_exact {k : Int64 × Nat} {e : JournalEntry} (paused : s.journalPaused = true)
    (agree : s.mirrored = s.pooled) (found : s.db.pendingJournal.lookup k = some e)
    (pending : e.pool ≠ .standard)
    (free : e.added = false → s.bannedFrom e.pool e.transaction.hash = false)
    (recorded : Recorded (Within s.capacity) start (e.change :: older) s.pendingMap) :
    Rewound start older [k] s (s.undoKey k) ∧ (s.undoKey k).journalPaused = true ∧
      (s.undoKey k).bans = s.bans := by
  obtain ⟨map, mirror, journal, size, bans⟩ :=
    undoPendingChange_exact paused agree rfl pending free recorded
  have undone : s.undoKey k = { s.undoPendingChange e with
      db := { (s.undoPendingChange e).db with
        pendingJournal := (s.undoPendingChange e).db.pendingJournal.erase k } } := by
    unfold undoKey
    rw [found]
  have entriesSame : (s.undoPendingChange e).db.pendingJournal = s.db.pendingJournal :=
    congrArg fst journal
  rw [undone]
  refine ⟨⟨?_, mirror, size, fun other => ?_⟩,
    (congrArg (fun part => part.2.2.2) journal).trans paused, bans⟩
  · have before := recorded.undo
    rwa [← map] at before
  · change ((s.undoPendingChange e).db.pendingJournal.erase k).lookup other = _
    rw [entriesSame]
    by_cases same : other = k
    · rw [same, AList.lookup_erase, if_pos (List.mem_singleton_self k)]
    · rw [AList.lookup_erase_ne same, if_neg (by simpa using same)]

theorem undoKeys_exact (newer : List ((Int64 × Nat) × JournalEntry))
    (paused : s.journalPaused = true) (agree : s.mirrored = s.pooled)
    (distinct : (newer.map fst).Nodup)
    (found : ∀ x ∈ newer, s.db.pendingJournal.lookup x.1 = some x.2)
    (pending : ∀ x ∈ newer, x.2.pool ≠ .standard)
    (free : ∀ x ∈ newer, x.2.added = false →
      s.bannedFrom x.2.pool x.2.transaction.hash = false)
    (recorded : Recorded (Within s.capacity) start ((newer.map fun x => x.2.change) ++ older)
      s.pendingMap) :
    Rewound start older (newer.map fst) s ((newer.map fst).foldl undoKey s) := by
  -- the undone entry leaves the others' keys, bans and capacities as they are
  induction newer generalizing s with
  | nil => exact ⟨recorded, agree, rfl, fun k => (if_neg List.not_mem_nil).symm⟩
  | cons x rest ih =>
    obtain ⟨first, still, bans⟩ := undoKey_exact paused agree (found x (by simp))
      (pending x (by simp)) (free x (by simp)) recorded
    rw [List.map_cons, List.nodup_cons] at distinct
    have lookups : ∀ y ∈ rest, (s.undoKey x.1).db.pendingJournal.lookup y.1 = some y.2 := by
      intro y member
      have other : y.1 ∉ [x.1] := by
        intro same
        exact distinct.1 (List.mem_singleton.mp same ▸ List.mem_map_of_mem member)
      rw [first.journal, if_neg other]
      exact found y (by simp [member])
    have others := ih still first.agree distinct.2 lookups (fun y member => pending y (by simp [member]))
      (fun y member removed => by
        rw [bannedFrom_of_bans bans]
        exact free y (by simp [member]) removed)
      (by rw [first.capacity]; exact first.recorded)
    refine ⟨?_, others.agree, others.capacity.trans first.capacity, fun k => ?_⟩
    · have rewound := others.recorded
      rwa [first.capacity] at rewound
    · change ((rest.map fst).foldl undoKey (s.undoKey x.1)).db.pendingJournal.lookup k = _
      rw [others.journal, first.journal]
      simp only [List.map_cons, List.mem_cons, List.not_mem_nil, or_false]
      by_cases same : k = x.1
      · simp only [same, true_or, if_true, ite_self]
      · simp only [same, false_or, if_false]

end Undo

theorem unsigned_inj {a b : Int64} : a.toUInt64.toNat = b.toUInt64.toNat ↔ a = b := by
  constructor
  · intro same
    cases a
    cases b
    exact congrArg Int64.ofUInt64 (UInt64.toNat_inj.mp same)
  · exact fun same => by rw [same]

theorem unsigned_eq {h : Int64} (nonneg : 0 ≤ h.toInt) : (h.toUInt64.toNat : Int) = h.toInt := by
  have bits : h.toInt = h.toBitVec.toInt := rfl
  have small := h.toBitVec.isLt
  rw [bits, BitVec.toInt_eq_toNat_cond] at nonneg ⊢
  split at nonneg
  · next below => rw [if_pos below]; rfl
  · omega

theorem journalAfter_iff {a b : Int64 × Nat} : journalAfter a b ↔
    b.1.toUInt64.toNat < a.1.toUInt64.toNat ∨
      (a.1.toUInt64.toNat = b.1.toUInt64.toNat ∧ b.2 ≤ a.2) := by
  unfold journalAfter
  rw [UInt64.lt_iff_toNat_lt, unsigned_inj]

instance : Std.Total journalAfter where
  total a b := by
    rw [journalAfter_iff, journalAfter_iff]
    omega

instance : IsTrans (Int64 × Nat) journalAfter where
  trans a b c := by
    rw [journalAfter_iff, journalAfter_iff, journalAfter_iff]
    omega

instance : Std.Antisymm journalAfter where
  antisymm a b ab ba := by
    rw [journalAfter_iff] at ab ba
    have height : a.1.toUInt64.toNat = b.1.toUInt64.toNat := by omega
    exact Prod.ext (unsigned_inj.mp height) (by omega)

theorem journalAfter_of_lt {a b : Int64 × Nat} (positive : 0 < b.1) (greater : b.1 < a.1) :
    journalAfter a b := by
  rw [Word.lt_iff, Word.toInt_zero] at positive
  rw [Word.lt_iff, ← unsigned_eq (by omega), ← unsigned_eq (h := a.1) (by omega)] at greater
  rw [journalAfter_iff]
  omega

end Node
end QwidNode.Source
