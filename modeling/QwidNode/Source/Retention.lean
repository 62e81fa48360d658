import QwidNode.Lib.FinMap
import QwidNode.Lib.Thinning
import QwidNode.Lib.Word
import QwidNode.Source.Bytes

/-!
# Snapshot retention

Source: `account/snapshotRetention.go`; the writers `account/accountsStates.go:179-195`,
`account/accountsStakingStates.go:91-125`, `account/accountsDexStates.go:90-114` and
`account/heightMeta.go:25-55`; `restorableHeight` of `services/helperReset.go`; and
`core/stateDB/persistence.go:331-467` for the snapshots of the EVM. The database is its map from
keys to values, every put and delete succeeds, and what is stored under a key is a parameter.

Snapshots are listed by the length of their keys. The keys of the staking shards and of their
manifest are longer, so no list ever contains a staking snapshot.
-/
namespace QwidNode.Source
open Lib Word List

namespace Common

def snapshotRetentionBlocks : Int64 := 4320
def snapshotCheckpointInterval : Int64 := 8640

end Common

abbrev KeyValues := FinMap Bytes Bytes

def accountsDBPrefix : Bytes := [65, 67]
def stakingAccountsDBPrefix : Bytes := [83, 65]
def dexAccountsDBPrefix : Bytes := [68, 65]
def stateCommitDBPrefix : Bytes := [83, 67]
def evmStateDBPrefix : Bytes := [69, 86]

def snapshotKey (p : Bytes) (height : Int64) : Bytes := p ++ getByteInt64 height

def storedHeightMetaKey (p : Bytes) : Bytes := p ++ [76, 65, 83, 84]

def KeyValues.lastStoredHeightMeta (db : KeyValues) (p : Bytes) : Option Int64 :=
  match db.lookup (storedHeightMetaKey p) with
  | some b => if b.length = 8 then some (getInt64FromByte b) else none
  | none => none

def KeyValues.raiseLastStoredHeightMeta (db : KeyValues) (p : Bytes) (height : Int64) : KeyValues :=
  match KeyValues.lastStoredHeightMeta db p with
  | some cur => if height ≤ cur then db else db.insert (storedHeightMetaKey p) (getByteInt64 height)
  | none => db.insert (storedHeightMetaKey p) (getByteInt64 height)

/-- What `StoreAccounts` and `StoreDexAccounts` have in common; a negative height is the current
one. -/
def storeWhole (p : Bytes) (db : KeyValues) (current height : Int64) (marshalled : Bytes) :
    KeyValues :=
  let height := if height < 0 then current else height
  KeyValues.raiseLastStoredHeightMeta (db.insert (snapshotKey p height) marshalled) p height

def storeAccounts : KeyValues → Int64 → Int64 → Bytes → KeyValues := storeWhole accountsDBPrefix

def storeDexAccounts : KeyValues → Int64 → Int64 → Bytes → KeyValues :=
  storeWhole dexAccountsDBPrefix

def stakingShardKey (height : Int64) (i : UInt8) : Bytes :=
  snapshotKey stakingAccountsDBPrefix height ++ [i]

def stakingCheckpointManifestKey (height : Int64) : Bytes :=
  snapshotKey stakingAccountsDBPrefix height ++ [79, 75]

/-- `StoreStakingAccounts`: the shards, then the manifest, then the meta key. -/
def storeStakingAccounts (db : KeyValues) (height : Int64) (shards : UInt8 → Bytes) : KeyValues :=
  let stored := (List.range 256).foldl
    (fun db i => db.insert (stakingShardKey height (UInt8.ofNat i)) (shards (UInt8.ofNat i))) db
  KeyValues.raiseLastStoredHeightMeta
    (stored.insert (stakingCheckpointManifestKey height) (getByteInt64 height))
    stakingAccountsDBPrefix height

def stateCommitKey (height : Int64) : Bytes := snapshotKey stateCommitDBPrefix height

/-- What is stored with a height: the marshalled components and the state root. -/
structure Snapshot where
  accounts : Bytes
  shards : UInt8 → Bytes
  dex : Bytes
  root : Bytes

/-- The stores after a block on the live path and at the end of a batch when syncing. -/
def storeState (db : KeyValues) (height : Int64) (snapshot : Snapshot) : KeyValues :=
  let db := storeAccounts db height height snapshot.accounts
  let db := storeStakingAccounts db height snapshot.shards
  let db := storeDexAccounts db height height snapshot.dex
  db.insert (stateCommitKey height) snapshot.root

def loadAllKeys (db : KeyValues) (p : Bytes) : List Bytes := db.keys.filter fun k => p.isPrefixOf k

def storedSnapshotHeights (db : KeyValues) (p : Bytes) : List Int64 :=
  ((loadAllKeys db p).filter fun k => k.length == p.length + 8).map fun k =>
    getInt64FromByte (k.drop p.length)

/-- `highestStored`, and the loop of `ClosestStoredSnapshotHeight`: `-1` when there is none. -/
def highestStored (heights : List Int64) (accept : Int64 → Bool) : Int64 :=
  heights.foldl (fun best h => if accept h && decide (best < h) then h else best) (-1)

/-- `ClosestStoredSnapshotHeight`, and `ClosestStoredHeight` of the EVM. -/
def closestStoredSnapshotHeight (db : KeyValues) (p : Bytes) (height : Int64) : Int64 :=
  highestStored (storedSnapshotHeights db p) fun h => decide (h ≤ height)

def accountsStoredAtHeight (db : KeyValues) (height : Int64) : Bool :=
  decide (0 ≤ height) && (db.lookup (snapshotKey accountsDBPrefix height)).isSome

def stakingAccountsStoredAtHeight (db : KeyValues) (height : Int64) : Bool :=
  decide (0 ≤ height) && (db.lookup (stakingCheckpointManifestKey height)).isSome

def restorableFrom (db : KeyValues) : Nat → Int64
  | 0 => if accountsStoredAtHeight db 0 && stakingAccountsStoredAtHeight db 0 then 0 else -1
  | n + 1 =>
    if accountsStoredAtHeight db (Int64.ofNat (n + 1)) &&
        stakingAccountsStoredAtHeight db (Int64.ofNat (n + 1)) then Int64.ofNat (n + 1)
    else restorableFrom db n

def restorableHeight (db : KeyValues) (height : Int64) : Int64 :=
  if height < 0 then -1 else restorableFrom db height.toNatClampNeg

/-- The heights retention keeps: genesis, the window below the tip and everything above it, and
the checkpoints. -/
def retained (tip h : Int64) : Bool :=
  decide (h ≤ 0) || decide (tip - Common.snapshotRetentionBlocks ≤ h) ||
    h % Common.snapshotCheckpointInterval == 0

def snapshotsToPrune (heights : List Int64) (tip : Int64) : List Int64 :=
  heights.filter fun h => !retained tip h

def deleteAll (db : KeyValues) (keys : List Bytes) : KeyValues :=
  keys.foldl (fun db k => db.erase k) db

/-- `pruneSnapshots`: the database and how many snapshots were removed. -/
def pruneSnapshots (db : KeyValues) (p : Bytes) (tip : Int64) : KeyValues × Nat :=
  let due := snapshotsToPrune (storedSnapshotHeights db p) tip
  (deleteAll db (due.map (snapshotKey p)), due.length)

def pruneStateSnapshots (db : KeyValues) (tip : Int64) : KeyValues :=
  [accountsDBPrefix, stakingAccountsDBPrefix, dexAccountsDBPrefix, stateCommitDBPrefix].foldl
    (fun db p => (pruneSnapshots db p tip).1) db

/-- The checkpoints of `evmSnapshotsToPrune` from `p` on; the number bounds the steps. -/
def checkpointsFrom (windowFloor : Int64) : Nat → Int64 → List Int64
  | 0, _ => []
  | n + 1, p =>
    if p < windowFloor then
      p :: checkpointsFrom windowFloor n (p + Common.snapshotCheckpointInterval)
    else []

def anchor (sorted : List Int64) (p : Int64) : Option Int64 :=
  (sorted.takeWhile fun h => decide (h ≤ p)).getLast?

def evmSnapshotsToPrune (heights : List Int64) (tip : Int64) : List Int64 :=
  let sorted := heights.insertionSort (· ≤ ·)
  let windowFloor := tip - Common.snapshotRetentionBlocks
  match sorted with
  | [] => []
  | first :: _ =>
    if windowFloor ≤ 0 then []
    else
      let points := checkpointsFrom windowFloor windowFloor.toNatClampNeg
        Common.snapshotCheckpointInterval ++ [windowFloor]
      let keep := first :: points.filterMap (anchor sorted)
      sorted.filter fun h => decide (h < windowFloor) && !keep.contains h

def storeEvm (db : KeyValues) (height : Int64) (marshalled : Bytes) : KeyValues :=
  db.insert (snapshotKey evmStateDBPrefix height) marshalled

def loadAtOrBelow (db : KeyValues) (height : Int64) : Int64 :=
  closestStoredSnapshotHeight db evmStateDBPrefix height

def removeStoredAbove (db : KeyValues) (height : Int64) : KeyValues :=
  deleteAll db (((storedSnapshotHeights db evmStateDBPrefix).filter fun h =>
    decide (height < h)).map (snapshotKey evmStateDBPrefix))

def pruneStored (db : KeyValues) (tip : Int64) : KeyValues × Nat :=
  let due := evmSnapshotsToPrune (storedSnapshotHeights db evmStateDBPrefix) tip
  (deleteAll db (due.map (snapshotKey evmStateDBPrefix)), due.length)

section Keys
variable {db : KeyValues} {p q key : Bytes} {h h' tip : Int64}

theorem snapshotKey_inj : snapshotKey p h = snapshotKey p h' ↔ h = h' :=
  ⟨fun same => getByteInt64_injective (append_cancel_left same), congrArg _⟩

@[simp] theorem snapshotKey_length (p : Bytes) (h : Int64) :
    (snapshotKey p h).length = p.length + 8 := by
  rw [snapshotKey, length_append, getByteInt64_length]

theorem mem_loadAllKeys : key ∈ loadAllKeys db p ↔ key ∈ db ∧ p <+: key := by
  rw [loadAllKeys, List.mem_filter, isPrefixOf_iff_prefix, AList.mem_keys]

theorem mem_storedSnapshotHeights :
    h ∈ storedSnapshotHeights db p ↔ snapshotKey p h ∈ db := by
  simp only [storedSnapshotHeights, List.mem_map, List.mem_filter, mem_loadAllKeys, beq_iff_eq]
  constructor
  · rintro ⟨key, ⟨⟨inside, rest, rfl⟩, width⟩, rfl⟩
    rw [length_append] at width
    have eight : rest.length = 8 := by omega
    rw [drop_left, snapshotKey, getByteInt64_getInt64FromByte eight]
    exact inside
  · intro inside
    refine ⟨snapshotKey p h, ⟨⟨inside, prefix_append _ _⟩, snapshotKey_length p h⟩, ?_⟩
    rw [snapshotKey, drop_left, getInt64FromByte_getByteInt64]

theorem mem_deleteAll {keys : List Bytes} : key ∈ deleteAll db keys ↔ key ∈ db ∧ key ∉ keys := by
  unfold deleteAll
  induction keys generalizing db with
  | nil => simp
  | cons first rest ih =>
    rw [List.foldl_cons, ih, AList.mem_erase, List.mem_cons, not_or]
    tauto

theorem mem_pruneSnapshots : key ∈ (pruneSnapshots db p tip).1 ↔
    key ∈ db ∧ ∀ h, key = snapshotKey p h → retained tip h = true := by
  simp only [pruneSnapshots, mem_deleteAll, List.mem_map, snapshotsToPrune, List.mem_filter,
    mem_storedSnapshotHeights, not_exists, not_and, Bool.not_eq_true', and_imp]
  refine and_congr_right fun inside => ⟨fun kept h same => ?_, fun kept h _ due same => ?_⟩
  · by_contra dropped
    exact kept h (same ▸ inside) (by simpa using dropped) same.symm
  · rw [kept h same.symm] at due
    cases due

theorem mem_pruneStateSnapshots : key ∈ pruneStateSnapshots db tip ↔ key ∈ db ∧
    ∀ p ∈ [accountsDBPrefix, stakingAccountsDBPrefix, dexAccountsDBPrefix, stateCommitDBPrefix],
      ∀ h, key = snapshotKey p h → retained tip h = true := by
  simp only [pruneStateSnapshots, List.foldl_cons, foldl_nil, mem_pruneSnapshots,
    List.forall_mem_cons, not_mem_nil, false_imp_iff, implies_true, and_true]
  tauto

theorem prunedPrefixes_length : ∀ p ∈ [accountsDBPrefix, stakingAccountsDBPrefix,
    dexAccountsDBPrefix, stateCommitDBPrefix], p.length = 2 := by
  decide

theorem snapshotKey_mem_prune (listed : p ∈ [accountsDBPrefix, stakingAccountsDBPrefix,
    dexAccountsDBPrefix, stateCommitDBPrefix]) :
    snapshotKey p h ∈ pruneStateSnapshots db tip ↔
      snapshotKey p h ∈ db ∧ retained tip h = true := by
  rw [mem_pruneStateSnapshots]
  refine and_congr_right fun _ => ⟨fun kept => kept p listed h rfl, fun kept q listed' k same => ?_⟩
  have width := (prunedPrefixes_length p listed).trans (prunedPrefixes_length q listed').symm
  rwa [← getByteInt64_injective (append_inj_right same width)]

theorem ne_of_leading {a b : Bytes} (width : p.length = q.length) (different : p ≠ q) :
    p ++ a ≠ q ++ b := fun same => different (append_inj_left same width)

theorem snapshotKey_ne_meta (p : Bytes) (h : Int64) : snapshotKey p h ≠ storedHeightMetaKey p := by
  intro same
  have width := congrArg length same
  simp [storedHeightMetaKey] at width

theorem mem_raiseLastStoredHeightMeta : key ∈ KeyValues.raiseLastStoredHeightMeta db p h ↔
    key = storedHeightMetaKey p ∨ key ∈ db := by
  unfold KeyValues.raiseLastStoredHeightMeta KeyValues.lastStoredHeightMeta
  cases found : db.lookup (storedHeightMetaKey p) with
  | none => simp [AList.mem_insert]
  | some b =>
    have present : storedHeightMetaKey p ∈ db := AList.lookup_isSome.mp (by simp [found])
    by_cases eight : b.length = 8
    · simp only [eight, if_true]
      split
      · refine ⟨.inr, ?_⟩
        rintro (rfl | old)
        · exact present
        · exact old
      · rw [AList.mem_insert]
    · simp only [eight, if_false]
      rw [AList.mem_insert]

theorem mem_storeWhole {current : Int64} {marshalled : Bytes} (nonneg : 0 ≤ h) :
    key ∈ storeWhole p db current h marshalled ↔
      key = storedHeightMetaKey p ∨ key = snapshotKey p h ∨ key ∈ db := by
  have notBelow : ¬ h < 0 := Int64.not_lt.mpr nonneg
  simp [storeWhole, if_neg notBelow, mem_raiseLastStoredHeightMeta]

theorem mem_storeStakingAccounts {shards : UInt8 → Bytes} :
    key ∈ storeStakingAccounts db h shards ↔
      key = storedHeightMetaKey stakingAccountsDBPrefix ∨ key = stakingCheckpointManifestKey h ∨
        (∃ i, key = stakingShardKey h i) ∨ key ∈ db := by
  have written : ∀ (is : List Nat) (db : KeyValues), key ∈ is.foldl (fun db i =>
      db.insert (stakingShardKey h (UInt8.ofNat i)) (shards (UInt8.ofNat i))) db ↔
      (∃ i ∈ is, key = stakingShardKey h (UInt8.ofNat i)) ∨ key ∈ db := by
    intro is
    induction is with
    | nil => simp
    | cons i rest ih =>
      intro db
      rw [List.foldl_cons, ih, AList.mem_insert, exists_mem_cons_iff, or_left_comm, or_assoc]
  have every : (∃ i ∈ List.range 256, key = stakingShardKey h (UInt8.ofNat i)) ↔
      ∃ i, key = stakingShardKey h i := by
    constructor
    · rintro ⟨i, -, same⟩
      exact ⟨_, same⟩
    · rintro ⟨i, same⟩
      exact ⟨i.toNat, List.mem_range.mpr i.toNat_lt, by rw [UInt8.ofNat_toNat]; exact same⟩
  rw [storeStakingAccounts, mem_raiseLastStoredHeightMeta, AList.mem_insert, written, every]

theorem accountsStoredAtHeight_iff :
    accountsStoredAtHeight db h = true ↔ 0 ≤ h.toInt ∧ snapshotKey accountsDBPrefix h ∈ db := by
  rw [accountsStoredAtHeight, Bool.and_eq_true, decide_eq_true_eq, le_iff, toInt_zero,
    AList.lookup_isSome]

theorem retained_iff (tipNonneg : 0 ≤ tip.toInt) (nonneg : 0 ≤ h.toInt) :
    retained tip h = true ↔ tip.toInt - 4320 ≤ h.toInt ∨ 8640 ∣ h.toInt := by
  have window : Common.snapshotRetentionBlocks.toInt = 4320 := by decide
  have interval : Common.snapshotCheckpointInterval.toInt = 8640 := by decide
  have range := toInt_range tip
  have multiple : h % Common.snapshotCheckpointInterval = 0 ↔ 8640 ∣ h.toInt := by
    rw [← Int64.toInt_inj, Int64.toInt_mod, interval, Int.tmod_eq_emod_of_nonneg nonneg,
      toInt_zero, Int.dvd_iff_emod_eq_zero]
  rw [retained, Bool.or_eq_true, Bool.or_eq_true, decide_eq_true_eq, decide_eq_true_eq, beq_iff_eq,
    multiple, le_iff, le_iff, toInt_zero,
    toInt_sub_of_fits (by omega) (by omega), window]
  omega

end Keys

/-- The components of the state that are stored with a height, the EVM apart. -/
inductive Component
  | accounts
  | staking
  | dex
  deriving DecidableEq, Repr

namespace Component
variable {c c' : Component} {db : KeyValues} {h h' tip : Int64} {key : Bytes}

def dbPrefix : Component → Bytes
  | accounts => accountsDBPrefix
  | staking => stakingAccountsDBPrefix
  | dex => dexAccountsDBPrefix

def keysAt : Component → Int64 → List Bytes
  | accounts, h => [snapshotKey accountsDBPrefix h]
  | staking, h => stakingCheckpointManifestKey h ::
      (List.range 256).map fun i => stakingShardKey h (UInt8.ofNat i)
  | dex, h => [snapshotKey dexAccountsDBPrefix h]

theorem leading (member : key ∈ c.keysAt h) : ∃ rest, key = snapshotKey c.dbPrefix h ++ rest := by
  cases c with
  | accounts => exact ⟨[], by simpa [keysAt, dbPrefix] using member⟩
  | dex => exact ⟨[], by simpa [keysAt, dbPrefix] using member⟩
  | staking =>
    rcases List.mem_cons.mp member with rfl | shard
    · exact ⟨_, rfl⟩
    · obtain ⟨i, -, rfl⟩ := List.mem_map.mp shard
      exact ⟨_, rfl⟩

theorem dbPrefix_length (c : Component) : c.dbPrefix.length = 2 := by
  cases c <;> rfl

theorem dbPrefix_injective (same : c.dbPrefix = c'.dbPrefix) : c = c' := by
  cases c <;> cases c' <;> first | rfl | exact absurd same (by decide)

theorem keysAt_inj (member : key ∈ c.keysAt h) (member' : key ∈ c'.keysAt h') :
    c = c' ∧ h = h' := by
  obtain ⟨rest, rfl⟩ := leading member
  obtain ⟨rest', same⟩ := leading member'
  have halves := append_inj_left same (by simp [dbPrefix_length])
  have width : c.dbPrefix.length = c'.dbPrefix.length := by
    rw [dbPrefix_length, dbPrefix_length]
  exact ⟨dbPrefix_injective (append_inj_left halves width),
    getByteInt64_injective (append_inj_right halves width)⟩

theorem eq_of_leading (starts : c.dbPrefix <+: key) (member : key ∈ c'.keysAt h) : c = c' := by
  obtain ⟨rest, rfl⟩ := starts
  obtain ⟨rest', same⟩ := leading member
  rw [snapshotKey, append_assoc] at same
  exact dbPrefix_injective
    (append_inj_left same (by rw [dbPrefix_length, dbPrefix_length]))

theorem not_meta (member : key ∈ c.keysAt h) : key ≠ storedHeightMetaKey c'.dbPrefix := by
  obtain ⟨rest, rfl⟩ := leading member
  intro same
  have width := congrArg length same
  simp [storedHeightMetaKey, dbPrefix_length] at width
  omega

theorem not_commit (member : key ∈ c.keysAt h) : key ≠ stateCommitKey h' := by
  obtain ⟨rest, rfl⟩ := leading member
  rw [snapshotKey, append_assoc]
  exact ne_of_leading (c.dbPrefix_length.trans rfl) (by cases c <;> decide)

theorem mem_storeState {snapshot : Snapshot} (nonneg : 0 ≤ h) :
    key ∈ storeState db h snapshot ↔ key = stateCommitKey h ∨
      (∃ c : Component, key = storedHeightMetaKey c.dbPrefix ∨ key ∈ c.keysAt h) ∨ key ∈ db := by
  have shard : (∃ i, key = stakingShardKey h i) ↔
      key ∈ (List.range 256).map fun i => stakingShardKey h (UInt8.ofNat i) := by
    rw [List.mem_map]
    constructor
    · rintro ⟨i, rfl⟩
      exact ⟨i.toNat, List.mem_range.mpr i.toNat_lt, by rw [UInt8.ofNat_toNat]⟩
    · rintro ⟨i, -, rfl⟩
      exact ⟨_, rfl⟩
  simp only [storeState, AList.mem_insert, storeDexAccounts, mem_storeWhole nonneg,
    mem_storeStakingAccounts, shard, storeAccounts]
  constructor
  · rintro (commit | dexMeta | dexKey | stakingMeta | manifest | shards | accMeta | accKey | old)
    · exact .inl commit
    · exact .inr (.inl ⟨.dex, .inl dexMeta⟩)
    · exact .inr (.inl ⟨.dex, .inr (List.mem_singleton.mpr dexKey)⟩)
    · exact .inr (.inl ⟨.staking, .inl stakingMeta⟩)
    · exact .inr (.inl ⟨.staking, .inr (List.mem_cons.mpr (.inl manifest))⟩)
    · exact .inr (.inl ⟨.staking, .inr (List.mem_cons.mpr (.inr shards))⟩)
    · exact .inr (.inl ⟨.accounts, .inl accMeta⟩)
    · exact .inr (.inl ⟨.accounts, .inr (List.mem_singleton.mpr accKey)⟩)
    · exact .inr (.inr old)
  · rintro (commit | ⟨c, isMeta | isKey⟩ | old)
    · exact .inl commit
    · cases c <;> simp only [dbPrefix] at isMeta <;> tauto
    · cases c with
      | accounts => have := List.mem_singleton.mp isKey; tauto
      | dex => have := List.mem_singleton.mp isKey; tauto
      | staking => have := List.mem_cons.mp isKey; tauto
    · tauto

theorem keysAt_mem_storeState {snapshot : Snapshot} (nonneg : 0 ≤ h) (member : key ∈ c.keysAt h') :
    key ∈ storeState db h snapshot ↔ h' = h ∨ key ∈ db := by
  rw [mem_storeState nonneg]
  constructor
  · rintro (commit | ⟨c', isMeta | isKey⟩ | old)
    · exact absurd commit (not_commit member)
    · exact absurd isMeta (not_meta member)
    · exact .inl (keysAt_inj member isKey).2
    · exact .inr old
  · rintro (rfl | old)
    · exact .inr (.inl ⟨c, .inr member⟩)
    · exact .inr (.inr old)

theorem of_mem_storeState {snapshot : Snapshot} (nonneg : 0 ≤ h) (starts : c.dbPrefix <+: key)
    (member : key ∈ storeState db h snapshot) :
    key = storedHeightMetaKey c.dbPrefix ∨ key ∈ c.keysAt h ∨ key ∈ db := by
  rcases (mem_storeState nonneg).mp member with rfl | ⟨c', rfl | isKey⟩ | old
  · obtain ⟨rest, same⟩ := starts
    exact absurd same (ne_of_leading (c.dbPrefix_length.trans rfl) (by cases c <;> decide))
  · obtain ⟨rest, same⟩ := starts
    have leads := append_inj_left same (by rw [c.dbPrefix_length, c'.dbPrefix_length])
    exact .inl (by rw [dbPrefix_injective leads])
  · exact .inr (.inl (eq_of_leading starts isKey ▸ isKey))
  · exact .inr (.inr old)

theorem mem_prune (member : key ∈ c.keysAt h) : key ∈ pruneStateSnapshots db tip ↔
    key ∈ db ∧ (c = .staking ∨ retained tip h = true) := by
  cases c with
  | staking =>
    rw [mem_pruneStateSnapshots]
    refine and_congr_right fun _ => iff_of_true (fun p listed k same => ?_) (.inl rfl)
    have width := congrArg length same
    rw [snapshotKey_length, prunedPrefixes_length p listed] at width
    rcases List.mem_cons.mp member with rfl | shard
    · simp [stakingCheckpointManifestKey, stakingAccountsDBPrefix] at width
    · obtain ⟨i, -, rfl⟩ := List.mem_map.mp shard
      simp [stakingShardKey, stakingAccountsDBPrefix] at width
  | accounts =>
    obtain rfl := List.mem_singleton.mp member
    rw [snapshotKey_mem_prune (by decide)]
    simp
  | dex =>
    obtain rfl := List.mem_singleton.mp member
    rw [snapshotKey_mem_prune (by decide)]
    simp

end Component

section Closest
variable {xs ys : List Int64} {accept : Int64 → Bool}

theorem highestStored_spec (xs : List Int64) (accept : Int64 → Bool) :
    (∀ h ∈ xs, accept h = true → h.toInt ≤ (highestStored xs accept).toInt) ∧
      (highestStored xs accept = -1 ∨
        (highestStored xs accept ∈ xs ∧ accept (highestStored xs accept) = true ∧
          0 ≤ (highestStored xs accept).toInt)) := by
  have least : (-1 : Int64).toInt = -1 := by decide
  -- the loop started at any value that is itself `-1` or accepted
  have loop : ∀ (xs : List Int64) (best : Int64), -1 ≤ best.toInt →
      let last := xs.foldl (fun best h => if accept h && decide (best < h) then h else best) best
      best.toInt ≤ last.toInt ∧ (∀ h ∈ xs, accept h = true → h.toInt ≤ last.toInt) ∧
        (last = best ∨ (last ∈ xs ∧ accept last = true ∧ best.toInt < last.toInt)) := by
    intro xs
    induction xs with
    | nil => exact fun best _ => ⟨le_refl _, by simp, .inl rfl⟩
    | cons x rest ih =>
      intro best low
      simp only [List.foldl_cons, List.forall_mem_cons]
      by_cases better : (accept x && decide (best < x)) = true
      · have both := better
        rw [Bool.and_eq_true, decide_eq_true_eq, lt_iff] at both
        rw [if_pos better]
        obtain ⟨above, all, found⟩ := ih x (by omega)
        refine ⟨by omega, ⟨fun _ => above, all⟩, .inr ?_⟩
        rcases found with same | ⟨member, accepted, more⟩
        · rw [same]
          exact ⟨List.mem_cons_self, both.1, both.2⟩
        · exact ⟨List.mem_cons_of_mem _ member, accepted, by omega⟩
      · rw [if_neg better]
        obtain ⟨above, all, found⟩ := ih best low
        refine ⟨above, ⟨fun accepted => ?_, all⟩, ?_⟩
        · have notMore : ¬ best < x := fun more => better (by simp [accepted, more])
          rw [lt_iff] at notMore
          omega
        · exact found.imp_right fun ⟨member, rest⟩ => ⟨List.mem_cons_of_mem _ member, rest⟩
  obtain ⟨-, all, found⟩ := loop xs (-1) (by omega)
  refine ⟨all, found.imp_right fun ⟨member, accepted, more⟩ => ⟨member, accepted, ?_⟩⟩
  change (-1 : Int64).toInt < (highestStored xs accept).toInt at more
  omega

theorem highestStored_le
    (below : ∀ h ∈ xs, accept h = true → ∃ k ∈ ys, accept k = true ∧ h.toInt ≤ k.toInt) :
    (highestStored xs accept).toInt ≤ (highestStored ys accept).toInt := by
  have least : (-1 : Int64).toInt = -1 := by decide
  obtain ⟨bound, found⟩ := highestStored_spec ys accept
  rcases (highestStored_spec xs accept).2 with none | ⟨member, accepted, -⟩
  · rw [none, least]
    rcases found with none' | ⟨-, -, nonneg⟩
    · rw [none', least]
    · omega
  · obtain ⟨k, inside, accepted', le⟩ := below _ member accepted
    exact le.trans (bound k inside accepted')

theorem highestStored_congr
    (below : ∀ h ∈ xs, accept h = true → ∃ k ∈ ys, accept k = true ∧ h.toInt ≤ k.toInt)
    (above : ∀ h ∈ ys, accept h = true → ∃ k ∈ xs, accept k = true ∧ h.toInt ≤ k.toInt) :
    highestStored xs accept = highestStored ys accept :=
  Int64.toInt_inj.mp (le_antisymm (highestStored_le below) (highestStored_le above))

end Closest

section Evm
variable {db : KeyValues} {sorted : List Int64} {p h tip : Int64}

def evmMarks (db : KeyValues) : Set Int :=
  {n | ∃ h : Int64, h.toInt = n ∧ snapshotKey evmStateDBPrefix h ∈ db}

theorem anchor_spec (ordered : sorted.Pairwise (· ≤ ·)) (member : h ∈ sorted) (below : h ≤ p) :
    ∃ k ∈ sorted, anchor sorted p = some k ∧ k ≤ p ∧ h ≤ k := by
  induction sorted generalizing h with
  | nil => cases member
  | cons a rest ih =>
    rw [pairwise_cons] at ordered
    have first : a ≤ h := by
      rcases List.mem_cons.mp member with rfl | later
      · exact Int64.le_refl h
      · exact ordered.1 h later
    have reached : a ≤ p := Int64.le_trans first below
    have unfolded : anchor (a :: rest) p =
        (a :: rest.takeWhile fun h => decide (h ≤ p)).getLast? := by
      simp [anchor, reached]
    cases more : rest.takeWhile (fun h => decide (h ≤ p)) with
    | nil =>
      rw [more] at unfolded
      refine ⟨a, List.mem_cons_self, unfolded, reached, ?_⟩
      rcases List.mem_cons.mp member with rfl | later
      · exact Int64.le_refl h
      · -- another height at or below the point would have an anchor of its own
        obtain ⟨k, -, found, -⟩ := ih ordered.2 later below
        simp [anchor, more] at found
    | cons b others =>
      have same : anchor (a :: rest) p = anchor rest p := by
        rw [unfolded, anchor, more, getLast?_cons_cons]
      have inside : b ∈ rest.takeWhile fun h => decide (h ≤ p) := by
        rw [more]
        exact List.mem_cons_self
      have next : b ∈ rest ∧ b ≤ p :=
        ⟨( takeWhile_prefix _).subset inside, by simpa using mem_takeWhile_imp inside⟩
      rcases List.mem_cons.mp member with rfl | later
      · obtain ⟨k, inRest, found, low, high⟩ := ih ordered.2 next.1 next.2
        exact ⟨k, List.mem_cons_of_mem _ inRest, same.trans found, low,
          Int64.le_trans (ordered.1 b next.1) high⟩
      · obtain ⟨k, inRest, found, low, high⟩ := ih ordered.2 later below
        exact ⟨k, List.mem_cons_of_mem _ inRest, same.trans found, low, high⟩

theorem mem_checkpointsFrom {windowFloor : Int64} (fits : windowFloor.toInt + 8640 < 2 ^ 63)
    {m n : Nat} (steps : m < n) (nonneg : 0 ≤ p.toInt)
    (value : h.toInt = p.toInt + 8640 * m) (below : h.toInt < windowFloor.toInt) :
    h ∈ checkpointsFrom windowFloor n p := by
  have interval : Common.snapshotCheckpointInterval.toInt = 8640 := by decide
  induction m generalizing n p with
  | zero =>
    obtain ⟨n, rfl⟩ : ∃ k, n = k + 1 := ⟨n - 1, by omega⟩
    obtain rfl : h = p := Int64.toInt_inj.mp (by omega)
    rw [checkpointsFrom, if_pos (lt_iff.mpr below)]
    exact List.mem_cons_self
  | succ m ih =>
    obtain ⟨n, rfl⟩ : ∃ k, n = k + 1 := ⟨n - 1, by omega⟩
    have reached : p < windowFloor := lt_iff.mpr (by omega)
    have next : (p + Common.snapshotCheckpointInterval).toInt = p.toInt + 8640 := by
      rw [toInt_add_of_fits (by omega) (by omega), interval]
    rw [checkpointsFrom, if_pos reached]
    exact List.mem_cons_of_mem _ (ih (by omega) (by omega) (by rw [next]; push_cast at value; omega))

theorem mem_pruneStored : snapshotKey evmStateDBPrefix h ∈ (pruneStored db tip).1 ↔
    snapshotKey evmStateDBPrefix h ∈ db ∧
      h ∉ evmSnapshotsToPrune (storedSnapshotHeights db evmStateDBPrefix) tip := by
  simp [pruneStored, mem_deleteAll, snapshotKey_inj]

theorem mem_of_pruneStored {key : Bytes} (inside : key ∈ (pruneStored db tip).1) : key ∈ db :=
  (mem_deleteAll.mp inside).1

theorem evmMarks_congr {db' : KeyValues}
    (same : ∀ h, snapshotKey evmStateDBPrefix h ∈ db' ↔ snapshotKey evmStateDBPrefix h ∈ db) :
    evmMarks db' = evmMarks db := by
  ext n
  exact exists_congr fun h => and_congr_right fun _ => same h

theorem evmMarks_storeEvm (db : KeyValues) (h : Int64) (marshalled : Bytes) :
    evmMarks (storeEvm db h marshalled) = insert h.toInt (evmMarks db) := by
  ext n
  simp only [evmMarks, storeEvm, Set.mem_ofPred_eq, AList.mem_insert, snapshotKey_inj,
    Set.mem_insert_iff]
  constructor
  · rintro ⟨k, rfl, rfl | old⟩
    · exact .inl rfl
    · exact .inr ⟨k, rfl, old⟩
  · rintro (rfl | ⟨k, rfl, old⟩)
    · exact ⟨h, rfl, .inl rfl⟩
    · exact ⟨k, rfl, .inr old⟩

theorem evmMarks_removeStoredAbove (db : KeyValues) (h : Int64) :
    evmMarks (removeStoredAbove db h) = evmMarks db ∩ Set.Iic h.toInt := by
  ext n
  simp only [evmMarks, removeStoredAbove, Set.mem_ofPred_eq, mem_deleteAll, List.mem_map,
    List.mem_filter, mem_storedSnapshotHeights, snapshotKey_inj, exists_eq_right,
    decide_eq_true_eq, Set.mem_inter_iff, Set.mem_Iic]
  constructor
  · rintro ⟨k, rfl, stored, notAbove⟩
    refine ⟨⟨k, rfl, stored⟩, not_lt.mp fun above => notAbove ⟨stored, lt_iff.mpr above⟩⟩
  · rintro ⟨⟨k, rfl, stored⟩, atMost⟩
    exact ⟨k, rfl, stored, fun above => absurd (lt_iff.mp above.2) (not_lt.mpr atMost)⟩

theorem loadAtOrBelow_congr {all : KeyValues} (sub : evmMarks db ⊆ evmMarks all)
    (covers : Covers (evmMarks db) (evmMarks all) h.toInt) :
    loadAtOrBelow db h = loadAtOrBelow all h := by
  refine highestStored_congr (fun j listed below => ?_) (fun j listed below => ?_)
  · obtain ⟨k, same, stored⟩ := sub ⟨j, rfl, mem_storedSnapshotHeights.mp listed⟩
    obtain rfl : k = j := Int64.toInt_inj.mp same
    exact ⟨k, mem_storedSnapshotHeights.mpr stored, below, le_refl _⟩
  · rw [decide_eq_true_eq, le_iff] at below
    obtain ⟨_, ⟨k, rfl, stored⟩, atMost, atLeast⟩ :=
      covers j.toInt ⟨j, rfl, mem_storedSnapshotHeights.mp listed⟩ below
    exact ⟨k, mem_storedSnapshotHeights.mpr stored,
      decide_eq_true (le_iff.mpr atMost), atLeast⟩

theorem evmMarks_pruneStored_subset (db : KeyValues) (tip : Int64) :
    evmMarks (pruneStored db tip).1 ⊆ evmMarks db := by
  rintro n ⟨h, rfl, stored⟩
  exact ⟨h, rfl, (mem_pruneStored.mp stored).1⟩

/-! The heights that `evmSnapshotsToPrune` passes over: the window, the anchors of its points, and
the first height. -/

section Passed
variable {heights : List Int64} {k q : Int64}

private theorem sorted_heights (heights : List Int64) :
    (heights.insertionSort (· ≤ ·)).Pairwise (· ≤ ·) := by
  have : Std.Total (α := Int64) (· ≤ ·) := ⟨Int64.le_total⟩
  have : IsTrans Int64 (· ≤ ·) := ⟨fun _ _ _ => Int64.le_trans⟩
  exact pairwise_insertionSort _ _

def anchorPoints (windowFloor : Int64) : List Int64 :=
  checkpointsFrom windowFloor windowFloor.toNatClampNeg Common.snapshotCheckpointInterval ++
    [windowFloor]

theorem mem_evmSnapshotsToPrune (dropped : k ∈ evmSnapshotsToPrune heights tip) :
    k < tip - Common.snapshotRetentionBlocks ∧
      (heights.insertionSort (· ≤ ·)).head? ≠ some k ∧
      ∀ q ∈ anchorPoints (tip - Common.snapshotRetentionBlocks),
        anchor (heights.insertionSort (· ≤ ·)) q ≠ some k := by
  unfold evmSnapshotsToPrune at dropped
  cases sorted : heights.insertionSort (· ≤ ·) with
  | nil => simp [sorted] at dropped
  | cons first rest =>
    simp only [sorted] at dropped
    by_cases early : tip - Common.snapshotRetentionBlocks ≤ 0
    · simp [early] at dropped
    · rw [if_neg early, List.mem_filter, Bool.and_eq_true, decide_eq_true_eq,
        Bool.not_eq_true', contains_eq_mem, decide_eq_false_iff_not] at dropped
      obtain ⟨-, low, passed⟩ := dropped
      refine ⟨low, fun same => passed ?_, fun q point found => passed ?_⟩
      · rw [← Option.some.inj same]
        exact List.mem_cons_self
      · exact List.mem_cons_of_mem _ (List.mem_filterMap.mpr ⟨q, point, found⟩)

theorem anchored_stays (point : q ∈ anchorPoints (tip - Common.snapshotRetentionBlocks))
    (member : h ∈ heights) (below : h ≤ q) :
    ∃ k ∈ heights, k ∉ evmSnapshotsToPrune heights tip ∧ k ≤ q ∧ h ≤ k := by
  obtain ⟨k, inside, found, atMost, atLeast⟩ :=
    anchor_spec (sorted_heights heights) ((mem_insertionSort _).mpr member) below
  exact ⟨k, (mem_insertionSort _).mp inside,
    fun dropped => (mem_evmSnapshotsToPrune dropped).2.2 q point found, atMost, atLeast⟩

theorem least_stays (tip : Int64) (member : h ∈ heights) :
    ∃ k ∈ heights, k ∉ evmSnapshotsToPrune heights tip ∧ k ≤ h := by
  have ordered := sorted_heights heights
  have inside := (mem_insertionSort (· ≤ ·)).mpr member
  cases sorted : heights.insertionSort (· ≤ ·) with
  | nil =>
    rw [sorted] at inside
    cases inside
  | cons first rest =>
    rw [sorted] at inside ordered
    have listed : first ∈ heights := (mem_insertionSort (· ≤ ·)).mp
      (sorted ▸ List.mem_cons_self)
    refine ⟨first, listed, fun dropped => ?_, ?_⟩
    · exact (mem_evmSnapshotsToPrune dropped).2.1 (by rw [sorted]; rfl)
    · rcases List.mem_cons.mp inside with rfl | later
      · exact Int64.le_refl h
      · exact (List.pairwise_cons.mp ordered).1 h later

end Passed

theorem covers_pruneStored (nonneg : ∀ n ∈ evmMarks db, 0 ≤ n) (tipNonneg : 0 ≤ tip.toInt)
    (small : tip.toInt + 4320 < 2 ^ 63) (kept : retained tip h = true) :
    Covers (evmMarks (pruneStored db tip).1) (evmMarks db) h.toInt := by
  have window : Common.snapshotRetentionBlocks.toInt = 4320 := by decide
  have interval : Common.snapshotCheckpointInterval.toInt = 8640 := by decide
  have floor : (tip - Common.snapshotRetentionBlocks).toInt = tip.toInt - 4320 := by
    rw [toInt_sub_of_fits (by omega) (by omega), window]
  rintro n ⟨j, rfl, stored⟩ below
  have listed := mem_storedSnapshotHeights.mpr stored
  -- a height the prune passes over is a mark
  have marked : ∀ k ∈ storedSnapshotHeights db evmStateDBPrefix,
      k ∉ evmSnapshotsToPrune (storedSnapshotHeights db evmStateDBPrefix) tip →
      k.toInt ∈ evmMarks (pruneStored db tip).1 := fun k member passed =>
    ⟨k, rfl, mem_pruneStored.mpr ⟨mem_storedSnapshotHeights.mp member, passed⟩⟩
  have anchored : ∀ q ∈ anchorPoints (tip - Common.snapshotRetentionBlocks),
      j.toInt ≤ q.toInt → q.toInt ≤ h.toInt →
      ∃ m ∈ evmMarks (pruneStored db tip).1, m ≤ h.toInt ∧ j.toInt ≤ m := by
    intro q point low high
    obtain ⟨k, member, passed, atMost, atLeast⟩ :=
      anchored_stays point listed (le_iff.mpr low)
    exact ⟨k.toInt, marked k member passed, (le_iff.mp atMost).trans high,
      le_iff.mp atLeast⟩
  by_cases genesis : h.toInt ≤ 0
  · -- only the height zero is at or below genesis, and it is the least
    obtain ⟨k, member, passed, least⟩ := least_stays tip listed
    have zero := nonneg _ ⟨j, rfl, stored⟩
    have zero' := nonneg _ ⟨k, rfl, mem_storedSnapshotHeights.mp member⟩
    rw [le_iff] at least
    exact ⟨k.toInt, marked k member passed, by omega, by omega⟩
  by_cases inWindow : tip.toInt - 4320 ≤ h.toInt
  · by_cases recent : tip.toInt - 4320 ≤ j.toInt
    · refine ⟨j.toInt, marked j listed fun dropped => ?_, below, le_refl _⟩
      have low := lt_iff.mp (mem_evmSnapshotsToPrune dropped).1
      omega
    · exact anchored _ (mem_append_right _ List.mem_cons_self) (by omega) (by omega)
  · have divides := ((retained_iff tipNonneg (by omega)).mp kept).resolve_left inWindow
    obtain ⟨m, multiple⟩ : ∃ m : Nat, h.toInt = 8640 + 8640 * m :=
      ⟨((h.toInt - 8640) / 8640).toNat, by omega⟩
    have fuel : m < (tip - Common.snapshotRetentionBlocks).toNatClampNeg := by
      rw [Int64.toNatClampNeg, floor]
      omega
    have point : h ∈ checkpointsFrom (tip - Common.snapshotRetentionBlocks)
        (tip - Common.snapshotRetentionBlocks).toNatClampNeg
        Common.snapshotCheckpointInterval :=
      mem_checkpointsFrom (by omega) fuel (by omega) (by rw [interval]; exact multiple)
        (by omega)
    exact anchored h (mem_append_left _ point) below (le_refl _)

end Evm
end QwidNode.Source
