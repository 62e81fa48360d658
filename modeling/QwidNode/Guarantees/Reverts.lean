import QwidNode.Source.StateRoot
import QwidNode.Source.StateUndo

/-!
# What a reverted call leaves behind

A call takes a snapshot, runs operations with nested snapshots and reverts, and is then reverted.
All that a contract can read of it is as it was, except for three traces: an address that got its
first storage keeps an empty map, an address that received its first coins keeps an empty native
account, and the refund counter keeps its value.
-/
namespace QwidNode.Guarantees.Reverts
open Source Lib

/-- What the state root hashes and what a contract can read is the same. -/
structure Untraced (s u : StateAccount × Ledger) : Prop where
  hashed : ∀ dex, hashedState u.2 dex u.1 = hashedState s.2 dex s.1
  logs : u.1.logs = s.1.logs
  suicided : ∀ a, u.1.suicided.lookup a = s.1.suicided.lookup a
  accessAddrs : ∀ a, u.1.accessAddrs.lookup a = s.1.accessAddrs.lookup a
  accessSlots : ∀ a h, u.1.slotInAccessList a h = s.1.slotInAccessList a h
  refund : u.1.refund = s.1.refund
  current : ∀ a h, u.1.getState a h = s.1.getState a h
  committed : ∀ a h, u.1.getCommittedState a h = s.1.getCommittedState a h

/-- No address has got a storage map or a native account, and the refund counter stands where it
stood. -/
structure NothingNew (s t : StateAccount × Ledger) : Prop where
  maps : t.1.statesHashes.keys ⊆ s.1.statesHashes.keys
  holders : t.2.accounts.keys ⊆ s.2.accounts.keys
  refund : t.1.refund = s.1.refund

section Committed
variable {s t : StateAccount × Ledger} {start : AddressBytes → Hash → Hash} {keccak : Bytes → Hash}

/-- The recorded values are those at the start, and what is not recorded was not written. -/
structure Remembers (start : AddressBytes → Hash → Hash) (s : StateAccount × Ledger) : Prop where
  recorded : ∀ a h v, s.1.origin? a h = some v → v = start a h
  unrecorded : ∀ a h, s.1.origin? a h = none → s.1.getState a h = start a h
  written : ∀ a h prev, .slot a h prev ∈ s.1.journal → s.1.origin? a h ≠ none

theorem Remembers.committed (remembers : Remembers start s) (a : AddressBytes) (h : Hash) :
    s.1.getCommittedState a h = start a h := by
  rw [StateAccount.getCommittedState]
  cases found : s.1.origin? a h with
  | none => exact remembers.unrecorded a h found
  | some v => exact remembers.recorded a h v found

theorem Remembers.of_same (remembers : Remembers start s)
    (origin : t.1.originStorage = s.1.originStorage)
    (storage : t.1.statesHashes = s.1.statesHashes)
    (journal : ∀ a h prev, .slot a h prev ∈ t.1.journal → .slot a h prev ∈ s.1.journal) :
    Remembers start t := by
  have same : ∀ a h, t.1.origin? a h = s.1.origin? a h := fun a h => by
    rw [StateAccount.origin?, StateAccount.origin?, origin]
  refine ⟨fun a h v found => remembers.recorded a h v (same a h ▸ found), fun a h none => ?_,
    fun a h prev member => ?_⟩
  · rw [StateAccount.getState, StateAccount.slot?, storage]
    exact remembers.unrecorded a h (same a h ▸ none)
  · rw [same]
    exact remembers.written a h prev (journal a h prev member)

theorem Remembers.setState (remembers : Remembers start s) (a : AddressBytes) (h v : Hash) :
    Remembers start (s.1.setState a h v, s.2) := by
  have origin : ∀ b k, (s.1.setState a h v).origin? b k =
      if b = a ∧ k = h ∧ s.1.origin? a h = none then some (s.1.getState a h)
      else s.1.origin? b k := by
    intro b k
    simp only [StateAccount.origin?, StateAccount.setState, FinMap.lookup2_insert,
      StateAccount.getState, StateAccount.slot?]
    by_cases here : b = a
    · subst here
      simp only [FinMap.lookup2_eq_getD, if_true, true_and]
      by_cases known : h ∈ (s.1.originStorage.lookup b).getD ∅
      · have found : ((s.1.originStorage.lookup b).getD ∅).lookup h ≠ none := fun none =>
          absurd known (AList.lookup_eq_none.mp none)
        simp [known, found]
      · have absent := FinMap.lookup_of_not_mem known
        simp [known, absent, FinMap.lookup_insert_eq]
    · simp [here]
  have slots : ∀ b k, ¬ (b = a ∧ k = h) →
      (s.1.setState a h v).getState b k = s.1.getState b k := by
    intro b k other
    simp only [StateAccount.getState, StateAccount.slot?, StateAccount.setState,
      FinMap.lookup2_insert, FinMap.lookup_insert_eq]
    by_cases here : b = a
    · subst here
      have notKey : k ≠ h := fun same => other ⟨rfl, same⟩
      simp [notKey, FinMap.lookup2_eq_getD]
    · simp [here]
  refine ⟨fun b k w found => ?_, fun b k none => ?_, fun b k prev member => ?_⟩
  · rw [origin] at found
    split at found
    · rename_i first
      obtain ⟨rfl, rfl, fresh⟩ := first
      rw [← Option.some.inj found]
      exact remembers.unrecorded b k fresh
    · exact remembers.recorded b k w found
  · rw [origin] at none
    split at none
    · cases none
    · rename_i later
      have other : ¬ (b = a ∧ k = h) := by
        rintro ⟨rfl, rfl⟩
        exact later ⟨rfl, rfl, none⟩
      exact (slots b k other).trans (remembers.unrecorded b k none)
  · rw [origin]
    split
    · simp
    · rename_i later
      rcases List.mem_append.mp member with old | new
      · exact remembers.written b k prev old
      · obtain ⟨rfl, rfl, -⟩ := ChangeEntry.slot.inj (List.mem_singleton.mp new)
        exact fun none => later ⟨rfl, rfl, none⟩

theorem revert_storage (e : ChangeEntry) (s : StateAccount × Ledger) :
    (e.revert s.1 s.2).1.originStorage = s.1.originStorage ∧
      ∀ a h, (∀ prev, e ≠ .slot a h prev) → (e.revert s.1 s.2).1.slot? a h = s.1.slot? a h := by
  cases e with
  | slot b k prev =>
    cases found : s.1.statesHashes.lookup b with
    | none => simp [ChangeEntry.revert, found]
    | some m =>
      rw [revert_slot found]
      refine ⟨rfl, fun a h other => ?_⟩
      simp only [StateAccount.slot?, FinMap.lookup2_insert, lookup_restore]
      split
      · rename_i same
        subst same
        have notKey : h ≠ k := fun equal => other prev (by rw [equal])
        rw [if_neg notKey, FinMap.lookup2, found]
        rfl
      · rfl
  | accessSlot b k =>
    cases found : s.1.accessSlots.lookup b with
    | none => simp [ChangeEntry.revert, found]
    | some m =>
      rw [revert_accessSlot found]
      exact ⟨rfl, fun _ _ _ => rfl⟩
  | _ => exact ⟨rfl, fun _ _ _ => rfl⟩

theorem undoAll_storage (entries : List ChangeEntry) (s : StateAccount × Ledger) :
    (Journal.undoAll stateRules entries s).1.originStorage = s.1.originStorage ∧
      ∀ a h, (∀ prev, .slot a h prev ∉ entries) →
        (Journal.undoAll stateRules entries s).1.slot? a h = s.1.slot? a h := by
  induction entries with
  | nil => exact ⟨rfl, fun _ _ _ => rfl⟩
  | cons e rest ih =>
    obtain ⟨origin, slots⟩ := revert_storage e (Journal.undoAll stateRules rest s)
    refine ⟨origin.trans ih.1, fun a h absent => ?_⟩
    refine (slots a h fun prev same => absent prev (same ▸ List.mem_cons_self)).trans ?_
    exact ih.2 a h fun prev member => absent prev (List.mem_cons_of_mem _ member)

theorem Remembers.revertToSnapshot (remembers : Remembers start s) (sn : Nat) :
    Remembers start (s.1.revertToSnapshot sn s.2) := by
  have shape : s.1.revertToSnapshot sn s.2 =
      ({ (Journal.undoAll stateRules (s.1.journal.drop sn) s).1 with
        journal := s.1.journal.take sn },
        (Journal.undoAll stateRules (s.1.journal.drop sn) s).2) := by
    rw [← revertEntries_eq_undoAll]
    rfl
  obtain ⟨origin, slots⟩ := undoAll_storage (s.1.journal.drop sn) s
  rw [shape]
  have same : ∀ a h, (Journal.undoAll stateRules (s.1.journal.drop sn) s).1.origin? a h =
      s.1.origin? a h := fun a h => by rw [StateAccount.origin?, StateAccount.origin?, origin]
  refine ⟨fun a h v found => remembers.recorded a h v ((same a h).symm.trans found),
    fun a h none => ?_, fun a h prev member found => ?_⟩
  · -- an unrecorded slot has no entry to undo
    have fresh := (same a h).symm.trans none
    have untouched := slots a h fun prev member =>
      remembers.written a h prev (List.mem_of_mem_drop member) fresh
    exact (congrArg (Option.getD · 0) untouched).trans (remembers.unrecorded a h fresh)
  · exact remembers.written a h prev (List.mem_of_mem_take member) ((same a h).symm.trans found)

private theorem slot_of_append {a : AddressBytes} {h : Hash} {prev : Option Hash}
    {journal : List ChangeEntry} {e : ChangeEntry} (other : ∀ a h prev, e ≠ .slot a h prev)
    (member : ChangeEntry.slot a h prev ∈ journal ++ [e]) : .slot a h prev ∈ journal := by
  rcases List.mem_append.mp member with old | new
  · exact old
  · exact absurd (List.mem_singleton.mp new).symm (other a h prev)

theorem Remembers.writeBalance (remembers : Remembers start s) (a : AddressBytes)
    (prev next : Int64) : Remembers start (s.1.writeBalance s.2 a prev next) := by
  unfold StateAccount.writeBalance
  split
  · exact remembers
  · exact remembers.of_same rfl rfl fun _ _ _ => slot_of_append (by simp)

theorem Remembers.addAddress (remembers : Remembers start s) (a : AddressBytes) :
    Remembers start (s.1.addAddressToAccessList a, s.2) := by
  unfold StateAccount.addAddressToAccessList
  split
  · exact remembers
  · exact remembers.of_same rfl rfl fun _ _ _ => slot_of_append (by simp)

theorem Remembers.warmSlot (remembers : Remembers start s) (a : AddressBytes) (h : Hash) :
    Remembers start (s.1.warmSlot a h, s.2) := by
  unfold StateAccount.warmSlot
  split
  · exact remembers
  · exact remembers.of_same rfl rfl fun _ _ _ => slot_of_append (by simp)

theorem Remembers.exec (remembers : Remembers start s) (op : Op) :
    Remembers start (op.exec keccak s) := by
  cases op with
  | createAccount a => exact remembers.of_same rfl rfl fun _ _ _ => slot_of_append (by simp)
  | addBalance a amount => exact remembers.writeBalance a _ _
  | subBalance a amount => exact remembers.writeBalance a _ _
  | setNonce a n => exact remembers.of_same rfl rfl fun _ _ _ => slot_of_append (by simp)
  | setCode a c => exact remembers.of_same rfl rfl fun _ _ _ => slot_of_append (by simp)
  | addRefund gas | subRefund gas | addPreimage h b =>
    exact remembers.of_same rfl rfl fun _ _ _ => id
  | setState a h v => exact remembers.setState a h v
  | suicide a =>
    simp only [Op.exec, StateAccount.suicide]
    split
    · exact remembers.of_same rfl rfl fun _ _ _ => slot_of_append (by simp)
    · exact remembers
  | addAddressToAccessList a => exact remembers.addAddress a
  | addSlotToAccessList a h => exact (remembers.addAddress a).warmSlot a h
  | addLog log => exact remembers.of_same rfl rfl fun _ _ _ => slot_of_append (by simp)
  | revertToSnapshot sn => exact remembers.revertToSnapshot _

theorem remembers_begin (sa : StateAccount) (l : Ledger) (warm : List AddressBytes)
    (accesses : List (AddressBytes × List Hash)) :
    Remembers sa.getState (beginTx sa l warm accesses) where
  recorded _ _ _ found := by cases found
  unrecorded _ _ _ := rfl
  written _ _ _ member := by cases member

theorem Remembers.execAll (remembers : Remembers start s) (ops : List Op) :
    Remembers start (execAll keccak ops s) := by
  induction ops generalizing s with
  | nil => exact remembers
  | cons op rest ih => exact ih (remembers.exec op)

end Committed

section Traces
variable {s t : StateAccount × Ledger} {entries : List ChangeEntry} {a : AddressBytes}

theorem undoAll_keys (fits : ∀ e ∈ entries, e.Fits t) :
    let u := Journal.undoAll stateRules entries t
    (∀ a, a ∈ u.1.statesHashes ↔ a ∈ t.1.statesHashes) ∧
      (∀ a, a ∈ u.2.accounts ↔ a ∈ t.2.accounts) ∧ u.1.refund = t.1.refund := by
  induction entries with
  | nil => exact ⟨fun _ => Iff.rfl, fun _ => Iff.rfl, rfl⟩
  | cons e rest ih =>
    rw [List.forall_mem_cons] at fits
    obtain ⟨maps, holders, refund⟩ := ih fits.2
    have fit : e.Fits (Journal.undoAll stateRules rest t) :=
      Journal.fit_undoAll (R := stateRules) fits.1
    have grown := grown_revert e (Journal.undoAll stateRules rest t)
    refine ⟨fun a => ?_, fun a => ?_, (refund_revert e _).trans refund⟩
    · exact (⟨maps_revert fit, grown.maps a⟩ : _ ↔ _).trans (maps a)
    · exact (⟨holders_revert fit, grown.holders a⟩ : _ ↔ _).trans (holders a)

theorem hashed_of_residue (residue : Residue s t)
    (maps : ∀ a, a ∈ t.1.statesHashes ↔ a ∈ s.1.statesHashes)
    (holders : ∀ a, a ∈ t.2.accounts ↔ a ∈ s.2.accounts)
    (dex : FinMap AddressBytes DexAccount) :
    hashedState t.2 dex t.1 = hashedState s.2 dex s.1 := by
  obtain ⟨binds, staking, -⟩ := residue.beside
  have accounts : ∀ a, (t.2.accounts.lookup a).map Account.hashed =
      (s.2.accounts.lookup a).map Account.hashed := by
    intro a
    have same := residue.native a
    rw [Ledger.native, Ledger.native, Ledger.account?, Ledger.account?] at same
    cases found : s.2.accounts.lookup a with
    | none =>
      have absent : a ∉ t.2.accounts := fun inside =>
        absurd ((holders a).mp inside) (AList.lookup_eq_none.mp found)
      rw [FinMap.lookup_of_not_mem absent]
    | some acc =>
      obtain ⟨acc', found'⟩ := FinMap.mem_iff_lookup.mp
        ((holders a).mpr (FinMap.mem_iff_lookup.mpr ⟨acc, found⟩))
      rw [found, found'] at same
      rw [found']
      have blank := congrArg Account.hashed same
      exact congrArg some blank
  have storage : ∀ a, (t.1.statesHashes.lookup a).map (fun m => m.sortedWith id) =
      (s.1.statesHashes.lookup a).map fun m => m.sortedWith id := by
    intro a
    cases found : s.1.statesHashes.lookup a with
    | none =>
      have absent : a ∉ t.1.statesHashes := fun inside =>
        absurd ((maps a).mp inside) (AList.lookup_eq_none.mp found)
      rw [FinMap.lookup_of_not_mem absent]
    | some m =>
      obtain ⟨m', found'⟩ := FinMap.mem_iff_lookup.mp
        ((maps a).mpr (FinMap.mem_iff_lookup.mpr ⟨m, found⟩))
      rw [found']
      refine congrArg some (FinMap.sortedWith_eq_iff.mpr fun h => ?_)
      have same := residue.slots a h
      rw [StateAccount.slot?, StateAccount.slot?, FinMap.lookup2, FinMap.lookup2, found, found']
        at same
      exact congrArg (Option.map id) same
  apply HashedState.ext
  · exact FinMap.sortedWith_eq_iff.mpr accounts
  · exact congrArg (FinMap.sortedWith id) binds
  · change t.2.hashedShards = s.2.hashedShards
    rw [Ledger.hashedShards, Ledger.hashedShards]
    simp only [Ledger.shardEntries, staking]
  · rfl
  · exact FinMap.sortedWith_eq_iff.mpr fun a =>
      congrArg (Option.map fun _ => ()) (residue.accounts a)
  · exact FinMap.sortedWith_eq_iff.mpr fun a => congrArg (Option.map _) (residue.codes a)
  · exact FinMap.sortedWith_eq_iff.mpr fun a => congrArg (Option.map _) (residue.nonces a)
  · exact FinMap.sortedWith_eq_iff.mpr storage
  · exact congrArg (FinMap.sortedWith id) residue.tokens

theorem keys_of_hashed {dex : FinMap AddressBytes DexAccount}
    (same : hashedState t.2 dex t.1 = hashedState s.2 dex s.1) :
    (∀ a, a ∈ t.1.statesHashes → a ∈ s.1.statesHashes) ∧
      ∀ a, a ∈ t.2.accounts → a ∈ s.2.accounts := by
  constructor
  · exact fun _ => (FinMap.mem_congr_of_sortedWith (congrArg HashedState.statesHashes same)).mp
  · exact fun _ => (FinMap.mem_congr_of_sortedWith (congrArg HashedState.accounts same)).mp

end Traces

/-- In any transaction, after any operations, for any later operations with nested snapshots and
reverts: going back to the snapshot leaves no trace exactly when just before it there was nothing
new. -/
theorem revert_untraced_iff (keccak : Bytes → Hash) (sa : StateAccount) (l : Ledger)
    (warm : List AddressBytes) (accesses : List (AddressBytes × List Hash)) (before ops : List Op)
    (s t : StateAccount × Ledger)
    (taken : s = execAll keccak before (beginTx sa l warm accesses))
    (within : ∀ op ∈ ops, op.Within s.1.snapshot) (later : t = execAll keccak ops s) :
    Untraced s (t.1.revertToSnapshot s.1.snapshot t.2) ↔ NothingNew s t := by
  have start : ∀ e ∈ s.1.journal, e.Fits s := by
    rw [taken]
    exact (run_transaction keccak sa l warm accesses before).fits fun _ member => by cases member
  have run : Journal.Run stateRules s.1.snapshot s.1.journal s t.1.journal t := by
    rw [later]
    exact run_execAll ops within
  obtain ⟨-, residue⟩ := run.undone rfl start
  have fits : ∀ e ∈ t.1.journal.drop s.1.snapshot, e.Fits t := fun e member =>
    run.fits start e (List.mem_of_mem_drop member)
  obtain ⟨maps, holders, refund⟩ := undoAll_keys fits
  -- the values at the start of the transaction, at the snapshot and after the revert
  have remembers : Remembers sa.getState s := by
    rw [taken]
    exact (remembers_begin sa l warm accesses).execAll before
  have remembers' : Remembers sa.getState (t.1.revertToSnapshot s.1.snapshot t.2) := by
    rw [later]
    exact (remembers.execAll ops).revertToSnapshot _
  have shape : t.1.revertToSnapshot s.1.snapshot t.2 =
      ({ (Journal.undoAll stateRules (t.1.journal.drop s.1.snapshot) t).1 with
        journal := t.1.journal.take s.1.snapshot },
        (Journal.undoAll stateRules (t.1.journal.drop s.1.snapshot) t).2) := by
    rw [← revertEntries_eq_undoAll]
    rfl
  have back : Residue s (t.1.revertToSnapshot s.1.snapshot t.2) := by
    rw [shape]
    exact { residue with }
  have mapsBack : ∀ a, a ∈ (t.1.revertToSnapshot s.1.snapshot t.2).1.statesHashes ↔
      a ∈ t.1.statesHashes := by
    rw [shape]
    exact maps
  have holdersBack : ∀ a, a ∈ (t.1.revertToSnapshot s.1.snapshot t.2).2.accounts ↔
      a ∈ t.2.accounts := by
    rw [shape]
    exact holders
  have refundBack : (t.1.revertToSnapshot s.1.snapshot t.2).1.refund = t.1.refund := by
    rw [shape]
    exact refund
  constructor
  · intro untraced
    obtain ⟨mapsSame, holdersSame⟩ := keys_of_hashed (untraced.hashed ∅)
    exact ⟨fun a inside => mapsSame a ((mapsBack a).mpr inside),
      fun a inside => holdersSame a ((holdersBack a).mpr inside),
      refundBack.symm.trans untraced.refund⟩
  · intro nothing
    refine ⟨hashed_of_residue back (fun a => ⟨fun inside => ?_, back.maps a⟩)
      (fun a => ⟨fun inside => ?_, back.holders a⟩), back.logs, back.suicided, back.accessAddrs,
      fun a h => congrArg Option.isSome (back.accessSlots a h), refundBack.trans nothing.refund,
      fun a h => congrArg (Option.getD · 0) (back.slots a h), fun a h => ?_⟩
    · exact nothing.maps ((mapsBack a).mp inside)
    · exact nothing.holders ((holdersBack a).mp inside)
    · exact (remembers'.committed a h).trans (remembers.committed a h).symm

/-- A contract at address 1 with a slot set, and native accounts at 1 and 2. -/
def smallState : StateAccount × Ledger :=
  ({ accounts := (∅ : FinMap AddressBytes Account).insert 1 { address := 1 }
     statesHashes := (∅ : FinMap AddressBytes (FinMap Hash Hash)).insert 1
       ((∅ : FinMap Hash Hash).insert 0 7) },
   { accounts := ((∅ : FinMap AddressBytes Account).insert 1 { address := 1, balance := 10 }).insert
       2 { address := 2, balance := 5 } })

/-- A call that writes storage, moves coins, logs and self-destructs, with an inner revert. -/
theorem revert_untraced_call :
    let s := beginTx smallState.1 smallState.2 [1] []
    let ops : List Op := [.subBalance 2 3, .addBalance 1 3, .setState 1 0 8, .addLog [1],
      .setState 1 5 9, .revertToSnapshot 3, .suicide 1, .addSlotToAccessList 1 0, .addRefund 4,
      .subRefund 4]
    let t := execAll (fun _ => 0) ops s
    t.1.getState 1 0 = 8 ∧ Untraced s (t.1.revertToSnapshot s.1.snapshot t.2) :=
  ⟨by decide +kernel, (revert_untraced_iff (fun _ => 0) smallState.1 smallState.2 [1] [] [] _ _ _ rfl
    (by decide) rfl).mpr ⟨by decide +kernel, by decide +kernel, by decide +kernel⟩⟩

/-- A call that writes storage of address 2, pays address 3 and adds to the refund: the reverted
state differs in all three. -/
theorem revert_leaves_traces :
    let s := beginTx smallState.1 smallState.2 [1] []
    let t := execAll (fun _ => 0) [.setState 2 0 1, .addBalance 3 1, .addRefund 4] s
    let u := t.1.revertToSnapshot s.1.snapshot t.2
    (hashedState u.2 ∅ u.1).statesHashes ≠ (hashedState s.2 ∅ s.1).statesHashes ∧
      (hashedState u.2 ∅ u.1).accounts ≠ (hashedState s.2 ∅ s.1).accounts ∧
      u.1.refund ≠ s.1.refund := by
  decide +kernel

end QwidNode.Guarantees.Reverts
