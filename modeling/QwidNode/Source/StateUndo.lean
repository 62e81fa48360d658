import QwidNode.Lib.Journal
import QwidNode.Source.StateOps

/-!
# What the journal of the state database takes back

An undone `SetState` leaves the map it made for an address without storage, an undone balance
change the native account it made, and the refund counter, the recorded slot values and the
preimages are not undone at all. `Residue` compares states up to that.
-/
namespace QwidNode.Source
open Lib AList

/-- A native account as its fields are read; an absent one reads like an empty one. -/
def Ledger.native (l : Ledger) (a : AddressBytes) : Account :=
  { (l.account? a).getD { address := 0 } with address := a }

/-- No storage map, no map of warm slots and no native account is lost. -/
structure Grown (s t : StateAccount × Ledger) : Prop where
  maps : ∀ a, a ∈ s.1.statesHashes → a ∈ t.1.statesHashes
  accessMaps : ∀ a, a ∈ s.1.accessSlots → a ∈ t.1.accessSlots
  holders : ∀ a, a ∈ s.2.accounts → a ∈ t.2.accounts

/-- The second state is the first one with empty storage maps, empty native accounts and other
things that no undo takes back. -/
structure Residue (s t : StateAccount × Ledger) : Prop extends Grown s t where
  accounts : ∀ a, t.1.accounts.lookup a = s.1.accounts.lookup a
  codes : ∀ a, t.1.codes.lookup a = s.1.codes.lookup a
  nonces : ∀ a, t.1.nonces.lookup a = s.1.nonces.lookup a
  tokens : t.1.tokens = s.1.tokens
  slots : ∀ a h, t.1.slot? a h = s.1.slot? a h
  logs : t.1.logs = s.1.logs
  suicided : ∀ a, t.1.suicided.lookup a = s.1.suicided.lookup a
  accessAddrs : ∀ a, t.1.accessAddrs.lookup a = s.1.accessAddrs.lookup a
  accessSlots : ∀ a h, FinMap.lookup2 t.1.accessSlots a h = FinMap.lookup2 s.1.accessSlots a h
  native : ∀ a, t.2.native a = s.2.native a
  beside : s.2.SameBeside t.2

/-- An entry can be undone where the map or account it writes to is there. -/
def ChangeEntry.Fits : ChangeEntry → StateAccount × Ledger → Prop
  | .slot a _ _, s => a ∈ s.1.statesHashes
  | .accessSlot a _, s => a ∈ s.1.accessSlots
  | .balance a _, s => a ∈ s.2.accounts
  | _, _ => True

section Entry
variable {s t : StateAccount × Ledger} {a : AddressBytes} {h : Hash}

theorem lookup_restore {κ α : Type} [DecidableEq κ] (m : FinMap κ α) (k k' : κ)
    (prev : Option α) : (restore m k prev).lookup k' = if k' = k then prev else m.lookup k' := by
  cases prev with
  | none => exact FinMap.lookup_erase_eq m k k'
  | some v => exact FinMap.lookup_insert_eq m k k' v

theorem lookup_restore_insert {κ α : Type} [DecidableEq κ] (m : FinMap κ α) (k k' : κ) (v : α) :
    (restore (m.insert k v) k (m.lookup k)).lookup k' = m.lookup k' := by
  rw [lookup_restore, FinMap.lookup_insert_eq]
  split
  · rename_i same
    rw [same]
  · rfl

theorem native_setBalance (l : Ledger) (a b : AddressBytes) (balance : Int64) :
    (l.setBalance a balance).native b =
      if b = a then { l.native a with balance } else l.native b := by
  rw [Ledger.native, Ledger.account?, Ledger.setBalance_lookup]
  by_cases equal : a = b
  · subst equal
    simp [Ledger.native]
  · rw [if_neg equal, if_neg (Ne.symm equal)]
    rfl

theorem mem_setBalance (l : Ledger) (a b : AddressBytes) (balance : Int64) :
    b ∈ (l.setBalance a balance).accounts ↔ b = a ∨ b ∈ l.accounts :=
  mem_insert _

theorem revert_slot {m : FinMap Hash Hash} (found : s.1.statesHashes.lookup a = some m)
    (prev : Option Hash) : (ChangeEntry.slot a h prev).revert s.1 s.2 =
      ({ s.1 with statesHashes := s.1.statesHashes.insert a (restore m h prev) }, s.2) := by
  simp only [ChangeEntry.revert, found]

theorem revert_accessSlot {m : FinMap Hash Unit} (found : s.1.accessSlots.lookup a = some m) :
    (ChangeEntry.accessSlot a h).revert s.1 s.2 =
      ({ s.1 with accessSlots := s.1.accessSlots.insert a (m.erase h) }, s.2) := by
  simp only [ChangeEntry.revert, found]

theorem residue_refl (s : StateAccount × Ledger) : Residue s s :=
  ⟨⟨fun _ => id, fun _ => id, fun _ => id⟩, fun _ => rfl, fun _ => rfl, fun _ => rfl, rfl,
    fun _ _ => rfl, rfl, fun _ => rfl, fun _ => rfl, fun _ _ => rfl, fun _ => rfl, rfl, rfl, rfl⟩

theorem Residue.trans {u : StateAccount × Ledger} (first : Residue s t) (second : Residue t u) :
    Residue s u where
  accounts a := (second.accounts a).trans (first.accounts a)
  codes a := (second.codes a).trans (first.codes a)
  nonces a := (second.nonces a).trans (first.nonces a)
  tokens := second.tokens.trans first.tokens
  slots a h := (second.slots a h).trans (first.slots a h)
  maps a inside := second.maps a (first.maps a inside)
  logs := second.logs.trans first.logs
  suicided a := (second.suicided a).trans (first.suicided a)
  accessAddrs a := (second.accessAddrs a).trans (first.accessAddrs a)
  accessSlots a h := (second.accessSlots a h).trans (first.accessSlots a h)
  accessMaps a inside := second.accessMaps a (first.accessMaps a inside)
  native a := (second.native a).trans (first.native a)
  holders a inside := second.holders a (first.holders a inside)
  beside := ⟨second.beside.1.trans first.beside.1, second.beside.2.1.trans first.beside.2.1,
    second.beside.2.2.trans first.beside.2.2⟩

theorem Residue.revert (below : Residue s t) (e : ChangeEntry) (fits : e.Fits s) :
    Residue (e.revert s.1 s.2) (e.revert t.1 t.2) := by
  cases e with
  | slot a h prev =>
    obtain ⟨m, found⟩ := FinMap.mem_iff_lookup.mp fits
    obtain ⟨m', found'⟩ := FinMap.mem_iff_lookup.mp (below.maps a fits)
    have inner : ∀ k, m'.lookup k = m.lookup k := fun k => by
      have same := below.slots a k
      rwa [StateAccount.slot?, StateAccount.slot?, FinMap.lookup2, FinMap.lookup2, found, found']
        at same
    rw [revert_slot found, revert_slot found']
    refine { below with maps := fun b => ?_, slots := fun b k => ?_ }
    · simp only [mem_insert]
      exact Or.imp_right (below.maps b)
    · simp only [StateAccount.slot?, FinMap.lookup2_insert, lookup_restore, inner]
      split
      · rfl
      · exact below.slots b k
  | accessSlot a h =>
    obtain ⟨m, found⟩ := FinMap.mem_iff_lookup.mp fits
    obtain ⟨m', found'⟩ := FinMap.mem_iff_lookup.mp (below.accessMaps a fits)
    have inner : ∀ k, m'.lookup k = m.lookup k := fun k => by
      have same := below.accessSlots a k
      rwa [FinMap.lookup2, FinMap.lookup2, found, found'] at same
    rw [revert_accessSlot found, revert_accessSlot found']
    refine { below with accessMaps := fun b => ?_, accessSlots := fun b k => ?_ }
    · simp only [mem_insert]
      exact Or.imp_right (below.accessMaps b)
    · simp only [FinMap.lookup2_insert, FinMap.lookup_erase_eq, inner]
      split
      · rfl
      · exact below.accessSlots b k
  | log => exact { below with logs := congrArg List.dropLast below.logs }
  | suicide a =>
    refine { below with suicided := fun b => ?_ }
    simp only [ChangeEntry.revert, FinMap.lookup_erase_eq, below.suicided]
  | accessAddr a =>
    refine { below with accessAddrs := fun b => ?_ }
    simp only [ChangeEntry.revert, FinMap.lookup_erase_eq, below.accessAddrs]
  | balance a prev =>
    refine { below with holders := fun b => ?_, native := fun b => ?_ }
    · simp only [ChangeEntry.revert, mem_setBalance]
      exact Or.imp_right (below.holders b)
    · simp only [ChangeEntry.revert, native_setBalance, below.native]
  | createAccount a prev =>
    refine { below with accounts := fun b => ?_ }
    simp only [ChangeEntry.revert, lookup_restore, below.accounts]
  | nonce a prev =>
    refine { below with nonces := fun b => ?_ }
    simp only [ChangeEntry.revert, lookup_restore, below.nonces]
  | code a prev =>
    refine { below with codes := fun b => ?_ }
    simp only [ChangeEntry.revert, lookup_restore, below.codes]

theorem Grown.fits (grown : Grown s t) {e : ChangeEntry} (fits : e.Fits s) : e.Fits t := by
  cases e with
  | slot a h prev => exact grown.maps a fits
  | accessSlot a h => exact grown.accessMaps a fits
  | balance a prev => exact grown.holders a fits
  | _ => trivial

theorem grown_revert (e : ChangeEntry) (s : StateAccount × Ledger) :
    Grown s (e.revert s.1 s.2) := by
  have same : Grown s s := (residue_refl s).toGrown
  cases e with
  | slot a h prev =>
    by_cases fits : a ∈ s.1.statesHashes
    · obtain ⟨m, found⟩ := FinMap.mem_iff_lookup.mp fits
      rw [revert_slot found]
      exact { same with maps := fun b inside => (mem_insert _).mpr (.inr inside) }
    · simp only [ChangeEntry.revert, FinMap.lookup_of_not_mem fits]
      exact same
  | accessSlot a h =>
    by_cases fits : a ∈ s.1.accessSlots
    · obtain ⟨m, found⟩ := FinMap.mem_iff_lookup.mp fits
      rw [revert_accessSlot found]
      exact { same with accessMaps := fun b inside => (mem_insert _).mpr (.inr inside) }
    · simp only [ChangeEntry.revert, FinMap.lookup_of_not_mem fits]
      exact same
  | balance a prev =>
    exact { same with holders := fun b inside => (mem_setBalance _ _ _ _).mpr (.inr inside) }
  | _ => exact ⟨fun _ => id, fun _ => id, fun _ => id⟩

theorem maps_revert {e : ChangeEntry} (fits : e.Fits s)
    (inside : a ∈ (e.revert s.1 s.2).1.statesHashes) : a ∈ s.1.statesHashes := by
  cases e with
  | slot b h prev =>
    obtain ⟨m, found⟩ := FinMap.mem_iff_lookup.mp fits
    rw [revert_slot found] at inside
    rcases (mem_insert _).mp inside with rfl | old
    · exact fits
    · exact old
  | accessSlot b h =>
    obtain ⟨m, found⟩ := FinMap.mem_iff_lookup.mp fits
    rw [revert_accessSlot found] at inside
    exact inside
  | _ => exact inside

theorem holders_revert {e : ChangeEntry} (fits : e.Fits s)
    (inside : a ∈ (e.revert s.1 s.2).2.accounts) : a ∈ s.2.accounts := by
  rw [ChangeEntry.revert_ledger] at inside
  cases e with
  | balance b prev =>
    rcases (mem_setBalance _ _ _ _).mp inside with rfl | old
    · exact fits
    · exact old
  | _ => exact inside

theorem refund_revert (e : ChangeEntry) (s : StateAccount × Ledger) :
    (e.revert s.1 s.2).1.refund = s.1.refund := by
  cases e with
  | slot a h prev =>
    simp only [ChangeEntry.revert]
    split <;> rfl
  | accessSlot a h =>
    simp only [ChangeEntry.revert]
    split <;> rfl
  | _ => rfl

end Entry

def stateRules : Journal.Rules (StateAccount × Ledger) ChangeEntry where
  undo e s := e.revert s.1 s.2
  Fit := ChangeEntry.Fits
  Below := Residue
  refl := residue_refl
  trans := Residue.trans
  undo_below fits below := below.revert _ fits
  fit_below fits below := below.toGrown.fits fits
  fit_undo fits := (grown_revert _ _).fits fits

theorem revertEntries_eq_undoAll (entries : List ChangeEntry) (s : StateAccount × Ledger) :
    revertEntries entries s.1 s.2 = Journal.undoAll stateRules entries s := by
  induction entries with
  | nil => rfl
  | cons e rest ih =>
    rw [revertEntries, ih]
    rfl

section Writes
variable {s : StateAccount × Ledger}

private theorem writes_of {e : ChangeEntry} {t : StateAccount × Ledger}
    (undone : Residue s (e.revert t.1 t.2)) (fits : e.Fits t) (grown : Grown s t) :
    Journal.Writes stateRules s e t :=
  ⟨undone, fits, fun _ old => grown.fits old⟩

theorem writes_createAccount (s : StateAccount × Ledger) (a : AddressBytes) :
    Journal.Writes stateRules s (.createAccount a (s.1.accounts.lookup a))
      (s.1.createAccount a, s.2) :=
  writes_of { residue_refl s with accounts := fun b => lookup_restore_insert _ a b _ } trivial
    ⟨fun _ => id, fun _ => id, fun _ => id⟩

theorem writes_setNonce (s : StateAccount × Ledger) (a : AddressBytes) (n : UInt64) :
    Journal.Writes stateRules s (.nonce a (s.1.nonces.lookup a)) (s.1.setNonce a n, s.2) :=
  writes_of { residue_refl s with nonces := fun b => lookup_restore_insert _ a b _ } trivial
    ⟨fun _ => id, fun _ => id, fun _ => id⟩

theorem writes_setCode (keccak : Bytes → Hash) (s : StateAccount × Ledger) (a : AddressBytes)
    (c : Bytes) :
    Journal.Writes stateRules s (.code a ((s.1.codes.lookup a).map fun code =>
      (code, (s.1.codeHashes.lookup a).getD 0))) (s.1.setCode keccak a c, s.2) := by
  refine writes_of { residue_refl s with codes := fun b => ?_ } trivial
    ⟨fun _ => id, fun _ => id, fun _ => id⟩
  have prev : ((s.1.codes.lookup a).map fun code => (code, (s.1.codeHashes.lookup a).getD 0)).map
      Prod.fst = s.1.codes.lookup a := by
    cases s.1.codes.lookup a <;> rfl
  simp only [ChangeEntry.revert, prev]
  exact lookup_restore_insert _ a b _

theorem writes_setState (s : StateAccount × Ledger) (a : AddressBytes) (h v : Hash) :
    Journal.Writes stateRules s (.slot a h (((s.1.statesHashes.lookup a).getD ∅).lookup h))
      (s.1.setState a h v, s.2) := by
  have found : (s.1.setState a h v).statesHashes.lookup a =
      some (((s.1.statesHashes.lookup a).getD ∅).insert h v) := lookup_insert _
  refine writes_of ?_ (FinMap.mem_iff_lookup.mpr ⟨_, found⟩) ⟨fun b inside => ?_, fun _ => id,
    fun _ => id⟩
  · rw [revert_slot (s := (s.1.setState a h v, s.2)) found]
    refine { residue_refl s with maps := fun b inside => ?_, slots := fun b k => ?_ }
    · exact (mem_insert _).mpr (.inr ((mem_insert _).mpr (.inr inside)))
    · simp only [StateAccount.slot?, StateAccount.setState, FinMap.lookup2_insert,
        lookup_restore_insert]
      split
      · rename_i same
        rw [same, FinMap.lookup2_eq_getD]
      · rfl
  · exact (mem_insert _).mpr (.inr inside)

theorem writes_suicide {a : AddressBytes} (fresh : a ∉ s.1.suicided) :
    Journal.Writes stateRules s (.suicide a)
      ({ s.1 with journal := s.1.journal ++ [.suicide a], suicided := s.1.suicided.insert a () },
        s.2) := by
  refine writes_of { residue_refl s with suicided := fun b => ?_ } trivial
    ⟨fun _ => id, fun _ => id, fun _ => id⟩
  have before := FinMap.lookup_of_not_mem fresh
  have := lookup_restore_insert s.1.suicided a b ()
  rwa [before] at this

theorem writes_accessAddr {a : AddressBytes} (fresh : a ∉ s.1.accessAddrs) :
    Journal.Writes stateRules s (.accessAddr a)
      ({ s.1 with
        journal := s.1.journal ++ [.accessAddr a], accessAddrs := s.1.accessAddrs.insert a () },
        s.2) := by
  refine writes_of { residue_refl s with accessAddrs := fun b => ?_ } trivial
    ⟨fun _ => id, fun _ => id, fun _ => id⟩
  have before := FinMap.lookup_of_not_mem fresh
  have := lookup_restore_insert s.1.accessAddrs a b ()
  rwa [before] at this

theorem writes_warmSlot {a : AddressBytes} {h : Hash} (cold : s.1.slotInAccessList a h = false) :
    Journal.Writes stateRules s (.accessSlot a h)
      ({ s.1 with
        journal := s.1.journal ++ [.accessSlot a h]
        accessSlots := s.1.accessSlots.insert a
          (((s.1.accessSlots.lookup a).getD ∅).insert h ()) }, s.2) := by
  have found : (s.1.accessSlots.insert a
      (((s.1.accessSlots.lookup a).getD ∅).insert h ())).lookup a =
      some (((s.1.accessSlots.lookup a).getD ∅).insert h ()) := lookup_insert _
  have before : ((s.1.accessSlots.lookup a).getD ∅).lookup h = none := by
    rw [StateAccount.slotInAccessList, FinMap.lookup2_eq_getD] at cold
    exact Option.isSome_eq_false_iff.mp cold |> Option.isNone_iff_eq_none.mp
  refine writes_of ?_ (FinMap.mem_iff_lookup.mpr ⟨_, found⟩) ⟨fun _ => id, fun b inside => ?_,
    fun _ => id⟩
  · rw [revert_accessSlot (s := (_, s.2)) found]
    refine { residue_refl s with accessMaps := fun b inside => ?_, accessSlots := fun b k => ?_ }
    · exact (mem_insert _).mpr (.inr ((mem_insert _).mpr (.inr inside)))
    · have undone := lookup_restore_insert ((s.1.accessSlots.lookup a).getD ∅) h k ()
      rw [before] at undone
      simp only [FinMap.lookup2_insert]
      split
      · rename_i same
        rw [same, FinMap.lookup2_eq_getD]
        exact undone
      · rfl
  · exact (mem_insert _).mpr (.inr inside)

theorem writes_addLog (s : StateAccount × Ledger) (log : Bytes) :
    Journal.Writes stateRules s .log (s.1.addLog log, s.2) :=
  writes_of { residue_refl s with logs := List.dropLast_concat } trivial
    ⟨fun _ => id, fun _ => id, fun _ => id⟩

theorem writes_balance (s : StateAccount × Ledger) (a : AddressBytes) (next : Int64) :
    Journal.Writes stateRules s (.balance a (((s.2.account? a).map Account.balance).getD 0))
      ({ s.1 with journal := s.1.journal ++
        [.balance a (((s.2.account? a).map Account.balance).getD 0)] }, s.2.setBalance a next) := by
  refine writes_of { residue_refl s with holders := fun b inside => ?_, native := fun b => ?_ } ?_
    ⟨fun _ => id, fun _ => id, fun b inside => ?_⟩
  · exact (mem_setBalance _ _ _ _).mpr (.inr ((mem_setBalance _ _ _ _).mpr (.inr inside)))
  · change ((s.2.setBalance a next).setBalance a _).native b = s.2.native b
    rw [native_setBalance, native_setBalance, native_setBalance, if_pos rfl]
    split
    · rename_i same
      rw [same, Ledger.native]
      cases s.2.account? a <;> rfl
    · rfl
  · exact (mem_setBalance _ _ _ _).mpr (.inl rfl)
  · exact (mem_setBalance _ _ _ _).mpr (.inr inside)

end Writes

section Runs
variable {keccak : Bytes → Hash} {bottom : Nat} {s : StateAccount × Ledger}

private theorem run_silent {t : StateAccount × Ledger} (same : t.1.journal = s.1.journal)
    (below : Residue s t) :
    Journal.Run stateRules bottom s.1.journal s t.1.journal t := by
  rw [same]
  exact Journal.Run.refl.silent below

theorem run_writeBalance (a : AddressBytes) (next : Int64) :
    let t := s.1.writeBalance s.2 a (((s.2.account? a).map Account.balance).getD 0) next
    Journal.Run stateRules bottom s.1.journal s t.1.journal t := by
  unfold StateAccount.writeBalance
  split
  · exact .refl
  · exact Journal.Run.refl.write (writes_balance s a next)

theorem run_addAddress (a : AddressBytes) :
    Journal.Run stateRules bottom s.1.journal s (s.1.addAddressToAccessList a).journal
      (s.1.addAddressToAccessList a, s.2) := by
  unfold StateAccount.addAddressToAccessList
  split
  · exact .refl
  · rename_i fresh
    exact Journal.Run.refl.write (writes_accessAddr fresh)

theorem run_warmSlot (a : AddressBytes) (h : Hash) :
    Journal.Run stateRules bottom s.1.journal s (s.1.warmSlot a h).journal
      (s.1.warmSlot a h, s.2) := by
  unfold StateAccount.warmSlot
  split
  · exact .refl
  · rename_i cold
    exact Journal.Run.refl.write (writes_warmSlot (Bool.eq_false_iff.mpr cold))

theorem run_exec (op : Op) (within : op.Within bottom) :
    Journal.Run stateRules bottom s.1.journal s (op.exec keccak s).1.journal
      (op.exec keccak s) := by
  cases op with
  | createAccount a => exact Journal.Run.refl.write (writes_createAccount s a)
  | addBalance a amount => exact run_writeBalance a _
  | subBalance a amount => exact run_writeBalance a _
  | setNonce a n => exact Journal.Run.refl.write (writes_setNonce s a n)
  | setCode a c => exact Journal.Run.refl.write (writes_setCode keccak s a c)
  | addRefund gas => exact run_silent rfl { residue_refl s with }
  | subRefund gas => exact run_silent rfl { residue_refl s with }
  | setState a h v => exact Journal.Run.refl.write (writes_setState s a h v)
  | suicide a =>
    simp only [Op.exec, StateAccount.suicide]
    split
    · rename_i marked
      exact Journal.Run.refl.write (writes_suicide marked.2)
    · exact .refl
  | addAddressToAccessList a => exact run_addAddress a
  | addSlotToAccessList a h =>
    exact (run_addAddress a).comp (run_warmSlot (s := (s.1.addAddressToAccessList a, s.2)) a h)
  | addLog log => exact Journal.Run.refl.write (writes_addLog s log)
  | addPreimage h b => exact run_silent rfl { residue_refl s with }
  | revertToSnapshot sn =>
    -- the revert itself, then the shorter journal
    have still : Journal.Run stateRules bottom s.1.journal s s.1.journal s := .refl
    have back := still.revert sn.toNat within
    rw [← revertEntries_eq_undoAll] at back
    exact back.silent { residue_refl _ with }

theorem run_execAll (ops : List Op) (within : ∀ op ∈ ops, op.Within bottom) :
    Journal.Run stateRules bottom s.1.journal s (execAll keccak ops s).1.journal
      (execAll keccak ops s) := by
  induction ops generalizing s with
  | nil => exact .refl
  | cons op rest ih =>
    rw [List.forall_mem_cons] at within
    exact (run_exec op within.1).comp (ih within.2)

theorem Op.within_zero (op : Op) : op.Within 0 := by
  cases op <;> first | trivial | exact Nat.zero_le _

theorem run_transaction (keccak : Bytes → Hash) (sa : StateAccount) (l : Ledger)
    (warm : List AddressBytes) (accesses : List (AddressBytes × List Hash)) (ops : List Op) :
    let s := execAll keccak ops (beginTx sa l warm accesses)
    Journal.Run stateRules 0 [] (beginTx sa l warm accesses) s.1.journal s :=
  run_execAll (s := beginTx sa l warm accesses) ops fun op _ => op.within_zero

end Runs
end QwidNode.Source
