import QwidNode.Source.KeyUndo

/-!
# Rewinding the key registry

The journal names a registration by its height and by the address the key derives. Taking it back
above a height therefore restores the registry when every key registered there was new to the whole
registry, no record was rewritten with other contents, no registration failed after writing the
record, and the sweep reaches the height.
-/
namespace QwidNode.Guarantees
open Lib Source KeyRegistry List AList
variable {env : KeyEnv} {t top height : Int64} {r₀ r r' : KeyRegistry} {pk : PubKey}
  {tx : Transaction}

structure SameKeys (r r' : KeyRegistry) : Prop where
  records : ∀ d, r.records.lookup d = r'.records.lookup d
  lists : ∀ m, r.lists.lookup m = r'.lists.lookup m
  heights : ∀ d, r.heights.lookup d = r'.heights.lookup d

/-- A registry at a height: nothing is journalled above it, a key with a height has a record, and
no list is empty. -/
structure SettledAt (t : Int64) (r : KeyRegistry) : Prop where
  journal : ∀ h d, t < h → r.journal.lookup (h, d) = none
  heights : ∀ d, r.records.lookup d = none → r.heights.lookup d = none
  nonempty : r.NoEmptyList

/-- A registration can be taken back: a key that is new under its identity is new to the registry,
and any other registration rewrites the record it finds. -/
def Reversible (env : KeyEnv) (r : KeyRegistry) (pk : PubKey) : Prop :=
  env.derive pk.byteValue = pk.address.byteValue →
    r.records.lookup pk.address.byteValue = if registersAnew env r pk then none else some pk

/-- The same of the key a transaction registers, if it registers one. -/
def ReversibleTx (env : KeyEnv) (r : KeyRegistry) (tx : Transaction) : Prop :=
  tx.txData.pubkey.byteValue ≠ [] →
    (enclosedKey env tx).mainAddress.byteValue = tx.txParam.sender.byteValue →
    Reversible env r (enclosedKey env tx)

/-- The same of every transaction of a block, in the registry it meets. -/
def ReversibleTxs (env : KeyEnv) (load : Hash → Option Transaction) (height : Int64) :
    List Hash → KeyRegistry → Prop
  | [], _ => True
  | hash :: rest, r =>
    match load hash with
    | none => True
    | some tx => ReversibleTx env r tx ∧
      ∀ r', processTxPubKey env tx height r = .ok () r' → ReversibleTxs env load height rest r'

/-- Blocks above a height, each applied or failing part-way, that keep to the condition. -/
inductive RegistryRun (t top : Int64) (r₀ : KeyRegistry) : KeyRegistry → Prop where
  | start : RegistryRun t top r₀ r₀
  | block {r : KeyRegistry} (run : RegistryRun t top r₀ r) (env : KeyEnv)
      (load : Hash → Option Transaction) (block : Block) (reached : Reaches t top block.height)
      (reversible : ReversibleTxs env load block.height block.transactionsHashes r) :
      RegistryRun t top r₀ (finalState (processBlockPubKey env load block r))

structure Grown (t top : Int64) (r₀ r : KeyRegistry) : Prop where
  reached : ∀ h d m, t < h → r.journal.lookup (h, d) = some m → Reaches t top h
  late : ∀ h d m, t < h → r.journal.lookup (h, d) = some m → t < r.registrationHeight d
  young : ∀ h d m, t < h → r.journal.lookup (h, d) = some m →
    r₀.records.lookup d = none ∧ r₀.heights.lookup d = none ∧ r.records.lookup d ≠ none ∧
      ∀ a ∈ r₀.addressesOf m, a.byteValue ≠ d
  old : ∀ d, (∀ h m, t < h → r.journal.lookup (h, d) ≠ some m) →
    r.records.lookup d = r₀.records.lookup d ∧ r.heights.lookup d = r₀.heights.lookup d
  lists : ∀ m, ∃ new, r.addressesOf m = r₀.addressesOf m ++ new ∧
    ∀ a ∈ new, ∃ h, t < h ∧ r.journal.lookup (h, a.byteValue) = some m
  nonempty : r.NoEmptyList

theorem Grown.refl (settled : SettledAt t r₀) : Grown t top r₀ r₀ where
  reached h d _ above found := nomatch (settled.journal h d above).symm.trans found
  late h d _ above found := nomatch (settled.journal h d above).symm.trans found
  young h d _ above found := nomatch (settled.journal h d above).symm.trans found
  old _ _ := ⟨rfl, rfl⟩
  lists _ := ⟨[], (append_nil _).symm, nofun⟩
  nonempty := settled.nonempty

section
variable (grown : Grown t top r₀ r)
include grown

theorem Grown.restored (settled : SettledAt t r₀) :
    SameKeys r₀ (r.unregisterPubKeysAboveHeight t top) := by
  have undone := undone_aboveHeight r t top
  have tables : ∀ d,
      r₀.records.lookup d = (r.unregisterPubKeysAboveHeight t top).records.lookup d ∧
      r₀.heights.lookup d = (r.unregisterPubKeysAboveHeight t top).heights.lookup d := by
    intro d
    by_cases added : ∃ h m, t < h ∧ r.journal.lookup (h, d) = some m
    · obtain ⟨h, m, above, found⟩ := added
      have reached := grown.reached h d m above found
      have gone := undone.gone h d m (decide_eq_true reached) found
      have young := grown.young h d m above found
      exact ⟨young.1.trans gone.1.symm, young.2.1.trans gone.2.symm⟩
    · have none : ∀ h m, t < h → r.journal.lookup (h, d) ≠ some m := fun h m above found =>
        added ⟨h, m, above, found⟩
      have kept := undone.kept d fun h m selected => none h m (of_decide_eq_true selected).1
      have old := grown.old d none
      exact ⟨(kept.1.trans old.1).symm, (kept.2.trans old.2).symm⟩
  refine ⟨fun d => (tables d).1, fun m => ?_, fun d => (tables d).2⟩
  refine lookup_lists_congr settled.nonempty (undone.nonempty grown.nonempty) ?_
  obtain ⟨keep, filtered, iff⟩ := undone.lists m
  obtain ⟨new, appended, named⟩ := grown.lists m
  have stays : (r₀.addressesOf m).filter keep = r₀.addressesOf m :=
    List.filter_eq_self.mpr fun a member => (iff a).mpr fun h selected found =>
      (grown.young h a.byteValue m (of_decide_eq_true selected).1 found).2.2.2 a member rfl
  have leaves : new.filter keep = [] := by
    refine List.filter_eq_nil_iff.mpr fun a member kept => ?_
    obtain ⟨h, above, found⟩ := named a member
    exact (iff a).mp kept h (decide_eq_true (grown.reached h _ m above found)) found
  rw [filtered, appended, filter_append, stays, leaves, append_nil]

theorem Grown.withRecord (same : r.records.lookup pk.address.byteValue = some pk) :
    Grown t top r₀ (r.withRecord pk) := by
  have records : ∀ d, (r.withRecord pk).records.lookup d = r.records.lookup d := by
    intro d
    by_cases here : d = pk.address.byteValue
    · subst here
      exact (lookup_insert _).trans same.symm
    · exact lookup_insert_ne here
  refine ⟨grown.reached, grown.late, fun h d m above found => ?_, fun d none => ?_, grown.lists,
    grown.nonempty⟩
  · rw [records d]
    exact grown.young h d m above found
  · rw [records d]
    exact grown.old d none

theorem Grown.free {d : AddressBytes} (free : r.records.lookup d = none) (h : Int64)
    (m : AddressBytes) (above : t < h) :
    r.journal.lookup (h, d) ≠ some m := fun found =>
  (grown.young h d m above found).2.2.1 free

theorem Grown.withNew (settled : SettledAt t r₀)
    (derived : env.derive pk.byteValue = pk.address.byteValue)
    (anew : registersAnew env r pk = true) (free : r.records.lookup pk.address.byteValue = none)
    (reached : Reaches t top height) : Grown t top r₀ (r.withNew env pk height) := by
  have absent := grown.free free
  have before := grown.old _ absent
  have none : r₀.records.lookup pk.address.byteValue = none := before.1.symm.trans free
  have here : (r.withNew env pk height).journal.lookup (height, pk.address.byteValue) =
      some pk.mainAddress.byteValue := lookup_insert _
  have elsewhere : ∀ k, k ≠ (height, pk.address.byteValue) →
      (r.withNew env pk height).journal.lookup k = r.journal.lookup k := fun k other =>
    lookup_insert_ne other
  have persists : ∀ h d m, t < h → r.journal.lookup (h, d) = some m →
      (r.withNew env pk height).journal.lookup (h, d) = some m := by
    intro h d m above found
    refine (elsewhere _ fun same => ?_).trans found
    obtain ⟨rfl, rfl⟩ := Prod.mk.inj same
    exact absent h m above found
  have outside : ∀ a ∈ r.addressesOf pk.mainAddress.byteValue,
      a.byteValue ≠ pk.address.byteValue := by
    simp only [registersAnew, isRegisteredUnder, Bool.and_eq_true, Bool.not_eq_true',
      List.any_eq_false, beq_iff_eq] at anew
    exact anew.1.2
  refine ⟨fun h d m above found => ?_, fun h d m above found => ?_, fun h d m above found => ?_,
    fun d never => ?_, fun m => ?_, fun m => ?_⟩
  · by_cases same : (h, d) = (height, pk.address.byteValue)
    · rw [(Prod.mk.inj same).1]
      exact reached
    · exact grown.reached h d m above ((elsewhere _ same).symm.trans found)
  · unfold registrationHeight
    by_cases own : d = pk.address.byteValue
    · subst own
      rw [KeyRegistry.withNew, lookup_insert]
      exact reached.1
    · have other : (h, d) ≠ (height, pk.address.byteValue) := fun same => own (Prod.mk.inj same).2
      rw [KeyRegistry.withNew, lookup_insert_ne own]
      exact grown.late h d m above ((elsewhere _ other).symm.trans found)
  · by_cases same : (h, d) = (height, pk.address.byteValue)
    · rw [same, here] at found
      obtain ⟨rfl, rfl⟩ := Prod.mk.inj same
      obtain rfl := Option.some.inj found
      refine ⟨none, settled.heights _ none, ?_, fun a member => outside a ?_⟩
      · exact fun empty => nomatch (lookup_insert _).symm.trans empty
      · obtain ⟨new, appended, -⟩ := grown.lists pk.mainAddress.byteValue
        rw [appended]
        exact mem_append_left new member
    · have young := grown.young h d m above ((elsewhere _ same).symm.trans found)
      have other : d ≠ pk.address.byteValue := fun same => young.2.2.1 (same ▸ free)
      refine ⟨young.1, young.2.1, fun empty => young.2.2.1 ?_, young.2.2.2⟩
      exact (lookup_insert_ne other).symm.trans empty
  · have other : d ≠ pk.address.byteValue := by
      rintro rfl
      exact never height _ reached.1 here
    have old := grown.old d fun h m above found => never h m above (persists h d m above found)
    exact ⟨(lookup_insert_ne other).trans old.1, (lookup_insert_ne other).trans old.2⟩
  · obtain ⟨new, appended, named⟩ := grown.lists m
    refine ⟨_, by rw [addressesOf_withNew, appended, append_assoc], fun a member => ?_⟩
    rcases List.mem_append.mp member with earlier | now
    · obtain ⟨h, above, found⟩ := named a earlier
      exact ⟨h, above, persists h _ m above found⟩
    · split at now
      case isTrue owner =>
        obtain rfl := List.mem_singleton.mp now
        refine ⟨height, reached.1, ?_⟩
        change (r.withNew env pk height).journal.lookup (height, env.derive pk.byteValue) = some m
        rw [owner, derived]
        exact here
      case isFalse => cases now
  · intro empty
    have nothing : (r.withNew env pk height).addressesOf m = [] := by rw [addressesOf, empty]; rfl
    rw [addressesOf_withNew] at nothing
    by_cases owner : m = pk.mainAddress.byteValue
    · simp [owner] at nothing
    · exact grown.nonempty m ((lookup_insert_ne owner).symm.trans empty)

theorem Grown.register (settled : SettledAt t r₀) (reversible : Reversible env r pk)
    (reached : Reaches t top height) :
    Grown t top r₀ (finalState (registerPubKeyAtHeight env pk height r)) := by
  rw [registerPubKeyAtHeight_final]
  split
  · exact grown
  case isFalse derived =>
    rw [not_not] at derived
    have found := reversible derived
    split
    case isTrue anew =>
      rw [if_pos anew] at found
      exact grown.withNew settled derived anew found reached
    case isFalse known =>
      rw [if_neg known] at found
      exact grown.withRecord found

theorem Grown.processTx (settled : SettledAt t r₀) (reversible : ReversibleTx env r tx)
    (reached : Reaches t top height) :
    Grown t top r₀ (finalState (processTxPubKey env tx height r)) := by
  rw [processTxPubKey_final]
  split
  case isTrue registers =>
    exact grown.register settled (reversible registers.1 registers.2) reached
  case isFalse => exact grown

end

theorem Grown.processHashes {load : Hash → Option Transaction} (settled : SettledAt t r₀)
    (reached : Reaches t top height) (hashes : List Hash) (grown : Grown t top r₀ r)
    (reversible : ReversibleTxs env load height hashes r) :
    Grown t top r₀ (finalState (hashes.forM (processHashPubKey env load height) r)) := by
  induction hashes generalizing r with
  | nil => exact grown
  | cons hash rest ih =>
    unfold ReversibleTxs at reversible
    change Grown t top r₀ (finalState ((processHashPubKey env load height hash >>= fun _ =>
      rest.forM (processHashPubKey env load height)) r))
    unfold processHashPubKey at ih ⊢
    cases found : load hash with
    | none => exact grown
    | some tx =>
      rw [found] at reversible
      have step := grown.processTx settled reversible.1 reached
      cases run : processTxPubKey env tx height r with
      | ok _ r' =>
        rw [run] at step
        rw [bind_of_ok run]
        exact ih step (reversible.2 r' run)
      | error e r' =>
        rw [run] at step
        rw [bind_of_error run]
        exact step

theorem RegistryRun.grown (settled : SettledAt t r₀) (run : RegistryRun t top r₀ r) :
    Grown t top r₀ r := by
  induction run with
  | start => exact Grown.refl settled
  | block _ env load block reached reversible ih =>
    exact Grown.processHashes settled reached block.transactionsHashes ih reversible

theorem reversible_of_restored (settled : SettledAt t r₀) (reached : Reaches t top height)
    (same : SameKeys r₀ ((finalState (registerPubKeyAtHeight env pk height r₀)).unregisterPubKeysAboveHeight
      t top)) : Reversible env r₀ pk := by
  intro derived
  rw [registerPubKeyAtHeight_final, if_neg (not_not.mpr derived)] at same
  have records := same.records pk.address.byteValue
  split
  case isTrue anew =>
    rw [if_pos anew] at records
    have undone := undone_aboveHeight (r₀.withNew env pk height) t top
    have found : (r₀.withNew env pk height).journal.lookup (height, pk.address.byteValue) =
      some pk.mainAddress.byteValue := lookup_insert _
    exact records.trans (undone.gone height _ _ (decide_eq_true reached) found).1
  case isFalse known =>
    rw [if_neg known] at records
    have undone := undone_aboveHeight (r₀.withRecord pk) t top
    have kept := undone.kept pk.address.byteValue fun h m selected found =>
      nomatch (settled.journal h _ (of_decide_eq_true selected).1).symm.trans found
    exact records.trans (kept.1.trans (lookup_insert _))

/-- In every run of blocks whose registrations are reversible and within reach, rewinding restores
the registry. One transaction above the height is restored exactly when it is reversible. -/
theorem registry_rewinds (t top : Int64) (r₀ : KeyRegistry) (settled : SettledAt t r₀) :
    (∀ r, RegistryRun t top r₀ r → SameKeys r₀ (r.unregisterPubKeysAboveHeight t top)) ∧
      ∀ env tx height, Reaches t top height →
        (SameKeys r₀ ((finalState (processTxPubKey env tx height r₀)).unregisterPubKeysAboveHeight
          t top) ↔ ReversibleTx env r₀ tx) := by
  refine ⟨fun r run => (run.grown settled).restored settled, fun env tx height reached =>
    ⟨fun same nonempty named => ?_, fun reversible => ?_⟩⟩
  · rw [processTxPubKey_final, if_pos ⟨nonempty, named⟩] at same
    exact reversible_of_restored settled reached same
  · exact ((Grown.refl settled).processTx settled reversible reached).restored settled

def bytesEnv : KeyEnv where
  derive := addressOfBytes
  own :=
    { primary := ⟨⟨3, 1, 1, [65], false⟩, ⟨3, 1, 1, [65], false⟩⟩
      secondary := ⟨⟨2, 1, 1, [66], true⟩, ⟨2, 1, 1, [66], true⟩⟩ }

def enclosing (sender : AddressBytes) (key : Bytes) : Transaction :=
  let tx := Transaction.plain sender sender 0 0 0
  { tx with txData := { tx.txData with
      pubkey := ⟨key, ⟨addressOfBytes key, true⟩, ⟨sender, true⟩, true⟩ } }

def registryAfter (height : Int64) (txs : List Transaction) (r : KeyRegistry) : KeyRegistry :=
  finalState (processBlockPubKey bytesEnv (fun hash => txs[hash.toNat]?)
    (Block.operated height 0 ((List.range txs.length).map (BitVec.ofNat 256 ·))) r)

def fullRegistry : KeyRegistry where
  records := (List.range maxKeysPerIdentity).foldl (fun records i => records.insert
    (BitVec.ofNat 160 i) ⟨[0, 0, UInt8.ofNat i], ⟨BitVec.ofNat 160 i, true⟩, ⟨0xAA, true⟩, true⟩) ∅
  lists := AList.insert (0xAA : AddressBytes)
    ((List.range maxKeysPerIdentity).map fun i => ⟨BitVec.ofNat 160 i, true⟩) ∅

theorem settled_single (records : FinMap AddressBytes PubKey) (op : AddressBytes)
    {keys : List Address} (some_key : keys ≠ []) :
    SettledAt 0 { records, lists := AList.insert op keys ∅ } where
  journal _ _ _ := rfl
  heights _ _ := rfl
  nonempty m empty := by
    by_cases owner : m = op
    · subst owner
      rw [lookup_insert] at empty
      exact some_key (Option.some.inj empty)
    · rw [lookup_insert_ne owner] at empty
      cases empty

theorem reversibleTxs_cons {load : Hash → Option Transaction} {hash : Hash} {rest : List Hash}
    (found : load hash = some tx) (here : ReversibleTx env r tx)
    (later : ReversibleTxs env load height rest (finalState (processTxPubKey env tx height r))) :
    ReversibleTxs env load height (hash :: rest) r := by
  unfold ReversibleTxs
  rw [found]
  refine ⟨here, fun r' run => ?_⟩
  rw [run] at later
  exact later

/-- Three rewinds to height 0 that leave something behind: two identities enclose one key in a
block, and the first keeps it in its list; an identity with the most keys it may have encloses
another one, and its record stays; the block at height 2 fails after it registered a key, and the
sweep goes up to height 1 only. -/
theorem rewind_leaves_keys :
    SettledAt 0 fullRegistry ∧
      ¬ SameKeys fullRegistry ((registryAfter 1 [enclosing 0xBB [1, 2, 3], enclosing 0xCC [1, 2, 3]]
        fullRegistry).unregisterPubKeysAboveHeight 0 1) ∧
      ¬ SameKeys fullRegistry ((registryAfter 1 [enclosing 0xAA [1, 2, 3]]
        fullRegistry).unregisterPubKeysAboveHeight 0 1) ∧
      ¬ SameKeys fullRegistry ((registryAfter 2 [enclosing 0xBB [1, 2, 3], enclosing 0xAA [4, 5, 6]]
        (registryAfter 1 [] fullRegistry)).unregisterPubKeysAboveHeight 0 1) := by
  refine ⟨settled_single _ _ (by decide), fun same => ?_, fun same => ?_, fun same => ?_⟩
  · exact absurd (same.lists 0xBB) (by decide +kernel)
  · exact absurd (same.records (addressOfBytes [1, 2, 3])) (by decide +kernel)
  · exact absurd (same.lists 0xBB) (by decide +kernel)

/-- A block that registers two keys, one of them twice, is taken back. -/
theorem registered_keys_rewound :
    (registryAfter 1 [enclosing 0xBB [1, 2, 3], enclosing 0xBB [4, 5, 6], enclosing 0xBB [1, 2, 3]]
        fullRegistry).addressesOf 0xBB ≠ [] ∧
      SameKeys fullRegistry ((registryAfter 1 [enclosing 0xBB [1, 2, 3], enclosing 0xBB [4, 5, 6],
        enclosing 0xBB [1, 2, 3]] fullRegistry).unregisterPubKeysAboveHeight 0 1) := by
  refine ⟨by decide +kernel, (registry_rewinds 0 1 fullRegistry (settled_single _ _ (by decide))).1 _
    (.block .start bytesEnv _ _ (by decide) ?_)⟩
  refine reversibleTxs_cons rfl (fun _ _ _ => by decide +kernel) ?_
  refine reversibleTxs_cons rfl (fun _ _ _ => by decide +kernel) ?_
  exact reversibleTxs_cons rfl (fun _ _ _ => by decide +kernel) trivial

end QwidNode.Guarantees
