import QwidNode.Source.KeyRegistry

/-!
# What registering and unregistering do

Source: `blocks/processPubKey.go:72-441`. A registration writes the record first and can fail after
that; a registration that is new under its identity goes on to the address list, the height and the
journal.
-/
namespace QwidNode.Source.KeyRegistry
open Lib AList Option
variable {r r' r₁ r₂ : KeyRegistry} {env : KeyEnv} {pk : PubKey} {height : Int64}
  {d m : AddressBytes}

def addressesOf (r : KeyRegistry) (m : AddressBytes) : List Address := (r.lists.lookup m).getD []

def NoEmptyList (r : KeyRegistry) : Prop := ∀ m, r.lists.lookup m ≠ some []

theorem lookup_lists_congr (first : r.NoEmptyList) (second : r'.NoEmptyList)
    (same : r.addressesOf m = r'.addressesOf m) : r.lists.lookup m = r'.lists.lookup m := by
  unfold addressesOf at same
  have one := first m
  have two := second m
  cases left : r.lists.lookup m with
  | none =>
    cases right : r'.lists.lookup m with
    | none => rfl
    | some addrs => simp_all
  | some addrs =>
    cases right : r'.lists.lookup m with
    | none => simp_all
    | some addrs' => simp_all

def registersAnew (env : KeyEnv) (r : KeyRegistry) (pk : PubKey) : Bool :=
  env.own.isValidPubKeyLength pk.byteValue.length pk.primary &&
    !r.isRegisteredUnder pk.mainAddress.byteValue pk.address.byteValue &&
    decide ((r.addressesOf pk.mainAddress.byteValue).length < maxKeysPerIdentity)

def withRecord (r : KeyRegistry) (pk : PubKey) : KeyRegistry :=
  { r with records := r.records.insert pk.address.byteValue pk }

def listsWith (r : KeyRegistry) (env : KeyEnv) (pk : PubKey) : FinMap AddressBytes (List Address) :=
  r.lists.insert pk.mainAddress.byteValue
    (r.addressesOf pk.mainAddress.byteValue ++ [env.pubKeyToAddress pk.byteValue pk.primary])

def withNew (r : KeyRegistry) (env : KeyEnv) (pk : PubKey) (height : Int64) : KeyRegistry where
  records := r.records.insert pk.address.byteValue pk
  lists := r.listsWith env pk
  heights := r.heights.insert pk.address.byteValue height
  journal := r.journal.insert (height, pk.address.byteValue) pk.mainAddress.byteValue

theorem storePubKey_run (env : KeyEnv) (pk : PubKey) (r : KeyRegistry) :
    storePubKey env pk r =
      if env.derive pk.byteValue ≠ pk.address.byteValue then .error .addressDiffers r
      else .ok () (r.withRecord pk) := by
  unfold storePubKey
  rw [failIf_bind]
  rfl

theorem storePubKeyInPatriciaTrie_run (env : KeyEnv) (pk : PubKey) (r : KeyRegistry) :
    storePubKeyInPatriciaTrie env pk r =
      if env.own.isValidPubKeyLength pk.byteValue.length pk.primary = false then
        .error (.lengthOfNoScheme pk.byteValue.length) r
      else if r.isRegisteredUnder pk.mainAddress.byteValue pk.address.byteValue then .ok () r
      else if maxKeysPerIdentity ≤ (r.addressesOf pk.mainAddress.byteValue).length then
        .error (.tooManyKeys pk.mainAddress.byteValue) r
      else .ok () { r with lists := r.listsWith env pk } := by
  unfold storePubKeyInPatriciaTrie
  rw [failIf_bind]
  split
  · rfl
  · rw [get_bind_run]
    unfold isRegisteredUnder addressesOf
    split
    · rfl
    · rw [failIf_bind]
      rfl

theorem registerPubKeyAtHeight_final (env : KeyEnv) (pk : PubKey) (height : Int64)
    (r : KeyRegistry) :
    finalState (registerPubKeyAtHeight env pk height r) =
      if env.derive pk.byteValue ≠ pk.address.byteValue then r
      else if registersAnew env r pk then r.withNew env pk height
      else r.withRecord pk := by
  unfold registerPubKeyAtHeight
  rw [get_bind_run]
  by_cases differs : env.derive pk.byteValue ≠ pk.address.byteValue
  · rw [if_pos differs, bind_of_error ((storePubKey_run env pk r).trans (if_pos differs))]
    rfl
  · rw [if_neg differs, bind_of_ok ((storePubKey_run env pk r).trans (if_neg differs))]
    have run := storePubKeyInPatriciaTrie_run env pk (r.withRecord pk)
    have listed : (r.withRecord pk).isRegisteredUnder = r.isRegisteredUnder := rfl
    have addresses : (r.withRecord pk).addressesOf = r.addressesOf := rfl
    rw [listed, addresses] at run
    unfold registersAnew
    cases valid : env.own.isValidPubKeyLength pk.byteValue.length pk.primary with
    | false =>
      rw [valid, if_pos rfl] at run
      rw [bind_of_error run]
      rfl
    | true =>
      rw [valid, if_neg nofun] at run
      cases known : r.isRegisteredUnder pk.mainAddress.byteValue pk.address.byteValue with
      | true =>
        rw [known, if_pos rfl] at run
        rw [bind_of_ok run]
        rfl
      | false =>
        rw [known, if_neg nofun] at run
        split at run
        case isTrue full =>
          rw [bind_of_error run]
          simp [full]
        case isFalse room =>
          rw [bind_of_ok run]
          have less : (r.addressesOf pk.mainAddress.byteValue).length < maxKeysPerIdentity :=
            Nat.not_le.mp room
          simp only [less]
          rfl

theorem addressesOf_withNew (r : KeyRegistry) (env : KeyEnv) (pk : PubKey) (height : Int64)
    (m : AddressBytes) :
    (r.withNew env pk height).addressesOf m = r.addressesOf m ++
      if m = pk.mainAddress.byteValue then [env.pubKeyToAddress pk.byteValue pk.primary] else [] := by
  unfold withNew listsWith
  by_cases owner : m = pk.mainAddress.byteValue
  · subst owner
    rw [if_pos rfl, addressesOf, lookup_insert, getD_some]
  · rw [if_neg owner, List.append_nil, addressesOf, lookup_insert_ne owner]
    rfl

theorem processTxPubKey_final (env : KeyEnv) (tx : Transaction) (height : Int64) (r : KeyRegistry) :
    finalState (processTxPubKey env tx height r) =
      if tx.txData.pubkey.byteValue ≠ [] ∧
          (enclosedKey env tx).mainAddress.byteValue = tx.txParam.sender.byteValue then
        finalState (registerPubKeyAtHeight env (enclosedKey env tx) height r)
      else r := by
  unfold processTxPubKey
  by_cases empty : tx.txData.pubkey.byteValue = []
  · simp [empty]
  · by_cases named : (enclosedKey env tx).mainAddress.byteValue = tx.txParam.sender.byteValue
    · simp [empty, named]
    · simp [empty, named]

def listsWithout (r : KeyRegistry) (d m : AddressBytes) : FinMap AddressBytes (List Address) :=
  match r.lists.lookup m with
  | none => r.lists
  | some addrs =>
    let kept := addrs.filter fun a => a.byteValue != d
    if kept.length = addrs.length then r.lists
    else if kept = [] then r.lists.erase m
    else r.lists.insert m kept

theorem unregisterPubKey_eq (r : KeyRegistry) (d m : AddressBytes) :
    r.unregisterPubKey d m =
      { records := r.records.erase d, lists := r.listsWithout d m, heights := r.heights.erase d,
        journal := r.journal } := by
  unfold unregisterPubKey listsWithout
  cases listed : r.lists.lookup m with
  | none => simp only [listed]
  | some addrs =>
    simp only [listed]
    split
    · rfl
    · split <;> rfl

theorem lookup_listsWithout (r : KeyRegistry) (d m : AddressBytes) :
    ((r.listsWithout d m).lookup m).getD [] =
      (r.addressesOf m).filter fun a => a.byteValue != d := by
  unfold listsWithout addressesOf
  cases listed : r.lists.lookup m with
  | none => simp [listed]
  | some addrs =>
    simp only
    split
    case isTrue whole =>
      have same : addrs.filter (fun a => a.byteValue != d) = addrs :=
        List.filter_eq_self.mpr (List.length_filter_eq_length_iff.mp whole)
      simp [listed, same]
    case isFalse =>
      split
      case isTrue empty => simp [empty]
      case isFalse => simp

theorem lookup_listsWithout_ne (r : KeyRegistry) (d : AddressBytes) {m m' : AddressBytes}
    (other : m' ≠ m) : (r.listsWithout d m).lookup m' = r.lists.lookup m' := by
  unfold listsWithout
  split
  · rfl
  · simp only
    split
    · rfl
    · split
      · exact lookup_erase_ne other
      · exact lookup_insert_ne other

theorem listsWithout_nonempty (nonempty : r.NoEmptyList) (d m m' : AddressBytes) :
    (r.listsWithout d m).lookup m' ≠ some [] := by
  by_cases other : m' = m
  · subst other
    unfold listsWithout
    split
    · exact nonempty m'
    · simp only
      split
      · exact nonempty m'
      · split
        · simp [reduceCtorEq]
        case isFalse some_left =>
          simpa only [lookup_insert, ne_eq, Option.some.injEq] using some_left
  · rw [lookup_listsWithout_ne r d other]
    exact nonempty m'

/-- `r'` is `r` with the journalled registrations that a test selects taken back. -/
structure Undone (select : Int64 × AddressBytes → Bool) (r r' : KeyRegistry) : Prop where
  journal : ∀ k, r'.journal.lookup k = if select k then none else r.journal.lookup k
  gone : ∀ h d m, select (h, d) = true → r.journal.lookup (h, d) = some m →
    r'.records.lookup d = none ∧ r'.heights.lookup d = none
  kept : ∀ d, (∀ h m, select (h, d) = true → r.journal.lookup (h, d) ≠ some m) →
    r'.records.lookup d = r.records.lookup d ∧ r'.heights.lookup d = r.heights.lookup d
  lists : ∀ m, ∃ keep : Address → Bool, r'.addressesOf m = (r.addressesOf m).filter keep ∧
    ∀ a, keep a = true ↔
      ∀ h, select (h, a.byteValue) = true → r.journal.lookup (h, a.byteValue) ≠ some m
  nonempty : r.NoEmptyList → r'.NoEmptyList

namespace Undone
variable {select select₁ select₂ : Int64 × AddressBytes → Bool}

theorem refl (r : KeyRegistry) : Undone (fun _ => false) r r where
  journal _ := rfl
  gone _ _ _ no := nomatch no
  kept _ _ := ⟨rfl, rfl⟩
  lists m := ⟨fun _ => true, by simp, fun _ => by simp⟩
  nonempty := id

theorem congr (undone : Undone select₁ r r')
    (same : ∀ k m, r.journal.lookup k = some m → select₁ k = select₂ k) :
    Undone select₂ r r' where
  journal k := by
    rw [undone.journal k]
    cases found : r.journal.lookup k with
    | none => simp
    | some m => rw [same k m found]
  gone h d m selected found := undone.gone h d m ((same _ m found).trans selected) found
  kept d none := undone.kept d fun h m selected found =>
    none h m ((same _ m found).symm.trans selected) found
  lists m := by
    obtain ⟨keep, filtered, iff⟩ := undone.lists m
    refine ⟨keep, filtered, fun a => (iff a).trans ?_⟩
    constructor
    · exact fun none h selected found => none h ((same _ m found).trans selected) found
    · exact fun none h selected found => none h ((same _ m found).symm.trans selected) found
  nonempty := undone.nonempty

theorem trans (first : Undone select₁ r r₁) (second : Undone select₂ r₁ r₂) :
    Undone (fun k => select₁ k || select₂ k) r r₂ where
  journal k := by
    rw [second.journal k, first.journal k]
    cases select₁ k <;> cases select₂ k <;> rfl
  gone h d m selected found := by
    by_cases later : ∃ h' m', select₂ (h', d) = true ∧ r₁.journal.lookup (h', d) = some m'
    · obtain ⟨h', m', chosen, there⟩ := later
      exact second.gone h' d m' chosen there
    · have stays := second.kept d fun h' m' chosen there => later ⟨h', m', chosen, there⟩
      have early : select₁ (h, d) = true := by
        by_contra not
        rw [Bool.not_eq_true] at not
        refine later ⟨h, m, by simpa [not] using selected, ?_⟩
        rw [first.journal, not]
        exact found
      have out := first.gone h d m early found
      exact ⟨stays.1.trans out.1, stays.2.trans out.2⟩
  kept d none := by
    have one := first.kept d fun h m selected => none h m (by simp [selected])
    have two := second.kept d fun h m selected found => by
      rw [first.journal] at found
      split at found
      · cases found
      · exact none h m (by simp [selected]) found
    exact ⟨two.1.trans one.1, two.2.trans one.2⟩
  lists m := by
    obtain ⟨keep₁, filtered₁, iff₁⟩ := first.lists m
    obtain ⟨keep₂, filtered₂, iff₂⟩ := second.lists m
    refine ⟨fun a => keep₂ a && keep₁ a, ?_, fun a => ?_⟩
    · rw [filtered₂, filtered₁, List.filter_filter]
    · rw [Bool.and_eq_true, iff₁, iff₂]
      constructor
      · rintro ⟨late, early⟩ h selected found
        by_cases chosen : select₁ (h, a.byteValue) = true
        · exact early h chosen found
        · refine late h (by simpa [chosen] using selected) ?_
          rw [first.journal, if_neg chosen]
          exact found
      · intro none
        refine ⟨fun h chosen found => ?_, fun h chosen => none h (by simp [chosen])⟩
        rw [first.journal] at found
        split at found
        · cases found
        · exact none h (by simp [chosen]) found
  nonempty start := second.nonempty (first.nonempty start)

end Undone

theorem undone_entry {h : Int64} (found : r.journal.lookup (h, d) = some m) :
    Undone (fun k => k == (h, d)) r
      { r.unregisterPubKey d m with journal := (r.unregisterPubKey d m).journal.erase (h, d) } := by
  rw [unregisterPubKey_eq]
  refine ⟨fun k => ?_, fun h' d' m' selected _ => ?_, fun d' none => ?_, fun m' => ?_,
    fun start => listsWithout_nonempty start d m⟩
  · by_cases here : k = (h, d)
    · subst here
      simp
    · simp [here, lookup_erase_ne here]
  · obtain ⟨-, rfl⟩ := Prod.mk.inj (eq_of_beq selected)
    exact ⟨lookup_erase _ _, lookup_erase _ _⟩
  · have other : d' ≠ d := by
      rintro rfl
      exact none h m (beq_self_eq_true _) found
    exact ⟨lookup_erase_ne other, lookup_erase_ne other⟩
  · by_cases owner : m' = m
    · subst owner
      refine ⟨fun a => a.byteValue != d, lookup_listsWithout r d m', fun a => ?_⟩
      rw [bne_iff_ne]
      constructor
      · intro other h' selected
        exact absurd (Prod.mk.inj (eq_of_beq selected)).2 other
      · rintro none rfl
        exact none h (beq_self_eq_true _) found
    · refine ⟨fun _ => true, ?_, fun a => ⟨fun _ h' selected there => owner ?_, fun _ => rfl⟩⟩
      · rw [List.filter_true]
        exact congrArg (Option.getD · []) (lookup_listsWithout_ne r d owner)
      · rw [eq_of_beq selected, found] at there
        exact (Option.some.inj there).symm

theorem undone_entries (entries : List (Sigma fun _ : Int64 × AddressBytes => AddressBytes))
    (distinct : (entries.map Sigma.fst).Nodup)
    (there : ∀ e ∈ entries, r.journal.lookup e.1 = some e.2) :
    Undone (fun k => entries.any fun e => k == e.1) r (entries.foldl (fun r e =>
      let r := r.unregisterPubKey e.1.2 e.2
      { r with journal := r.journal.erase e.1 }) r) := by
  induction entries generalizing r with
  | nil => exact Undone.refl r
  | cons e rest ih =>
    obtain ⟨apart, distinct⟩ := List.nodup_cons.mp distinct
    have first := undone_entry (there e List.mem_cons_self)
    refine first.trans (ih distinct fun e' member => ?_)
    have other : e'.1 ≠ e.1 := fun same => apart (same ▸ List.mem_map_of_mem member)
    rw [first.journal, if_neg (by simpa using other)]
    exact there e' (List.mem_cons_of_mem e member)

theorem undone_undoJournal (r : KeyRegistry) (select : Int64 → Bool) :
    Undone (fun k => select k.1) r (r.undoJournal select) := by
  unfold undoJournal
  have keys : ((r.journal.entries.filter fun e => select e.1.1).map Sigma.fst).Nodup :=
    (List.Sublist.map _ List.filter_sublist).nodup r.journal.nodupKeys
  have there : ∀ e ∈ r.journal.entries.filter fun e => select e.1.1,
      r.journal.lookup e.1 = some e.2 := fun e member =>
    AList.mem_lookup_iff.mpr (List.mem_filter.mp member).1
  refine (undone_entries _ keys there).congr fun k m found => ?_
  have entry : (⟨k, m⟩ : Sigma fun _ : Int64 × AddressBytes => AddressBytes) ∈ r.journal.entries :=
    AList.mem_lookup_iff.mp found
  rw [Bool.eq_iff_iff, List.any_eq_true]
  constructor
  · rintro ⟨e, member, same⟩
    rw [eq_of_beq same]
    exact (List.mem_filter.mp member).2
  · intro selected
    exact ⟨_, List.mem_filter.mpr ⟨entry, selected⟩, beq_self_eq_true _⟩

theorem undone_heights (heights : List Int64) (r : KeyRegistry) :
    Undone (fun k => heights.any fun h => k.1 == h) r (heights.foldl unregisterPubKeysAtHeight r) := by
  induction heights generalizing r with
  | nil => exact Undone.refl r
  | cons h rest ih => exact (undone_undoJournal r fun k => k == h).trans (ih _)

def Reaches (target top height : Int64) : Prop :=
  target < height ∧
    (target < top ∧ top - target ≤ journalPerHeightScanLimit → height ≤ top)

instance (target top height : Int64) : Decidable (Reaches target top height) :=
  inferInstanceAs (Decidable (_ ∧ (_ → _)))

theorem undone_aboveHeight (r : KeyRegistry) (target top : Int64) :
    Undone (fun k => decide (Reaches target top k.1)) r
      (r.unregisterPubKeysAboveHeight target top) := by
  unfold unregisterPubKeysAboveHeight
  split
  case isTrue short =>
    refine (undone_heights _ r).congr fun k m _ => ?_
    rw [Bool.eq_iff_iff, List.any_eq_true, decide_eq_true_eq]
    constructor
    · rintro ⟨h, member, same⟩
      rw [eq_of_beq same]
      have range := Word.mem_range_above.mp member
      exact ⟨range.1, fun _ => range.2⟩
    · intro reached
      exact ⟨k.1, Word.mem_range_above.mpr ⟨reached.1, reached.2 short⟩, beq_self_eq_true _⟩
  case isFalse whole =>
    refine (undone_undoJournal r fun h => target < h).congr fun k m _ => ?_
    exact decide_eq_decide.mpr ⟨fun above => ⟨above, fun short => absurd short whole⟩, And.left⟩

end QwidNode.Source.KeyRegistry
