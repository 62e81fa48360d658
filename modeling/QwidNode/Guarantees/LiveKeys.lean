import QwidNode.Guarantees.SchemeVotes

/-!
# Keys of the scheme that becomes live

A block that changes which scheme is live either un-pauses the primary or pauses it. An un-pause is
judged by the key registry as of the parent: the operator and two thirds of the eligible stake have
a key of the un-paused scheme by then.
-/
namespace QwidNode.Guarantees
open Lib Source Ledger Node KeyRegistry AList
variable {env : SchemeEnv} {l : Ledger} {r r' : KeyRegistry} {newBlock lastBlock : Block}
  {p n : Schemes} {slot : Bool} {next : ConfigEnc} {h : Int64}

def Accepts (env : SchemeEnv) (r : KeyRegistry) (l : Ledger) (newBlock lastBlock : Block) : Prop :=
  checkSchemes env r newBlock lastBlock = .ok () ∧
    verifyEncryptionVotes env r l newBlock lastBlock = .ok ()

theorem operatorHasKeyAsOf_congr (agree : AgreeAsOf h r r') :
    operatorHasKeyAsOf r h = operatorHasKeyAsOf r' h := by
  funext op primary keyLen
  have same := congrArg Option.isSome (agree.loadPubKeyWithPrimaryOfLength op primary keyLen)
  rw [Option.isSome_map, Option.isSome_map] at same
  exact same

theorem verifyEncryptionVotes_congr (agree : AgreeAsOf lastBlock.height r r') :
    verifyEncryptionVotes env r l newBlock lastBlock =
      verifyEncryptionVotes env r' l newBlock lastBlock := by
  unfold verifyEncryptionVotes verifySlotVotes
  rw [operatorHasKeyAsOf_congr agree]

structure SlotKeys (r : KeyRegistry) (h : Int64) (op : AddressBytes) (p : Schemes) (slot : Bool)
    (next : ConfigEnc) : Prop where
  unpause : isUnpause (p.slot slot) next = true →
    operatorHasKeyAsOf r h op slot next.pubKeyLength = true
  pause : isPause (p.slot slot) next = true →
    (r.loadPubKeyWithPrimaryOfLengthAsOf op (!slot) (p.slot !slot).pubKeyLength none).isSome = true

theorem isPause_eq_true {cur : ConfigEnc} : isPause cur next = true ↔
    next.sigName = cur.sigName ∧ cur.isPaused = false ∧ next.isPaused = true := by
  simp only [isPause, Bool.and_eq_true, beq_iff_eq, Bool.not_eq_true', and_assoc]
  exact and_congr_right fun _ => and_comm

theorem isUnpause_eq_true {cur : ConfigEnc} : isUnpause cur next = true ↔
    next.sigName = cur.sigName ∧ cur.isPaused = true ∧ next.isPaused = false := by
  simp [isUnpause, and_assoc]

theorem not_pause_of_unpause {cur : ConfigEnc} (unpause : isUnpause cur next = true) :
    isPause cur next ≠ true := by
  intro pause
  have before := (isUnpause_eq_true.mp unpause).2.1
  rw [(isPause_eq_true.mp pause).2.1] at before
  cases before

theorem checkPauseLeavesRegisteredKey_ok {op : AddressBytes} {bytes : Bytes}
    (carries : Carries env.oqs lastBlock p)
    (decoded : fromBytesToEncryptionConfig env.oqs bytes = .ok next) :
    checkPauseLeavesRegisteredKey env r op lastBlock bytes slot = .ok () ↔
      SlotKeys r lastBlock.height op p slot next := by
  unfold checkPauseLeavesRegisteredKey
  simp only [decoded, carries.parentSlotConfig, except_bind_eq_ok, Except.ok.injEq, exists_eq_left']
  cases unpause : isUnpause (p.slot slot) next with
  | true =>
    have other := not_pause_of_unpause unpause
    simp only [if_true, ite_error_eq_ok, Bool.not_eq_false, and_true]
    exact ⟨fun key => ⟨fun _ => key, fun pause => absurd pause other⟩,
      fun keys => keys.unpause unpause⟩
  | false =>
    simp only [Bool.false_eq_true, if_false]
    have live : isUnpause (p.slot slot) next = true →
        operatorHasKeyAsOf r lastBlock.height op slot next.pubKeyLength = true := by
      rw [unpause]
      intro no
      cases no
    cases pause : isPause (p.slot slot) next with
    | false =>
      refine ⟨fun _ => ⟨live, fun no => ?_⟩, fun _ => rfl⟩
      rw [pause] at no
      cases no
    | true =>
      simp only [Bool.true_eq_false, if_false, except_bind_eq_ok, Except.ok.injEq, exists_eq_left',
        ite_error_eq_ok, Bool.not_eq_false, and_true]
      exact ⟨fun key => ⟨live, fun _ => key⟩, fun keys => keys.pause pause⟩

theorem checkSlotChange_ok (carries : Carries env.oqs lastBlock p) {changed : Bool}
    (shape : checkEncryptionChangeShape env.oqs env.own (newBlock.encryption slot) lastBlock slot =
      .ok changed)
    (decoded : fromBytesToEncryptionConfig env.oqs (newBlock.encryption slot) = .ok next) :
    checkSlotChange env r newBlock lastBlock slot = .ok () ↔
      (changed = true →
        SlotKeys r lastBlock.height newBlock.operatorAccount.byteValue p slot next) := by
  unfold checkSlotChange
  simp only [shape, except_bind_eq_ok, Except.ok.injEq, exists_eq_left']
  cases changed with
  | false => simp
  | true =>
    simp only [if_true, forall_const]
    exact checkPauseLeavesRegisteredKey_ok carries decoded

/-- The slot is changed by the block: other bytes, and something else in them. -/
def Changes (newBlock lastBlock : Block) (p n : Schemes) (slot : Bool) : Prop :=
  newBlock.encryption slot ≠ lastBlock.encryption slot ∧
    ¬ ((n.stored slot).sigName = (p.slot slot).sigName ∧
      (n.stored slot).isPaused = (p.slot slot).isPaused)

/-- Whenever the block pauses the live scheme of a slot, its operator has, as of the parent, a key
of the scheme that the parent names in the other slot, and for a pause of the primary also of the
one that the block names there. -/
def PausesWithKey (r : KeyRegistry) (newBlock lastBlock : Block) (p n : Schemes) : Prop :=
  ∀ slot, Changes newBlock lastBlock p n slot →
    isPause (p.slot slot) (n.stored slot) = true →
    operatorHasKeyAsOf r lastBlock.height newBlock.operatorAccount.byteValue (!slot)
        (p.slot !slot).pubKeyLength = true ∧
      (slot = true → operatorHasKeyAsOf r lastBlock.height newBlock.operatorAccount.byteValue false
        n.secondary.pubKeyLength = true)

/-- Operators with two thirds of the eligible stake have a key as of a height. -/
def Quorum (l : Ledger) (r : KeyRegistry) (h : Int64) (primary : Bool) (keyLen : Int) : Prop :=
  ∃ ids : List Nat, ids.Nodup ∧
    (∀ id ∈ ids, l.isEligibleDelegatedAccount id = true ∧
      operatorHasKeyAsOf r h (l.getStakedInDelegatedAccount id).2.2 primary keyLen = true) ∧
    2 * eligibleStake l ≤ 3 * (ids.map l.stakeIn).sum

/-- After a change of the live scheme the operator has a key of it as of the parent, and if the
change un-pauses a scheme, operators with two thirds of the stake do. -/
structure KeysAfter (l : Ledger) (r : KeyRegistry) (newBlock lastBlock : Block) (p n : Schemes) :
    Prop where
  operator : n.live.sigName ≠ p.live.sigName →
    operatorHasKeyAsOf r lastBlock.height newBlock.operatorAccount.byteValue (!n.primary.isPaused)
      n.live.pubKeyLength = true
  quorum : n.live.sigName ≠ p.live.sigName → ∀ slot, Changes newBlock lastBlock p n slot →
    isUnpause (p.slot slot) (n.stored slot) = true →
    Quorum l r lastBlock.height (!n.primary.isPaused) n.live.pubKeyLength

theorem stakeWithKeys_eq (l : Ledger) (hasKey : AddressBytes → Bool) :
    stakeWithKeys l.stakeAndOperatorOfDelegated hasKey =
      (delegatedIds.filter fun id => l.isEligibleDelegatedAccount id &&
        (decide (0 < l.stakeOfDelegated id) && hasKey (l.getStakedInDelegatedAccount id).2.2)).foldl
        (fun sum id => sum + l.stakeOfDelegated id) 0 := by
  unfold stakeWithKeys
  rw [List.foldl_filter]
  congr 1
  funext sum id
  unfold stakeAndOperatorOfDelegated stakeOfDelegated
  cases l.isEligibleDelegatedAccount id with
  | false => simp
  | true => simp

theorem quorum_of_check (nonneg : l.NonNeg) (bounded : l.coins ≤ Common.maxTotalSupply.toInt)
    (carries : Carries env.oqs lastBlock p) {bytes : Bytes}
    (decoded : fromBytesToEncryptionConfig env.oqs bytes = .ok next)
    (passed : checkUnpauseKeyQuorum env bytes lastBlock slot l.getStakedInEligibleDelegatedAccounts
      l.stakeAndOperatorOfDelegated (operatorHasKeyAsOf r h) = .ok ())
    (unpause : isUnpause (p.slot slot) next = true) :
    Quorum l r h slot next.pubKeyLength := by
  have most : Common.maxTotalSupply.toInt = 230000000000000000 := by decide
  have three : (3 : Int64).toInt = 3 := rfl
  have two : (2 : Int64).toInt = 2 := rfl
  unfold checkUnpauseKeyQuorum at passed
  simp only [decoded, carries.parentSlotConfig, except_bind_eq_ok, Except.ok.injEq,
    exists_eq_left', unpause, Bool.true_eq_false, if_false, ite_error_eq_ok, and_true] at passed
  obtain ⟨-, enough⟩ := passed
  rw [stakeWithKeys_eq] at enough
  generalize ids_eq : (delegatedIds.filter fun id => l.isEligibleDelegatedAccount id &&
    (decide (0 < l.stakeOfDelegated id) &&
      operatorHasKeyAsOf r h (l.getStakedInDelegatedAccount id).2.2 slot next.pubKeyLength)) = ids
    at enough
  have distinct : ids.Nodup := ids_eq ▸ nodup_delegatedIds.filter _
  have members : ∀ id ∈ ids, l.isEligibleDelegatedAccount id = true ∧
      operatorHasKeyAsOf r h (l.getStakedInDelegatedAccount id).2.2 slot next.pubKeyLength = true := by
    intro id member
    rw [← ids_eq, List.mem_filter] at member
    simp only [Bool.and_eq_true] at member
    exact ⟨member.2.1, member.2.2.2⟩
  have fit := nonneg.stakesFit (by omega)
  have exact := sum_stakes_exact fit distinct fun id member => (members id member).1
  have total : l.getStakedInEligibleDelegatedAccounts.toInt = eligibleStake l :=
    eligibleTotal_exact fit
  have part := nonneg.sum_stakeIn_le distinct
  have all := nonneg.sum_stakeIn_le l.nodup_eligibleIds
  have sums : ∀ ids : List Nat, 0 ≤ (ids.map l.stakeIn).sum := fun ids =>
    List.sum_nonneg fun x member => by
      obtain ⟨id, -, rfl⟩ := List.mem_map.mp member
      exact nonneg.stakeIn id
  have positive := sums ids
  have least : 0 ≤ eligibleStake l := sums _
  change eligibleStake l ≤ _ at all
  refine ⟨ids, distinct, members, ?_⟩
  rw [Int64.not_lt, Word.le_iff, Word.toInt_mul_of_fits (by rw [two, total]; omega)
    (by rw [two, total]; omega), Word.toInt_mul_of_fits (by rw [three, exact]; omega)
    (by rw [three, exact]; omega), two, three, total, exact] at enough
  omega

theorem Accepts.shape (accepted : Accepts env r l newBlock lastBlock)
    (held : Carries env.oqs lastBlock p) (carries : Carries env.oqs newBlock n) (slot : Bool) :
    ∃ changed, checkEncryptionChangeShape env.oqs env.own (newBlock.encryption slot) lastBlock slot =
        .ok changed ∧
      SlotFollows p slot (n.stored slot) ∧ (changed = true ↔ Changes newBlock lastBlock p n slot) := by
  have votes := verifyEncryptionVotes_ok.mp accepted.2 slot
  unfold verifySlotVotes at votes
  simp only [except_bind_eq_ok] at votes
  obtain ⟨changed, shape, -⟩ := votes
  obtain ⟨next, decoded, follows, change⟩ := checkEncryptionChangeShape_ok held shape
  have same := (carries.stored slot).symm.trans decoded
  cases same
  exact ⟨changed, shape, follows, change⟩

theorem checkSchemes_slots {r : KeyRegistry} :
    checkSchemes env r newBlock lastBlock = .ok () ↔
      newBlock.encryption1.length ≠ 0 ∧ newBlock.encryption2.length ≠ 0 ∧
        ∀ slot, checkSlotChange env r newBlock lastBlock slot = .ok () := by
  unfold checkSchemes
  simp only [ite_error_eq_ok, except_bind_eq_ok, not_or, Bool.forall_bool]
  constructor
  · rintro ⟨⟨one, two⟩, _, first, second⟩
    exact ⟨one, two, second, first⟩
  · rintro ⟨one, two, second, first⟩
    exact ⟨⟨one, two⟩, (), first, second⟩

theorem accepts_iff_keys (accepted : Accepts env r' l newBlock lastBlock)
    (agree : AgreeAsOf lastBlock.height r r')
    (held : Carries env.oqs lastBlock p) (carries : Carries env.oqs newBlock n) :
    Accepts env r l newBlock lastBlock ↔
      ∀ slot, Changes newBlock lastBlock p n slot →
        SlotKeys r lastBlock.height newBlock.operatorAccount.byteValue p slot (n.stored slot) := by
  have slots : ∀ slot, checkSlotChange env r newBlock lastBlock slot = .ok () ↔
      (Changes newBlock lastBlock p n slot →
        SlotKeys r lastBlock.height newBlock.operatorAccount.byteValue p slot (n.stored slot)) := by
    intro slot
    obtain ⟨changed, shape, -, change⟩ := accepted.shape held carries slot
    rw [checkSlotChange_ok held shape (carries.stored slot), change]
  obtain ⟨one, two, -⟩ := checkSchemes_slots.mp accepted.1
  constructor
  · intro passed slot
    exact (slots slot).mp ((checkSchemes_slots.mp passed.1).2.2 slot)
  · intro keys
    refine ⟨checkSchemes_slots.mpr ⟨one, two, fun slot => (slots slot).mpr (keys slot)⟩, ?_⟩
    rw [verifyEncryptionVotes_congr agree]
    exact accepted.2

theorem Accepts.keys (accepted : Accepts env r l newBlock lastBlock)
    (held : Carries env.oqs lastBlock p) (carries : Carries env.oqs newBlock n) (slot : Bool)
    (changes : Changes newBlock lastBlock p n slot) :
    SlotKeys r lastBlock.height newBlock.operatorAccount.byteValue p slot (n.stored slot) :=
  (accepts_iff_keys accepted ⟨fun _ => rfl, fun _ => rfl⟩ held carries).mp accepted slot changes

theorem Accepts.quorum (accepted : Accepts env r l newBlock lastBlock) (nonneg : l.NonNeg)
    (bounded : l.coins ≤ Common.maxTotalSupply.toInt) (held : Carries env.oqs lastBlock p)
    (carries : Carries env.oqs newBlock n) (slot : Bool)
    (changes : Changes newBlock lastBlock p n slot)
    (unpause : isUnpause (p.slot slot) (n.stored slot) = true) :
    Quorum l r lastBlock.height slot (n.stored slot).pubKeyLength := by
  obtain ⟨changed, shape, -, change⟩ := accepted.shape held carries slot
  have votes := verifyEncryptionVotes_ok.mp accepted.2 slot
  unfold verifySlotVotes at votes
  simp only [shape, change.mpr changes, except_bind_eq_ok, Except.ok.injEq, exists_eq_left',
    if_true] at votes
  obtain ⟨_, -, passed⟩ := votes
  exact quorum_of_check nonneg bounded held (carries.stored slot) passed unpause

theorem SlotKeys.transfer {op : AddressBytes} (agree : AgreeAsOf h r r')
    (parent : AtHeight h r) (keys : SlotKeys r h op p slot next) :
    SlotKeys r' h op p slot next where
  unpause := by
    rw [← operatorHasKeyAsOf_congr agree]
    exact keys.unpause
  pause paused := by
    have found := keys.pause paused
    rw [parent.loadPubKeyWithPrimaryOfLength] at found
    change operatorHasKeyAsOf r h op _ _ = true at found
    rw [operatorHasKeyAsOf_congr agree] at found
    exact loadPubKeyWithPrimaryOfLength_of_asOf found

theorem live_change (follows : SchemesFollow p n) (other : n.live.sigName ≠ p.live.sigName) :
    isPause p.primary n.primary = true ∨ isUnpause p.primary n.primary = true := by
  have kept : p.primary.isPaused = false ∨ n.primary.isPaused = false →
      n.primary.sigName = p.primary.sigName := by
    intro live
    by_contra renamed
    have old : p.primary.isPaused = true := follows.primary.paused renamed
    have new := follows.primary.startsPaused renamed
    rw [old, new] at live
    exact live.elim nofun nofun
  rw [isPause_eq_true, isUnpause_eq_true]
  unfold Schemes.live at other
  cases before : p.primary.isPaused with
  | false =>
    cases after : n.primary.isPaused with
    | false => simp [before, after, kept (.inl before)] at other
    | true => exact .inl ⟨kept (.inl before), rfl, rfl⟩
  | true =>
    cases after : n.primary.isPaused with
    | false => exact .inr ⟨kept (.inr after), rfl, rfl⟩
    | true =>
      -- the secondary is the live one, so its name stays
      simp only [before, after, if_true] at other
      have paused : (!p.primary.isPaused) = true := follows.secondary.paused other
      rw [before] at paused
      cases paused

theorem live_of_pause (follows : SchemesFollow p n) (different : p.primary.sigName ≠ p.secondary.sigName)
    (pause : isPause p.primary n.primary = true) : n.live.sigName ≠ p.live.sigName := by
  obtain ⟨named, before, after⟩ := isPause_eq_true.mp pause
  rw [Schemes.live, Schemes.live, if_pos after, if_neg (by rw [before]; decide), ← named]
  exact (follows.distinct different).symm

theorem changes_of_toggle (held : Carries env.oqs lastBlock p) (carries : Carries env.oqs newBlock n)
    (toggled : n.primary.isPaused ≠ p.primary.isPaused) : Changes newBlock lastBlock p n true := by
  refine ⟨fun same => ?_, fun both => toggled both.2⟩
  have equal := carries.primary
  change newBlock.encryption1 = lastBlock.encryption1 at same
  rw [same, held.primary] at equal
  exact toggled (congrArg ConfigEnc.isPaused (Except.ok.inj equal)).symm

theorem unpaused_live (follows : SchemesFollow p n) (other : n.live.sigName ≠ p.live.sigName)
    (unpause : isUnpause (p.slot slot) (n.stored slot) = true) :
    slot = !n.primary.isPaused ∧ n.stored slot = n.live := by
  obtain ⟨-, before, after⟩ := isUnpause_eq_true.mp unpause
  cases slot with
  | true =>
    change n.primary.isPaused = false at after
    rw [Schemes.live, after]
    exact ⟨rfl, rfl⟩
  | false =>
    change (!p.primary.isPaused) = true at before
    have paused : n.primary.isPaused = true := by
      rcases live_change follows other with pause | back
      · exact (isPause_eq_true.mp pause).2.2
      · rw [(isUnpause_eq_true.mp back).2.1] at before
        cases before
    rw [Schemes.live, paused]
    exact ⟨rfl, rfl⟩

theorem operator_key (accepted : Accepts env r l newBlock lastBlock)
    (held : Carries env.oqs lastBlock p) (carries : Carries env.oqs newBlock n)
    (follows : SchemesFollow p n) (condition : PausesWithKey r newBlock lastBlock p n)
    (other : n.live.sigName ≠ p.live.sigName) :
    operatorHasKeyAsOf r lastBlock.height newBlock.operatorAccount.byteValue (!n.primary.isPaused)
      n.live.pubKeyLength = true := by
  rcases live_change follows other with pause | unpause
  · obtain ⟨-, before, after⟩ := isPause_eq_true.mp pause
    have changes := changes_of_toggle held carries (by rw [before, after]; decide)
    rw [Schemes.live, if_pos after, after]
    exact (condition true changes pause).2 rfl
  · obtain ⟨-, before, after⟩ := isUnpause_eq_true.mp unpause
    have changes := changes_of_toggle held carries (by rw [before, after]; decide)
    rw [Schemes.live, if_neg (by rw [after]; decide), after]
    exact (accepted.keys held carries true changes).unpause unpause

/-- A node that holds only the parent's keys accepts no more than any other. A block that some
node accepts is accepted by it, and leaves its operator and the quorum with keys of the live
scheme, exactly when every pause in it finds a key as of the parent. -/
theorem live_keys_iff (env : SchemeEnv) (l : Ledger) (nonneg : l.NonNeg)
    (bounded : l.coins ≤ Common.maxTotalSupply.toInt) (newBlock lastBlock : Block) (p n : Schemes)
    (held : Carries env.oqs lastBlock p) (different : p.primary.sigName ≠ p.secondary.sigName)
    (carries : Carries env.oqs newBlock n) (r r' : KeyRegistry)
    (parent : AtHeight lastBlock.height r)
    (agree : AgreeAsOf lastBlock.height r r') :
    (Accepts env r l newBlock lastBlock → Accepts env r' l newBlock lastBlock) ∧
      (Accepts env r' l newBlock lastBlock →
        (Accepts env r l newBlock lastBlock ∧ KeysAfter l r newBlock lastBlock p n ↔
          PausesWithKey r newBlock lastBlock p n)) := by
  refine ⟨fun accepted => ?_, fun accepted => ?_⟩
  · refine (accepts_iff_keys accepted agree.symm held carries).mpr fun slot changes => ?_
    exact (accepted.keys held carries slot changes).transfer agree parent
  · obtain ⟨_, -, first, -⟩ := accepted.shape held carries true
    obtain ⟨_, -, second, -⟩ := accepted.shape held carries false
    have follows : SchemesFollow p n := ⟨first, second⟩
    constructor
    · rintro ⟨accepted', keys⟩ slot changes pause
      constructor
      · have found := (accepted'.keys held carries slot changes).pause pause
        rw [parent.loadPubKeyWithPrimaryOfLength] at found
        exact found
      · rintro rfl
        have after := (isPause_eq_true.mp pause).2.2
        have key := keys.operator (live_of_pause follows different pause)
        change n.primary.isPaused = true at after
        rw [Schemes.live, if_pos after, after] at key
        exact key
    · intro condition
      have accepted' : Accepts env r l newBlock lastBlock := by
        refine (accepts_iff_keys accepted agree held carries).mpr fun slot changes => ⟨?_, ?_⟩
        · rw [operatorHasKeyAsOf_congr agree]
          exact (accepted.keys held carries slot changes).unpause
        · intro pause
          exact loadPubKeyWithPrimaryOfLength_of_asOf (condition slot changes pause).1
      refine ⟨accepted', operator_key accepted' held carries follows condition, ?_⟩
      intro other slot changes unpause
      obtain ⟨active, live⟩ := unpaused_live follows other unpause
      rw [← active, ← live]
      exact accepted'.quorum nonneg bounded held carries slot changes unpause

def keysOfA : KeyRegistry where
  records := AList.insert (0xA1 : AddressBytes) ⟨[1, 2, 3], ⟨0xA1, true⟩, ⟨0xAA, true⟩, true⟩ ∅
  lists := AList.insert (0xAA : AddressBytes) [⟨0xA1, true⟩] ∅

def keysOfLaterB : KeyRegistry :=
  { lettersKeys with heights := AList.insert (0xB1 : AddressBytes) 1 ∅ }

theorem atHeight_single (records : FinMap AddressBytes PubKey) (op : AddressBytes)
    {keys : List Address} (some_key : keys ≠ []) :
    AtHeight 0 { records, lists := AList.insert op keys ∅ } where
  registered _ _ _ _ _ := by
    simp [registeredAsOf, registrationHeight]
  nonempty m addrs listed := by
    by_cases owner : m = op
    · subst owner
      rw [lookup_insert] at listed
      cases listed
      exact some_key
    · rw [lookup_insert_ne owner] at listed
      cases listed

theorem keysOfLaterB_agree : AgreeAsOf 0 keysOfA keysOfLaterB where
  lists m := by
    by_cases owner : m = 0xAA
    · subst owner
      decide +kernel
    · have first : keysOfA.lists.lookup m = none := lookup_insert_ne owner
      have second : keysOfLaterB.lists.lookup m = none := lookup_insert_ne owner
      unfold loadAddressesAsOf
      rw [first, second]
  records d := by
    by_cases first : d = 0xA1
    · subst first
      decide +kernel
    · by_cases second : d = 0xB1
      · subst second
        decide +kernel
      · have one : keysOfA.records.lookup d = none := lookup_insert_ne first
        have two : keysOfLaterB.records.lookup d = none :=
          (lookup_insert_ne second).trans (lookup_insert_ne first)
        unfold loadPubKeyAsOf
        rw [one, two]
        split <;> split <;> rfl

/-- A block that pauses A and puts C in the place of B is accepted though its operator has no key
of C. A block that pauses A is refused by the node that holds the parent's keys and accepted by
the one that has also registered the operator's key of B. -/
theorem pause_without_parent_key :
    (Accepts (lettersEnv (encBytes 65 true) (encBytes 67 true)) lettersKeys
        (small [] []).ledger (lettersBlock (encBytes 65 true) (encBytes 67 true))
        lettersGenesis ∧
      ¬ KeysAfter (small [] []).ledger lettersKeys
        (lettersBlock (encBytes 65 true) (encBytes 67 true)) lettersGenesis
        ⟨encConfig 65 false, encConfig 66 true⟩ ⟨encConfig 65 true, encConfig 67 true⟩) ∧
    (AtHeight lettersGenesis.height keysOfA ∧
      AgreeAsOf lettersGenesis.height keysOfA keysOfLaterB ∧
      Accepts (lettersEnv (encBytes 65 true) (encBytes 66 true)) keysOfLaterB
        (small [] []).ledger (lettersBlock (encBytes 65 true) (encBytes 66 true))
        lettersGenesis ∧
      ¬ Accepts (lettersEnv (encBytes 65 true) (encBytes 66 true)) keysOfA
        (small [] []).ledger (lettersBlock (encBytes 65 true) (encBytes 66 true))
        lettersGenesis) := by
  refine ⟨⟨⟨by decide +kernel, by decide +kernel⟩, fun keys => ?_⟩,
    atHeight_single _ _ (List.cons_ne_nil _ _), keysOfLaterB_agree,
    ⟨by decide +kernel, by decide +kernel⟩, fun accepted => ?_⟩
  · have key := keys.operator (by decide)
    have missing : operatorHasKeyAsOf lettersKeys lettersGenesis.height
        (lettersBlock (encBytes 65 true) (encBytes 67 true)).operatorAccount.byteValue false 1 =
      false := by decide +kernel
    exact nomatch missing.symm.trans key
  · have refused : checkSchemes (lettersEnv (encBytes 65 true) (encBytes 66 true)) keysOfA
        (lettersBlock (encBytes 65 true) (encBytes 66 true)) lettersGenesis ≠ .ok () := by
      decide +kernel
    exact refused accepted.1

/-- With a key of B from before, the pause of A leaves the operator with a key. -/
theorem pause_with_parent_key :
    Accepts (lettersEnv (encBytes 65 true) (encBytes 66 true)) lettersKeys
        (small [] []).ledger (lettersBlock (encBytes 65 true) (encBytes 66 true))
        lettersGenesis ∧
      KeysAfter (small [] []).ledger lettersKeys
        (lettersBlock (encBytes 65 true) (encBytes 66 true)) lettersGenesis
        ⟨encConfig 65 false, encConfig 66 true⟩ ⟨encConfig 65 true, encConfig 66 true⟩ := by
  have nonneg : (small [] []).ledger.NonNeg :=
    ⟨by decide +kernel, by decide +kernel, by decide +kernel⟩
  have parent : AtHeight lettersGenesis.height lettersKeys :=
    atHeight_single _ _ (List.cons_ne_nil _ _)
  refine (live_keys_iff (lettersEnv (encBytes 65 true) (encBytes 66 true)) _ nonneg
    (by decide +kernel) _ _ _ _ lettersGenesis_carries (by decide)
    ⟨by decide +kernel, by decide +kernel⟩ lettersKeys lettersKeys parent
    ⟨fun _ => rfl, fun _ => rfl⟩).2 ⟨by decide +kernel, by decide +kernel⟩ |>.mpr ?_
  intro slot changes pause
  cases slot with
  | true => exact ⟨by decide +kernel, fun _ => by decide +kernel⟩
  | false =>
    have never : isPause (Schemes.slot ⟨encConfig 65 false, encConfig 66 true⟩ false)
      (encConfig 66 true) = false := by decide
    exact nomatch never.symm.trans pause

end QwidNode.Guarantees
