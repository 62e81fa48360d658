import QwidNode.Source.Authority
import QwidNode.Guarantees.KeyRewind

/-!
# Verification as of a height

The verdict on a transaction as of a height reads the key registry only up to that height, so keys
registered above it do not change it. The node's own configuration comes in with an enclosed key
only: its length says the slot it is decoded into, and the node has to know that length.
-/
namespace QwidNode.Guarantees
open Lib Source Transaction KeyRegistry Block Option
variable {σ : Type} {env : Env σ} {sig : SigEnv} {own own' : OwnConfig} {names : SigNames}
  {r r' : KeyRegistry} {l : Ledger} {a height : Int64} {tx : Transaction}

def withOwn (sig : SigEnv) (own : OwnConfig) : SigEnv :=
  { sig with toKeyEnv := { sig.toKeyEnv with own } }

theorem pubKeyLength_withOwn (sig : SigEnv) (own : OwnConfig) :
    (withOwn sig own).pubKeyLength = sig.pubKeyLength := rfl

def verifyAsOf (env : Env σ) (sig : SigEnv) (names : SigNames) (r : KeyRegistry) (l : Ledger)
    (config : Block) (a : Int64) (tx : Transaction) : Bool :=
  match tx.decodeKey sig.toKeyEnv with
  | none => false
  | some decoded =>
    decide (Verified (env.withKeys sig (fun _ => some names) r) l ⟨config, some a, a + 1⟩ decoded)

section Readers
variable (agree : AgreeAsOf a r r')
include agree

theorem hasOperatorKeysAsOf_congr (m : AddressBytes) :
    r.hasOperatorKeysAsOf m (some a) = r'.hasOperatorKeysAsOf m (some a) := by
  unfold hasOperatorKeysAsOf
  rw [agree.lists m]

theorem loadPubKeyAsOf_isSome (d : AddressBytes) :
    (r.loadPubKeyAsOf d (some a)).isSome = (r'.loadPubKeyAsOf d (some a)).isSome := by
  have same := congrArg Option.isSome (agree.records d)
  rwa [isSome_map, isSome_map] at same

theorem loadPubKeyAsOf_identity (d : AddressBytes) :
    (r.loadPubKeyAsOf d (some a)).map (·.mainAddress.byteValue) =
      (r'.loadPubKeyAsOf d (some a)).map (·.mainAddress.byteValue) := by
  have same := congrArg (Option.map Prod.snd) (agree.records d)
  rwa [Option.map_map, Option.map_map] at same

theorem signer_bytes (m : AddressBytes) (primary : Bool) (length : Int) :
    (r.loadPubKeyWithPrimaryOfLengthAsOf m primary length (some a)).map (·.byteValue) =
      (r'.loadPubKeyWithPrimaryOfLengthAsOf m primary length (some a)).map (·.byteValue) := by
  have same := congrArg (Option.map Prod.fst) (agree.loadPubKeyWithPrimaryOfLength m primary length)
  rwa [Option.map_map, Option.map_map] at same

theorem registeredSigner_bytes (sig : SigEnv) (own : OwnConfig) (names : SigNames)
    (m : AddressBytes) (primary : Bool) :
    (registeredSigner sig r names (some a) m primary).map (·.byteValue) =
      (registeredSigner (withOwn sig own) r' names (some a) m primary).map (·.byteValue) := by
  unfold registeredSigner
  change ((sig.pubKeyLength _).bind _).map _ = ((sig.pubKeyLength _).bind _).map _
  cases sig.pubKeyLength (names.signingSchemeName primary) with
  | none => rfl
  | some length => exact signer_bytes agree m primary length

end Readers

structure SameJudgement (j j' : EnclosedKey) : Prop where
  existing : j.existing.map (·.byteValue) = j'.existing.map (·.byteValue)
  addressMatch : j.addressMatch = j'.addressMatch
  exempt : j.exempt = j'.exempt

theorem judgeKey_congr {pkAddr : AddressBytes} {committed : Bool}
    {stored stored' registered registered' : Option PubKey}
    (identity : stored.map (·.mainAddress.byteValue) = stored'.map (·.mainAddress.byteValue))
    (signer : registered.map (·.byteValue) = registered'.map (·.byteValue)) :
    SameJudgement (judgeKey tx pkAddr stored registered committed)
      (judgeKey tx pkAddr stored' registered' committed) := by
  have found := congrArg Option.isSome signer
  rw [isSome_map, isSome_map] at found
  unfold judgeKey
  cases stored with
  | some record =>
    cases stored' with
    | none => cases identity
    | some record' =>
      have same : record.mainAddress.byteValue = record'.mainAddress.byteValue :=
        Option.some.inj identity
      exact ⟨rfl, by simp only [same], rfl⟩
  | none =>
    cases stored' with
    | some record' => cases identity
    | none =>
      simp only [isNone_none, Bool.true_and]
      cases tx.isPureRegistration && signedPrimary tx.signature == tx.txData.pubkey.primary && committed
      with
      | true => exact ⟨rfl, rfl, rfl⟩
      | false => exact ⟨signer, by simp [found], rfl⟩

theorem walletVerify_unknown {msg : Hash} {bytes key : Bytes}
    (unknown : sig.pubKeyLength (names.signingSchemeName (signedPrimary bytes)) = none) :
    walletVerify sig msg bytes key names = false := by
  unfold walletVerify
  split
  · rfl
  · simp [unknown]

section Signatures
variable (sig names own) (agree : AgreeAsOf a r r') (tx)
include agree

theorem signingKey_congr {j j' : EnclosedKey} (same : SameJudgement j j') :
    signingKey sig r names (some a) tx j = signingKey (withOwn sig own) r' names (some a) tx j' := by
  unfold signingKey
  dsimp only
  rw [same.existing, pubKeyLength_withOwn]
  cases sig.pubKeyLength (names.signingSchemeName (signedPrimary tx.signature)) with
  | none => rfl
  | some length =>
    simp only
    split
    · exact signer_bytes agree tx.sender (signedPrimary tx.signature) length
    · rfl

theorem verifyEnclosed_congr (valid : sig.own.isValidPubKeyLength tx.txData.pubkey.byteValue.length
      tx.txData.pubkey.primary =
    own.isValidPubKeyLength tx.txData.pubkey.byteValue.length tx.txData.pubkey.primary) :
    verifyEnclosed sig r l names (some a) height tx =
      verifyEnclosed (withOwn sig own) r' l names (some a) height tx := by
  have same : SameJudgement (judgeEnclosed sig r l names (some a) height tx)
      (judgeEnclosed (withOwn sig own) r' l names (some a) height tx) :=
    judgeKey_congr (loadPubKeyAsOf_identity agree _)
      (registeredSigner_bytes agree sig own names _ _)
  unfold verifyEnclosed
  dsimp only
  rw [same.addressMatch, same.exempt, signingKey_congr sig own names tx agree same]
  change (sig.own.isValidPubKeyLength _ _ && _ && _ && _) = (own.isValidPubKeyLength _ _ && _ && _ && _)
  rw [valid]
  rfl

theorem senderKey_congr :
    ((senderKey sig r names (some a) tx).map (·.byteValue)).any
        (walletVerify sig tx.hash tx.signature · names) =
      ((senderKey (withOwn sig own) r' names (some a) tx).map (·.byteValue)).any
        (walletVerify (withOwn sig own) tx.hash tx.signature · names) := by
  change _ = ((senderKey (withOwn sig own) r' names (some a) tx).map (·.byteValue)).any
    (walletVerify sig tx.hash tx.signature · names)
  unfold senderKey
  dsimp only
  rw [pubKeyLength_withOwn]
  cases known : sig.pubKeyLength (names.signingSchemeName (signedPrimary tx.signature)) with
  | none =>
    have never : ∀ key, walletVerify sig tx.hash tx.signature key names = false := fun key =>
      walletVerify_unknown known
    simp only [never]
    generalize r.loadPubKeyWithPrimaryAsOf _ _ _ = first
    generalize r'.loadPubKeyWithPrimaryAsOf _ _ _ = second
    cases first <;> cases second <;> rfl
  | some length =>
    rw [signer_bytes agree tx.sender (signedPrimary tx.signature) length]

section
variable (valid : tx.txData.pubkey.byteValue ≠ [] →
  sig.own.isValidPubKeyLength tx.txData.pubkey.byteValue.length tx.txData.pubkey.primary =
  own.isValidPubKeyLength tx.txData.pubkey.byteValue.length tx.txData.pubkey.primary)
include valid

theorem verifySignature_congr :
    verifySignature sig r l names (some a) height tx =
      verifySignature (withOwn sig own) r' l names (some a) height tx := by
  unfold verifySignature
  split
  · rfl
  · split
    · have same := senderKey_congr sig own names tx agree
      revert same
      cases senderKey sig r names (some a) tx <;>
        cases senderKey (withOwn sig own) r' names (some a) tx <;> exact id
    case isFalse enclosed => exact verifyEnclosed_congr sig own names tx agree (valid enclosed)

theorem revealedKey_congr :
    revealedKey sig r (some a) tx = revealedKey (withOwn sig own) r' (some a) tx := by
  have known := loadPubKeyAsOf_isSome agree (sig.derive tx.txData.pubkey.byteValue)
  unfold revealedKey
  simp only
  split
  · rfl
  case isFalse enclosed =>
    rw [not_or] at enclosed
    change (if sig.own.isValidPubKeyLength _ _ = false then _ else _) =
      (if own.isValidPubKeyLength _ _ = false then _ else _)
    rw [valid enclosed.1]
    change _ = (if _ then _ else if tx.txData.pubkey.address.byteValue ≠ sig.derive _ then _
      else if (r'.loadPubKeyAsOf (sig.derive _) _).isSome then _ else some (sig.derive _))
    rw [known]

theorem verified_congr {config : Block} :
    Verified (env.withKeys sig (fun _ => some names) r) l ⟨config, some a, height⟩ tx ↔
      Verified (env.withKeys (withOwn sig own) (fun _ => some names) r') l ⟨config, some a, height⟩
        tx := by
  have signature : verifySignature sig r l names (some a) height tx = _ :=
    verifySignature_congr sig own names tx agree valid
  have key := revealedKey_congr sig own tx agree valid
  have operator := hasOperatorKeysAsOf_congr agree tx.sender
  have opening : ∀ new opening, addressOpeningValid sig r (some a) tx new opening =
      addressOpeningValid (withOwn sig own) r' (some a) tx new opening := by
    intro new opening
    unfold addressOpeningValid
    rw [agree.lists tx.sender]
    rfl
  simp only [verified_iff, operatorKeysValid, hasSpareCover, verifyRecoveryReveal, revealOpening,
    Env.withKeys, signature, key, operator, opening]
  rfl

end

end Signatures

def keySlot (own : OwnConfig) (n : Nat) : Bool := (n : Int) == own.primary.pubKeyLength false

/-- No key is enclosed, or both nodes decode it into the same slot and agree on whether its length
is one of the slot's. -/
def SameClass (own own' : OwnConfig) (tx : Transaction) : Prop :=
  tx.txData.pubkey.byteValue ≠ [] →
    keySlot own tx.txData.pubkey.byteValue.length = keySlot own' tx.txData.pubkey.byteValue.length ∧
      own.isValidPubKeyLength tx.txData.pubkey.byteValue.length
          (keySlot own tx.txData.pubkey.byteValue.length) =
        own'.isValidPubKeyLength tx.txData.pubkey.byteValue.length
          (keySlot own' tx.txData.pubkey.byteValue.length)

theorem decodeKey_some {env : KeyEnv} {decoded : Transaction} (enclosed : tx.txData.pubkey.byteValue ≠ [])
    (run : tx.decodeKey env = some decoded) :
    decoded.txData.pubkey.byteValue = tx.txData.pubkey.byteValue ∧
      decoded.txData.pubkey.primary = keySlot env.own tx.txData.pubkey.byteValue.length := by
  unfold decodeKey at run
  rw [if_neg enclosed, map_eq_some_iff] at run
  obtain ⟨pk, init, rfl⟩ := run
  unfold PubKey.init at init
  split at init
  · cases init
  · cases init
    exact ⟨rfl, rfl⟩

theorem decodeKey_congr (same : SameClass own own' tx) :
    tx.decodeKey (withOwn sig own).toKeyEnv = tx.decodeKey (withOwn sig own').toKeyEnv := by
  unfold decodeKey
  split
  · rfl
  case isFalse enclosed =>
    have slot := (same enclosed).1
    unfold keySlot at slot
    unfold PubKey.init
    change (if _ then none else some (PubKey.mk _ (sig.pubKeyToAddress _ (_ == own.primary.pubKeyLength
      false)) _ (_ == own.primary.pubKeyLength false))).map _ = (if _ then none else some (PubKey.mk _
      (sig.pubKeyToAddress _ (_ == own'.primary.pubKeyLength false)) _
      (_ == own'.primary.pubKeyLength false))).map _
    rw [slot]

theorem verifyAsOf_congr {config : Block} (agree : AgreeAsOf a r r')
    (same : SameClass own own' tx) :
    verifyAsOf env (withOwn sig own) names r l config a tx =
      verifyAsOf env (withOwn sig own') names r' l config a tx := by
  unfold verifyAsOf
  rw [decodeKey_congr same]
  cases run : tx.decodeKey (withOwn sig own').toKeyEnv with
  | none => rfl
  | some decoded =>
    refine decide_eq_decide.mpr (verified_congr (withOwn sig own) own' names decoded agree ?_)
    intro enclosed
    by_cases empty : tx.txData.pubkey.byteValue = []
    · rw [decodeKey, if_pos empty] at run
      cases run
      exact absurd rfl enclosed
    · obtain ⟨bytes, primary⟩ := decodeKey_some empty run
      have both := same empty
      rw [bytes, primary]
      change own.isValidPubKeyLength _ (keySlot own' _) = own'.isValidPubKeyLength _ (keySlot own' _)
      rw [← both.2, both.1]

theorem verifyAsOf_refuses {config : Block} (enclosed : tx.txData.pubkey.byteValue ≠ [])
    (unknown : own.isValidPubKeyLength tx.txData.pubkey.byteValue.length
      (keySlot own tx.txData.pubkey.byteValue.length) = false) :
    verifyAsOf env (withOwn sig own) names r l config a tx = false := by
  unfold verifyAsOf
  cases run : tx.decodeKey (withOwn sig own).toKeyEnv with
  | none => rfl
  | some decoded =>
    obtain ⟨bytes, primary⟩ := decodeKey_some enclosed run
    have gate : (withOwn sig own).own.isValidPubKeyLength decoded.txData.pubkey.byteValue.length
        decoded.txData.pubkey.primary = false := by
      rw [bytes, primary]
      exact unknown
    have still : decoded.txData.pubkey.byteValue ≠ [] := bytes ▸ enclosed
    refine decide_eq_false fun verified => ?_
    have authority := verified.authority
    split at authority
    · have none : revealedKey (withOwn sig own) r (some a) decoded = none := by
        unfold revealedKey
        simp only [gate, if_true]
        split <;> rfl
      unfold verifyRecoveryReveal at authority
      simp [Env.withKeys, none] at authority
    · have refused : verifySignature (withOwn sig own) r l names (some a) (a + 1) decoded = false := by
        unfold verifySignature verifyEnclosed
        simp [still, gate]
      exact nomatch refused.symm.trans authority

def noScheme : OwnConfig :=
  ⟨⟨⟨0, 0, 0, [], false⟩, ⟨0, 0, 0, [], false⟩⟩, ⟨⟨0, 0, 0, [], true⟩, ⟨0, 0, 0, [], true⟩⟩⟩

theorem noScheme_invalid {n : Nat} (primary : Bool) : noScheme.isValidPubKeyLength n primary = false := by
  unfold OwnConfig.isValidPubKeyLength
  split
  · rfl
  case isFalse some_bytes =>
    have none : ∀ withPrev, (noScheme.slot primary).pubKeyLength withPrev = 0 := by
      intro withPrev
      cases primary <;> cases withPrev <;> rfl
    rw [none, none]
    simpa using some_bytes

def Listed (r : KeyRegistry) : Prop := ∀ m, ∀ a ∈ r.addressesOf m, r.records.lookup a.byteValue ≠ none

theorem loadAddressesAsOf_eq (r : KeyRegistry) (m : AddressBytes) (h : Int64) :
    r.loadAddressesAsOf m (some h) =
      if (r.addressesOf m).filter (fun a => r.registeredAsOf a.byteValue (some h)) = [] then none
      else some ((r.addressesOf m).filter fun a => r.registeredAsOf a.byteValue (some h)) := by
  unfold loadAddressesAsOf addressesOf
  cases r.lists.lookup m with
  | none => rfl
  | some addrs => rfl

theorem Grown.agreeAsOf {t top : Int64} {r₀ : KeyRegistry} (grown : Grown t top r₀ r)
    (listed : Listed r₀) : AgreeAsOf t r₀ r where
  lists m := by
    obtain ⟨new, appended, named⟩ := grown.lists m
    have kept : (r₀.addressesOf m).filter (fun a => r.registeredAsOf a.byteValue (some t)) =
        (r₀.addressesOf m).filter fun a => r₀.registeredAsOf a.byteValue (some t) := by
      refine List.filter_congr fun a member => ?_
      have old := grown.old a.byteValue fun h m' above found =>
        listed m a member (grown.young h _ m' above found).1
      unfold registeredAsOf registrationHeight
      rw [old.2]
    have dropped : new.filter (fun a => r.registeredAsOf a.byteValue (some t)) = [] := by
      refine List.filter_eq_nil_iff.mpr fun a member visible => ?_
      obtain ⟨h, above, found⟩ := named a member
      exact Int64.not_le.mpr (grown.late h _ m above found) (of_decide_eq_true visible)
    rw [loadAddressesAsOf_eq, loadAddressesAsOf_eq, appended, List.filter_append, kept, dropped,
      List.append_nil]
  records d := by
    by_cases added : ∃ h m, t < h ∧ r.journal.lookup (h, d) = some m
    · obtain ⟨h, m, above, found⟩ := added
      have hidden : r.registeredAsOf d (some t) = false :=
        decide_eq_false (Int64.not_le.mpr (grown.late h d m above found))
      unfold loadPubKeyAsOf
      rw [(grown.young h d m above found).1, hidden]
      split <;> rfl
    · have old := grown.old d fun h m above found => added ⟨h, m, above, found⟩
      unfold loadPubKeyAsOf registeredAsOf registrationHeight
      rw [old.1, old.2]

/-- Nodes that read the same registry as of the height and classify an enclosed key alike give the
same verdict. A transaction that one node accepts is accepted by all nodes that read the same
registry exactly when it encloses no key. And keys that are registered above the height leave what
is read as of it. -/
theorem historical_verdict (env : Env σ) (sig : SigEnv) (names : SigNames) (l : Ledger)
    (config : Block) (a : Int64) (tx : Transaction) :
    (∀ own own' r r', AgreeAsOf a r r' → SameClass own own' tx →
      verifyAsOf env (withOwn sig own) names r l config a tx =
        verifyAsOf env (withOwn sig own') names r' l config a tx) ∧
      (∀ own r, verifyAsOf env (withOwn sig own) names r l config a tx = true →
        ((∀ own' r', AgreeAsOf a r r' →
          verifyAsOf env (withOwn sig own') names r' l config a tx = true) ↔
            tx.txData.pubkey.byteValue = [])) ∧
      (∀ top r r', SettledAt a r → Listed r → RegistryRun a top r r' →
        AgreeAsOf a r r') := by
  refine ⟨fun own own' r r' agree same => verifyAsOf_congr agree same, fun own r accepted => ?_,
    fun top r r' settled listed run => (run.grown settled).agreeAsOf listed⟩
  constructor
  · intro everywhere
    by_contra enclosed
    have there := everywhere noScheme r ⟨fun _ => rfl, fun _ => rfl⟩
    rw [verifyAsOf_refuses enclosed (noScheme_invalid _)] at there
    cases there
  · intro empty own' r' agree
    rw [← verifyAsOf_congr agree fun enclosed => absurd empty enclosed]
    exact accepted

/-- Signatures all verify, under schemes A, B and C with keys of 21, 22 and 23 bytes. -/
def trustingSig : SigEnv where
  derive := addressOfBytes
  own := noScheme
  oqs name := if name = [65] then some ⟨21, 1, 1⟩ else if name = [66] then some ⟨22, 1, 1⟩
    else if name = [67] then some ⟨23, 1, 1⟩ else none
  oqsVerify _ _ _ _ := true
  openingSigned _ _ _ := true

/-- A node whose primary scheme has keys of a length, now and before, and whose secondary is B. -/
def ownOf (primaryLength : Int) : OwnConfig :=
  ⟨⟨⟨primaryLength, 1, 1, [], false⟩, ⟨primaryLength, 1, 1, [], false⟩⟩,
    ⟨⟨22, 1, 1, [66], true⟩, ⟨22, 1, 1, [66], true⟩⟩⟩

def namesAB : SigNames := ⟨[65], [66], false, true⟩

def selfRegistration : Transaction :=
  let key : Bytes := List.replicate 21 7
  let sender := addressOfBytes key
  let tx := Transaction.plain sender sender 0 1 0
  hashed { tx with
    txData := { tx.txData with pubkey := ⟨key, ⟨sender, true⟩, ⟨sender, true⟩, true⟩ }
    signature := [0], gasUsage := 40000 }

/-- A node that still has scheme A accepts the registration, one that has gone on to C refuses
it. -/
theorem verdict_depends_on_configuration :
    verifyAsOf Env.permissive (withOwn trustingSig (ownOf 21)) namesAB {} {} (Block.plain 0 0 []) 0
        selfRegistration = true ∧
      verifyAsOf Env.permissive (withOwn trustingSig (ownOf 23)) namesAB {} {} (Block.plain 0 0 []) 0
        selfRegistration = false := by
  exact ⟨by decide +kernel, by decide +kernel⟩

/-- A registration gets the same verdict once somebody else has registered a key above the
height. -/
theorem verdict_survives_later_key :
    verifyAsOf Env.permissive (withOwn trustingSig (ownOf 21)) namesAB {} {} (Block.plain 0 0 []) 0
        selfRegistration =
      verifyAsOf Env.permissive (withOwn trustingSig (ownOf 21)) namesAB
        (registryAfter 1 [enclosing 0xBB [1, 2, 3]] {}) {} (Block.plain 0 0 []) 0
        selfRegistration := by
  obtain ⟨same, -, later⟩ := historical_verdict Env.permissive trustingSig namesAB {}
    (Block.plain 0 0 []) 0 selfRegistration
  refine same _ _ _ _ (later 1 _ _ ⟨fun _ _ _ => rfl, fun _ _ => rfl, nofun⟩ nofun
    (.block .start bytesEnv _ _ (by decide) ?_)) fun _ => ⟨rfl, rfl⟩
  exact reversibleTxs_cons rfl (fun _ _ _ => by decide +kernel) trivial

end QwidNode.Guarantees
