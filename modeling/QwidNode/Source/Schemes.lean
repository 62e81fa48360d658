import QwidNode.Source.ChainRun
import QwidNode.Source.Randao

/-!
# Signature schemes in block headers

Source: `crypto/oqs/encryptSchemes.go`, `common/types.go:14-226`, `blocks/baseBlock.go:122-143`,
`blocks/processEncryption.go:92-111`, `blocks/encryptionVote.go:90-147` and
`blocks/recovery.go:130-159`. A header holds one encoded configuration per slot.
-/
namespace QwidNode.Source
open Lib
variable {σ : Type}

structure ConfigEnc where
  pubKeyLength : Int
  privateKeyLength : Int
  signatureLength : Int
  sigName : Bytes
  isPaused : Bool
deriving DecidableEq, Repr

structure SchemeDetails where
  lengthPublicKey : Nat
  lengthSecretKey : Nat
  maxLengthSignature : Nat
deriving DecidableEq, Repr

abbrev Liboqs := Bytes → Option SchemeDetails

/-- One slot of `common.EncryptionConfig`, now and before the last change. -/
structure OwnSlot where
  current : ConfigEnc
  previous : ConfigEnc

/-- The node's own configuration, `encryptionConfigInstance` and `encryptionConfigInstanceOld`. -/
structure OwnConfig where
  primary : OwnSlot
  secondary : OwnSlot

def OwnConfig.slot (own : OwnConfig) (primary : Bool) : OwnSlot :=
  if primary then own.primary else own.secondary

/-- `PubKeyLength` and `PubKeyLength2`; with the previous scheme it is the shorter length. -/
def OwnSlot.pubKeyLength (slot : OwnSlot) (withPrev : Bool) : Int :=
  if withPrev = false ∨ slot.current.pubKeyLength < slot.previous.pubKeyLength then
    slot.current.pubKeyLength
  else slot.previous.pubKeyLength

def OwnConfig.isValidPubKeyLength (own : OwnConfig) (n : Nat) (primary : Bool) : Bool :=
  if n = 0 then false
  else (n : Int) == (own.slot primary).pubKeyLength false ||
    (n : Int) == (own.slot primary).pubKeyLength true

inductive SchemeError where
  | configLength (bytes : Nat)
  | bytesAfterNul
  | emptyName
  | invalidScheme
  | doesNotMatch (name : Bytes)
  | bothSlots (name : Bytes)
  | pauseBeforeReplacing (current next : Bytes)
  | hasToStartPaused (name : Bytes)
  | missingConfig
  | noKeyToUnpause (name : Bytes)
  | noKeyToPause (current becomesActive : Bytes)
  | notEnoughVotes (name : Bytes) (isPaused : Bool) (height staked total : Int64)
  | nothingStaked (name : Bytes)
  | notEnoughKeys (name : Bytes) (withKeys total : Int64)
  | cannotDecodeProof
  | badRecipient
  | amountNotZero
  | optDataTooShort (bytes : Nat)
  | notAuthorized (id : Nat)
  | noChange
deriving DecidableEq, Repr

def sigNameLength : Nat := 20

def encConfigLength : Nat := sigNameLength + 4 + 4 + 4 + 1

def int32FromBytes (b : Bytes) : Int :=
  (BitVec.ofNat 32 (b.foldr (fun x acc => x.toNat + 256 * acc) 0)).toInt

/-- The name field: a name and zero bytes, nothing after the first one. -/
def sigNameFromBytes (b : Bytes) : Except SchemeError Bytes :=
  let name := b.takeWhile (· != 0)
  if (b.drop name.length).all (· == 0) then .ok name else .error .bytesAfterNul

def verifyEncConfig (oqs : Liboqs) (c : ConfigEnc) : Bool :=
  match oqs c.sigName with
  | none => false
  | some d => (d.lengthPublicKey : Int) == c.pubKeyLength &&
      (d.lengthSecretKey : Int) == c.privateKeyLength &&
      (d.maxLengthSignature : Int) == c.signatureLength

/-- `oqs.FromBytesToEncryptionConfig`. Its cache holds what this computes. -/
def fromBytesToEncryptionConfig (oqs : Liboqs) (b : Bytes) : Except SchemeError ConfigEnc :=
  if b.length ≠ encConfigLength then .error (.configLength b.length)
  else do
    let sigName ← sigNameFromBytes (b.take sigNameLength)
    let rest := b.drop sigNameLength
    let c : ConfigEnc :=
      { pubKeyLength := int32FromBytes (rest.take 4)
        privateKeyLength := int32FromBytes ((rest.drop 4).take 4)
        signatureLength := int32FromBytes ((rest.drop 8).take 4)
        sigName
        isPaused := (rest.drop 12).any (· != 0) }
    if sigName = [] then .error .emptyName
    else if verifyEncConfig oqs c = false then .error .invalidScheme
    else .ok c

def generateParamsEncryptionSchemesFromBytes (b : Bytes) : Except SchemeError ConfigEnc :=
  if b.length < encConfigLength then .error (.configLength b.length)
  else do
    let sigName ← sigNameFromBytes (b.take sigNameLength)
    let rest := b.drop sigNameLength
    return { pubKeyLength := int32FromBytes (rest.take 4)
             privateKeyLength := int32FromBytes ((rest.drop 4).take 4)
             signatureLength := int32FromBytes ((rest.drop 8).take 4)
             sigName
             isPaused := ((rest.drop 12).take 1).any (· != 0) }

def generateBytesFromParams (c : ConfigEnc) : Bytes :=
  let int32 (n : Int) : Bytes := (natToBytes 4 (BitVec.ofInt 32 n).toNat).reverse
  c.sigName ++ List.replicate (sigNameLength - c.sigName.length) 0 ++ int32 c.pubKeyLength ++
    int32 c.privateKeyLength ++ int32 c.signatureLength ++ [if c.isPaused then 1 else 0]

def Block.encryption (b : Block) (primary : Bool) : Bytes :=
  if primary then b.encryption1 else b.encryption2

/-- `blocks.FromBytesToEncryptionConfig`: no bytes stand for the node's own configuration. -/
def slotConfig (oqs : Liboqs) (own : OwnConfig) (b : Bytes) (primary : Bool) :
    Except SchemeError ConfigEnc :=
  if b.length = 0 then
    .ok { (own.slot primary).current with
      isPaused := if primary then own.primary.current.isPaused else !own.primary.current.isPaused }
  else fromBytesToEncryptionConfig oqs b

/-- `common.SetEncryption`: both slots become the old ones, then one of them changes. -/
def setEncryption (own : OwnConfig) (c : ConfigEnc) (primary : Bool) : OwnConfig where
  primary := ⟨if primary then c else own.primary.current, own.primary.current⟩
  secondary := ⟨if primary then own.secondary.current else c, own.secondary.current⟩

/-- The node's configuration, and for each slot the scheme that its current one replaced and
whether the last `SetEncryption` brought the current one in. -/
structure Tracked where
  own : OwnConfig
  replaced : Bool → Option ConfigEnc
  latest : Bool → Bool

/-- `SetVoteEncryption`: what cannot be read or would start a scheme unpaused changes nothing. -/
def Tracked.setVoteEncryption (oqs : Liboqs) (enc : Bytes) (primary : Bool) (t : Tracked) :
    Tracked :=
  match slotConfig oqs t.own enc primary with
  | .error _ => t
  | .ok c =>
    if c.sigName ≠ (t.own.slot primary).current.sigName ∧ c.isPaused = false then t
    else
      { own := setEncryption t.own c primary
        replaced slot :=
          if slot = primary ∧ c.sigName ≠ (t.own.slot slot).current.sigName then
            some (t.own.slot slot).current
          else t.replaced slot
        latest slot := decide (slot = primary ∧ c.sigName ≠ (t.own.slot slot).current.sigName) }

def Tracked.changeSlot (oqs : Liboqs) (block lastBlock : Block) (primary : Bool) (t : Tracked) :
    Tracked :=
  if block.encryption primary ≠ lastBlock.encryption primary then
    t.setVoteEncryption oqs (block.encryption primary) primary
  else t

def Tracked.processBlockEncryption (oqs : Liboqs) (block lastBlock : Block) (t : Tracked) :
    Tracked :=
  if lastBlock.height < 3 then t
  else (t.changeSlot oqs block lastBlock true).changeSlot oqs block lastBlock false

def Tracked.processBlocks (oqs : Liboqs) : Block → List Block → Tracked → Tracked
  | _, [], t => t
  | lastBlock, block :: blocks, t =>
    processBlocks oqs block blocks (t.processBlockEncryption oqs block lastBlock)

def Tracked.start (config : Bool → ConfigEnc) : Tracked :=
  ⟨⟨⟨config true, config true⟩, ⟨config false, config false⟩⟩, fun _ => none, fun _ => false⟩

structure SigNames where
  sigName : Bytes
  sigName2 : Bytes
  isPaused : Bool
  isPaused2 : Bool
deriving DecidableEq, Repr

def getSigNames (oqs : Liboqs) (own : OwnConfig) (b : Block) : Except SchemeError SigNames := do
  let enc1 ← slotConfig oqs own b.encryption1 true
  let enc2 ← slotConfig oqs own b.encryption2 false
  return ⟨enc1.sigName, enc2.sigName, enc1.isPaused, !enc1.isPaused⟩

def parentSlotConfig (oqs : Liboqs) (own : OwnConfig) (parent : Block) (primary : Bool) :
    Except SchemeError ConfigEnc := do
  if primary then slotConfig oqs own parent.encryption1 true
  else
    let cfg ← slotConfig oqs own parent.encryption2 false
    let names ← getSigNames oqs own parent
    return { cfg with isPaused := names.isPaused2 }

def checkEncryptionChangeShape (oqs : Liboqs) (own : OwnConfig) (newBytes : Bytes) (parent : Block)
    (primary : Bool) : Except SchemeError Bool :=
  if newBytes = parent.encryption primary then .ok false
  else do
    let next ← fromBytesToEncryptionConfig oqs newBytes
    if verifyEncConfig oqs next = false then .error (.doesNotMatch next.sigName)
    else
      let cur ← parentSlotConfig oqs own parent primary
      if next.sigName = cur.sigName ∧ next.isPaused = cur.isPaused then .ok false
      else
        let other ← parentSlotConfig oqs own parent !primary
        if next.sigName = other.sigName then .error (.bothSlots next.sigName)
        else if next.sigName ≠ cur.sigName ∧ cur.isPaused = false then
          .error (.pauseBeforeReplacing cur.sigName next.sigName)
        else if next.sigName ≠ cur.sigName ∧ next.isPaused = false then
          .error (.hasToStartPaused next.sigName)
        else .ok true

def isUnpause (cur next : ConfigEnc) : Bool :=
  next.sigName == cur.sigName && cur.isPaused && !next.isPaused

/-- One slot of `schemeBroken`: unreadable, or what `broken` says of the two configurations. -/
def slotBroken (oqs : Liboqs) (next cur : Bytes) (broken : ConfigEnc → ConfigEnc → Bool) : Bool :=
  if next = cur then false
  else
    match fromBytesToEncryptionConfig oqs cur, fromBytesToEncryptionConfig oqs next with
    | .ok c, .ok n => broken c n
    | _, _ => true

/-- `schemeBroken`: the live primary is paused or the spare is replaced. -/
def schemeBroken (oqs : Liboqs) (newBlock lastBlock : Block) : Bool :=
  slotBroken oqs newBlock.encryption1 lastBlock.encryption1
      (fun cur next => next.sigName == cur.sigName && next.isPaused && !cur.isPaused) ||
    slotBroken oqs newBlock.encryption2 lastBlock.encryption2
      (fun cur next => next.sigName != cur.sigName)

structure Schemes where
  primary : ConfigEnc
  secondary : ConfigEnc
deriving DecidableEq, Repr

structure Carries (oqs : Liboqs) (b : Block) (p : Schemes) : Prop where
  primary : fromBytesToEncryptionConfig oqs b.encryption1 = .ok p.primary
  secondary : fromBytesToEncryptionConfig oqs b.encryption2 = .ok p.secondary

namespace Schemes

def slot (p : Schemes) (primary : Bool) : ConfigEnc :=
  if primary then p.primary else { p.secondary with isPaused := !p.primary.isPaused }

def stored (p : Schemes) (primary : Bool) : ConfigEnc := if primary then p.primary else p.secondary

def live (p : Schemes) : ConfigEnc := if p.primary.isPaused then p.secondary else p.primary

end Schemes

variable {oqs : Liboqs} {own : OwnConfig} {b parent : Block} {p : Schemes} {bytes : Bytes}
  {c : ConfigEnc}

theorem fromBytes_nonempty (decoded : fromBytesToEncryptionConfig oqs bytes = .ok c) :
    bytes.length ≠ 0 := by
  intro empty
  unfold fromBytesToEncryptionConfig at decoded
  rw [if_pos (by rw [empty]; decide)] at decoded
  cases decoded

theorem slotConfig_of_decoded (primary : Bool)
    (decoded : fromBytesToEncryptionConfig oqs bytes = .ok c) :
    slotConfig oqs own bytes primary = .ok c := by
  unfold slotConfig
  rw [if_neg (fromBytes_nonempty decoded)]
  exact decoded

namespace Carries

theorem stored (carries : Carries oqs b p) (primary : Bool) :
    fromBytesToEncryptionConfig oqs (b.encryption primary) = .ok (p.stored primary) := by
  cases primary with
  | true => exact carries.primary
  | false => exact carries.secondary

theorem unique {q : Schemes} (first : Carries oqs b p) (second : Carries oqs b q) : p = q := by
  obtain ⟨_, _⟩ := p
  obtain ⟨_, _⟩ := q
  have one := first.primary.symm.trans second.primary
  have two := first.secondary.symm.trans second.secondary
  cases one
  cases two
  rfl

theorem getSigNames (carries : Carries oqs b p) : getSigNames oqs own b =
    .ok ⟨p.primary.sigName, p.secondary.sigName, p.primary.isPaused, !p.primary.isPaused⟩ := by
  unfold Source.getSigNames
  rw [slotConfig_of_decoded true carries.primary, slotConfig_of_decoded false carries.secondary]
  rfl

theorem parentSlotConfig (carries : Carries oqs parent p) (primary : Bool) :
    parentSlotConfig oqs own parent primary = .ok (p.slot primary) := by
  unfold Source.parentSlotConfig
  cases primary with
  | true => exact slotConfig_of_decoded true carries.primary
  | false =>
    rw [slotConfig_of_decoded false carries.secondary, carries.getSigNames]
    rfl

end Carries

structure SlotFollows (p : Schemes) (primary : Bool) (next : ConfigEnc) : Prop where
  paused : next.sigName ≠ (p.slot primary).sigName → (p.slot primary).isPaused = true
  startsPaused : next.sigName ≠ (p.slot primary).sigName → next.isPaused = true
  other : next.sigName ≠ (p.slot primary).sigName → next.sigName ≠ (p.slot !primary).sigName

theorem checkEncryptionChangeShape_ok (carries : Carries oqs parent p) {primary changed : Bool}
    (run : checkEncryptionChangeShape oqs own bytes parent primary = .ok changed) :
    ∃ next, fromBytesToEncryptionConfig oqs bytes = .ok next ∧ SlotFollows p primary next ∧
      (changed = true ↔ bytes ≠ parent.encryption primary ∧
        ¬ (next.sigName = (p.slot primary).sigName ∧ next.isPaused = (p.slot primary).isPaused)) := by
  have keeps : ∀ next : ConfigEnc, next.sigName = (p.slot primary).sigName →
      SlotFollows p primary next := fun next named =>
    ⟨fun differ => absurd named differ, fun differ => absurd named differ,
      fun differ => absurd named differ⟩
  unfold checkEncryptionChangeShape at run
  by_cases same : bytes = parent.encryption primary
  · rw [if_pos same] at run
    cases run
    cases primary with
    | true => exact ⟨p.primary, same ▸ carries.primary, keeps _ rfl, by simp [same]⟩
    | false => exact ⟨p.secondary, same ▸ carries.secondary, keeps _ rfl, by simp [same]⟩
  · rw [if_neg same] at run
    simp only [except_bind_eq_ok, ite_error_eq_ok, carries.parentSlotConfig, Except.ok.injEq,
      exists_eq_left'] at run
    obtain ⟨next, decoded, -, run⟩ := run
    refine ⟨next, decoded, ?_⟩
    split at run
    case isTrue unchanged =>
      cases run
      exact ⟨keeps next unchanged.1, by simp [unchanged]⟩
    case isFalse change =>
      simp only [except_bind_eq_ok, ite_error_eq_ok, Except.ok.injEq, exists_eq_left', not_and,
        Bool.not_eq_false] at run
      obtain ⟨other, paused, starts, rfl⟩ := run
      exact ⟨⟨paused, starts, fun _ => other⟩, by simp [same, change]⟩

end QwidNode.Source
