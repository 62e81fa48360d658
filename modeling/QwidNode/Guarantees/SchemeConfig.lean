import QwidNode.Guarantees.Governance

/-!
# Scheme configurations: their encodings, and the key lengths they leave valid

Source: `crypto/oqs/encryptSchemes.go:92-169,245-351`, `common/types.go:86-133,188-226` and
`blocks/processEncryption.go:29-90,134-152`. The flag byte of an encoded configuration is read as
"not zero", so it is the one byte that the configuration does not determine.
-/
namespace QwidNode.Guarantees.SchemeConfig
open Lib Source List

def int32Bytes (n : Int) : Bytes := (natToBytes 4 (BitVec.ofInt 32 n).toNat).reverse

theorem generateBytes_eq (c : ConfigEnc) : generateBytesFromParams c =
    (c.sigName ++ replicate (sigNameLength - c.sigName.length) 0) ++
      (int32Bytes c.pubKeyLength ++ (int32Bytes c.privateKeyLength ++
        (int32Bytes c.signatureLength ++ [if c.isPaused then 1 else 0]))) := by
  simp [generateBytesFromParams, int32Bytes]

theorem int32FromBytes_eq (b : Bytes) :
    int32FromBytes b = (BitVec.ofNat 32 (bytesToNat b.reverse)).toInt := by
  unfold int32FromBytes bytesToNat
  rw [foldl_reverse]
  congr 3
  funext x acc
  omega

theorem int32FromBytes_int32Bytes (n : Int) : int32FromBytes (int32Bytes n) = n.bmod (2 ^ 32) := by
  have fits : (BitVec.ofInt 32 n).toNat < 256 ^ 4 := (BitVec.ofInt 32 n).isLt
  rw [int32FromBytes_eq, int32Bytes, reverse_reverse, bytesToNat_natToBytes,
    Nat.mod_eq_of_lt fits, BitVec.ofNat_toNat, BitVec.setWidth_eq, BitVec.toInt_ofInt]

theorem int32Bytes_int32FromBytes {b : Bytes} (four : b.length = 4) :
    int32Bytes (int32FromBytes b) = b := by
  have fits : bytesToNat b.reverse < 2 ^ 32 := by
    have bound := bytesToNat_lt b.reverse
    rw [length_reverse, four] at bound
    exact bound
  have back := natToBytes_bytesToNat b.reverse
  rw [length_reverse, four] at back
  rw [int32FromBytes_eq, int32Bytes, BitVec.ofInt_toInt, BitVec.toNat_ofNat,
    Nat.mod_eq_of_lt fits, back, reverse_reverse]

theorem sigNameFromBytes_eq_ok {b name : Bytes} : sigNameFromBytes b = .ok name ↔
    0 ∉ name ∧ b = name ++ replicate (b.length - name.length) 0 := by
  have whole := takeWhile_append_dropWhile (p := (· != 0)) (l := b)
  constructor
  · intro run
    simp only [sigNameFromBytes] at run
    split at run
    case isFalse => cases run
    case isTrue zeros =>
      cases run
      have rest : b.drop (b.takeWhile (· != 0)).length = b.dropWhile (· != 0) :=
        calc _ = (b.takeWhile (· != 0) ++ b.dropWhile (· != 0)).drop _ := by rw [whole]
          _ = _ := drop_left
      rw [rest] at zeros
      refine ⟨fun zero => by simpa using mem_takeWhile_imp zero, ?_⟩
      conv_lhs => rw [← whole]
      congr 1
      refine List.eq_replicate_iff.mpr ⟨?_, fun x inside => ?_⟩
      · rw [← rest, length_drop]
      · simpa using List.all_eq_true.mp zeros x inside
  · rintro ⟨clean, padded⟩
    generalize b.length - name.length = k at padded
    subst padded
    have taken : (name ++ replicate k 0).takeWhile (· != 0) = name := by
      rw [takeWhile_append_of_pos fun x inside => by
        simpa using fun zero : x = 0 => clean (zero ▸ inside)]
      cases k <;> simp [replicate_succ]
    simp only [sigNameFromBytes, taken, drop_left]
    rw [if_pos (by simp)]

def FitsInt32 (n : Int) : Prop := -2 ^ 31 ≤ n ∧ n < 2 ^ 31

structure Encodable (c : ConfigEnc) : Prop where
  noZero : 0 ∉ c.sigName
  pubKey : FitsInt32 c.pubKeyLength
  privateKey : FitsInt32 c.privateKeyLength
  signature : FitsInt32 c.signatureLength

theorem bmod_eq_self {n : Int} : n.bmod (2 ^ 32) = n ↔ FitsInt32 n := by
  simp only [Int.bmod, FitsInt32]
  split <;> omega

theorem generateParams_generateBytes {c : ConfigEnc} (fits : c.sigName.length ≤ sigNameLength) :
    generateParamsEncryptionSchemesFromBytes (generateBytesFromParams c) = .ok c ↔
      Encodable c := by
  have named : (c.sigName ++ replicate (sigNameLength - c.sigName.length) 0).length =
      sigNameLength := by
    rw [length_append, length_replicate]
    omega
  have four : ∀ n, (int32Bytes n).length = 4 := fun n => by
    rw [int32Bytes, length_reverse, natToBytes_length]
  have eight : ∀ l : Bytes, l.drop 8 = (l.drop 4).drop 4 := fun l => by rw [drop_drop]
  have twelve : ∀ l : Bytes, l.drop 12 = ((l.drop 4).drop 4).drop 4 := fun l => by
    rw [drop_drop, drop_drop]
  have flag : ([if c.isPaused then (1 : UInt8) else 0].take 1).any (· != 0) = c.isPaused := by
    cases c.isPaused <;> rfl
  unfold generateParamsEncryptionSchemesFromBytes
  simp only [generateBytes_eq]
  rw [if_neg (by rw [length_append, named]; simp [four, encConfigLength]), take_left' named,
    drop_left' named, eight, twelve, take_left' (four _), drop_left' (four _),
    take_left' (four _), drop_left' (four _), take_left' (four _),
    drop_left' (four _), flag]
  simp only [int32FromBytes_int32Bytes]
  constructor
  · intro run
    obtain ⟨name, decoded, same⟩ := except_bind_eq_ok.mp run
    have same : _ = c := Except.ok.inj same
    refine ⟨?_, bmod_eq_self.mp (congrArg ConfigEnc.pubKeyLength same),
      bmod_eq_self.mp (congrArg ConfigEnc.privateKeyLength same),
      bmod_eq_self.mp (congrArg ConfigEnc.signatureLength same)⟩
    exact congrArg ConfigEnc.sigName same ▸ (sigNameFromBytes_eq_ok.mp decoded).1
  · intro good
    rw [sigNameFromBytes_eq_ok.mpr ⟨good.noZero, by rw [named]⟩]
    simp only [bmod_eq_self.mpr good.pubKey, bmod_eq_self.mpr good.privateKey,
      bmod_eq_self.mpr good.signature]
    rfl

variable {oqs : Liboqs} {x y : Bytes} {c d : ConfigEnc}

theorem fromBytesToEncryptionConfig_ok (run : fromBytesToEncryptionConfig oqs x = .ok c) :
    x.length = 33 ∧ verifyEncConfig oqs c = true ∧ sigNameFromBytes (x.take 20) = .ok c.sigName ∧
      c.pubKeyLength = int32FromBytes ((x.drop 20).take 4) ∧
      c.privateKeyLength = int32FromBytes ((x.drop 24).take 4) ∧
      c.signatureLength = int32FromBytes ((x.drop 28).take 4) := by
  unfold fromBytesToEncryptionConfig at run
  simp only [ite_error_eq_ok, except_bind_eq_ok, not_not, Bool.not_eq_false] at run
  obtain ⟨full, name, named, -, verified, same⟩ := run
  cases same
  exact ⟨full, verified, named, rfl, by simp [sigNameLength], by simp [sigNameLength]⟩

theorem generateBytes_of_accepted (run : fromBytesToEncryptionConfig oqs x = .ok c) :
    generateBytesFromParams c = x.take 32 ++ [if c.isPaused then 1 else 0] := by
  obtain ⟨full, -, named, pub, priv, sig⟩ := fromBytesToEncryptionConfig_ok run
  have four : ∀ k ≤ 28, ((x.drop k).take 4).length = 4 := fun k low => by
    rw [length_take, length_drop]
    omega
  have padded := (sigNameFromBytes_eq_ok.mp named).2
  rw [length_take, full] at padded
  have cut : ∀ k, x.take (k + 4) = x.take k ++ (x.drop k).take 4 := fun k => take_add
  rw [generateBytes_eq, pub, priv, sig, int32Bytes_int32FromBytes (four 20 (by decide)),
    int32Bytes_int32FromBytes (four 24 (by decide)),
    int32Bytes_int32FromBytes (four 28 (by decide)), cut 28, cut 24, cut 20, padded]
  simp only [sigNameLength, append_assoc]
  rfl

theorem config_eq (first : verifyEncConfig oqs c = true) (second : verifyEncConfig oqs d = true)
    (named : c.sigName = d.sigName) (paused : c.isPaused = d.isPaused) : c = d := by
  obtain ⟨_, _, _, name, _⟩ := c
  obtain ⟨_, _, _, _, _⟩ := d
  cases named
  cases paused
  simp only [verifyEncConfig] at first second
  cases known : oqs name with
  | none => simp [known] at first
  | some details =>
    simp only [known, Bool.and_eq_true, beq_iff_eq] at first second
    simp [← first.1.1, ← first.1.2, ← first.2, ← second.1.1, ← second.1.2, ← second.2]

theorem length_eq (first : verifyEncConfig oqs c = true) (second : verifyEncConfig oqs d = true)
    (named : c.sigName = d.sigName) : c.pubKeyLength = d.pubKeyLength := by
  have same := config_eq (d := { d with isPaused := c.isPaused }) first second named rfl
  rw [same]

/-- A configuration has one encoding, but for the flag byte: of two accepted strings for one
scheme and pause flag, the flag bytes alone can differ. -/
theorem encodings_agree (oqs : Liboqs) :
    (∀ c : ConfigEnc, c.sigName.length ≤ sigNameLength →
      (generateParamsEncryptionSchemesFromBytes (generateBytesFromParams c) = .ok c ↔
        Encodable c)) ∧
    ∀ x y c d, fromBytesToEncryptionConfig oqs x = .ok c →
      fromBytesToEncryptionConfig oqs y = .ok d → c.sigName = d.sigName →
      c.isPaused = d.isPaused → (x = y ↔ x.drop 32 = y.drop 32) := by
  refine ⟨fun c fits => generateParams_generateBytes fits, ?_⟩
  intro x y c d first second named paused
  have same := config_eq (fromBytesToEncryptionConfig_ok first).2.1
    (fromBytesToEncryptionConfig_ok second).2.1 named paused
  subst same
  have heads := (generateBytes_of_accepted first).symm.trans (generateBytes_of_accepted second)
  constructor
  · exact congrArg _
  · intro tails
    rw [← take_append_drop 32 x, ← take_append_drop 32 y, tails,
      append_cancel_right heads]

def flaggedTwo : Bytes := (encBytes 65 true).take 32 ++ [2]

theorem two_spellings :
    fromBytesToEncryptionConfig lettersOqs (encBytes 65 true) = .ok (encConfig 65 true) ∧
      fromBytesToEncryptionConfig lettersOqs flaggedTwo = .ok (encConfig 65 true) ∧
      encBytes 65 true ≠ flaggedTwo := by
  decide +kernel

theorem spellings_differ_in_flag :
    encBytes 65 true = flaggedTwo ↔ (encBytes 65 true).drop 32 = flaggedTwo.drop 32 :=
  (encodings_agree lettersOqs).2 _ _ (encConfig 65 true) (encConfig 65 true) (by decide +kernel)
    (by decide +kernel) rfl rfl

theorem slot_setEncryption (own : OwnConfig) (c : ConfigEnc) (primary slot : Bool) :
    (setEncryption own c primary).slot slot =
      ⟨if slot = primary then c else (own.slot slot).current, (own.slot slot).current⟩ := by
  cases primary <;> cases slot <;> rfl

def Required (t : Tracked) (n : Nat) (slot : Bool) : Prop :=
  n ≠ 0 ∧ ((n : Int) = (t.own.slot slot).current.pubKeyLength ∨
    ∃ r ∈ t.replaced slot, (n : Int) = r.pubKeyLength)

/-- What calls keep: the old configuration of a slot is the replaced one right after the current
one came in, and of the current scheme later. -/
structure SlotSound (oqs : Liboqs) (t : Tracked) (slot : Bool) : Prop where
  current : verifyEncConfig oqs (t.own.slot slot).current = true
  previous : verifyEncConfig oqs (t.own.slot slot).previous = true
  replaced : ∀ r ∈ t.replaced slot, verifyEncConfig oqs r = true
  old : if t.latest slot then t.replaced slot = some (t.own.slot slot).previous
    else (t.own.slot slot).previous.sigName = (t.own.slot slot).current.sigName

variable {t : Tracked} {primary slot : Bool}

theorem sound_start {config : Bool → ConfigEnc}
    (verified : ∀ slot, verifyEncConfig oqs (config slot) = true) (slot : Bool) :
    SlotSound oqs (.start config) slot := by
  have both : (Tracked.start config).own.slot slot = ⟨config slot, config slot⟩ := by cases slot <;> rfl
  have none : (Tracked.start config).replaced slot = none := rfl
  have unset : (Tracked.start config).latest slot = false := rfl
  constructor <;> simp [both, verified, none, unset]

theorem slotConfig_verified {own : OwnConfig} {enc : Bytes}
    (current : verifyEncConfig oqs (own.slot primary).current = true)
    (decoded : slotConfig oqs own enc primary = .ok c) : verifyEncConfig oqs c = true := by
  unfold slotConfig at decoded
  split at decoded
  · cases decoded
    exact current
  · exact (fromBytesToEncryptionConfig_ok decoded).2.1

theorem sound_setVoteEncryption (sound : ∀ slot, SlotSound oqs t slot) (enc : Bytes)
    (primary slot : Bool) : SlotSound oqs (t.setVoteEncryption oqs enc primary) slot := by
  unfold Tracked.setVoteEncryption
  split
  case h_1 => exact sound slot
  case h_2 c decoded =>
    have verified := slotConfig_verified (sound primary).current decoded
    have old := (sound slot).current
    split
    · exact sound slot
    by_cases changes : slot = primary ∧ c.sigName ≠ (t.own.slot slot).current.sigName
    · obtain ⟨rfl, named⟩ := changes
      constructor <;> simp [slot_setEncryption, named, verified, old]
    · constructor <;> simp only [slot_setEncryption, if_neg changes]
      · split
        · exact verified
        · exact old
      · exact old
      · exact (sound slot).replaced
      · simp only [changes, decide_false, Bool.false_eq_true, if_false]
        split
        case isTrue here => exact not_not.mp fun named => changes ⟨here, Ne.symm named⟩
        case isFalse => rfl

theorem sound_changeSlot (sound : ∀ slot, SlotSound oqs t slot) (block lastBlock : Block)
    (primary slot : Bool) : SlotSound oqs (t.changeSlot oqs block lastBlock primary) slot := by
  unfold Tracked.changeSlot
  split
  · exact sound_setVoteEncryption sound _ primary slot
  · exact sound slot

theorem sound_processBlocks (sound : ∀ slot, SlotSound oqs t slot) (lastBlock : Block)
    (blocks : List Block) (slot : Bool) :
    SlotSound oqs (t.processBlocks oqs lastBlock blocks) slot := by
  induction blocks generalizing lastBlock t with
  | nil => exact sound slot
  | cons block blocks ih =>
    refine ih (fun slot => ?_) block
    unfold Tracked.processBlockEncryption
    split
    · exact sound slot
    · exact sound_changeSlot (sound_changeSlot sound block lastBlock true) block lastBlock false slot

theorem isValidPubKeyLength_iff (own : OwnConfig) (n : Nat) (slot : Bool) :
    own.isValidPubKeyLength n slot = true ↔ n ≠ 0 ∧
      ((n : Int) = (own.slot slot).current.pubKeyLength ∨
        (n : Int) = (own.slot slot).previous.pubKeyLength ∧
          (n : Int) < (own.slot slot).current.pubKeyLength) := by
  simp only [OwnConfig.isValidPubKeyLength, OwnSlot.pubKeyLength, Bool.true_eq_false, false_or]
  by_cases zero : n = 0
  · simp [zero]
  · rw [if_neg zero, Bool.or_eq_true, beq_iff_eq, beq_iff_eq, if_pos (.inl trivial)]
    split <;> omega

section Keys
variable (keys : ∀ name d, oqs name = some d → 0 < d.lengthPublicKey)
include keys

theorem exists_length (verified : verifyEncConfig oqs c = true) :
    ∃ n : Nat, n ≠ 0 ∧ (n : Int) = c.pubKeyLength := by
  simp only [verifyEncConfig] at verified
  split at verified
  case h_1 => cases verified
  case h_2 d known =>
    simp only [Bool.and_eq_true, beq_iff_eq] at verified
    exact ⟨d.lengthPublicKey, (keys _ d known).ne', verified.1.1⟩

/-- After any blocks, a slot accepts the lengths of its current scheme and of the one it replaced
exactly when nothing was replaced, or the two lengths are equal, or the replaced one is shorter
and there was no `SetEncryption` since, for either slot. -/
theorem superseded_lengths {config : Bool → ConfigEnc}
    (verified : ∀ slot, verifyEncConfig oqs (config slot) = true) (lastBlock : Block)
    (blocks : List Block) (slot : Bool) :
    let t := (Tracked.start config).processBlocks oqs lastBlock blocks
    (∀ n, t.own.isValidPubKeyLength n slot = true ↔ Required t n slot) ↔
      ∀ r ∈ t.replaced slot, r.pubKeyLength = (t.own.slot slot).current.pubKeyLength ∨
        r.pubKeyLength < (t.own.slot slot).current.pubKeyLength ∧ t.latest slot = true := by
  intro t
  have sound : SlotSound oqs t slot :=
    sound_processBlocks (sound_start verified) lastBlock blocks slot
  have old := sound.old
  simp only [isValidPubKeyLength_iff, Required]
  cases latest : t.latest slot with
  | true =>
    rw [latest, if_pos rfl] at old
    -- the old configuration is the replaced one
    simp only [old, Option.mem_def, Option.some.injEq, forall_eq', exists_eq_left', and_true]
    constructor
    · intro exactly
      obtain ⟨n, positive, length⟩ := exists_length keys (sound.replaced _ old)
      have accepted := ((exactly n).mpr ⟨positive, .inr length⟩).2
      omega
    · exact fun shorter n => and_congr_right fun _ => by omega
  | false =>
    rw [latest, if_neg (by decide)] at old
    have same := length_eq sound.previous sound.current old
    constructor
    · intro exactly r inside
      obtain ⟨n, positive, length⟩ := exists_length keys (sound.replaced r inside)
      have accepted := ((exactly n).mpr ⟨positive, .inr ⟨r, inside, length⟩⟩).2
      omega
    · intro shorter n
      refine and_congr_right fun _ => ⟨fun valid => .inl (by omega), ?_⟩
      rintro (current | ⟨r, inside, length⟩)
      · exact .inl current
      · have known := shorter r inside
        simp only [Bool.false_eq_true, and_false, or_false] at known
        omega

end Keys

def lettersAt (height : Int64) (paused : Bool) (reserve : UInt8) : Block :=
  { genesisBlock with
    height, encryption1 := encBytes 65 paused, encryption2 := encBytes reserve true }

/-- A node with A live and another scheme in reserve, after the blocks that follow block 3. -/
def lettersTracked (reserve : UInt8) (blocks : List Block) : Tracked :=
  (Tracked.start fun primary => if primary then encConfig 65 false else
    encConfig reserve true).processBlocks lettersOqs (lettersAt 3 false reserve) blocks

/-- C replaces B, whose keys are longer: a key of B is no longer accepted. -/
theorem longer_length_forgotten :
    checkEncryptionChangeShape lettersOqs (lettersTracked 66 []).own (encBytes 67 true)
        (lettersAt 3 false 66) false = .ok true ∧
      Required (lettersTracked 66 [lettersAt 4 false 67]) 2 false ∧
      (lettersTracked 66 [lettersAt 4 false 67]).own.isValidPubKeyLength 2 false = false :=
  ⟨by decide +kernel, ⟨by decide, .inr ⟨encConfig 66 true, by decide +kernel, rfl⟩⟩,
    by decide +kernel⟩

/-- B replaces C, whose keys are shorter, and these are still accepted. -/
theorem shorter_length_accepted :
    (lettersTracked 67 [lettersAt 4 false 66]).replaced false = some (encConfig 67 true) ∧
      ∀ n, (lettersTracked 67 [lettersAt 4 false 66]).own.isValidPubKeyLength n false = true ↔
        Required (lettersTracked 67 [lettersAt 4 false 66]) n false := by
  have replaced : (lettersTracked 67 [lettersAt 4 false 66]).replaced false =
      some (encConfig 67 true) := by decide +kernel
  refine ⟨replaced, (superseded_lengths (fun name d known => ?_) (by decide) _ _ false).mpr
    fun r inside => ?_⟩
  · unfold lettersOqs at known
    split_ifs at known <;> cases known <;> decide
  · obtain rfl : encConfig 67 true = r := Option.some.inj (replaced.symm.trans inside)
    exact .inr ⟨by decide +kernel, by decide +kernel⟩

end QwidNode.Guarantees.SchemeConfig
