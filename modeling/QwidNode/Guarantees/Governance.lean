import QwidNode.Source.EncryptionVote

/-!
# Scheme governance

Along a chain the two slots of the headers keep naming different schemes, and only a scheme that is
paused in the parent is replaced: at most one is, so a block never replaces both. A replacement has
to carry the pause flag, but the secondary slot's flag does not count.
-/
namespace QwidNode.Guarantees
open Lib Source Word Node
variable {σ : Type} {env : Env σ} {schemes : SchemeEnv} {registry : Block → Block → KeyRegistry}
  {b newBlock lastBlock : Block} {p n : Schemes} {s : Node σ}

/-- The slots of a block are what the shape check accepts on its parent. -/
structure SchemesFollow (p n : Schemes) : Prop where
  primary : SlotFollows p true n.primary
  secondary : SlotFollows p false n.secondary

/-- The slots name different schemes, a replaced scheme was paused, and a scheme that is new in
its slot is not live. -/
structure Governed (p n : Schemes) : Prop where
  distinct : n.primary.sigName ≠ n.secondary.sigName
  replaced : ∀ primary, (n.slot primary).sigName ≠ (p.slot primary).sigName →
    (p.slot primary).isPaused = true
  introduced : ∀ primary, (n.slot primary).sigName ≠ (p.slot primary).sigName →
    n.live.sigName ≠ (n.slot primary).sigName

def PausesAndReplaces (p n : Schemes) : Prop :=
  p.primary.isPaused = false ∧ n.primary.isPaused = true ∧ n.secondary.sigName ≠ p.secondary.sigName

instance (p n : Schemes) : Decidable (PausesAndReplaces p n) :=
  inferInstanceAs (Decidable (_ ∧ _ ∧ _))

theorem SchemesFollow.distinct (follows : SchemesFollow p n)
    (different : p.primary.sigName ≠ p.secondary.sigName) :
    n.primary.sigName ≠ n.secondary.sigName := by
  by_cases first : n.primary.sigName = p.primary.sigName
  · by_cases second : n.secondary.sigName = p.secondary.sigName
    · rw [first, second]
      exact different
    · rw [first]
      exact (follows.secondary.other second).symm
  · have paused : p.primary.isPaused = true := follows.primary.paused first
    have kept : n.secondary.sigName = p.secondary.sigName := by
      by_contra second
      have live : (!p.primary.isPaused) = true := follows.secondary.paused second
      rw [paused] at live
      cases live
    rw [kept]
    exact follows.primary.other first

theorem SchemesFollow.governed_iff (follows : SchemesFollow p n)
    (different : p.primary.sigName ≠ p.secondary.sigName) :
    Governed p n ↔ ¬ PausesAndReplaces p n := by
  have distinct := follows.distinct different
  constructor
  · rintro governed ⟨-, paused, changed⟩
    refine governed.introduced false changed ?_
    rw [Schemes.live, if_pos paused]
    rfl
  · intro apart
    refine ⟨distinct, fun primary changed => ?_, fun primary changed => ?_⟩
    · cases primary with
      | true => exact follows.primary.paused changed
      | false => exact follows.secondary.paused changed
    · cases primary with
      | true =>
        rw [Schemes.live, if_pos (follows.primary.startsPaused changed)]
        exact distinct.symm
      | false =>
        have live : (!p.primary.isPaused) = true := follows.secondary.paused changed
        have stays : n.primary.isPaused = false := by
          rw [Bool.eq_false_iff]
          exact fun paused => apart ⟨by simpa using live, paused, changed⟩
        rw [Schemes.live, if_neg (by rw [stays]; decide)]
        exact distinct

theorem checkSchemes_ok {r : KeyRegistry} (passed : checkSchemes schemes r newBlock lastBlock = .ok ())
    (carries : Carries schemes.oqs lastBlock p) :
    ∃ n, Carries schemes.oqs newBlock n ∧ SchemesFollow p n := by
  unfold checkSchemes checkSlotChange at passed
  simp only [ite_error_eq_ok, except_bind_eq_ok] at passed
  obtain ⟨-, _, ⟨_, shape1, -⟩, _, shape2, -⟩ := passed
  obtain ⟨first, decoded1, follows1, -⟩ := checkEncryptionChangeShape_ok carries shape1
  obtain ⟨second, decoded2, follows2, -⟩ := checkEncryptionChangeShape_ok carries shape2
  exact ⟨⟨first, second⟩, ⟨decoded1, decoded2⟩, ⟨follows1, follows2⟩⟩

theorem follows_of_checked (checked : BaseChecked (env.withSchemes schemes registry) b lastBlock)
    (carries : Carries schemes.oqs lastBlock p) :
    ∃ n, Carries schemes.oqs b n ∧ SchemesFollow p n := by
  obtain ⟨newBlock, filled, base⟩ := checked
  have valid := checkBaseBlock_valid base
  have passed : checkSchemes schemes (registry newBlock lastBlock) newBlock lastBlock = .ok () :=
    toBool_eq_true.mp (Bool.and_eq_true_iff.mp valid).2
  obtain ⟨n, decoded, follows⟩ := checkSchemes_ok passed carries
  refine ⟨n, ?_, follows⟩
  rw [filled]
  exact ⟨decoded.primary, decoded.secondary⟩

theorem binds_withSchemes (binds : HashBinds env) : HashBinds (env.withSchemes schemes registry) where
  checked b p valid := binds.checked b p (Bool.and_eq_true_iff.mp valid).1
  fee := binds.fee
  height := binds.height

theorem chain_carries (sound : Sound (env.withSchemes schemes registry) s) {g : Block}
    (ground : s.db.loadBlock 0 = some g) (carries : Carries schemes.oqs g p)
    (different : p.primary.sigName ≠ p.secondary.sigName)
    (pairs : ∀ k b p, 0 < k → s.db.loadBlock k = some b → s.db.loadBlock (k - 1) = some p →
      BaseChecked (env.withSchemes schemes registry) b p) (m : Nat) :
    ∀ (k : Int64) (b : Block), k.toInt = m → s.db.loadBlock k = some b →
      ∃ n, Carries schemes.oqs b n ∧ n.primary.sigName ≠ n.secondary.sigName := by
  induction m with
  | zero =>
    intro k b zero stored
    obtain rfl : k = 0 := Int64.toInt_inj.mp zero
    rw [ground] at stored
    cases stored
    exact ⟨p, carries, different⟩
  | succ m ih =>
    intro k b height stored
    have range := toInt_range k
    have positive : 0 < k := by
      rw [lt_iff, toInt_zero]
      omega
    have exact := toInt_pred (a := k) (by omega)
    have low := (sound.chain.load_facts stored).2.2.2.2
    obtain ⟨parent, found⟩ := sound.chain.load_isSome (k := k - 1)
      (by rw [le_iff, toInt_zero]; omega) (pred_le positive low (Int64.le_refl _))
    obtain ⟨q, held, apart⟩ := ih (k - 1) parent (by omega) found
    obtain ⟨n, decoded, follows⟩ := follows_of_checked (pairs k b parent positive stored found) held
    exact ⟨n, decoded, follows.distinct apart⟩

/-- In every run from a genesis block with two different schemes, every later block carries two
schemes that follow those of its parent, and it is governed exactly unless it pauses the live
primary and replaces the secondary at once. -/
theorem scheme_governance_iff (env : Env σ) (schemes : SchemeEnv)
    (registry : Block → Block → KeyRegistry) (binds : HashBinds env) (start : Node σ)
    (sound : Sound (env.withSchemes schemes registry) start) (first : start.height = 0) (g : Block)
    (ground : start.db.loadBlock 0 = some g) (two : Schemes) (carries : Carries schemes.oqs g two)
    (different : two.primary.sigName ≠ two.secondary.sigName) (s : Node σ)
    (run : ChainRun (env.withSchemes schemes registry) start s) (k : Int64) (b parent : Block)
    (positive : 0 < k) (stored : s.db.loadBlock k = some b)
    (below : s.db.loadBlock (k - 1) = some parent) :
    ∃ p n, Carries schemes.oqs parent p ∧ Carries schemes.oqs b n ∧
      (Governed p n ↔ ¬ PausesAndReplaces p n) := by
  obtain ⟨sound', kept, pairs⟩ := ChainRun.checked (binds_withSchemes binds) sound first run
  have lower := (sound'.chain.load_facts below).2.2.2.1
  rw [le_iff, toInt_zero] at lower
  obtain ⟨p, held, apart⟩ := chain_carries sound' (kept.trans ground) carries different pairs
    (k - 1).toInt.toNat (k - 1) parent (by omega) below
  obtain ⟨n, decoded, follows⟩ := follows_of_checked (pairs k b parent positive stored below) held
  exact ⟨p, n, held, decoded, follows.governed_iff apart⟩

/-- A configuration of one of the schemes A, B and C, whose lengths are 3, 2 and 1. -/
def encConfig (letter : UInt8) (isPaused : Bool) : ConfigEnc :=
  ⟨68 - letter.toNat, 1, 1, [letter], isPaused⟩

def encBytes (letter : UInt8) (isPaused : Bool) : Bytes :=
  generateBytesFromParams (encConfig letter isPaused)

def lettersOqs : Liboqs := fun name =>
  if name = [65] then some ⟨3, 1, 1⟩
  else if name = [66] then some ⟨2, 1, 1⟩
  else if name = [67] then some ⟨1, 1, 1⟩
  else none

/-- A nonce of the operator of `Node.small` that votes for two configurations. -/
def ballot (vote1 vote2 : Bytes) : Transaction :=
  let tx := Transaction.plain 0xAA (getDelegatedAccountAddress 1).byteValue 0 0 0
  { tx with txData := { tx.txData with
      optData := List.replicate oracleOptDataMinLen 0 ++ bytesToLenAndBytes vote1 ++
        bytesToLenAndBytes vote2 } }

def lettersEnv (vote1 vote2 : Bytes) : SchemeEnv where
  oqs := lettersOqs
  own :=
    { primary := ⟨encConfig 65 false, encConfig 65 false⟩
      secondary := ⟨encConfig 66 true, encConfig 66 true⟩ }
  decodeProof pb := if pb = [1] then some (ballot vote1 vote2) else none

def lettersKeys : KeyRegistry where
  records := (AList.insert (0xA1 : AddressBytes) ⟨[1, 2, 3], ⟨0xA1, true⟩, ⟨0xAA, true⟩, true⟩ ∅).insert
    0xB1 ⟨[1, 2], ⟨0xB1, false⟩, ⟨0xAA, true⟩, false⟩
  lists := AList.insert (0xAA : AddressBytes) [⟨0xA1, true⟩, ⟨0xB1, false⟩] ∅

def lettersGenesis : Block :=
  { genesisBlock with encryption1 := encBytes 65 false, encryption2 := encBytes 66 true }

def lettersBlock (slot1 slot2 : Bytes) : Block :=
  { stamped 1 0 lettersGenesis.blockHash with
    encryption1 := slot1, encryption2 := slot2, oracleProofs := [[1]] }

def lettersNode (slot1 slot2 : Bytes) : Node Unit :=
  ((genesis lettersGenesis).applyAndStore
    (Env.stamped.withSchemes (lettersEnv slot1 slot2) fun _ _ => lettersKeys) .none
    (lettersBlock slot1 slot2) lettersGenesis).1

theorem lettersNode_run (slot1 slot2 : Bytes)
    (base : checkBaseBlock (Env.stamped.withSchemes (lettersEnv slot1 slot2) fun _ _ => lettersKeys)
      (lettersBlock slot1 slot2) lettersGenesis = .ok ()) :
    ChainRun (Env.stamped.withSchemes (lettersEnv slot1 slot2) fun _ _ => lettersKeys)
      (genesis lettersGenesis) (lettersNode slot1 slot2) := by
  have tip : (genesis lettersGenesis).db.loadBlock 0 = some lettersGenesis := by decide +kernel
  exact .block .start .none tip rfl (by decide +kernel) base

theorem lettersGenesis_carries :
    Carries lettersOqs lettersGenesis ⟨encConfig 65 false, encConfig 66 true⟩ :=
  ⟨by decide +kernel, by decide +kernel⟩

theorem lettersGenesis_sound (slot1 slot2 : Bytes) :
    Sound (Env.stamped.withSchemes (lettersEnv slot1 slot2) fun _ _ => lettersKeys)
      (genesis lettersGenesis) :=
  Sound.genesis rfl rfl (by decide +kernel)

/-- A is paused and B replaced by C in one block: C is live at once. -/
theorem introduced_scheme_live :
    ChainRun (Env.stamped.withSchemes (lettersEnv (encBytes 65 true) (encBytes 67 true))
        fun _ _ => lettersKeys) (genesis lettersGenesis)
        (lettersNode (encBytes 65 true) (encBytes 67 true)) ∧
      ∃ b n, (lettersNode (encBytes 65 true) (encBytes 67 true)).db.loadBlock 1 = some b ∧
        Carries lettersOqs b n ∧ Carries lettersOqs lettersGenesis ⟨encConfig 65 false, encConfig 66 true⟩ ∧
        ¬ Governed ⟨encConfig 65 false, encConfig 66 true⟩ n := by
  have run := lettersNode_run (encBytes 65 true) (encBytes 67 true) (by decide +kernel)
  refine ⟨run, lettersBlock (encBytes 65 true) (encBytes 67 true),
    ⟨encConfig 65 true, encConfig 67 true⟩, by decide +kernel,
    ⟨by decide +kernel, by decide +kernel⟩, lettersGenesis_carries, fun governed => ?_⟩
  exact governed.introduced false (by decide) rfl

/-- B alone is replaced by C: A stays live. -/
theorem reserve_replaced_governed :
    (lettersNode (encBytes 65 false) (encBytes 67 true)).height = 1 ∧
      ∃ p n, Carries lettersOqs lettersGenesis p ∧
        Carries lettersOqs (lettersBlock (encBytes 65 false) (encBytes 67 true)) n ∧
        Governed p n := by
  have run := lettersNode_run (encBytes 65 false) (encBytes 67 true) (by decide +kernel)
  obtain ⟨p, n, held, decoded, iff⟩ := scheme_governance_iff Env.stamped
    (lettersEnv (encBytes 65 false) (encBytes 67 true)) (fun _ _ => lettersKeys) Env.stamped_binds
    (genesis lettersGenesis) (lettersGenesis_sound _ _) rfl lettersGenesis (by decide +kernel)
    _ lettersGenesis_carries (by decide) _ run 1
    (lettersBlock (encBytes 65 false) (encBytes 67 true)) lettersGenesis (by decide)
    (by decide +kernel) (by decide +kernel)
  refine ⟨by decide +kernel, p, n, held, decoded, iff.mpr ?_⟩
  obtain rfl := held.unique lettersGenesis_carries
  have here : Carries lettersOqs (lettersBlock (encBytes 65 false) (encBytes 67 true))
      ⟨encConfig 65 false, encConfig 67 true⟩ := ⟨by decide +kernel, by decide +kernel⟩
  obtain rfl := decoded.unique here
  decide

end QwidNode.Guarantees
