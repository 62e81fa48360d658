import QwidNode.Source.Sync

/-!
# Who can make the header handler rewind

The first pass decides about a rewind on the first block of a batch that it does not pass
over. It asks for the hash, the signature and the parent of that block, and never for the
stake of its operator: `VerifyStakeDependent` sees a block only when it is applied, after the
rewind has removed ours.
-/
namespace QwidNode.Guarantees
open Lib Source
variable {σ : Type} {env : SyncEnv σ} {s : Node σ}

/-- The handler takes the chain back on this verdict. A failed application is undone
elsewhere and is not a decision about a fork. -/
def Rewinds : BatchVerdict → Prop
  | .lostHash _ => True
  | .fork _ => True
  | _ => False

/-- The block is signed, under the rules of our block below it, by the operator that the
ancestor's staking state entitles under its delegated account. -/
def SignedByEntitled (env : SyncEnv σ) (db : Db σ) (ancestor : Ledger) (item : BatchItem) : Prop :=
  env.headerSigned item.2 = true ∧
    (∃ parent, db.loadBlock (item.1 - 1) = some parent ∧
      env.headerSignatureValid item.2 parent = true) ∧
    ancestor.entitles item.2 = true

/-- The pass goes on behind the item: it lies below the first height, it is our own block, or
it is an authentic block above our height. -/
def PassedOver (env : SyncEnv σ) (s : Node σ) (before : Option BatchItem) (item : BatchItem) :
    Prop :=
  item.1 ≤ 0 ∨ (item.1 ≤ s.height ∧ s.db.blockByHeight.lookup item.1 = some item.2.blockHash) ∨
    (s.height < item.1 ∧ ∃ parent, batchParent s.db s.height before item.1 = some parent ∧
      authenticBatchHeader env item.2 item.1 parent = true)

inductive Reached (env : SyncEnv σ) (s : Node σ) :
    Option BatchItem → List BatchItem → BatchItem → Prop
  | here (before : Option BatchItem) (item : BatchItem) (rest : List BatchItem) :
      Reached env s before (item :: rest) item
  | there {before : Option BatchItem} {first item : BatchItem} {rest : List BatchItem}
      (passed : PassedOver env s before first) (later : Reached env s (some first) rest item) :
      Reached env s before (first :: rest) item

/-- A block with its height and hash in order that an operator signed on our block below it. -/
structure Competes (env : SyncEnv σ) (db : Db σ) (item : BatchItem) : Prop where
  height : item.2.height = item.1
  hash : env.calcBlockHash item.2 = item.2.blockHash
  signed : env.headerSigned item.2 = true
  links : ∃ parent, db.loadBlock (item.1 - 1) = some parent ∧
    env.headerSignatureValid item.2 parent = true ∧ item.2.previousHash = parent.blockHash

theorem verifyCompetingBlock_eq_forkVerified {db : Db σ} {item : BatchItem} (above : 0 < item.1) :
    verifyCompetingBlock env db item.2 item.1 = .forkVerified ↔ Competes env db item := by
  have first : ¬ item.1 < 1 := by
    simp only [Int64.lt_iff_toInt_lt] at above ⊢
    have zero : (0 : Int64).toInt = 0 := rfl
    have one : (1 : Int64).toInt = 1 := rfl
    omega
  unfold verifyCompetingBlock
  constructor
  · intro verified
    split at verified
    · cases verified
    · next labelled =>
      split at verified
      · cases verified
      · next hashed =>
        cases loaded : db.loadBlock (item.1 - 1) with
        | none =>
          rw [loaded] at verified
          cases verified
        | some parent =>
          simp only [loaded] at verified
          split at verified
          · cases verified
          · next signed =>
            split at verified
            · cases verified
            · next linked =>
              simp only [not_or, Bool.not_eq_false, ne_eq, not_not] at *
              exact ⟨labelled.2, hashed, signed.1, parent, loaded, signed.2, linked⟩
  · rintro ⟨height, hash, signed, parent, loaded, valid, linked⟩
    rw [if_neg (by simp [first, height]), if_neg (by simp [hash])]
    simp [loaded, signed, valid, linked]

theorem Reached.resume {before : Option BatchItem} {items : List BatchItem} {item : BatchItem}
    (reached : Reached env s before items item) (good complete : Int64) :
    ∃ before' rest good' complete', firstPass env s s.height before items good complete =
      firstPass env s s.height before' (item :: rest) good' complete' := by
  induction reached generalizing good complete with
  | here before item rest => exact ⟨before, rest, good, complete, rfl⟩
  | @there before first item rest passed later ih =>
    unfold firstPass
    rcases passed with below | ⟨low, own⟩ | ⟨high, parent, found, authentic⟩
    · rw [if_pos below]
      exact ih _ _
    · by_cases below : first.1 ≤ 0
      · rw [if_pos below]
        exact ih _ _
      · rw [if_neg below, if_pos low]
        simp only [own, ↓reduceIte]
        exact ih _ _
    · by_cases below : first.1 ≤ 0
      · rw [if_pos below]
        exact ih _ _
      · rw [if_neg below, if_neg (Int64.not_le.mpr high)]
        simp only [found, authentic, ↓reduceIte]
        exact ih _ _

/-- Why the first pass ends as it does: at an item that it has reached, where a hash is lost or a
competing block is stored. -/
def Explained (env : SyncEnv σ) (s : Node σ) (before : Option BatchItem) (items : List BatchItem)
    (ended : FirstPass) : Prop :=
  (∀ index, ended = .lostHash index → ∃ item, Reached env s before items item ∧ 0 < item.1 ∧
    item.1 ≤ s.height ∧ s.db.blockByHeight.lookup item.1 = none) ∧
  (∀ item, ended = .fork item → Reached env s before items item ∧ 0 < item.1 ∧
    item.1 ≤ s.height ∧ (∃ hash, s.db.blockByHeight.lookup item.1 = some hash ∧
      item.2.blockHash ≠ hash) ∧ Competes env s.db item)

theorem firstPass_rewinds (env : SyncEnv σ) (s : Node σ) (before : Option BatchItem)
    (items : List BatchItem) (good complete : Int64) :
    Explained env s before items (firstPass env s s.height before items good complete) := by
  induction items generalizing before good complete with
  | nil =>
    constructor
    · intro index run
      cases run
    · intro item run
      cases run
  | cons first rest ih =>
    -- what the pass finds behind an item it passes over, it has reached from here
    have behind : PassedOver env s before first → ∀ good complete,
        Explained env s before (first :: rest)
          (firstPass env s s.height (some first) rest good complete) := by
      intro passed good complete
      obtain ⟨lost, forked⟩ := ih (some first) good complete
      constructor
      · intro index run
        obtain ⟨item, reached, facts⟩ := lost index run
        exact ⟨item, .there passed reached, facts⟩
      · intro item run
        obtain ⟨reached, facts⟩ := forked item run
        exact ⟨.there passed reached, facts⟩
    unfold firstPass
    by_cases below : first.1 ≤ 0
    · simp only [if_pos below]
      exact behind (.inl below) _ _
    have above : 0 < first.1 := Int64.not_le.mp below
    simp only [if_neg below]
    by_cases low : first.1 ≤ s.height
    · simp only [if_pos low]
      cases stored : s.db.blockByHeight.lookup first.1 with
      | none =>
        simp only [Explained, reduceCtorEq, false_implies, implies_true, and_true]
        intro index _
        exact ⟨first, .here before first rest, above, low, stored⟩
      | some hash =>
        by_cases own : first.2.blockHash = hash
        · simp only [if_pos own]
          exact behind (.inr (.inl ⟨low, own ▸ stored⟩)) _ _
        · simp only [if_neg own]
          cases verdict : verifyCompetingBlock env s.db first.2 first.1 with
          | forkVerified =>
            simp only [Explained, reduceCtorEq, false_implies, implies_true, true_and,
              FirstPass.fork.injEq]
            rintro item rfl
            exact ⟨.here before _ rest, above, low, ⟨hash, stored, own⟩,
              (verifyCompetingBlock_eq_forkVerified above).mp verdict⟩
          | forkDeeper => simp [Explained]
          | forkInvalid => simp [Explained]
    · simp only [if_neg low]
      cases found : batchParent s.db s.height before first.1 with
      | none => simp [Explained]
      | some parent =>
        by_cases authentic : authenticBatchHeader env first.2 first.1 parent = true
        · simp only [if_pos authentic]
          exact behind (.inr (.inr ⟨Int64.not_le.mp low, parent, found, authentic⟩)) _ _
        · simp only [if_neg authentic]
          simp [Explained]

theorem firstPass_at {before : Option BatchItem} {items : List BatchItem} {item : BatchItem}
    (reached : Reached env s before items item) (above : 0 < item.1) (low : item.1 ≤ s.height)
    (good complete : Int64) :
    (s.db.blockByHeight.lookup item.1 = none →
      firstPass env s s.height before items good complete = .lostHash item.1) ∧
    ∀ hash, s.db.blockByHeight.lookup item.1 = some hash → item.2.blockHash ≠ hash →
      Competes env s.db item →
      firstPass env s s.height before items good complete = .fork item := by
  obtain ⟨before', rest, good', complete', run⟩ := reached.resume good complete
  rw [run]
  unfold firstPass
  rw [if_neg (Int64.not_le.mpr above), if_pos low]
  constructor
  · intro lost
    rw [lost]
  · intro hash stored other competes
    simp only [stored, if_neg other, (verifyCompetingBlock_eq_forkVerified above).mpr competes]

theorem verifyBatch_rewinds (env : SyncEnv σ) (now : Int) (requests : List HeaderRequest)
    (indices : List Int64) (blcks : List Block)
    (admitted : batchAdmitted now requests s.height indices blcks = true) :
    (∀ index, s.verifyBatch env now requests indices blcks = .lostHash index ↔
      firstPass env s s.height none (indices.zip blcks) (indices.headD 0) s.height =
        .lostHash index) ∧
    ∀ item, s.verifyBatch env now requests indices blcks = .fork item ↔
      firstPass env s s.height none (indices.zip blcks) (indices.headD 0) s.height =
        .fork item := by
  unfold Node.verifyBatch
  rw [if_pos admitted]
  dsimp only
  cases firstPass env s s.height none (indices.zip blcks) (indices.headD 0) s.height with
  | lostHash index => simp
  | fork item => simp
  | deeper index => simp
  | invalid => simp
  | scanned good complete =>
    dsimp only
    cases secondPass env s.db s.height complete none (indices.zip blcks) s.height with
    | none => simp
    | some verified =>
      dsimp only
      split
      · simp
      · simp

def twoKeysEnv : SyncEnv Unit where
  toEnv := { Env.permissive with
    headerSignatureValid := fun b _ => [0xAA, 0xBB].contains b.operatorAccount.byteValue }
  headerSigned _ := true
  merkleRootMatches _ := true

def ownBlock (height : Int64) (hash parent : Hash) : Block :=
  { (Node.small [] []).parentBlock height with blockHash := hash, previousHash := parent }

def threeBlocks : Node Unit :=
  let s := Node.small [] []
  { s with
    height := 2
    db := { s.db with
      blocks := ((AList.insert 0x10 (ownBlock 0 0x10 0) ∅).insert 0x11
        (ownBlock 1 0x11 0x10)).insert 0x12 (ownBlock 2 0x12 0x11)
      blockByHeight := ((AList.insert (0 : Int64) 0x10 ∅).insert 1 0x11).insert 2 0x12
      accountsAt := (AList.insert (0 : Int64) (.whole (∅, ∅)) ∅).insert 1 (.whole (∅, ∅))
      stakingAt := (AList.insert (0 : Int64) (some (s.ledger.staking, ∅)) ∅).insert 1
        (some (s.ledger.staking, ∅)) } }

def foreignBlock : Block :=
  { ownBlock 2 0x99 0x11 with operatorAccount := ⟨0xBB, true⟩ }

end QwidNode.Guarantees
