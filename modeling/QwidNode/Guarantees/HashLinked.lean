import QwidNode.Source.ChainRun
import QwidNode.Source.Sync

/-!
# The stored chain stays linked

The header handler checks the links of a batch while other blocks may be stored, and applies it
later on the tip it then finds. It has checked the order inside the batch, but that the batch
continues the chain only against an earlier tip, and `CheckBlockAndTransferFunds` compares no
hashes.
-/
namespace QwidNode.Guarantees
open Lib Source Word
variable {σ : Type} {env : SyncEnv σ} {s : Node σ}

/-- Every stored block above the first names the hash of the one below it. -/
def HashLinked (db : Db σ) : Prop :=
  ∀ k b, 0 < k → db.loadBlock k = some b →
    ∃ p, db.loadBlock (k - 1) = some p ∧ b.previousHash = p.blockHash

theorem Linked.hashLinked {env : Env σ} (linked : Linked env s) : HashLinked s.db := by
  obtain ⟨top, chain, -, -⟩ := linked
  exact chain.linked

/-- The block has its height and hash, and beyond the next height it follows the item before
it. -/
structure Follows (env : SyncEnv σ) (h : Int64) (before : Option BatchItem) (item : BatchItem) :
    Prop where
  height : item.2.height = item.1
  hashed : env.calcBlockHash item.2 = item.2.blockHash
  parent : h + 1 < item.1 → ∃ p, before = some p ∧ p.1 = item.1 - 1 ∧
    item.2.previousHash = p.2.blockHash

def Chained (env : SyncEnv σ) (h upTo : Int64) : Option BatchItem → List BatchItem → Prop
  | _, [] => True
  | before, item :: rest =>
    (h < item.1 → item.1 ≤ upTo → Follows env h before item) ∧ Chained env h upTo (some item) rest

def Ascending (items : List BatchItem) : Prop := items.Pairwise fun a b => a.1 < b.1

theorem Chained.mono {h upTo upTo' : Int64} (le : upTo' ≤ upTo) {before : Option BatchItem}
    {items : List BatchItem} (chained : Chained env h upTo before items) :
    Chained env h upTo' before items := by
  induction items generalizing before with
  | nil => trivial
  | cons item rest ih =>
    exact ⟨fun new low => chained.1 new (Int64.le_trans low le), ih chained.2⟩

theorem chained_of_beyond {h upTo : Int64} {before : Option BatchItem} {items : List BatchItem}
    (beyond : ∀ item ∈ items, h < item.1 → upTo < item.1) : Chained env h upTo before items := by
  induction items generalizing before with
  | nil => trivial
  | cons item rest ih =>
    refine ⟨fun new low => ?_, ih fun x member => beyond x (List.mem_cons_of_mem _ member)⟩
    exact absurd (beyond item List.mem_cons_self new) (Int64.not_lt.mpr low)

theorem follows_of_authentic {db : Db σ} {h : Int64} {before : Option BatchItem}
    {item : BatchItem} {parent : Block} (found : batchParent db h before item.1 = some parent)
    (authentic : authenticBatchHeader env item.2 item.1 parent = true) :
    Follows env h before item := by
  unfold authenticBatchHeader at authentic
  simp only [Bool.and_eq_true, Bool.not_eq_true', Bool.or_eq_false_iff, bne_eq_false_iff_eq,
    beq_iff_eq] at authentic
  obtain ⟨⟨⟨⟨⟨height, linked⟩, hashed⟩, -⟩, -⟩, -⟩ := authentic
  refine ⟨height, hashed, fun far => ?_⟩
  have notNext : item.1 - 1 ≠ h := by
    rintro rfl
    rw [Int64.sub_add_cancel] at far
    exact Int64.lt_irrefl far
  unfold batchParent at found
  rw [if_neg notNext] at found
  cases before with
  | none => cases found
  | some p =>
    by_cases adjacent : p.1 = item.1 - 1
    · simp only [if_pos adjacent, Option.some.injEq] at found
      exact ⟨p, rfl, adjacent, found ▸ linked⟩
    · simp only [if_neg adjacent] at found
      cases found

theorem firstPass_chained {h : Int64} (nonneg : 0 ≤ h) {items : List BatchItem}
    {before : Option BatchItem} {good complete good' complete' : Int64}
    (ascending : Ascending items) (beyond : ∀ item ∈ items, h < item.1 → complete < item.1)
    (run : firstPass env s h before items good complete = .scanned good' complete') :
    Chained env h complete' before items := by
  induction items generalizing before good complete with
  | nil => trivial
  | cons item rest ih =>
    obtain ⟨first, later⟩ := List.pairwise_cons.mp ascending
    have behind : ∀ x ∈ rest, h < x.1 → complete < x.1 :=
      fun x member => beyond x (List.mem_cons_of_mem _ member)
    unfold firstPass at run
    by_cases below : item.1 ≤ 0
    · rw [if_pos below] at run
      exact ⟨fun new _ => absurd (Int64.le_trans below nonneg) (Int64.not_le.mpr new),
        ih later behind run⟩
    rw [if_neg below] at run
    by_cases low : item.1 ≤ h
    · rw [if_pos low] at run
      have old : ∀ {P : Prop}, h < item.1 → P := fun new => absurd low (Int64.not_le.mpr new)
      cases stored : s.db.blockByHeight.lookup item.1 with
      | none =>
        rw [stored] at run
        cases run
      | some hash =>
        simp only [stored] at run
        split at run
        · exact ⟨fun new _ => old new, ih later behind run⟩
        · split at run
          · cases run
          · cases run
          · cases run
    · rw [if_neg low] at run
      cases found : batchParent s.db h before item.1 with
      | none =>
        rw [found] at run
        cases run
        exact chained_of_beyond beyond
      | some parent =>
        simp only [found] at run
        by_cases authentic : authenticBatchHeader env item.2 item.1 parent = true
        · rw [if_pos authentic] at run
          refine ⟨fun _ _ => follows_of_authentic found authentic, ih later ?_ run⟩
          intro x member new
          split
          · exact first x member
          · exact behind x member new
        · rw [if_neg authentic] at run
          cases run
          exact chained_of_beyond beyond

theorem secondPass_le {db : Db σ} {h complete start verified : Int64} {items : List BatchItem}
    {before : Option Block}
    (run : secondPass env db h complete before items start = some verified) :
    verified = start ∨ verified ≤ complete := by
  induction items generalizing before start with
  | nil =>
    cases run
    exact .inl rfl
  | cons item rest ih =>
    unfold secondPass at run
    split at run
    · exact ih run
    · split at run
      · cases run
        exact .inl rfl
      · next low =>
        split at run
        · cases run
        · split at run
          · cases run
          · split at run
            · split at run
              · cases run
                exact .inl rfl
              · cases run
            · rcases ih run with rfl | le
              · exact .inr (Int64.not_lt.mp low)
              · exact .inr le

def Checked (env : SyncEnv σ) (batch : VerifiedBatch) : Prop :=
  Ascending batch.items → Chained env batch.h batch.verifiedUpTo none batch.items

theorem verifyBatch_checked (nonneg : 0 ≤ s.height) {now : Int} {requests : List HeaderRequest}
    {indices : List Int64} {blcks : List Block} {batch : VerifiedBatch}
    (verdict : s.verifyBatch env now requests indices blcks = .verified batch) :
    Checked env batch := by
  unfold Node.verifyBatch at verdict
  split at verdict
  · dsimp only at verdict
    cases first : firstPass env s s.height none (indices.zip blcks) (indices.headD 0) s.height with
    | scanned good complete =>
      simp only [first] at verdict
      cases second : secondPass env s.db s.height complete none (indices.zip blcks) s.height with
      | none =>
        simp only [second] at verdict
        cases verdict
      | some verified =>
        simp only [second] at verdict
        split at verdict
        · cases verdict
        · next new =>
          cases verdict
          intro ascending
          have le : verified ≤ complete := by
            rcases secondPass_le second with rfl | le
            · exact absurd (Int64.le_refl _) new
            · exact le
          exact (firstPass_chained nonneg ascending (fun _ _ new => new) first).mono le
    | lostHash index => simp only [first, reduceCtorEq] at verdict
    | fork item => simp only [first, reduceCtorEq] at verdict
    | deeper index => simp only [first, reduceCtorEq] at verdict
    | invalid => simp only [first, reduceCtorEq] at verdict
  · cases verdict

structure Continues (s : Node σ) (batch : VerifiedBatch) : Prop where
  ascending : Ascending batch.items
  notBelow : batch.h ≤ s.height
  onTip : ∀ item ∈ batch.items, item.1 = s.height + 1 → item.1 ≤ batch.verifiedUpTo →
    ∀ tip, s.db.loadBlock s.height = some tip → item.2.previousHash = tip.blockHash
  small : ∀ item ∈ batch.items, item.1.toInt < 2 ^ 62

/-- Where the loop is: in front of the first block it applies, with the node as it was found, or
behind one, which is now the tip. -/
inductive LoopAt (h good upTo : Int64) (s : Node σ) (items : List BatchItem) (top : Int64) :
    Option BatchItem → Option Block → Prop
  | fresh {previous : Option BatchItem} (height : s.height = h)
      (onTip : ∀ item ∈ items, item.1 = h + 1 → item.1 ≤ upTo →
        ∀ tip, s.db.loadBlock h = some tip → item.2.previousHash = tip.blockHash) :
      LoopAt h good upTo s items top previous none
  | applied {p : BatchItem} {stored : Block} (new : h < p.1) (beyond : good < p.1)
      (reached : top = p.1) (tip : s.db.loadBlock p.1 = some stored)
      (hash : stored.blockHash = p.2.blockHash) :
      LoopAt h good upTo s items top (some p) (some p.2)

section
variable {h good upTo top : Int64} {items : List BatchItem} {previous : Option BatchItem}
  {before : Option Block} {item : BatchItem} {oldBlock : Block}

theorem LoopAt.skip (at_ : LoopAt h good upTo s (item :: items) top previous before)
    (ahead : ∀ p, previous = some p → p.1 < item.1) (height : h < item.1 → item.2.height = item.1)
    (skipped : item.2.height ≤ good ∨ item.1 ≤ h) :
    LoopAt h good upTo s items top (some item) (before.map fun _ => item.2) := by
  cases at_ with
  | fresh height onTip =>
    exact .fresh height fun x member => onTip x (List.mem_cons_of_mem _ member)
  | @applied p stored new beyond reached tip hash =>
    have next := ahead p rfl
    have new' : h < item.1 := Int64.lt_trans new next
    rw [height new'] at skipped
    rcases skipped with low | low
    · exact absurd (Int64.lt_trans beyond next) (Int64.not_lt.mpr low)
    · exact absurd new' (Int64.not_lt.mpr low)

theorem LoopAt.fits (at_ : LoopAt h good upTo s (item :: items) top previous before)
    {h0 : Int64} (notBelow : h0 ≤ h) (ahead : ∀ p, previous = some p → p.1 < item.1)
    (new : h < item.1) (low : item.1 ≤ upTo) (follows : Follows env h0 previous item)
    (small : item.1.toInt < 2 ^ 62) (chain : s.db.chain.LinkedTo (blockView env.toEnv) top)
    (bound : top.toInt < 2 ^ 62) (above : top ≤ s.height)
    (parent : before.or (s.db.loadBlock (item.1 - 1)) = some oldBlock) :
    Fits env.toEnv s top item.2 ∧ item.2.height = top + 1 := by
  have nonneg := chain.nonneg
  have range := toInt_range item.1
  have one := toInt_one
  have next := toInt_succ (a := top) (by omega)
  -- the item lies just above the top, and names the block there
  have step : item.1 = top + 1 ∧
      ∃ tip, s.db.loadBlock top = some tip ∧ item.2.previousHash = tip.blockHash := by
    cases at_ with
    | fresh height onTip =>
      rw [Option.none_or] at parent
      obtain ⟨-, -, -, lower, upper⟩ := chain.load_facts parent
      have value : item.1.toInt = top.toInt + 1 ∧ h.toInt = top.toInt := by
        simp only [le_iff, lt_iff, toInt_zero, ← height] at *
        rcases toInt_sub_cases item.1 1 with ⟨-, -, exact⟩ | ⟨-, exact⟩ | ⟨-, exact⟩ <;> omega
      have same : h = top := Int64.toInt_inj.mp value.2
      have equal : item.1 = top + 1 := Int64.toInt_inj.mp (by omega)
      rw [equal, Int64.add_sub_cancel] at parent
      refine ⟨equal, oldBlock, parent, ?_⟩
      exact onTip item List.mem_cons_self (same ▸ equal) low oldBlock (same ▸ parent)
    | @applied p stored new' beyond reached tip hash =>
      have far : h0 + 1 < item.1 := by
        have later := ahead p rfl
        have range' := toInt_range h0
        simp only [le_iff, lt_iff] at *
        rw [toInt_add_of_fits (by omega) (by omega)]
        omega
      obtain ⟨q, equal, adjacent, linked⟩ := follows.parent far
      cases equal
      refine ⟨?_, stored, reached ▸ tip, linked.trans hash.symm⟩
      rw [reached, adjacent, Int64.sub_add_cancel]
  obtain ⟨equal, tip, loaded, linked⟩ := step
  have height : item.2.height = top + 1 := follows.height.trans equal
  refine ⟨⟨follows.hashed, ⟨?_, tip, ?_, linked⟩, ?_, .inr height, ?_⟩, height⟩
  · change 0 < item.2.height
    rw [le_iff, toInt_zero] at nonneg
    rw [height, lt_iff, next, toInt_zero]
    omega
  · change s.db.loadBlock (item.2.height - 1) = some tip
    rw [height, Int64.add_sub_cancel]
    exact loaded
  · rw [height, le_iff, next]
    omega
  · rw [follows.height]
    exact small

end

theorem linked_applyItems (binds : HashBinds env.toEnv) (fault : Block → StoreFault)
    {h0 h good upTo : Int64} (notBelow : h0 ≤ h) (items : List BatchItem)
    {previous : Option BatchItem} {before : Option Block} {applied : Option Int64} {top : Int64}
    (s : Node σ) (ascending : Ascending items)
    (ahead : ∀ p, previous = some p → ∀ x ∈ items, p.1 < x.1)
    (chained : Chained env h0 upTo previous items)
    (small : ∀ x ∈ items, x.1.toInt < 2 ^ 62)
    (chain : s.db.chain.LinkedTo (blockView env.toEnv) top) (bound : top.toInt < 2 ^ 62)
    (above : top ≤ s.height) (at_ : LoopAt h good upTo s items top previous before) :
    Linked env.toEnv (applyItems env.toEnv fault good upTo h before items applied s).1 := by
  induction items generalizing s previous before applied top with
  | nil => exact ⟨top, chain, bound, above⟩
  | cons item rest ih =>
    obtain ⟨first, later⟩ := List.pairwise_cons.mp ascending
    have aheadHere : ∀ p, previous = some p → p.1 < item.1 :=
      fun p equal => ahead p equal item List.mem_cons_self
    have aheadNext : ∀ p, some item = some p → ∀ x ∈ rest, p.1 < x.1 := by
      rintro p ⟨⟩ x member
      exact first x member
    have smallRest : ∀ x ∈ rest, x.1.toInt < 2 ^ 62 :=
      fun x member => small x (List.mem_cons_of_mem _ member)
    unfold applyItems
    split
    · exact ⟨top, chain, bound, above⟩
    · next low =>
      have low : item.1 ≤ upTo := Int64.not_lt.mp low
      have follows : h < item.1 → Follows env h0 previous item := fun new =>
        chained.1 (Int64.lt_of_le_of_lt notBelow new) low
      split
      · next skipped =>
        exact ih s later aheadNext chained.2 smallRest chain bound above
          (at_.skip aheadHere (fun new => (follows new).height) skipped)
      · next due =>
        rw [not_or, Int64.not_le, Int64.not_le] at due
        obtain ⟨beyond, new⟩ := due
        cases parent : before.or (s.db.loadBlock (item.1 - 1)) with
        | none => exact ⟨top, chain, bound, above⟩
        | some oldBlock =>
          obtain ⟨fits, height⟩ := at_.fits notBelow aheadHere new low (follows new)
            (small item List.mem_cons_self) chain bound above parent
          obtain ⟨fails, applies⟩ :=
            applied_linked binds oldBlock (fault item.2) fits chain bound above
          dsimp only
          cases run : checkBlockAndTransferFunds env.toEnv item.2 oldBlock s with
          | error e t => exact (fails e t run).reset _
          | ok block t =>
            obtain ⟨same, refused, stored⟩ := applies block t run
            dsimp only
            cases store : storeBlock (fault item.2) block t with
            | error e u => exact (refused e u store).reset _
            | ok _ u =>
              obtain ⟨linked, ⟨tip, loaded, hash⟩, -⟩ := stored u store
              have named := (follows new).height
              rw [named] at linked loaded same beyond
              exact ih { u with height := block.height } later aheadNext chained.2 smallRest linked
                (small item List.mem_cons_self) (same ▸ Int64.le_refl _)
                (.applied new beyond rfl loaded hash)

theorem linked_applyBatch (binds : HashBinds env.toEnv) (fault : Block → StoreFault)
    {batch : VerifiedBatch} (checked : Checked env batch) (continues : Continues s batch)
    (linked : Linked env.toEnv s) : Linked env.toEnv (s.applyBatch env.toEnv fault batch) := by
  obtain ⟨top, chain, bound, above⟩ := linked
  have start : LoopAt s.height batch.lastGoodBlock batch.verifiedUpTo s batch.items top none none :=
    .fresh rfl continues.onTip
  have looped : Linked env.toEnv (applyItems env.toEnv fault batch.lastGoodBlock
      batch.verifiedUpTo s.height none batch.items none s).1 :=
    linked_applyItems binds fault continues.notBelow batch.items s continues.ascending
      (fun p equal => by cases equal) (checked continues.ascending) continues.small chain bound
      above start
  unfold Node.applyBatch
  dsimp only
  split
  · obtain ⟨top', chain', bound', above'⟩ := looped
    exact ⟨top', by rw [Node.chain_commitHeight]; exact chain', bound', above'⟩
  · exact looped

/-- The condition on a step: blocks are received below the bound of the height search, and a
verified batch continues the chain of the node it is applied to. -/
def Admissible (s : Handlers σ) : HandlerStep → Prop
  | .block _ => s.node.height.toInt + 1 < 2 ^ 62
  | .verify _ _ _ _ => True
  | .act _ _ _ => ∀ batch, s.waiting = some (.verified batch) → Continues s.node batch

def Admits (env : SyncEnv σ) : Handlers σ → List HandlerStep → Prop
  | _, [] => True
  | s, step :: rest => Admissible s step ∧ Admits env (s.step env step) rest

structure HandlersInv (env : SyncEnv σ) (s : Handlers σ) : Prop where
  linked : Linked env.toEnv s.node
  checked : ∀ batch, s.waiting = some (.verified batch) → Checked env batch

theorem HandlersInv.step (binds : HashBinds env.toEnv) {s : Handlers σ} (inv : HandlersInv env s)
    {step : HandlerStep} (admissible : Admissible s step) : HandlersInv env (s.step env step) := by
  cases step with
  | block received => exact ⟨inv.linked.onBlocks binds admissible received, inv.checked⟩
  | verify now requests indices blcks =>
    unfold Handlers.step
    dsimp only
    cases waiting : s.waiting with
    | some verdict => exact inv
    | none =>
      obtain ⟨top, chain, -, above⟩ := inv.linked
      refine ⟨inv.linked, fun batch verdict => ?_⟩
      exact verifyBatch_checked (Int64.le_trans chain.nonneg above) (Option.some.inj verdict)
  | act fault shift hmax =>
    unfold Handlers.step
    dsimp only
    cases waiting : s.waiting with
    | none => exact inv
    | some verdict =>
      refine ⟨?_, fun batch impossible => by cases impossible⟩
      cases verdict with
      | lostHash index => exact inv.linked.reset _
      | fork item => exact inv.linked.reset _
      | verified batch =>
        exact linked_applyBatch binds fault (inv.checked batch waiting)
          (admissible batch waiting) inv.linked
      | ignored => exact inv.linked
      | deeper index => exact inv.linked
      | invalid => exact inv.linked

theorem HandlersInv.run (binds : HashBinds env.toEnv) (steps : List HandlerStep) {s : Handlers σ}
    (inv : HandlersInv env s) (admits : Admits env s steps) : HandlersInv env (s.run env steps) := by
  induction steps generalizing s with
  | nil => exact inv
  | cons step rest ih => exact ih (inv.step binds admits.1) admits.2

/-- In every interleaving of the two handlers whose steps meet the condition, from any linked
chain with nothing waiting, the stored chain stays linked. -/
theorem chain_stays_linked (env : SyncEnv σ) (binds : HashBinds env.toEnv) (s : Handlers σ)
    (linked : Linked env.toEnv s.node) (idle : s.waiting = none) (steps : List HandlerStep)
    (admits : Admits env s steps) : HashLinked (s.run env steps).node.db := by
  have start : HandlersInv env s := ⟨linked, fun batch waits => by rw [idle] at waits; cases waits⟩
  exact Linked.hashLinked (start.run binds steps admits).linked

def stampEnv : SyncEnv Unit where
  toEnv := Env.stamped
  headerSigned _ := true
  merkleRootMatches _ := true

def genesisNode : Node Unit :=
  { Node.small [] [] with
    db := { blocks := AList.insert genesisBlock.blockHash genesisBlock ∅
            blockByHeight := AList.insert (0 : Int64) genesisBlock.blockHash ∅ } }

theorem genesisNode_linked : Linked stampEnv.toEnv genesisNode := by
  have hashed : stampHash genesisBlock = genesisBlock.blockHash := rfl
  exact ⟨0, Db.chain_genesis rfl rfl rfl hashed, by decide, Int64.le_refl 0⟩

def firstBlock : Block := stamped 1 0 genesisBlock.blockHash

def secondBlock : Block := stamped 2 1 firstBlock.blockHash

def rivalBlock : Block := stamped 2 2 firstBlock.blockHash

def thirdBlock : Block := stamped 3 1 secondBlock.blockHash

/-- A batch of the next two blocks, behind the tip, for a request that covers it. -/
def batchStep : HandlerStep :=
  .verify 1 [⟨1, 3, 0, false⟩] [1, 2, 3] [firstBlock, secondBlock, thirdBlock]

/-- The header handler checks the batch, the block handler stores the rival, and the header
handler applies the rest of the batch on it. -/
def staleSteps : List HandlerStep :=
  [.block [(firstBlock, .none)], batchStep, .block [(rivalBlock, .none)], .act (fun _ => .none) 1 3]

theorem stale_batch_breaks_link : Linked stampEnv.toEnv genesisNode ∧
    ¬ HashLinked ((⟨genesisNode, none⟩ : Handlers Unit).run stampEnv staleSteps).node.db := by
  refine ⟨genesisNode_linked, fun linked => ?_⟩
  have top : ((((⟨genesisNode, none⟩ : Handlers Unit).run stampEnv staleSteps).node.db.loadBlock
      3).map Block.previousHash) = some secondBlock.blockHash := by decide +kernel
  have below : ((((⟨genesisNode, none⟩ : Handlers Unit).run stampEnv staleSteps).node.db.loadBlock
      2).map Block.blockHash) = some rivalBlock.blockHash := by decide +kernel
  obtain ⟨b, loaded, names⟩ := Option.map_eq_some_iff.mp top
  obtain ⟨p, parent, equal⟩ := linked 3 b (by decide) loaded
  rw [show (3 : Int64) - 1 = 2 from rfl] at parent
  rw [parent, Option.map_some, Option.some.injEq] at below
  have same : secondBlock.blockHash = rivalBlock.blockHash := names.symm.trans (equal.trans below)
  revert same
  decide +kernel

def freshSteps : List HandlerStep :=
  [.block [(firstBlock, .none)], batchStep, .act (fun _ => .none) 1 3]

theorem fresh_batch_linked :
    HashLinked ((⟨genesisNode, none⟩ : Handlers Unit).run stampEnv freshSteps).node.db ∧
      ((⟨genesisNode, none⟩ : Handlers Unit).run stampEnv freshSteps).node.height = 3 := by
  refine ⟨chain_stays_linked stampEnv Env.stamped_binds ⟨genesisNode, none⟩ genesisNode_linked rfl
    freshSteps ⟨?_, trivial, ?_, trivial⟩, by decide +kernel⟩
  · change genesisNode.height.toInt + 1 < 2 ^ 62
    decide
  · intro batch waits
    have verdict : (((⟨genesisNode, none⟩ : Handlers Unit).step stampEnv
        (.block [(firstBlock, .none)])).step stampEnv batchStep).waiting =
          some (.verified ⟨1, [(1, firstBlock), (2, secondBlock), (3, thirdBlock)], 1, 3⟩) := by
      decide +kernel
    cases verdict.symm.trans waits
    refine ⟨?_, by decide +kernel, ?_, by decide +kernel⟩
    · unfold Ascending
      decide +kernel
    · intro item member next _ tip loaded
      have hash : ((((⟨genesisNode, none⟩ : Handlers Unit).step stampEnv
          (.block [(firstBlock, .none)])).step stampEnv batchStep).node.db.loadBlock
            1).map Block.blockHash = some firstBlock.blockHash := by decide +kernel
      have height : (((⟨genesisNode, none⟩ : Handlers Unit).step stampEnv
          (.block [(firstBlock, .none)])).step stampEnv batchStep).node.height = 1 := by
        decide +kernel
      rw [height] at next loaded
      rw [loaded, Option.map_some, Option.some.injEq] at hash
      rw [hash]
      simp only [List.mem_cons, List.not_mem_nil, or_false] at member
      rcases member with rfl | rfl | rfl
      · revert next
        decide
      · rfl
      · revert next
        decide

end QwidNode.Guarantees
