import QwidNode.Source.ChainRun

/-!
# A stopped node comes up on its chain

Source: `services/helperLoadBlockchain.go:24-165`. What is in memory is lost, and a commit may have
been cut short.
-/
namespace QwidNode.Guarantees.Startup
open Lib Source Word
variable {σ : Type} {env : Env σ} {s t u : Node σ} {h top : Int64}

/-- The state in memory has the root that was committed for the height. -/
def Committed (env : Env σ) (h : Int64) (s : Node σ) : Prop :=
  s.db.stateCommitAt.lookup h = some (env.stateRoot s.ledger s.dex s.evm)

theorem loadEvmAtOrBelow_db (env : Env σ) (s : Node σ) (h : Int64) :
    (s.loadEvmAtOrBelow env h).1.db = s.db := by
  unfold Node.loadEvmAtOrBelow
  split <;> rfl

theorem checkBlockConsistency_spec (env : Env σ) (s : Node σ) (positive : 0 < h) :
    ∃ v ok, checkBlockConsistency env s h = (v, ok) ∧ v.db = s.db ∧
      (ok = true → Committed env h v) := by
  unfold checkBlockConsistency
  rw [if_neg (Int64.not_le.mpr positive)]
  split
  · have audited := (ledgerOnly_supplyInvariantDelta s h).db
    generalize supplyInvariantDelta s h = audit at audited ⊢
    obtain ⟨v, delta⟩ := audit
    cases delta with
    | none => exact ⟨v, _, rfl, audited, nofun⟩
    | some delta =>
      dsimp only
      split
      · exact ⟨v, _, rfl, audited, nofun⟩
      · obtain ⟨d, loaded, dex⟩ := v.loadDexAccounts_eq h
        rw [dex]
        cases loaded with
        | false => exact ⟨_, _, rfl, audited, nofun⟩
        | true =>
          have kept := (loadEvmAtOrBelow_db env { v with dex := d } h).trans audited
          dsimp only
          generalize Node.loadEvmAtOrBelow env { v with dex := d } h = load at kept ⊢
          obtain ⟨w, evm⟩ := load
          cases evm with
          | false => exact ⟨w, _, rfl, kept, nofun⟩
          | true => exact ⟨w, _, rfl, kept, beq_iff_eq.mp⟩
  · exact ⟨s, _, rfl, rfl, nofun⟩

theorem findConsistent_spec (env : Env σ) {lowest : Int64} (positive : 0 < lowest) (fuel : Nat)
    (h : Int64) (s : Node σ) :
    ∃ v found, findConsistent env lowest fuel h s = (v, found) ∧ v.db = s.db ∧
      ∀ good, found = some good → good ≤ h ∧ Committed env good v := by
  induction fuel generalizing h s with
  | zero => exact ⟨s, _, rfl, rfl, nofun⟩
  | succ fuel ih =>
    unfold findConsistent
    split
    · exact ⟨s, _, rfl, rfl, nofun⟩
    · next within =>
      have above : 0 < h := Int64.lt_of_lt_of_le positive (Int64.not_lt.mp within)
      obtain ⟨v, ok, check, kept, committed⟩ := checkBlockConsistency_spec env s above
      rw [check]
      cases ok with
      | true =>
        refine ⟨v, _, rfl, kept, ?_⟩
        rintro good ⟨⟩
        exact ⟨Int64.le_refl h, committed rfl⟩
      | false =>
        obtain ⟨w, found, rest, kept', below⟩ := ih (h - 1) v
        refine ⟨w, found, rest, kept'.trans kept, fun good here => ?_⟩
        obtain ⟨low, committed'⟩ := below good here
        rw [lt_iff, toInt_zero] at above
        have pred := toInt_pred (a := h) (by omega)
        exact ⟨by rw [le_iff] at low ⊢; omega, committed'⟩

/-- The node is sound, with all that was stored and in the state committed for the tip, or after
a cut of the chain. -/
def ComesUp (env : Env σ) (s t : Node σ) : Prop :=
  Sound env t ∧ ((StorageKept s t ∧ (0 < s.height → Committed env s.height t)) ∨
    ∃ target accounts staking, Rewound env s target accounts staking t)

theorem comesUp_at_tip (sound : Sound env s) (kept : StorageKept s t)
    (committed : 0 < s.height → Committed env s.height t) : ComesUp env s t := by
  have same := sound.sameStorage kept
  refine ⟨⟨kept.height ▸ same.chain, kept.height ▸ sound.small, same.accountsAt ▸ sound.accounts,
    same.stakingAt ▸ sound.staking, ?_⟩, .inl ⟨kept, committed⟩⟩
  exact sound.ground.of_same (same.loads 0) (by rw [same.accountsAt]) (by rw [same.stakingAt])

/-- Whatever is in memory, and whatever the tip lacks of its snapshots, startup recovers the chain
on the disk. -/
theorem checkMainChain_comesUp (sound : Sound env { u with height := top }) :
    ComesUp env { u with height := top } (checkMainChain env u) := by
  unfold checkMainChain
  rw [Db.lastHeightStoredInBlocks_eq sound.chain sound.small]
  dsimp only
  split
  · next ground =>
    exact comesUp_at_tip sound ⟨rfl, rfl⟩ fun positive => absurd ground (Int64.not_le.mpr positive)
  · next positive =>
    rw [Int64.not_le, lt_iff, toInt_zero] at positive
    have depth : Common.maxStartupRewind.toInt = 128 := rfl
    have range := toInt_range top
    have exact := toInt_sub_of_fits (a := top) (b := Common.maxStartupRewind) (by omega) (by omega)
    -- the search starts at the tip and stays above zero
    obtain ⟨lowest, lowest_eq⟩ : ∃ l, (if top - Common.maxStartupRewind < 1 then 1
      else top - Common.maxStartupRewind) = l := ⟨_, rfl⟩
    have bounds : 0 < lowest.toInt ∧ lowest.toInt ≤ top.toInt := by
      rw [← lowest_eq]
      split
      · rw [toInt_one]
        omega
      · next high =>
        rw [lt_iff, toInt_one] at high
        omega
    obtain ⟨v, found, search, kept, below⟩ := findConsistent_spec env (lt_iff.mpr bounds.1)
      (Common.maxStartupRewind.toNatClampNeg + 1) top u
    rw [lowest_eq, search]
    have cuts : ∀ h ≤ top, ComesUp env { u with height := top }
        (v.resetAccountsAndBlocksSync env h) := by
      intro h down
      obtain ⟨target, accounts, staking, cut, after⟩ := sound.reset (u := v)
        ⟨kept ▸ sound.chain, fun k => by rw [kept], by rw [kept], by rw [kept]⟩ h down
      exact ⟨after, .inr ⟨target, accounts, staking, cut⟩⟩
    cases found with
    | none =>
      have pred := toInt_pred (a := lowest) (by omega)
      exact cuts _ (le_iff.mpr (by omega))
    | some good =>
      obtain ⟨low, committed⟩ := below good rfl
      dsimp only
      split
      · exact cuts good low
      · next tip =>
        obtain rfl := not_not.mp tip
        have frame := v.poolFrame_undoJournalKeys fun h => decide (good < h)
        refine comesUp_at_tip sound
          ⟨frame.toStorage.stored.trans (congrArg Db.storedPart kept), rfl⟩ fun _ => ?_
        have marks := congrArg (·.stateCommitAt) frame.chain
        unfold Committed Node.undoPendingPoolsAbove
        rw [frame.ledger, frame.dex, frame.evm]
        exact marks ▸ committed

def oneBlock : Node Unit := ((Node.genesis genesisBlock).applyAndStore Env.stamped .none
  (stamped 1 0 genesisBlock.blockHash) genesisBlock).1

theorem oneBlock_comesUp : oneBlock.height = 1 ∧
    ComesUp Env.stamped oneBlock (checkMainChain Env.stamped oneBlock) := by
  have start : Sound Env.stamped (Node.genesis genesisBlock) :=
    Sound.genesis rfl rfl (by decide +kernel)
  have stored : Sound Env.stamped oneBlock := (start.applyAndStore Env.stamped_binds .none
    (by decide +kernel) (by decide +kernel) (by decide +kernel) (by decide +kernel)).2
  exact ⟨by decide +kernel, checkMainChain_comesUp stored⟩

end QwidNode.Guarantees.Startup
