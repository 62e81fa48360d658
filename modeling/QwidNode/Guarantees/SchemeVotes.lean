import QwidNode.Guarantees.Governance
import QwidNode.Source.Stakes

/-!
# Scheme votes are counted soundly

Every id the tally counts is named by a proof whose signer the staking state selects as operator of
that delegated account, and is counted once. So the tally is the stake of pairwise different
eligible delegated accounts, and the thresholds compare it with the stake of all of them, by
products that can wrap.
-/
namespace QwidNode.Guarantees
open Lib Source Ledger Word Node
variable {env : SchemeEnv} {l : Ledger} {r : KeyRegistry} {proofs : List Bytes} {want : Bytes}
  {primary : Bool} {cur next : ConfigEnc} {lastBlock : Block}

theorem authorizeOracleProofSigners_ok (passed : authorizeOracleProofSigners env l proofs = .ok ()) :
    ∀ pb ∈ proofs, ∃ tx id, env.readProof pb = .ok (tx, id) ∧
      l.isTop128StakingNode id tx.txParam.sender.byteValue = true := by
  induction proofs with
  | nil => exact nofun
  | cons pb rest ih =>
    simp only [authorizeOracleProofSigners, except_bind_eq_ok, ite_error_eq_ok,
      Bool.not_eq_false] at passed
    obtain ⟨⟨tx, id⟩, read, top, others⟩ := passed
    intro pb' member
    rcases List.mem_cons.mp member with rfl | inside
    · exact ⟨tx, id, read, top⟩
    · exact ih others pb' inside

/-- The ids counted for a configuration: pairwise different, each named by a proof that votes
for it. -/
structure Counted (env : SchemeEnv) (proofs : List Bytes) (primary : Bool) (want : Bytes)
    (ids : List Nat) : Prop where
  distinct : ids.Nodup
  votes : ∀ id ∈ ids, ∃ pb ∈ proofs, ∃ tx, env.readProof pb = .ok (tx, id) ∧
    votesFor primary want tx = true

theorem tallyVotes_ok {stakeOf : Nat → Int64} {seen : List Nat} {staked total : Int64}
    (run : tallyVotes env primary want stakeOf proofs seen staked = .ok total) :
    ∃ ids, Counted env proofs primary want ids ∧ (∀ id ∈ ids, id ∉ seen) ∧
      total = ids.foldl (fun sum id => sum + stakeOf id) staked := by
  induction proofs generalizing seen staked with
  | nil =>
    cases run
    exact ⟨[], ⟨List.nodup_nil, nofun⟩, nofun, rfl⟩
  | cons pb rest ih =>
    simp only [tallyVotes, except_bind_eq_ok] at run
    obtain ⟨⟨tx, id⟩, read, run⟩ := run
    have later : ∀ {ids}, Counted env rest primary want ids →
        Counted env (pb :: rest) primary want ids := fun counted =>
      ⟨counted.distinct, fun id member => by
        obtain ⟨pb', inside, tx', found⟩ := counted.votes id member
        exact ⟨pb', List.mem_cons_of_mem pb inside, tx', found⟩⟩
    split at run
    case isTrue =>
      obtain ⟨ids, counted, fresh, sum⟩ := ih run
      exact ⟨ids, later counted, fresh, sum⟩
    case isFalse new =>
      obtain ⟨ids, counted, fresh, sum⟩ := ih run
      have unseen : ∀ id' ∈ ids, id' ∉ seen := fun id' member inside =>
        fresh id' member (List.mem_cons_of_mem id inside)
      by_cases votes : votesFor primary want tx = true
      · rw [if_pos votes] at sum
        have other : id ∉ ids := fun member => fresh id member List.mem_cons_self
        refine ⟨id :: ids, ⟨List.nodup_cons.mpr ⟨other, counted.distinct⟩, ?_⟩, ?_, sum⟩
        · intro id' member
          rcases List.mem_cons.mp member with rfl | inside
          · exact ⟨pb, List.mem_cons_self, tx, read, votes⟩
          · exact (later counted).votes id' inside
        · intro id' member
          rcases List.mem_cons.mp member with rfl | inside
          · exact new
          · exact unseen id' inside
      · rw [if_neg votes] at sum
        exact ⟨ids, later counted, unseen, sum⟩

theorem Counted.eligible {ids : List Nat} (counted : Counted env proofs primary want ids)
    (authorised : authorizeOracleProofSigners env l proofs = .ok ()) :
    ∀ id ∈ ids, l.isEligibleDelegatedAccount id = true := by
  intro id member
  obtain ⟨pb, inside, tx, read, -⟩ := counted.votes id member
  obtain ⟨tx', id', read', top⟩ := authorizeOracleProofSigners_ok authorised pb inside
  rw [read] at read'
  cases read'
  exact isEligible_of_top128 top

def eligibleStake (l : Ledger) : Int := (l.eligibleIds.map l.stakeIn).sum

/-- Pairwise different eligible delegated accounts that vote for a configuration hold the
tallied stake. -/
structure Backing (env : SchemeEnv) (l : Ledger) (proofs : List Bytes) (primary : Bool)
    (want : Bytes) (staked : Int64) (ids : List Nat) : Prop extends
    Counted env proofs primary want ids where
  eligible : ∀ id ∈ ids, l.isEligibleDelegatedAccount id = true
  stake : staked.toInt = (ids.map l.stakeIn).sum
  within : staked.toInt ≤ eligibleStake l

theorem tally_backing (fit : l.StakesFit)
    (authorised : authorizeOracleProofSigners env l proofs = .ok ()) {staked : Int64}
    (tallied : tallyEncryptionVotes env proofs primary want l.stakeOfDelegated = .ok staked) :
    ∃ ids, Backing env l proofs primary want staked ids := by
  obtain ⟨ids, counted, -, sum⟩ := tallyVotes_ok tallied
  have eligible := counted.eligible authorised
  have exact : staked.toInt = (ids.map l.stakeIn).sum := by
    rw [sum]
    exact sum_stakes_exact fit counted.distinct eligible
  refine ⟨ids, counted, eligible, exact, ?_⟩
  rw [exact]
  exact sum_eligible_le fit counted.distinct eligible

def EnoughStake (cur next : ConfigEnc) (staked total : Int) : Prop :=
  if isPause cur next then total ≤ 3 * staked else 2 * total ≤ 3 * staked

/-- Twice the eligible stake is a word, or three times any stake that can vote is none. -/
def ThresholdFits (l : Ledger) : Prop :=
  2 * eligibleStake l < 2 ^ 63 ∨ ∀ id ∈ l.eligibleIds, 0 < l.stakeIn id → 2 ^ 63 ≤ 3 * l.stakeIn id

theorem toInt_mul_cases {a b : Int64} (low : 0 ≤ a.toInt * b.toInt)
    (high : a.toInt * b.toInt < 3 * 2 ^ 63) :
    (a * b).toInt = a.toInt * b.toInt ∨ (a * b).toInt = a.toInt * b.toInt - 2 ^ 64 := by
  have wrapped : (a * b).toInt = (a.toInt * b.toInt).bmod (2 ^ 64) := Int64.toInt_mul a b
  have parts := Int.bdiv_add_bmod (a.toInt * b.toInt) (2 ^ 64)
  have range := toInt_range (a * b)
  rw [← wrapped] at parts
  generalize (a.toInt * b.toInt).bdiv (2 ^ 64) = turns at parts
  have few : turns = 0 ∨ turns = 1 := by omega
  rcases few with rfl | rfl <;> omega

theorem toInt_triple {staked : Int64} (positive : 0 < staked.toInt) :
    (staked * 3).toInt = staked.toInt * 3 ∨ (staked * 3).toInt = staked.toInt * 3 - 2 ^ 64 := by
  have range := toInt_range staked
  have three : (3 : Int64).toInt = 3 := rfl
  exact three ▸ toInt_mul_cases (by rw [three]; omega) (by rw [three]; omega)

theorem toInt_double {total : Int64} (positive : 0 < total.toInt) :
    (total * 2).toInt = total.toInt * 2 ∨ (total * 2).toInt = total.toInt * 2 - 2 ^ 64 := by
  have range := toInt_range total
  have two : (2 : Int64).toInt = 2 := rfl
  exact two ▸ toInt_mul_cases (by rw [two]; omega) (by rw [two]; omega)

theorem voteThresholdMet_exact {staked total : Int64} (within : staked.toInt ≤ total.toInt)
    (fits : isPause cur next = true ∨ 2 * total.toInt < 2 ^ 63 ∨ 2 ^ 63 ≤ 3 * staked.toInt)
    (met : voteThresholdMet cur next staked total = true) :
    EnoughStake cur next staked.toInt total.toInt := by
  have range := toInt_range total
  have tripled := toInt_range (staked * 3)
  have doubled := toInt_range (total * 2)
  unfold voteThresholdMet at met
  split at met
  · cases met
  · next positive =>
    simp only [not_or, le_iff, toInt_zero, not_le] at positive
    have triple := toInt_triple positive.1
    have double := toInt_double positive.2
    unfold EnoughStake
    split at met
    · next pause =>
      rw [if_pos pause]
      rw [decide_eq_true_eq, le_iff] at met
      omega
    · next other =>
      rw [if_neg other]
      rw [decide_eq_true_eq, le_iff] at met
      have fits := fits.resolve_left other
      omega

theorem voteThresholdMet_wraps {staked total : Int64} (change : isPause cur next = false)
    (positive : 0 < staked.toInt) (small : 3 * staked.toInt < 2 ^ 63)
    (large : 2 ^ 63 ≤ 2 * total.toInt) : voteThresholdMet cur next staked total = true := by
  have range := toInt_range total
  have tripled := toInt_range (staked * 3)
  have doubled := toInt_range (total * 2)
  have triple := toInt_triple positive
  have double : (total * 2).toInt = total.toInt * 2 ∨ (total * 2).toInt = total.toInt * 2 - 2 ^ 64 :=
    toInt_double (by omega)
  unfold voteThresholdMet
  have counted : ¬ (staked ≤ 0 ∨ total ≤ 0) := by
    rw [not_or, le_iff, le_iff, toInt_zero]
    omega
  rw [if_neg counted, change, if_neg Bool.false_ne_true, decide_eq_true_eq, le_iff]
  omega

theorem thresholds_exact_iff (fit : l.StakesFit) (change : isPause cur next = false) :
    (∀ (ids : List Nat) (staked : Int64), ids.Nodup →
      (∀ id ∈ ids, l.isEligibleDelegatedAccount id = true) →
      staked.toInt = (ids.map l.stakeIn).sum →
      voteThresholdMet cur next staked l.getStakedInEligibleDelegatedAccounts = true →
      EnoughStake cur next staked.toInt (eligibleStake l)) ↔ ThresholdFits l := by
  have total : l.getStakedInEligibleDelegatedAccounts.toInt = eligibleStake l :=
    eligibleTotal_exact fit
  constructor
  · intro sound
    by_contra unfit
    simp only [ThresholdFits, not_or, not_lt, not_forall, not_le] at unfit
    obtain ⟨large, id, voter, positive, small⟩ := unfit
    have eligible := isEligibleDelegatedAccount_iff.mpr voter
    have stake := fit.stake_exact eligible
    have enough := sound [id] (l.stakeOfDelegated id) (List.nodup_singleton id)
      (by simpa using eligible) (by simpa using stake)
      (voteThresholdMet_wraps change (by omega) (by omega) (by omega))
    rw [EnoughStake, change, if_neg Bool.false_ne_true] at enough
    omega
  · intro fits ids staked distinct eligible stake met
    have within := sum_eligible_le fit distinct eligible
    rw [← total]
    refine voteThresholdMet_exact (by rw [total, stake]; exact within) (.inr ?_) met
    rcases fits with small | voters
    · exact .inl (by rw [total]; exact small)
    · -- the tally is positive, so one of its voters has stake
      refine .inr ?_
      have positive : 0 < staked.toInt := by
        unfold voteThresholdMet at met
        split at met
        · cases met
        · next counted =>
          simp only [not_or, le_iff, toInt_zero] at counted
          omega
      rw [stake] at positive ⊢
      obtain ⟨id, member, own⟩ : ∃ id ∈ ids, 0 < l.stakeIn id := by
        by_contra none
        push Not at none
        have zero : ∀ x ∈ ids.map l.stakeIn, x ≤ 0 := by
          intro x inside
          obtain ⟨id, member, rfl⟩ := List.mem_map.mp inside
          exact none id member
        have bound := List.sum_le_card_nsmul _ 0 zero
        rw [smul_zero] at bound
        omega
      have one : l.stakeIn id ≤ (ids.map l.stakeIn).sum :=
        List.single_le_sum (fun x inside => by
          obtain ⟨id', -, rfl⟩ := List.mem_map.mp inside
          exact fit.stakeIn id') _ (List.mem_map_of_mem member)
      have large := voters id (isEligibleDelegatedAccount_iff.mp (eligible id member)) own
      omega

theorem authorised_backing (fit : l.StakesFit) {height : Int64}
    (signers : authorizeOracleProofSigners env l proofs = .ok ())
    (authorised : encryptionChangeAuthorised env proofs lastBlock want primary height
      l.getStakedInEligibleDelegatedAccounts l.stakeOfDelegated = .ok ()) :
    ∃ next cur staked ids, fromBytesToEncryptionConfig env.oqs want = .ok next ∧
      parentSlotConfig env.oqs env.own lastBlock primary = .ok cur ∧
      Backing env l proofs primary want staked ids ∧
      (isPause cur next = true ∨ ThresholdFits l →
        EnoughStake cur next staked.toInt (eligibleStake l)) := by
  unfold encryptionChangeAuthorised at authorised
  simp only [except_bind_eq_ok, ite_error_eq_ok, Bool.not_eq_false] at authorised
  obtain ⟨next, decoded, cur, held, staked, tallied, met, -⟩ := authorised
  obtain ⟨ids, backing⟩ := tally_backing fit signers tallied
  refine ⟨next, cur, staked, ids, decoded, held, backing, fun fits => ?_⟩
  have total : l.getStakedInEligibleDelegatedAccounts.toInt = eligibleStake l :=
    eligibleTotal_exact fit
  cases pause : isPause cur next with
  | true =>
    rw [← total]
    exact voteThresholdMet_exact (by rw [total]; exact backing.within) (.inl pause) met
  | false =>
    have fits := fits.resolve_left (by rw [pause]; exact Bool.false_ne_true)
    exact (thresholds_exact_iff fit pause).mpr fits ids staked backing.distinct backing.eligible
      backing.stake met

/-- The block a producer builds when it changes one slot of its parent's header. -/
structure Builds (newBlock lastBlock : Block) (proofs : List Bytes) (want : Bytes) (primary : Bool)
    (height : Int64) (operator : AddressBytes) : Prop where
  slot : newBlock.encryption primary = want
  other : newBlock.encryption (!primary) = lastBlock.encryption (!primary)
  proofs : newBlock.oracleProofs = proofs
  height : newBlock.height = height
  operator : newBlock.operatorAccount.byteValue = operator

/-- The checks of a validator on the schemes of a block: shape and key of each slot in
`CheckBaseBlock`, shape, votes and quorum of each slot in `VerifyStakeDependent`. -/
def ValidatorAccepts (env : SchemeEnv) (r : KeyRegistry) (l : Ledger) (newBlock lastBlock : Block) :
    Prop :=
  checkSlotChange env r newBlock lastBlock true = .ok () ∧
    checkSlotChange env r newBlock lastBlock false = .ok () ∧
    verifyEncryptionVotes env r l newBlock lastBlock = .ok ()

theorem shape_unchanged {bytes : Bytes} (same : bytes = lastBlock.encryption primary) :
    checkEncryptionChangeShape env.oqs env.own bytes lastBlock primary = .ok false :=
  if_pos same

theorem unchanged_slot_passes {newBlock : Block}
    (same : newBlock.encryption primary = lastBlock.encryption primary) :
    checkSlotChange env r newBlock lastBlock primary = .ok () ∧
      verifySlotVotes env r l newBlock lastBlock primary = .ok () := by
  unfold checkSlotChange verifySlotVotes
  simp only [shape_unchanged same]
  exact ⟨rfl, rfl⟩

theorem verifyEncryptionVotes_ok {newBlock : Block} :
    verifyEncryptionVotes env r l newBlock lastBlock = .ok () ↔
      ∀ primary, verifySlotVotes env r l newBlock lastBlock primary = .ok () := by
  unfold verifyEncryptionVotes
  rw [except_bind_eq_ok, Bool.forall_bool]
  constructor
  · rintro ⟨_, first, second⟩
    exact ⟨second, first⟩
  · rintro ⟨second, first⟩
    exact ⟨(), first, second⟩

theorem validatorAccepts_one_slot {newBlock : Block}
    (other : newBlock.encryption (!primary) = lastBlock.encryption (!primary)) :
    ValidatorAccepts env r l newBlock lastBlock ↔
      checkSlotChange env r newBlock lastBlock primary = .ok () ∧
        verifySlotVotes env r l newBlock lastBlock primary = .ok () := by
  have passes : checkSlotChange env r newBlock lastBlock (!primary) = .ok () ∧
      verifySlotVotes env r l newBlock lastBlock (!primary) = .ok () := unchanged_slot_passes other
  obtain ⟨key, votes⟩ := passes
  unfold ValidatorAccepts
  rw [verifyEncryptionVotes_ok, Bool.forall_bool]
  cases primary with
  | true => exact ⟨fun h => ⟨h.1, h.2.2.2⟩, fun h => ⟨h.1, key, votes, h.2⟩⟩
  | false => exact ⟨fun h => ⟨h.2.1, h.2.2.1⟩, fun h => ⟨key, h.1, h.2, votes⟩⟩

theorem refusal_iff {newBlock : Block} {height : Int64} {operator : AddressBytes}
    (builds : Builds newBlock lastBlock proofs want primary height operator)
    (change : checkEncryptionChangeShape env.oqs env.own want lastBlock primary ≠ .ok false) :
    encryptionChangeRefusal env r l proofs lastBlock want primary height operator = .ok () ↔
      ValidatorAccepts env r l newBlock lastBlock := by
  obtain ⟨rfl, other, rfl, rfl, rfl⟩ := builds
  rw [validatorAccepts_one_slot other]
  unfold encryptionChangeRefusal checkSlotChange verifySlotVotes
  cases shape : checkEncryptionChangeShape env.oqs env.own (newBlock.encryption primary) lastBlock
      primary with
  | error e =>
    simp only [shape]
    constructor
    · intro refused
      cases refused
    · intro accepted
      cases accepted.1
  | ok changed =>
    cases changed with
    | false => exact absurd shape change
    | true =>
      simp only [shape, except_bind_eq_ok, Except.ok.injEq, exists_eq_left', ite_error_eq_ok,
        if_true]
      constructor
      · rintro ⟨-, u, key, v, votes, quorum⟩
        exact ⟨key, v, votes, quorum⟩
      · rintro ⟨key, v, votes, quorum⟩
        exact ⟨Bool.noConfusion, (), key, v, votes, quorum⟩

/-- In every staking state whose eligible stakes add up to a word: the tally of authorised proofs is
the stake of pairwise different eligible delegated accounts and at most the eligible total; a
changed slot of an accepted block is backed by a third of it if it is a pause, and by two thirds
of it otherwise, if the products fit, and a vote below two thirds passes if they do not. In every
state the producer's test of a change of one slot agrees with the validators' checks of the block
it builds. -/
theorem scheme_votes_sound (env : SchemeEnv) (r : KeyRegistry) (l : Ledger) (lastBlock : Block) :
    (l.StakesFit →
      (∀ proofs primary want staked, authorizeOracleProofSigners env l proofs = .ok () →
        tallyEncryptionVotes env proofs primary want l.stakeOfDelegated = .ok staked →
        ∃ ids, Backing env l proofs primary want staked ids) ∧
      (∀ newBlock primary, authorizeOracleProofSigners env l newBlock.oracleProofs = .ok () →
        verifyEncryptionVotes env r l newBlock lastBlock = .ok () →
        checkEncryptionChangeShape env.oqs env.own (newBlock.encryption primary) lastBlock primary =
          .ok true →
        ∃ next cur staked ids,
          fromBytesToEncryptionConfig env.oqs (newBlock.encryption primary) = .ok next ∧
          parentSlotConfig env.oqs env.own lastBlock primary = .ok cur ∧
          Backing env l newBlock.oracleProofs primary (newBlock.encryption primary) staked ids ∧
          (isPause cur next = true ∨ ThresholdFits l →
            EnoughStake cur next staked.toInt (eligibleStake l))) ∧
      (∀ cur next, isPause cur next = false →
        ((∀ (ids : List Nat) (staked : Int64), ids.Nodup →
          (∀ id ∈ ids, l.isEligibleDelegatedAccount id = true) →
          staked.toInt = (ids.map l.stakeIn).sum →
          voteThresholdMet cur next staked l.getStakedInEligibleDelegatedAccounts = true →
          EnoughStake cur next staked.toInt (eligibleStake l)) ↔ ThresholdFits l))) ∧
    (∀ newBlock proofs want primary height operator,
      Builds newBlock lastBlock proofs want primary height operator →
      checkEncryptionChangeShape env.oqs env.own want lastBlock primary ≠ .ok false →
      (encryptionChangeRefusal env r l proofs lastBlock want primary height operator = .ok () ↔
        ValidatorAccepts env r l newBlock lastBlock)) := by
  refine ⟨fun fit => ⟨fun proofs primary want staked authorised tallied => ?_,
    fun newBlock primary authorised accepted changed => ?_,
    fun cur next change => thresholds_exact_iff fit change⟩,
    fun newBlock proofs want primary height operator builds change => refusal_iff builds change⟩
  · exact tally_backing fit authorised tallied
  · have votes := verifyEncryptionVotes_ok.mp accepted primary
    unfold verifySlotVotes at votes
    simp only [changed, except_bind_eq_ok, Except.ok.injEq, exists_eq_left', if_true] at votes
    obtain ⟨u, authorised', -⟩ := votes
    exact authorised_backing fit authorised authorised'

def hugeStake : Ledger :=
  { staking := (small [] []).ledger.staking.insert (2, 0xBB)
      { stakedBalance := 4700000000000000000
        address := 0xBB
        delegatedAccount := (getDelegatedAccountAddress 2).byteValue
        operationalAccount := true
        operationalSince := 1 } }

/-- Twice the eligible stake wraps, and the vote of the small operator alone replaces the reserve
scheme. -/
theorem small_vote_replaces_scheme :
    authorizeOracleProofSigners (lettersEnv (encBytes 65 false) (encBytes 67 true)) hugeStake [[1]] =
      .ok () ∧
    ValidatorAccepts (lettersEnv (encBytes 65 false) (encBytes 67 true)) lettersKeys hugeStake
      (lettersBlock (encBytes 65 false) (encBytes 67 true)) lettersGenesis ∧
    tallyEncryptionVotes (lettersEnv (encBytes 65 false) (encBytes 67 true)) [[1]] false
      (encBytes 67 true) hugeStake.stakeOfDelegated = .ok 100000000000000 ∧
    3 * (100000000000000 : Int64).toInt < 2 * eligibleStake hugeStake := by
  refine ⟨by decide +kernel, ⟨by decide +kernel, by decide +kernel, by decide +kernel⟩,
    by decide +kernel, by decide +kernel⟩

/-- The one operator replaces the reserve scheme with all of the stake. -/
theorem reserve_replacement_backed :
    (∃ next cur staked ids,
      fromBytesToEncryptionConfig lettersOqs (encBytes 67 true) = .ok next ∧
      parentSlotConfig lettersOqs (lettersEnv (encBytes 65 false) (encBytes 67 true)).own
        lettersGenesis false = .ok cur ∧
      Backing (lettersEnv (encBytes 65 false) (encBytes 67 true)) (small [] []).ledger [[1]]
        false (encBytes 67 true) staked ids ∧
      EnoughStake cur next staked.toInt (eligibleStake (small [] []).ledger)) ∧
    (encryptionChangeRefusal (lettersEnv (encBytes 65 false) (encBytes 67 true)) lettersKeys
        (small [] []).ledger [[1]] lettersGenesis (encBytes 67 true) false 1 0xAA = .ok () ↔
      ValidatorAccepts (lettersEnv (encBytes 65 false) (encBytes 67 true)) lettersKeys
        (small [] []).ledger (lettersBlock (encBytes 65 false) (encBytes 67 true))
        lettersGenesis) := by
  have fit : (small [] []).ledger.StakesFit := ⟨by decide +kernel, by decide +kernel⟩
  obtain ⟨sound, agree⟩ := scheme_votes_sound
    (lettersEnv (encBytes 65 false) (encBytes 67 true)) lettersKeys (small [] []).ledger
    lettersGenesis
  obtain ⟨next, cur, staked, ids, decoded, held, backing, enough⟩ := (sound fit).2.1
    (lettersBlock (encBytes 65 false) (encBytes 67 true)) false (by decide +kernel)
    (by decide +kernel) (by decide +kernel)
  refine ⟨⟨next, cur, staked, ids, decoded, held, backing, enough (.inr (.inl (by decide +kernel)))⟩,
    agree _ _ _ _ _ _ ⟨rfl, rfl, rfl, rfl, rfl⟩ ?_⟩
  have changed : checkEncryptionChangeShape lettersOqs
      (lettersEnv (encBytes 65 false) (encBytes 67 true)).own (encBytes 67 true) lettersGenesis
      false = .ok true := by decide +kernel
  exact fun same => nomatch changed.symm.trans same

end QwidNode.Guarantees
