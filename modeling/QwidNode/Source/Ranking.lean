import QwidNode.Lib.SortedEntries
import QwidNode.Source.Eligibility

/-!
# Eligibility does not depend on the order of the map

`eligibleOperatorLocked` ranges over the staking maps, whose order is not fixed. Total stakes are
sums, and the operator is the largest entry of a total order: by stake, then by the earlier signal,
then by the smaller address.
-/
namespace QwidNode.Source
open Lib List

namespace Ledger

def rank (c : OperatorChoice) : Lex (ℤ × Lex (ℤᵒᵈ × ℕᵒᵈ)) :=
  toLex (c.1.toInt, toLex (OrderDual.toDual c.2.1.toInt, OrderDual.toDual c.2.2.toNat))

theorem rank_injective : Function.Injective rank := by
  rintro ⟨stake, since, address⟩ ⟨stake', since', address'⟩ same
  have first : stake.toInt = stake'.toInt := congrArg (fun r => (ofLex r).1) same
  have second : since.toInt = since'.toInt :=
    congrArg (fun r => OrderDual.ofDual (ofLex (ofLex r).2).1) same
  have third : address.toNat = address'.toNat :=
    congrArg (fun r => OrderDual.ofDual (ofLex (ofLex r).2).2) same
  rw [Int64.toInt_inj.mp first, Int64.toInt_inj.mp second, BitVec.toNat_inj.mp third]

/-- What eligibility reads of a staking entry: stake, time of the first signal, and the flag. -/
def eligibilityFields (a : StakingAccount) : Int64 × Int64 × Bool :=
  (a.stakedBalance, a.operationalSince, a.operationalAccount)

def candidates (l : Ledger) (n : Nat) : List (AddressBytes × Int64 × Int64 × Bool) :=
  (l.shardEntries n).map fun e => (e.1, eligibilityFields e.2)

theorem mem_shardEntries {l : Ledger} {n : Nat} {a : AddressBytes} {v : StakingAccount} :
    (a, v) ∈ l.shardEntries n ↔ l.staking.lookup (n, a) = some v := by
  rw [shardEntries, List.mem_map]
  constructor
  · rintro ⟨⟨⟨m, b⟩, w⟩, stored, same⟩
    obtain ⟨rfl, rfl⟩ := Prod.mk.inj same
    obtain ⟨inside, number⟩ := List.mem_filter.mp stored
    obtain rfl : m = n := beq_iff_eq.mp number
    exact AList.mem_lookup_iff.mpr inside
  · intro found
    have stored := AList.mem_lookup_iff.mp found
    exact ⟨⟨(n, a), v⟩, List.mem_filter.mpr ⟨stored, beq_iff_eq.mpr rfl⟩, rfl⟩

theorem nodup_shardEntries (l : Ledger) (n : Nat) : ((l.shardEntries n).map Prod.fst).Nodup := by
  rw [shardEntries, List.map_map]
  have entries : (l.staking.entries.filter fun e => e.1.1 == n).Nodup :=
    (List.NodupKeys.nodup l.staking.nodupKeys).filter _
  refine entries.map_on fun x inside y inside' same => ?_
  obtain ⟨stored, number⟩ := List.mem_filter.mp inside
  obtain ⟨stored', number'⟩ := List.mem_filter.mp inside'
  have keys : x.1 = y.1 :=
    Prod.ext ((beq_iff_eq.mp number).trans (beq_iff_eq.mp number').symm) same
  exact List.inj_on_of_nodup_map l.staking.nodupKeys stored stored' keys

theorem delegatedTotal_candidates (l : Ledger) (n : Nat) :
    l.delegatedTotal n = (l.candidates n).foldl (fun sum c => sum + c.2.1) 0 := by
  rw [candidates, foldl_map]
  rfl

section Select
variable {best : OperatorChoice} {c : AddressBytes × Int64 × Int64 × Bool}

def choice (c : AddressBytes × Int64 × Int64 × Bool) : OperatorChoice := (c.2.1, c.2.2.1, c.1)

def Wins (best : OperatorChoice) (c : AddressBytes × Int64 × Int64 × Bool) : Prop :=
  c.2.2.2 = true ∧ rank best < rank (choice c)

instance : Decidable (Wins best c) := by unfold Wins; infer_instance

def select (best : OperatorChoice) (c : AddressBytes × Int64 × Int64 × Bool) : OperatorChoice :=
  if Wins best c then choice c else best

theorem displaces_iff {e : AddressBytes × StakingAccount} :
    displaces best { e.2 with address := e.1 } = true ↔ Wins best (e.1, eligibilityFields e.2) := by
  have stake : best.1 = e.2.stakedBalance ↔ best.1.toInt = e.2.stakedBalance.toInt :=
    Int64.toInt_inj.symm
  have since : e.2.operationalSince = best.2.1 ↔ best.2.1.toInt = e.2.operationalSince.toInt :=
    eq_comm.trans Int64.toInt_inj.symm
  simp [displaces, Wins, rank, choice, eligibilityFields, Prod.Lex.toLex_lt_toLex,
    Int64.lt_iff_toInt_lt, BitVec.lt_def, stake, since]

theorem selectedOperator_candidates (l : Ledger) (n : Nat) :
    l.selectedOperator n = (l.candidates n).foldl select (-1, 0, 0) := by
  rw [candidates, foldl_map, selectedOperator]
  congr 1
  funext best e
  simp only [displaces_iff]
  rfl

theorem select_of_wins (wins : Wins best c) : select best c = choice c := if_pos wins

theorem select_of_not (loses : ¬ Wins best c) : select best c = best := if_neg loses

theorem select_right_comm (best : OperatorChoice) (x y : AddressBytes × Int64 × Int64 × Bool) :
    select (select best x) y = select (select best y) x := by
  by_cases first : Wins best x
  · by_cases second : Wins best y
    · rw [select_of_wins first, select_of_wins second]
      rcases lt_trichotomy (rank (choice x)) (rank (choice y)) with less | same | more
      · rw [select_of_wins ⟨second.1, less⟩, select_of_not fun wins => lt_asymm less wins.2]
      · rw [select_of_not fun wins => absurd same wins.2.ne,
          select_of_not fun wins => absurd same wins.2.ne', rank_injective same]
      · rw [select_of_wins ⟨first.1, more⟩, select_of_not fun wins => lt_asymm more wins.2]
    · rw [select_of_not second, select_of_wins first,
        select_of_not fun wins => second ⟨wins.1, first.2.trans wins.2⟩]
  · by_cases second : Wins best y
    · rw [select_of_not first, select_of_wins second,
        select_of_not fun wins => first ⟨wins.1, second.2.trans wins.2⟩]
    · rw [select_of_not first, select_of_not second, select_of_not first]

theorem foldl_select_spec (cs : List (AddressBytes × Int64 × Int64 × Bool))
    (best : OperatorChoice) :
    (cs.foldl select best = best ∨ ∃ c ∈ cs, c.2.2.2 = true ∧ cs.foldl select best = choice c) ∧
      rank best ≤ rank (cs.foldl select best) ∧
      ∀ c ∈ cs, c.2.2.2 = true → rank (choice c) ≤ rank (cs.foldl select best) := by
  induction cs generalizing best with
  | nil => exact ⟨.inl rfl, le_refl _, fun c member => absurd member not_mem_nil⟩
  | cons c cs ih =>
    obtain ⟨source, least, most⟩ := ih (select best c)
    rw [List.foldl_cons]
    by_cases wins : Wins best c
    · rw [select_of_wins wins] at source least most ⊢
      refine ⟨.inr ?_, wins.2.le.trans least, ?_⟩
      · rcases source with kept | ⟨d, member, flagged, chosen⟩
        · exact ⟨c, List.mem_cons_self, wins.1, kept⟩
        · exact ⟨d, List.mem_cons_of_mem c member, flagged, chosen⟩
      · intro d member flagged
        rcases List.mem_cons.mp member with rfl | later
        · exact least
        · exact most d later flagged
    · rw [select_of_not wins] at source least most ⊢
      refine ⟨?_, least, ?_⟩
      · rcases source with kept | ⟨d, member, flagged, chosen⟩
        · exact .inl kept
        · exact .inr ⟨d, List.mem_cons_of_mem c member, flagged, chosen⟩
      · intro d member flagged
        rcases List.mem_cons.mp member with rfl | later
        · exact (not_lt.mp fun higher => wins ⟨flagged, higher⟩).trans least
        · exact most d later flagged

theorem stake_le_of_rank_le {x y : OperatorChoice} (ranked : rank x ≤ rank y) :
    x.1.toInt ≤ y.1.toInt := by
  rcases Prod.Lex.toLex_le_toLex.mp ranked with more | ⟨same, -⟩
  · exact more.le
  · exact same.le

theorem foldl_select_agree {cs : List (AddressBytes × Int64 × Int64 × Bool)}
    {start start' : OperatorChoice} (none : start.1.toInt ≤ 0) (none' : start'.1.toInt ≤ 0)
    (c : AddressBytes × Int64 × Int64 × Bool) (member : c ∈ cs) (flagged : c.2.2.2 = true)
    (positive : 0 < c.2.1.toInt) :
    cs.foldl select start = cs.foldl select start' ∧
      ∃ d ∈ cs, d.2.2.2 = true ∧ cs.foldl select start = choice d := by
  -- a start without stake is displaced
  have chosen : ∀ best : OperatorChoice, best.1.toInt ≤ 0 →
      ∃ d ∈ cs, d.2.2.2 = true ∧ cs.foldl select best = choice d := by
    intro best low
    obtain ⟨source, -, most⟩ := foldl_select_spec cs best
    rcases source with kept | found
    · have least := stake_le_of_rank_le (most c member flagged)
      rw [kept] at least
      exact absurd positive (Int.not_lt.mpr (Int.le_trans least low))
    · exact found
  obtain ⟨d, inside, operational, first⟩ := chosen start none
  obtain ⟨d', inside', operational', second⟩ := chosen start' none'
  have above := (foldl_select_spec cs start').2.2 d inside operational
  have below := (foldl_select_spec cs start).2.2 d' inside' operational'
  rw [← first] at above
  rw [← second] at below
  exact ⟨rank_injective (le_antisymm above below), d, inside, operational, first⟩

end Select

theorem getStakedInDelegatedAccount_candidates (l : Ledger) (n : Nat)
    (filed : ∀ key e, l.staking.lookup key = some e → e.address = key.2) :
    (l.getStakedInDelegatedAccount n).2.2 = ((l.candidates n).foldl select (0, 0, 0)).2.2 := by
  have own : ∀ e ∈ l.staking.entries.filter (fun e => e.1.1 == n), e.2.address = e.1.2 :=
    fun e member => filed e.1 e.2 (AList.mem_lookup_iff.mpr (List.mem_filter.mp member).1)
  unfold getStakedInDelegatedAccount candidates shard shardEntries
  dsimp only
  rw [List.map_map, foldl_map, foldl_map]
  congr 2
  refine foldl_ext _ _ _ fun best e member => ?_
  have same : ({ e.2 with address := e.1.2 } : StakingAccount) = e.2 := by
    rw [← own e member]
  have decides : displaces best e.2 = true ↔ Wins best (e.1.2, eligibilityFields e.2) := by
    have filed := @displaces_iff best (e.1.2, e.2)
    rwa [same] at filed
  simp only [Function.comp_apply, select, choice, decides, own e member]
  rfl

def SameEntries (l l' : Ledger) : Prop := ∀ key, l'.staking.lookup key = l.staking.lookup key

/-- Two ledgers whose staking entries agree in what eligibility reads, and whose delegated accounts
agree in when their stake changed. -/
structure SameStakes (l l' : Ledger) : Prop where
  entries : ∀ k, (l'.staking.lookup k).map eligibilityFields =
    (l.staking.lookup k).map eligibilityFields
  inRange : ∀ k a, l.staking.lookup k = some a → k.1 < 256
  changed : ∀ n < 256, (l'.stakeChangedAt.lookup n).getD 0 = (l.stakeChangedAt.lookup n).getD 0

section SameStakes
variable {l l' : Ledger}

theorem candidates_eq (l : Ledger) (n : Nat) : l.candidates n =
    ((l.staking.entries.map fun e => (e.1, eligibilityFields e.2)).filter
      fun e => e.1.1 == n).map fun e => (e.1.2, e.2) := by
  rw [candidates, shardEntries, List.map_map, List.filter_map, List.map_map]
  rfl

theorem candidates_perm (entries : ∀ k, (l'.staking.lookup k).map eligibilityFields =
    (l.staking.lookup k).map eligibilityFields) (n : Nat) :
    (l'.candidates n).Perm (l.candidates n) := by
  rw [candidates_eq, candidates_eq]
  exact ((FinMap.readings_perm entries).filter _).map _

section
variable (same : SameStakes l l')
include same

theorem SameStakes.candidates_perm (n : Nat) :
    (l'.candidates n).Perm (l.candidates n) := Ledger.candidates_perm same.entries n

theorem SameStakes.delegatedTotal (n : Nat) : l'.delegatedTotal n = l.delegatedTotal n := by
  rw [delegatedTotal_candidates, delegatedTotal_candidates]
  refine (same.candidates_perm n).foldl_eq' (fun x _ y _ sum => ?_) 0
  rw [Int64.add_assoc, Int64.add_assoc, Int64.add_comm y.2.1]

theorem SameStakes.selectedOperator (n : Nat) : l'.selectedOperator n = l.selectedOperator n := by
  rw [selectedOperator_candidates, selectedOperator_candidates]
  exact (same.candidates_perm n).foldl_eq' (fun x _ y _ best => select_right_comm best x y) _

theorem SameStakes.ranksBefore {n id : Nat} (inside : n < 256) (inside' : id < 256) :
    l'.ranksBefore n id = l.ranksBefore n id := by
  unfold Ledger.ranksBefore
  rw [same.delegatedTotal, same.delegatedTotal, same.changed n inside, same.changed id inside']

theorem SameStakes.delegatedTotal_outside {n : Nat} (outside : 256 ≤ n) :
    l.delegatedTotal n = 0 := by
  have none : l.shardEntries n = [] := by
    rw [shardEntries, map_eq_nil_iff, filter_eq_nil_iff]
    rintro ⟨k, a⟩ stored equal
    have small := same.inRange k a (AList.mem_lookup_iff.mpr stored)
    have number := beq_iff_eq.mp equal
    dsimp only at number
    omega
  rw [Ledger.delegatedTotal, none]
  rfl

theorem SameStakes.eligibleOperator (n : Nat) : l'.eligibleOperator n = l.eligibleOperator n := by
  by_cases inside : n < 256
  · have ranks : (List.range 256).filter (l'.ranksBefore n) =
        (List.range 256).filter (l.ranksBefore n) :=
      List.filter_congr fun id member => same.ranksBefore inside (List.mem_range.mp member)
    unfold Ledger.eligibleOperator
    rw [same.delegatedTotal, same.selectedOperator, ranks]
  · have small : l.delegatedTotal n < Common.minStakingForNode := by
      rw [same.delegatedTotal_outside (Nat.not_lt.mp inside)]
      decide
    unfold Ledger.eligibleOperator
    rw [same.delegatedTotal, if_pos small, if_pos small]

end

end SameStakes

end Ledger
end QwidNode.Source
