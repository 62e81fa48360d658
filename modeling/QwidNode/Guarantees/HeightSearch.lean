import QwidNode.Source.Chain
import QwidNode.Lib.Word

/-!
# The search for the last contiguous height

Source: `database/helperDB.go:19-58`. Doubling a bound finds a height that exists below one that
does not, and bisection keeps the two while their distance halves.
-/
namespace QwidNode.Guarantees.HeightSearch
open Lib Source Word

section
variable {ε : Type} (lookup : Int64 → Except ε Bool)

/-- The height exists and, unless a lookup failed, the next one does not; the error is that of the
lookup that failed. -/
structure Sound (r : Search ε) : Prop where
  height : lookup r.height = .ok true
  boundary : r.error = none → lookup (r.height + 1) = .ok false
  failed : ∀ e, r.error = some e ↔ ∃ k ∈ r.lookups, lookup k = .error e

def Answered (seen : List Int64) : Prop := ∀ k ∈ seen, ∀ e, lookup k ≠ .error e

variable {lookup} {lo hi : Int64} {seen : List Int64}

theorem sound_of_failed {k : Int64} {e : ε} (found : lookup lo = .ok true)
    (fine : Answered lookup seen) (failed : lookup k = .error e) :
    Sound lookup ⟨lo, some e, k :: seen⟩ where
  height := found
  boundary none := by cases none
  failed e' := by
    constructor
    · rintro ⟨⟩
      exact ⟨k, List.mem_cons_self, failed⟩
    · rintro ⟨k', member, failed'⟩
      rcases List.mem_cons.mp member with rfl | earlier
      · rw [failed] at failed'
        cases failed'
        rfl
      · exact absurd failed' (fine k' earlier e')

theorem fine_cons {k : Int64} {b : Bool} (fine : Answered lookup seen)
    (answered : lookup k = .ok b) : Answered lookup (k :: seen) := by
  intro k' member e failed
  rcases List.mem_cons.mp member with rfl | earlier
  · rw [answered] at failed
    cases failed
  · exact fine k' earlier e failed

theorem Sound.error_eq_none {r : Search ε} (sound : Sound lookup r)
    (answers : ∀ k, ∃ b, lookup k = .ok b) : r.error = none := by
  cases failed : r.error with
  | none => rfl
  | some e =>
    obtain ⟨k, -, bad⟩ := (sound.failed e).mp failed
    obtain ⟨b, answer⟩ := answers k
    cases bad.symm.trans answer

theorem narrow_spec (fuel j : Nat) (enough : j < fuel) (lower : 0 ≤ lo.toInt)
    (gap : lo.toInt < hi.toInt) (close : hi.toInt - lo.toInt ≤ 2 ^ j) (found : lookup lo = .ok true)
    (absent : lookup hi = .ok false) (fine : Answered lookup seen) :
    ∃ r, narrow lookup fuel lo hi seen = some r ∧ Sound lookup r ∧
      r.lookups.length ≤ seen.length + j := by
  induction fuel generalizing j lo hi seen with
  | zero => omega
  | succ fuel ih =>
    have range := toInt_range hi
    have width : (hi - lo).toInt = hi.toInt - lo.toInt := toInt_sub_of_fits (by omega) (by omega)
    rw [narrow]
    by_cases wide : 1 < hi - lo
    · rw [if_pos wide]
      rw [lt_iff, width, toInt_one] at wide
      have middle := toInt_middle lo hi lower gap
      obtain ⟨i, rfl⟩ : ∃ i, j = i + 1 := by
        cases j with
        | zero => omega
        | succ i => exact ⟨i, rfl⟩
      rw [pow_succ] at close
      dsimp only
      generalize lo + (hi - lo) / 2 = mid at middle
      cases answer : lookup mid with
      | error e =>
        exact ⟨_, rfl, sound_of_failed found fine answer, by simp only [List.length_cons]; omega⟩
      | ok exists' =>
        have fine' := fine_cons fine answer
        cases exists' with
        | true =>
          obtain ⟨r, run, sound, few⟩ :=
            ih i (by omega) (by omega) (by omega) (by omega) answer absent fine'
          exact ⟨r, run, sound, by simp only [List.length_cons] at few; omega⟩
        | false =>
          obtain ⟨r, run, sound, few⟩ :=
            ih i (by omega) lower (by omega) (by omega) found answer fine'
          exact ⟨r, run, sound, by simp only [List.length_cons] at few; omega⟩
    · rw [if_neg wide]
      rw [lt_iff, width, toInt_one] at wide
      have next : hi = lo + 1 := by
        rw [← Int64.toInt_inj, toInt_succ (by omega)]
        omega
      refine ⟨_, rfl, ⟨found, fun _ => next ▸ absent, fun e => ⟨fun none => (by cases none), ?_⟩⟩,
        Nat.le_add_right _ _⟩
      rintro ⟨k, member, failed⟩
      exact absurd failed (fine k member e)

theorem gallop_spec {b : Nat} (fits : b ≤ 62) (bounded : ∀ k, lookup k = .ok true → k.toInt < 2 ^ b)
    (rounds fuel i : Nat) (long : b < rounds) (enough : b < i + fuel) (small : i ≤ b)
    (power : hi.toInt = 2 ^ i) (half : lo.toInt = 2 ^ i / 2) (found : lookup lo = .ok true)
    (fine : Answered lookup seen) (count : seen.length = i + 1) :
    ∃ r, gallop lookup rounds fuel lo hi seen = some r ∧ Sound lookup r ∧
      ∃ m k, r.lookups.length ≤ 2 * (m - 1) + 3 ∧ lookup k = .ok true ∧ 2 ^ m / 2 ≤ k.toInt := by
  induction fuel generalizing i lo hi seen with
  | zero => omega
  | succ fuel ih =>
    have positive : (0 : Int) < 2 ^ i := Int.pow_pos (by omega)
    rw [gallop]
    cases answer : lookup hi with
    | error e =>
      refine ⟨_, rfl, sound_of_failed found fine answer, i, lo, ?_, found, le_of_eq half.symm⟩
      simp only [List.length_cons]
      omega
    | ok exists' =>
      have fine' := fine_cons fine answer
      have count' : (hi :: seen).length = i + 1 + 1 := by rw [List.length_cons, count]
      have doubled : (2 : Int) ^ (i + 1) = 2 ^ i * 2 := pow_succ 2 i
      cases exists' with
      | true =>
        have below := bounded hi answer
        have less : i < b := by
          by_contra top
          obtain rfl : i = b := by omega
          omega
        have limit : (2 : Int) ^ i ≤ 2 ^ 61 := pow_le_pow_right₀ (by omega) (by omega)
        have two : (2 : Int64).toInt = 2 := rfl
        have product : hi.toInt * (2 : Int64).toInt = 2 ^ (i + 1) := by rw [power, two, doubled]
        have next : (hi * 2).toInt = 2 ^ (i + 1) := by
          rw [toInt_mul_of_fits (by omega) (by omega), product]
        exact ih (i + 1) (by omega) less next (by omega) answer fine' count'
      | false =>
        -- the distance is half of a power of two, or one
        have close : hi.toInt - lo.toInt ≤ 2 ^ (i - 1) := by
          cases i with
          | zero => omega
          | succ i =>
            rw [pow_succ] at power half
            simp only [Nat.add_sub_cancel]
            omega
        obtain ⟨r, run, sound, few⟩ := narrow_spec rounds (i - 1) (by omega) (by omega) (by omega)
          close found answer fine'
        refine ⟨r, run, sound, i, lo, ?_, found, le_of_eq half.symm⟩
        omega

theorem storedTop_eq {stored : Int64 → Bool} {top : Int64} (upTo : StoredUpTo stored top)
    (nonneg : 0 ≤ top) (bound : top.toInt < 2 ^ 62) : storedTop stored = top := by
  have inside : ∀ k, stored k = true ↔ 0 ≤ k.toInt ∧ k.toInt ≤ top.toInt := fun k => by
    rw [upTo k, le_iff, le_iff, toInt_zero]
  have first : stored 0 = true := (upTo 0).mpr ⟨Int64.le_refl 0, nonneg⟩
  have bounded : ∀ k, (.ok (stored k) : Except Unit Bool) = .ok true → k.toInt < 2 ^ 62 :=
    fun k found => ((inside k).mp (Except.ok.inj found)).2.trans_lt bound
  have fine : Answered (fun k => (.ok (stored k) : Except Unit Bool)) [0] := by simp [Answered]
  obtain ⟨r, run, sound, -⟩ := gallop_spec le_rfl bounded 64 64 0 (by decide) (by decide)
    (by decide) (show (1 : Int64).toInt = 2 ^ 0 from rfl) (show (0 : Int64).toInt = _ from rfl)
    (congrArg _ first) fine rfl
  have here := (inside _).mp (Except.ok.inj sound.height)
  have next := Except.ok.inj (sound.boundary (sound.error_eq_none fun k => ⟨_, rfl⟩))
  have after := toInt_succ (a := r.height) (by omega)
  have above : ¬ (r.height + 1).toInt ≤ top.toInt := fun le =>
    absurd (next.symm.trans ((inside _).mpr ⟨by omega, le⟩)) (by decide)
  simp only [storedTop, lastContiguousHeight, first, run]
  exact Int64.toInt_inj.mp (by omega)

/-- On every database with height zero and none from `2 ^ 61` on the search ends at a height that
exists. Unless a lookup failed, the next one does not; on the heights `0..n` it ends at `n` after at
most `2 * log2 (n + 1) + 3` lookups. -/
theorem last_contiguous_height_found {ε : Type} (lookup : Int64 → Except ε Bool)
    (zero : lookup 0 = .ok true) (bounded : ∀ k, lookup k = .ok true → k.toInt < 2 ^ 61)
    (fuel : Nat) (enough : 62 ≤ fuel) :
    ∃ r, lastContiguousHeight lookup fuel = some r ∧ lookup r.height = .ok true ∧
      (r.error = none → lookup (r.height + 1) = .ok false) ∧
      (∀ e, r.error = some e ↔ ∃ k ∈ r.lookups, lookup k = .error e) ∧
      ∀ n : Nat, (∀ k, lookup k = .ok (decide (0 ≤ k.toInt ∧ k.toInt ≤ n))) →
        r.height.toInt = n ∧ r.error = none ∧
          r.lookups.length ≤ 2 * Nat.log 2 (n + 1) + 3 := by
  have fine : Answered lookup [0] := by simp [Answered, zero]
  obtain ⟨r, run, sound, m, k, few, stored, reached⟩ :=
    gallop_spec (by decide) bounded fuel fuel 0 enough (by omega) (by omega) (show (1 : Int64).toInt = 2 ^ 0
      from rfl) rfl zero fine rfl
  refine ⟨r, ?_, sound.height, sound.boundary, sound.failed, fun n exactly => ?_⟩
  · rw [lastContiguousHeight, zero]
    exact run
  have here := sound.height
  rw [exactly, Except.ok.injEq, decide_eq_true_eq] at here stored
  have noError := sound.error_eq_none fun k => ⟨_, exactly k⟩
  have next := sound.boundary noError
  have below := bounded _ sound.height
  have after := toInt_succ (a := r.height) (by omega)
  rw [exactly, Except.ok.injEq, decide_eq_false_iff_not, after] at next
  refine ⟨by omega, noError, few.trans ?_⟩
  -- the last power of two that exists is at most the top
  have log : m - 1 ≤ Nat.log 2 (n + 1) := by
    cases m with
    | zero => exact Nat.zero_le _
    | succ m =>
      rw [pow_succ, Int.mul_ediv_cancel _ (by omega)] at reached
      refine Nat.le_log_of_pow_le (by omega) ?_
      have cast : ((2 ^ m : Nat) : Int) ≤ (n + 1 : Nat) := by push_cast; omega
      exact_mod_cast cast
  omega

def threeHeights (k : Int64) : Except Unit Bool := .ok (decide (0 ≤ k.toInt ∧ k.toInt ≤ (2 : Nat)))

theorem three_heights_searched : ∃ r, lastContiguousHeight threeHeights 62 = some r ∧
    r.height.toInt = 2 ∧ r.lookups.length ≤ 2 * Nat.log 2 3 + 3 := by
  obtain ⟨r, run, -, -, -, exact⟩ := last_contiguous_height_found threeHeights rfl
    (fun k stored => by
      rw [threeHeights, Except.ok.injEq, decide_eq_true_eq] at stored
      omega) 62 (by decide)
  obtain ⟨height, -, few⟩ := exact 2 fun _ => rfl
  exact ⟨r, run, height, few⟩

end

end QwidNode.Guarantees.HeightSearch
