import QwidNode.Lib.Word

/-!
# Amounts released linearly

A lock holds an amount back from a start and releases the same part of it in every step. What
remains never grows with time.
-/
namespace QwidNode.Lib

structure LinearLock where
  amount : Int
  perStep : Int
  start : Int
deriving DecidableEq

namespace LinearLock
variable {k : LinearLock} {ks made : List LinearLock} {t t' : Int}

/-- What is held back fits a word, and no step gives back more than that. -/
structure Valid (k : LinearLock) : Prop where
  nonneg : 0 ≤ k.amount
  perStep : 0 ≤ k.perStep
  within : k.perStep ≤ k.amount
  fits : k.amount < 2 ^ 63

def balance (k : LinearLock) (t : Int) : Int := k.amount - (t - k.start) * k.perStep

def remaining (k : LinearLock) (t : Int) : Int := max 0 (k.balance t)

def Unreleased (t : Int) (k : LinearLock) : Prop := 0 < k.balance t

instance (t : Int) (k : LinearLock) : Decidable (Unreleased t k) :=
  inferInstanceAs (Decidable (_ < _))

def outstanding (ks : List LinearLock) (t : Int) : Int := (ks.map (·.remaining t)).sum

theorem balance_antitone (valid : k.Valid) (later : t ≤ t') : k.balance t' ≤ k.balance t := by
  have steps : (t - k.start) * k.perStep ≤ (t' - k.start) * k.perStep :=
    Int.mul_le_mul_of_nonneg_right (by omega) valid.perStep
  unfold balance
  omega

theorem remaining_nonneg (k : LinearLock) (t : Int) : 0 ≤ k.remaining t := Int.le_max_left _ _

theorem remaining_antitone (valid : k.Valid) (later : t ≤ t') :
    k.remaining t' ≤ k.remaining t := by
  have less := balance_antitone valid later
  unfold remaining
  omega

theorem Unreleased.earlier (valid : k.Valid) (later : t ≤ t') (still : Unreleased t' k) :
    Unreleased t k :=
  Int.lt_of_lt_of_le still (balance_antitone valid later)

@[simp] theorem outstanding_nil : outstanding [] t = 0 := rfl

@[simp] theorem outstanding_cons :
    outstanding (k :: ks) t = k.remaining t + outstanding ks t := by
  simp [outstanding]

theorem outstanding_append :
    outstanding (ks ++ made) t = outstanding ks t + outstanding made t := by
  simp [outstanding]

theorem outstanding_nonneg (ks : List LinearLock) (t : Int) : 0 ≤ outstanding ks t := by
  refine List.sum_nonneg fun x member => ?_
  obtain ⟨k, -, rfl⟩ := List.mem_map.mp member
  exact k.remaining_nonneg t

theorem outstanding_antitone (valid : ∀ k ∈ ks, k.Valid) (later : t ≤ t') :
    outstanding ks t' ≤ outstanding ks t := by
  induction ks with
  | nil => exact Int.le_refl 0
  | cons k ks ih =>
    have first := remaining_antitone (valid k List.mem_cons_self) later
    have others := ih fun c member => valid c (List.mem_cons_of_mem k member)
    simp only [outstanding_cons]
    omega

theorem outstanding_sublist (sub : ks.Sublist made) : outstanding ks t ≤ outstanding made t := by
  induction sub with
  | slnil => exact Int.le_refl 0
  | cons k _ ih =>
    have more := k.remaining_nonneg t
    rw [outstanding_cons]
    omega
  | cons_cons k _ ih =>
    simp only [outstanding_cons]
    omega

theorem outstanding_filter {p : LinearLock → Bool}
    (keeps : ∀ k ∈ ks, Unreleased t k → p k = true) :
    outstanding (ks.filter p) t = outstanding ks t := by
  induction ks with
  | nil => rfl
  | cons k ks ih =>
    have others := ih fun c member => keeps c (List.mem_cons_of_mem k member)
    by_cases kept : p k = true
    · rw [List.filter_cons_of_pos kept, outstanding_cons, outstanding_cons, others]
    · have gone : ¬ Unreleased t k := fun still => kept (keeps k List.mem_cons_self still)
      have nothing : k.remaining t = 0 := max_eq_left (Int.not_lt.mp gone)
      rw [List.filter_cons_of_neg kept, outstanding_cons, others, nothing, Int.zero_add]

theorem filter_unreleased_filter {p : LinearLock → Bool} (valid : ∀ k ∈ ks, k.Valid)
    (later : t ≤ t') (keeps : ∀ k ∈ ks, Unreleased t k → p k = true) :
    (ks.filter p).filter (fun k => decide (Unreleased t' k)) =
      ks.filter fun k => decide (Unreleased t' k) := by
  rw [List.filter_filter]
  refine List.filter_congr fun k member => ?_
  by_cases still : Unreleased t' k
  · rw [decide_eq_true still, Bool.true_and,
      keeps k member (still.earlier (valid k member) later)]
  · rw [decide_eq_false still, Bool.false_and]

def wrapped (k : LinearLock) (t : Int) : Int := max 0 ((k.balance t).bmod (2 ^ 64))

def Exact (t : Int) (k : LinearLock) : Prop := -2 ^ 63 ≤ k.balance t

theorem Exact.earlier (valid : k.Valid) (later : t ≤ t') (exact' : Exact t' k) : Exact t k :=
  Int.le_trans exact' (balance_antitone valid later)

theorem balance_le (valid : k.Valid) (begun : k.start ≤ t) : k.balance t ≤ k.amount := by
  have released : 0 ≤ (t - k.start) * k.perStep := Int.mul_nonneg (by omega) valid.perStep
  unfold balance
  omega

theorem remaining_le (valid : k.Valid) (begun : k.start ≤ t) : k.remaining t ≤ k.amount := by
  have most := balance_le valid begun
  have nonneg := valid.nonneg
  unfold remaining
  omega

theorem wrapped_of_exact (valid : k.Valid) (begun : k.start ≤ t) (exact' : Exact t k) :
    k.wrapped t = k.remaining t := by
  have most := balance_le valid begun
  have fits := valid.fits
  unfold Exact at exact'
  unfold wrapped remaining
  rw [Int.bmod_eq_of_le (by omega) (by omega)]

theorem wrapped_of_first_inexact (valid : k.Valid) (before : Exact (t - 1) k)
    (inexact : ¬ Exact t k) :
    k.remaining t = 0 ∧ 2 ^ 63 - k.perStep ≤ k.wrapped t ∧ k.wrapped t < 2 ^ 63 := by
  have step : k.balance t = k.balance (t - 1) - k.perStep := by
    unfold balance
    ring
  have within := valid.within
  have fits := valid.fits
  have perStep := valid.perStep
  unfold Exact at before inexact
  have value : (k.balance t).bmod (2 ^ 64) = k.balance t + 2 ^ 64 := by
    rw [← Int.add_bmod_right]
    exact Int.bmod_eq_of_le (by omega) (by omega)
  unfold remaining wrapped
  rw [value]
  omega

theorem sum_wrapped_of_exact (valid : ∀ k ∈ ks, k.Valid) (begun : ∀ k ∈ ks, k.start ≤ t)
    (exact' : ∀ k ∈ ks, Exact t k) : (ks.map (wrapped · t)).sum = outstanding ks t := by
  have each : ks.map (·.wrapped t) = ks.map (·.remaining t) :=
    List.map_congr_left fun k member =>
      wrapped_of_exact (valid k member) (begun k member) (exact' k member)
  rw [each, outstanding]

theorem sum_wrapped_of_first_inexact (valid : ∀ k ∈ ks, k.Valid)
    (begun : ∀ k ∈ ks, k.start ≤ t)
    (before : ∀ k ∈ ks, Exact t k ∨ Exact (t - 1) k) :
    ∃ m : Nat, ∃ short : Int, (ks.map (wrapped · t)).sum = outstanding ks t + m * 2 ^ 63 - short ∧
      m ≤ short ∧ short ≤ (ks.map (·.perStep)).sum ∧ ((∃ k ∈ ks, ¬ Exact t k) → 0 < m) := by
  induction ks with
  | nil => exact ⟨0, 0, rfl, Int.le_refl 0, Int.le_refl 0, by rintro ⟨k, member, -⟩; cases member⟩
  | cons k ks ih =>
    obtain ⟨m, short, sum, many, most, some'⟩ := ih
      (fun c member => valid c (List.mem_cons_of_mem k member))
      (fun c member => begun c (List.mem_cons_of_mem k member))
      (fun c member => before c (List.mem_cons_of_mem k member))
    have own := valid k List.mem_cons_self
    have perStep := own.perStep
    simp only [List.map_cons, List.sum_cons, outstanding_cons]
    by_cases exact' : Exact t k
    · have same := wrapped_of_exact own (begun k List.mem_cons_self) exact'
      refine ⟨m, short, by omega, many, by omega, ?_⟩
      rintro ⟨c, member, inexact⟩
      rcases List.mem_cons.mp member with rfl | later
      · exact absurd exact' inexact
      · exact some' ⟨c, later, inexact⟩
    · have earlier := (before k List.mem_cons_self).resolve_left exact'
      obtain ⟨nothing, least, less⟩ := wrapped_of_first_inexact own earlier exact'
      refine ⟨m + 1, short + (2 ^ 63 - k.wrapped t), ?_, ?_, ?_, fun _ => Nat.succ_pos m⟩
      · push_cast
        omega
      · push_cast
        omega
      · omega

theorem exists_first_inexact (exact' : ∀ k ∈ ks, Exact t k) (n : Nat)
    (inexact : ∃ k ∈ ks, ¬ Exact (t + n) k) :
    ∃ s, t < s ∧ s ≤ t + n ∧ (∀ k ∈ ks, Exact (s - 1) k) ∧ ∃ k ∈ ks, ¬ Exact s k := by
  induction n with
  | zero =>
    obtain ⟨k, member, not⟩ := inexact
    exact absurd (exact' k member) (by simpa using not)
  | succ n ih =>
    by_cases before : ∀ k ∈ ks, Exact (t + n) k
    · refine ⟨t + n + 1, by omega, by push_cast; omega, fun k member => ?_, ?_⟩
      · rw [Int.add_sub_cancel]
        exact before k member
      · rw [Int.add_assoc]
        exact inexact
    · push Not at before
      obtain ⟨s, after, within, first⟩ := ih before
      exact ⟨s, after, by push_cast; omega, first⟩

theorem bmod_sum_wrapped_ne (valid : ∀ k ∈ ks, k.Valid) (begun : ∀ k ∈ ks, k.start ≤ t)
    (before : ∀ k ∈ ks, Exact t k ∨ Exact (t - 1) k) (inexact : ∃ k ∈ ks, ¬ Exact t k)
    (releases : (ks.map (·.perStep)).sum < 2 ^ 63) :
    (ks.map (wrapped · t)).sum.bmod (2 ^ 64) ≠ (outstanding ks t).bmod (2 ^ 64) := by
  obtain ⟨m, short, sum, many, most, some'⟩ := sum_wrapped_of_first_inexact valid begun before
  have positive := some' inexact
  rw [sum, ne_eq, Int.bmod_eq_bmod_iff_bmod_sub_eq_zero]
  have difference : outstanding ks t + m * 2 ^ 63 - short - outstanding ks t =
      m * 2 ^ 63 - short := by omega
  rw [difference]
  intro zero
  have divides : ((2 ^ 64 : Nat) : Int) ∣ m * 2 ^ 63 - short := Int.dvd_of_bmod_eq_zero zero
  obtain ⟨q, quotient⟩ := divides
  push_cast at quotient
  omega

end LinearLock
end QwidNode.Lib
