import Mathlib

/-!
# Bytes as UTF-8

Which byte strings are UTF-8, and what becomes of one that is not when it is written as text: every
byte that starts no code point is replaced by the three bytes of U+FFFD. A byte string survives
exactly when it is UTF-8, because a replacement makes it longer.
-/
namespace QwidNode.Lib.Utf8

def between (low high b : UInt8) : Bool := decide (low ≤ b) && decide (b ≤ high)

def continues (b : UInt8) : Bool := between 0x80 0xBF b

/-- How many bytes the code point at the head of the list has; zero when there is none. Overlong
forms, surrogates and numbers above U+10FFFF are none. -/
def runeLength : List UInt8 → Nat
  | [] => 0
  | b :: rest =>
    if b < 0x80 then 1
    else
      match rest with
      | c :: rest =>
        if between 0xC2 0xDF b then if continues c then 2 else 0
        else
          match rest with
          | d :: rest =>
            if between 0xE0 0xEF b then
              let low := if b = 0xE0 then 0xA0 else 0x80
              let high := if b = 0xED then 0x9F else 0xBF
              if between low high c && continues d then 3 else 0
            else
              match rest with
              | e :: _ =>
                let low := if b = 0xF0 then 0x90 else 0x80
                let high := if b = 0xF4 then 0x8F else 0xBF
                if between 0xF0 0xF4 b && between low high c && continues d && continues e
                then 4 else 0
              | [] => 0
          | [] => 0
      | [] => 0

/-- Is the list UTF-8 after its first `k` bytes, which belong to a code point already seen? -/
def validFrom : Nat → List UInt8 → Bool
  | _, [] => true
  | k + 1, _ :: rest => validFrom k rest
  | 0, b :: rest =>
    match runeLength (b :: rest) with
    | 0 => false
    | n + 1 => validFrom n rest

def valid (bs : List UInt8) : Bool := validFrom 0 bs

def replacement : List UInt8 := [0xEF, 0xBF, 0xBD]

/-- The list with replacements, after its first `k` bytes, which belong to a code point. -/
def coerceFrom : Nat → List UInt8 → List UInt8
  | _, [] => []
  | k + 1, b :: rest => b :: coerceFrom k rest
  | 0, b :: rest =>
    match runeLength (b :: rest) with
    | 0 => replacement ++ coerceFrom 0 rest
    | n + 1 => b :: coerceFrom n rest

def coerce (bs : List UInt8) : List UInt8 := coerceFrom 0 bs

theorem length_le_coerceFrom (k : Nat) (bs : List UInt8) :
    bs.length ≤ (coerceFrom k bs).length := by
  fun_induction coerceFrom k bs with
  | case1 => exact Nat.le_refl _
  | case2 k b rest ih => exact Nat.succ_le_succ ih
  | case3 b rest _ ih =>
    rw [List.length_cons, List.length_append, replacement]
    simp only [List.length_cons, List.length_nil]
    omega
  | case4 b rest n _ ih => exact Nat.succ_le_succ ih

theorem coerceFrom_length_le (k : Nat) (bs : List UInt8) :
    (coerceFrom k bs).length ≤ 3 * bs.length := by
  fun_induction coerceFrom k bs with
  | case1 => exact Nat.le_refl _
  | case2 k b rest ih =>
    simp only [List.length_cons]
    omega
  | case3 b rest _ ih =>
    rw [List.length_cons, List.length_append, replacement]
    simp only [List.length_cons, List.length_nil]
    omega
  | case4 b rest n _ ih =>
    simp only [List.length_cons]
    omega

theorem coerceFrom_eq_iff (k : Nat) (bs : List UInt8) :
    coerceFrom k bs = bs ↔ validFrom k bs = true := by
  fun_induction coerceFrom k bs with
  | case1 => simp [validFrom]
  | case2 k b rest ih => rw [List.cons.injEq, ih, validFrom, eq_self, true_and]
  | case3 b rest none _ =>
    -- three bytes stand for one, and nothing gets shorter
    have longer := length_le_coerceFrom 0 rest
    rw [validFrom, none]
    refine ⟨fun same => ?_, fun impossible => absurd impossible Bool.false_ne_true⟩
    have lengths := congrArg List.length same
    rw [List.length_append, List.length_cons, replacement] at lengths
    simp only [List.length_cons, List.length_nil] at lengths
    omega
  | case4 b rest n rune ih => rw [List.cons.injEq, ih, validFrom, rune, eq_self, true_and]

theorem coerce_eq_iff {bs : List UInt8} : coerce bs = bs ↔ valid bs = true :=
  coerceFrom_eq_iff 0 bs

theorem coerce_length_le (bs : List UInt8) : (coerce bs).length ≤ 3 * bs.length :=
  coerceFrom_length_le 0 bs

-- the euro sign, a surrogate, an overlong form
example : valid [0xE2, 0x82, 0xAC] = true ∧ valid [0xED, 0xA0, 0x80] = false ∧
    coerce [0x51, 0xC0, 0x80] = [0x51] ++ replacement ++ replacement := by decide

end QwidNode.Lib.Utf8
