import Mathlib

/-!
# Readers of counted and optional fields

A reader takes elements off the front of its input. It ends with a value and what is left, with a
refusal, or with a fault: it asked for more elements than are left, which in a program is a panic
or a read past the input. A refusal is a test of the reader's own, so a reader that tests before it
takes never faults.

`SafeFrom n r post` says so of `r` on every input of `n` elements, whatever they are.
`Reads r xs a` says that `r` reads `a` back from the elements `xs` that were written for it.
-/
namespace QwidNode.Lib
variable {δ : Type} {k : Nat} {test : Nat → Prop} {ds : List δ}

inductive Reading (β α : Type) where
  | value (a : α) (rest : List β)
  | refused
  | fault
deriving DecidableEq, Repr

def Reader (β α : Type) : Type := List β → Reading β α

section
variable {β α γ : Type}

namespace Reading

def andThen (r : Reading β α) (next : α → Reader β γ) : Reading β γ :=
  match r with
  | value a rest => next a rest
  | refused => refused
  | fault => fault

def toOption : Reading β α → Option α
  | value a _ => some a
  | refused => none
  | fault => none

/-- No fault, and a value only as described, by itself and by how many elements are left. -/
def Within (post : α → Nat → Prop) : Reading β α → Prop
  | value a rest => post a rest.length
  | refused => True
  | fault => False

@[simp] theorem andThen_value (a : α) (rest : List β) (next : α → Reader β γ) :
    (value a rest).andThen next = next a rest := rfl

@[simp] theorem toOption_value (a : α) (rest : List β) : (value a rest).toOption = some a := rfl

end Reading

namespace Reader

instance : Monad (Reader β) where
  pure a := fun xs => .value a xs
  bind r next := fun xs => (r xs).andThen next

def take (n : Nat) : Reader β (List β) := fun xs =>
  if xs.length < n then .fault else .value (xs.take n) (xs.drop n)

def field (n : Nat) (f : List β → α) : Reader β α := do
  let xs ← take n
  return f xs

def check (test : Nat → Prop) [DecidablePred test] : Reader β Unit := fun xs =>
  if test xs.length then .value () xs else .refused

def optionally (n : Nat) (r : Reader β α) (missing : α) : Reader β α := fun xs =>
  if n ≤ xs.length then r xs else .value missing xs

def times : Nat → Reader β α → Reader β (List α)
  | 0, _ => pure []
  | n + 1, r => do
    let a ← r
    let as ← times n r
    return a :: as

/-- Read other elements, to the end of what they give, and leave the input as it is. -/
def apart (r : Reader β α) (xs : List β) : Reader β α := fun rest =>
  match r xs with
  | .value a _ => .value a rest
  | .refused => .refused
  | .fault => .fault

/-- A record of `n` elements that is read by itself; what it leaves over is dropped. -/
def framed (n : Nat) (r : Reader β α) : Reader β α := do
  let xs ← take n
  apart r xs

@[simp] theorem bind_apply (r : Reader β α) (next : α → Reader β γ) (xs : List β) :
    (r >>= next) xs = (r xs).andThen next := rfl

/-- On every input of `n` elements the reader gives a value as described or refuses. -/
def SafeFrom (n : Nat) (r : Reader β α) (post : α → Nat → Prop) : Prop :=
  ∀ xs : List β, xs.length = n → (r xs).Within post

/-- On every input of `n` elements the reader gives a value or refuses. -/
abbrev Safe (n : Nat) (r : Reader β α) : Prop := SafeFrom n r fun _ _ => True

section Safe
variable {n : Nat} {r : Reader β α} {next : α → Reader β γ} {mid : α → Nat → Prop}
  {post : γ → Nat → Prop}

theorem SafeFrom.not_fault {xs : List β} {post : α → Nat → Prop}
    (safe : SafeFrom xs.length r post) : r xs ≠ .fault := by
  intro fault
  have within := safe xs rfl
  rw [fault] at within
  exact within

theorem SafeFrom.mono {post post' : α → Nat → Prop} (safe : SafeFrom n r post)
    (weaker : ∀ a m, post a m → post' a m) : SafeFrom n r post' := by
  intro xs length
  have within := safe xs length
  cases reading : r xs with
  | value a rest =>
    rw [reading] at within
    exact weaker a rest.length within
  | refused => trivial
  | fault =>
    rw [reading] at within
    exact within

theorem SafeFrom.pure {post : α → Nat → Prop} {a : α} (holds : post a n) :
    SafeFrom n (pure a : Reader β α) post := by
  rintro xs rfl
  exact holds

theorem SafeFrom.bind (first : SafeFrom n r mid)
    (second : ∀ a m, mid a m → SafeFrom m (next a) post) : SafeFrom n (r >>= next) post := by
  intro xs length
  have within := first xs length
  rw [bind_apply]
  cases reading : r xs with
  | value a rest =>
    rw [reading] at within
    exact second a rest.length within rest rfl
  | refused => trivial
  | fault =>
    rw [reading] at within
    exact within.elim

theorem SafeFrom.followed (first : Safe n r)
    (second : ∀ a m, SafeFrom m (next a) post) : SafeFrom n (r >>= next) post :=
  SafeFrom.bind first fun a m _ => second a m

theorem SafeFrom.take (enough : k ≤ n) :
    SafeFrom n (take k : Reader β (List β)) fun xs m => xs.length = k ∧ m = n - k := by
  rintro xs rfl
  rw [Reader.take, if_neg (Nat.not_lt.mpr enough)]
  exact ⟨List.length_take_of_le enough, List.length_drop⟩

theorem SafeFrom.field {f : List β → α} (enough : k ≤ n) :
    SafeFrom n (field k f) fun _ m => m = n - k := by
  refine SafeFrom.bind (SafeFrom.take enough) fun xs m taken => ?_
  exact SafeFrom.pure taken.2

theorem SafeFrom.field_bind {f : List β → α} (enough : k ≤ n)
    (rest : ∀ a, SafeFrom (n - k) (next a) post) : SafeFrom n (Reader.field k f >>= next) post := by
  refine SafeFrom.bind (SafeFrom.field enough) fun a m left => ?_
  rw [left]
  exact rest a

theorem SafeFrom.check_bind [DecidablePred test] {next : Unit → Reader β γ}
    (rest : test n → SafeFrom n (next ()) post) : SafeFrom n (check test >>= next) post := by
  rintro xs rfl
  rw [bind_apply, check]
  by_cases holds : test xs.length
  · rw [if_pos holds]
    exact rest holds xs rfl
  · rw [if_neg holds]
    trivial

theorem SafeFrom.optionally {missing : α} {post : α → Nat → Prop}
    (present : k ≤ n → SafeFrom n r post) (absent : n < k → post missing n) :
    SafeFrom n (optionally k r missing) post := by
  rintro xs rfl
  rw [Reader.optionally]
  by_cases enough : k ≤ xs.length
  · rw [if_pos enough]
    exact present enough xs rfl
  · rw [if_neg enough]
    exact absent (Nat.not_le.mp enough)

theorem SafeFrom.optionalField {f : List β → α} {missing : α} :
    Safe n (Reader.optionally k (Reader.field k f) missing) :=
  .optionally (fun enough => (field enough).mono fun _ _ _ => trivial) fun _ => trivial

theorem SafeFrom.times (inv : Nat → Nat → Prop)
    (part : ∀ k m, inv (k + 1) m → SafeFrom m r fun _ left => inv k left) (start : inv k n) :
    SafeFrom n (times k r) fun _ left => inv 0 left := by
  induction k generalizing n with
  | zero => exact SafeFrom.pure start
  | succ k ih =>
    refine SafeFrom.bind (part k n start) fun a m kept => ?_
    refine SafeFrom.bind (ih kept) fun as m kept => ?_
    exact SafeFrom.pure kept

theorem SafeFrom.times_width {w : Nat} (part : ∀ m, w ≤ m → SafeFrom m r fun _ left => left = m - w)
    (room : k * w ≤ n) : SafeFrom n (Reader.times k r) fun _ left => left = n - k * w := by
  have step : ∀ j m, m + k * w = n + (j + 1) * w →
      SafeFrom m r fun _ left => left + k * w = n + j * w := by
    intro j m before
    rw [Nat.succ_mul] at before
    refine (part m (by omega)).mono fun _ left after => ?_
    omega
  refine (SafeFrom.times (fun j m => m + k * w = n + j * w) step rfl).mono fun _ left after => ?_
  omega

theorem SafeFrom.framed {inner : α → Nat → Prop} (enough : k ≤ n) (safe : SafeFrom k r inner) :
    SafeFrom n (framed k r) fun _ m => m = n - k := by
  refine SafeFrom.bind (SafeFrom.take enough) fun xs m taken => ?_
  intro rest length
  have within := safe xs taken.1
  rw [apart]
  cases reading : r xs with
  | value a left => exact length.trans taken.2
  | refused => trivial
  | fault =>
    rw [reading] at within
    exact within

end Safe

/-- The reader takes exactly `xs` off the front of every input that starts with them. -/
def Reads (r : Reader β α) (xs : List β) (a : α) : Prop := ∀ rest, r (xs ++ rest) = .value a rest

section Written
variable {r : Reader β α} {next : α → Reader β γ} {xs ys : List β} {a : α} {c : γ}

theorem bind_of_value (first : r xs = .value a ys) : (r >>= next) xs = next a ys := by
  rw [bind_apply, first]
  rfl

theorem check_of_holds [DecidablePred test] (holds : test xs.length) :
    check test xs = .value () xs := if_pos holds

theorem optionally_of_le {n : Nat} {missing : α} (enough : n ≤ xs.length) :
    optionally n r missing xs = r xs := if_pos enough

theorem Reads.all (reads : Reads r xs a) : r xs = .value a [] := by
  have whole := reads []
  rwa [List.append_nil] at whole

theorem Reads.bind (first : Reads r xs a) (second : Reads (next a) ys c) :
    Reads (r >>= next) (xs ++ ys) c := by
  intro rest
  rw [List.append_assoc, bind_of_value (first _)]
  exact second rest

theorem Reads.bind_pure {f : α → γ} (last : Reads r xs a) :
    Reads (r >>= fun a => Pure.pure (f a)) xs (f a) := by
  intro rest
  rw [bind_of_value (last rest)]
  rfl

theorem Reads.take (xs : List β) : Reads (take xs.length) xs xs := by
  intro rest
  have enough : ¬ (xs ++ rest).length < xs.length := by
    rw [List.length_append]
    omega
  rw [Reader.take, if_neg enough, List.take_left, List.drop_left]

theorem Reads.field {n : Nat} {f : List β → α} (width : xs.length = n) :
    Reads (field n f) xs (f xs) := by
  subst width
  exact Reads.bind_pure (Reads.take xs)

theorem Reads.check_bind [DecidablePred test] {next : Unit → Reader β γ}
    (holds : ∀ more, test (xs.length + more)) (rest : Reads (next ()) xs c) :
    Reads (check test >>= next) xs c := by
  intro more
  have passed : test (xs ++ more).length := by
    rw [List.length_append]
    exact holds more.length
  rw [bind_of_value (check_of_holds passed)]
  exact rest more

theorem Reads.optionally {n : Nat} {missing : α} (enough : n ≤ xs.length) (reads : Reads r xs a) :
    Reads (optionally n r missing) xs a := by
  intro rest
  have more : n ≤ (xs ++ rest).length := by
    rw [List.length_append]
    omega
  rw [optionally_of_le more]
  exact reads rest

theorem Reads.times {write : δ → List β} {f : δ → α} (back : ∀ d ∈ ds, Reads r (write d) (f d)) :
    Reads (times ds.length r) (ds.flatMap write) (ds.map f) := by
  induction ds with
  | nil => exact fun rest => rfl
  | cons d ds ih =>
    have tail := ih fun e member => back e (List.mem_cons_of_mem d member)
    exact Reads.bind (back d List.mem_cons_self) (Reads.bind_pure tail)

theorem Reads.times_same {r : Reader β δ} {write : δ → List β}
    (back : ∀ d ∈ ds, Reads r (write d) d) :
    Reads (Reader.times ds.length r) (ds.flatMap write) ds := by
  have whole := Reads.times back
  rwa [List.map_id'] at whole

theorem mul_le_length_flatMap {write : δ → List β} {width : Nat}
    (wide : ∀ d ∈ ds, width ≤ (write d).length) :
    ds.length * width ≤ (ds.flatMap write).length := by
  induction ds with
  | nil => exact Nat.le_of_eq (Nat.zero_mul width)
  | cons d ds ih =>
    rw [List.forall_mem_cons] at wide
    have rest := ih wide.2
    have first := wide.1
    rw [List.length_cons, Nat.succ_mul, List.flatMap_cons, List.length_append]
    omega

theorem Reads.framed (inside : Reads r xs a) : Reads (framed xs.length r) xs a := by
  intro rest
  rw [Reader.framed, bind_of_value (Reads.take xs rest), apart, inside.all]

end Written
end Reader
end
end QwidNode.Lib
