import Mathlib

/-!
# Computations that keep their state when they fail

An imperative function that mutates shared state and then returns an error leaves the
mutations behind, and so does `EStateM`. This module gives the inversion rules for its
binds and one relational rule: if every primitive step of a program is a step of a
preorder `R`, then so is the whole program, whether it returns or fails.
-/
namespace QwidNode.Lib

section Inversion
variable {ε σ α β : Type}

theorem bind_eq_ok {x : EStateM ε σ α} {f : α → EStateM ε σ β} {s t : σ} {b : β} :
    (x >>= f) s = .ok b t ↔ ∃ a u, x s = .ok a u ∧ f a u = .ok b t := by
  constructor
  · intro h
    simp only [bind, EStateM.bind] at h
    cases hx : x s with
    | ok a u => exact ⟨a, u, rfl, by simpa only [hx] using h⟩
    | error e u => simp only [hx] at h; cases h
  · rintro ⟨a, u, hx, hf⟩
    simpa only [bind, EStateM.bind, hx] using hf

theorem bind_of_ok {x : EStateM ε σ α} {f : α → EStateM ε σ β} {s u : σ} {a : α}
    (h : x s = .ok a u) : (x >>= f) s = f a u := by
  simp only [bind, EStateM.bind, h]

theorem bind_of_error {x : EStateM ε σ α} {f : α → EStateM ε σ β} {s u : σ} {e : ε}
    (h : x s = .error e u) : (x >>= f) s = .error e u := by
  simp only [bind, EStateM.bind, h]

@[simp] theorem pure_run (a : α) (s : σ) : (pure a : EStateM ε σ α) s = .ok a s := rfl

@[simp] theorem throw_run (e : ε) (s : σ) : (throw e : EStateM ε σ α) s = .error e s := rfl

@[simp] theorem get_run (s : σ) : (get : EStateM ε σ σ) s = .ok s s := rfl

@[simp] theorem modify_run (f : σ → σ) (s : σ) :
    (modify f : EStateM ε σ PUnit) s = .ok ⟨⟩ (f s) := rfl

@[simp] theorem get_bind_run (f : σ → EStateM ε σ β) (s : σ) :
    ((get : EStateM ε σ σ) >>= f) s = f s s := rfl

@[simp] theorem modify_bind_run (g : σ → σ) (f : PUnit → EStateM ε σ β) (s : σ) :
    ((modify g : EStateM ε σ PUnit) >>= f) s = f ⟨⟩ (g s) := rfl

@[simp] theorem pure_bind_run (a : α) (f : α → EStateM ε σ β) (s : σ) :
    ((pure a : EStateM ε σ α) >>= f) s = f a s := rfl

@[simp] theorem throw_bind_run (e : ε) (f : α → EStateM ε σ β) (s : σ) :
    ((throw e : EStateM ε σ α) >>= f) s = .error e s := rfl

theorem forM_append_of_error {f : α → EStateM ε σ PUnit} {earlier : List α} (later : List α)
    {s t : σ} {e : ε} (failed : earlier.forM f s = .error e t) :
    (earlier ++ later).forM f s = .error e t := by
  induction earlier generalizing s with
  | nil => cases failed
  | cons b rest ih =>
    change (f b >>= fun _ => rest.forM f) s = .error e t at failed
    change (f b >>= fun _ => (rest ++ later).forM f) s = .error e t
    cases first : f b s with
    | ok x u =>
      rw [bind_of_ok first] at failed ⊢
      exact ih failed
    | error e' u =>
      rw [bind_of_error first] at failed ⊢
      exact failed

def failIf (p : Prop) [Decidable p] (e : ε) : EStateM ε σ Unit :=
  if p then throw e else pure ()

theorem failIf_bind {p : Prop} [Decidable p] {e : ε} {f : Unit → EStateM ε σ β} {s : σ} :
    (failIf p e >>= f) s = if p then .error e s else f () s := by
  unfold failIf
  by_cases h : p
  · rw [if_pos h, if_pos h]; rfl
  · rw [if_neg h, if_neg h]; rfl

@[simp] theorem failIf_bind_eq_ok {p : Prop} [Decidable p] {e : ε} {f : Unit → EStateM ε σ β}
    {s t : σ} {b : β} :
    (failIf p e >>= f) s = .ok b t ↔ ¬ p ∧ f () s = .ok b t := by
  rw [failIf_bind]
  by_cases h : p
  · simp [h]
  · simp [h]

end Inversion

section Guards
variable {ε α : Type} {p : Prop} [Decidable p]

@[simp] theorem ite_error_eq_ok {e : ε} {x : Except ε α} {a : α} :
    (if p then .error e else x) = .ok a ↔ ¬ p ∧ x = .ok a := by
  by_cases h : p
  · simp [h]
  · simp [h]

theorem except_bind_eq_ok {β : Type} {f : α → Except ε β} {x : Except ε α} {b : β} :
    (x >>= f) = .ok b ↔ ∃ a, x = .ok a ∧ f a = .ok b := by
  cases x with
  | error e => exact ⟨nofun, nofun⟩
  | ok a => exact ⟨fun h => ⟨a, rfl, h⟩, by rintro ⟨_, ⟨⟩, h⟩; exact h⟩

theorem except_map_eq_ok {β : Type} {f : α → β} {x : Except ε α} {b : β} :
    x.map f = .ok b ↔ ∃ a, x = .ok a ∧ f a = b := by
  cases x with
  | ok a => simp [Except.map]
  | error e => simp [Except.map]

end Guards

section Relational
variable {ε σ α β : Type}

def finalState : EStateM.Result ε σ α → σ
  | .ok _ s => s
  | .error _ s => s

@[simp] theorem finalState_ok (a : α) (s : σ) :
    finalState (.ok a s : EStateM.Result ε σ α) = s := rfl

@[simp] theorem finalState_error (e : ε) (s : σ) :
    finalState (.error e s : EStateM.Result ε σ α) = s := rfl

def succeeds : EStateM.Result ε σ α → Bool
  | .ok _ _ => true
  | .error _ _ => false

theorem succeeds_iff {r : EStateM.Result ε σ α} : succeeds r = true ↔ ∃ a s, r = .ok a s := by
  cases r with
  | ok a s => simp [succeeds]
  | error e s => simp [succeeds]

def returnsWith (r : EStateM.Result ε σ α) (p : α → σ → Bool) : Bool :=
  match r with
  | .ok a s => p a s
  | .error _ _ => false

theorem returnsWith_iff {r : EStateM.Result ε σ α} {p : α → σ → Bool} :
    returnsWith r p = true ↔ ∃ a s, r = .ok a s ∧ p a s = true := by
  cases r with
  | ok a s => simp [returnsWith]
  | error e s => simp [returnsWith]

instance decidableReturns {r : EStateM.Result ε σ α} {P : α → σ → Prop} [∀ a s, Decidable (P a s)] :
    Decidable (∃ a s, r = .ok a s ∧ P a s) :=
  decidable_of_iff (returnsWith r (fun a s => decide (P a s)) = true)
    (by simp only [returnsWith_iff, decide_eq_true_eq])

/-- Logging an error and going on: the error disappears, its state changes stay. -/
def logError (x : EStateM ε σ Unit) : EStateM ε σ Unit := fun s => .ok () (finalState (x s))

@[simp] theorem logError_run (x : EStateM ε σ Unit) (s : σ) :
    logError x s = .ok () (finalState (x s)) := rfl

/-- The result of a computation whose failure the caller handles itself. -/
def attempt (x : EStateM ε σ α) : EStateM ε σ (Option α) := fun s =>
  match x s with
  | .ok a t => .ok (some a) t
  | .error _ t => .ok none t

theorem attempt_run (x : EStateM ε σ α) (s : σ) :
    ∃ found, attempt x s = .ok found (finalState (x s)) := by
  unfold attempt
  cases x s with
  | ok a t => exact ⟨some a, rfl⟩
  | error e t => exact ⟨none, rfl⟩

theorem attempt_eq_ok_some {x : EStateM ε σ α} {s t : σ} {a : α} :
    attempt x s = .ok (some a) t ↔ x s = .ok a t := by
  unfold attempt
  cases x s with
  | ok b u => simp
  | error e u => simp

def withDefer (x : EStateM ε σ α) (deferred : σ → σ) : EStateM ε σ α := fun s =>
  match x s with
  | .ok a t => .ok a (deferred t)
  | .error e t => .error e (deferred t)

theorem withDefer_eq_ok {x : EStateM ε σ α} {deferred : σ → σ} {s t : σ} {a : α} :
    withDefer x deferred s = .ok a t ↔ ∃ u, x s = .ok a u ∧ deferred u = t := by
  unfold withDefer
  cases x s with
  | ok b u => simp
  | error e u => simp

def onError (x : EStateM ε σ α) (cleanup : σ → σ) : EStateM ε σ α := fun s =>
  match x s with
  | .ok a t => .ok a t
  | .error e t => .error e (cleanup t)

theorem onError_eq_ok {x : EStateM ε σ α} {cleanup : σ → σ} {s t : σ} {a : α} :
    onError x cleanup s = .ok a t ↔ x s = .ok a t := by
  unfold onError
  cases x s with
  | ok b u => exact Iff.rfl
  | error e u => constructor <;> intro h <;> cases h

def Respects (R : σ → σ → Prop) (x : EStateM ε σ α) : Prop :=
  ∀ s, R s (finalState (x s))

variable {R : σ → σ → Prop}

theorem Respects.of_ok {x : EStateM ε σ α} (h : Respects R x) {s t : σ} {a : α}
    (run : x s = .ok a t) : R s t := by
  simpa only [run, finalState_ok] using h s

theorem Respects.of_error {x : EStateM ε σ α} (h : Respects R x) {s t : σ} {e : ε}
    (run : x s = .error e t) : R s t := by
  simpa only [run, finalState_error] using h s

theorem Respects.mono {S : σ → σ → Prop} (sub : ∀ s t, R s t → S s t)
    {x : EStateM ε σ α} (h : Respects R x) : Respects S x :=
  fun s => sub s _ (h s)

theorem Respects.modify {f : σ → σ} (h : ∀ s, R s (f s)) :
    Respects R (modify f : EStateM ε σ PUnit) := h

theorem Respects.logError {x : EStateM ε σ Unit} (h : Respects R x) :
    Respects R (logError x) := h

theorem Respects.withDefer {x : EStateM ε σ α} {deferred : σ → σ} (h : Respects R x)
    (hd : ∀ s t, R s t → R s (deferred t)) : Respects R (withDefer x deferred) := by
  intro s
  unfold Lib.withDefer
  cases run : x s with
  | ok a t => exact hd s t (h.of_ok run)
  | error e t => exact hd s t (h.of_error run)

theorem Respects.onError {x : EStateM ε σ α} {cleanup : σ → σ} (h : Respects R x)
    (hc : ∀ s t, R s t → R s (cleanup t)) : Respects R (onError x cleanup) := by
  intro s
  unfold Lib.onError
  cases run : x s with
  | ok a t => exact h.of_ok run
  | error e t => exact hc s t (h.of_error run)

theorem Respects.attempt {x : EStateM ε σ α} (h : Respects R x) : Respects R (attempt x) := by
  intro s
  unfold Lib.attempt
  cases run : x s with
  | ok a t => exact h.of_ok run
  | error e t => exact h.of_error run

section Preorder
variable [IsPreorder σ R]

theorem Respects.pure (a : α) : Respects R (pure a : EStateM ε σ α) :=
  fun s => refl_of R s

theorem Respects.throw (e : ε) : Respects R (throw e : EStateM ε σ α) :=
  fun s => refl_of R s

theorem Respects.get : Respects R (get : EStateM ε σ σ) :=
  fun s => refl_of R s

theorem Respects.failIf (p : Prop) [Decidable p] (e : ε) :
    Respects R (failIf p e : EStateM ε σ Unit) := by
  unfold Lib.failIf
  split
  · exact Respects.throw e
  · exact Respects.pure ()

theorem Respects.bind {x : EStateM ε σ α} {f : α → EStateM ε σ β}
    (hx : Respects R x) (hf : ∀ a, Respects R (f a)) : Respects R (x >>= f) := by
  intro s
  cases run : x s with
  | ok a u =>
    rw [bind_of_ok run]
    exact trans_of R (hx.of_ok run) (hf a u)
  | error e u =>
    rw [bind_of_error run]
    exact hx.of_error run

theorem Respects.bind_ok {x : EStateM ε σ α} {f : α → EStateM ε σ β} (hx : Respects R x)
    (hf : ∀ s a u, x s = .ok a u → R u (finalState (f a u))) : Respects R (x >>= f) := by
  intro s
  cases run : x s with
  | ok a u =>
    rw [bind_of_ok run]
    exact trans_of R (hx.of_ok run) (hf s a u run)
  | error e u =>
    rw [bind_of_error run]
    exact hx.of_error run

theorem Respects.tryCatch {x : EStateM ε σ α} {handle : ε → EStateM ε σ α}
    (hx : Respects R x) (hh : ∀ e, Respects R (handle e)) :
    Respects R (tryCatch x handle) := by
  intro s
  change R s (finalState (EStateM.tryCatch x handle s))
  simp only [EStateM.tryCatch]
  cases run : x s with
  | ok a u => exact hx.of_ok run
  | error e u => exact trans_of R (hx.of_error run) (hh e u)

theorem Respects.forM {f : β → EStateM ε σ PUnit} :
    ∀ items : List β, (∀ b ∈ items, Respects R (f b)) → Respects R (items.forM f)
  | [], _ => Respects.pure PUnit.unit
  | b :: rest, h =>
    Respects.bind (h b List.mem_cons_self)
      fun _ => Respects.forM rest fun c member => h c (List.mem_cons_of_mem b member)

end Preorder

/-- Every run of `x` fails along `R`, or moves along `R` and then runs `last`. -/
def EndsWith (R : σ → σ → Prop) (last x : EStateM ε σ α) : Prop :=
  ∀ s, (∃ e t, x s = .error e t ∧ R s t) ∨ ∃ u, R s u ∧ x s = last u

namespace EndsWith
variable {last x : EStateM ε σ α}

theorem of_ok (h : EndsWith R last x) {s t : σ} {a : α} (run : x s = .ok a t) :
    ∃ u, R s u ∧ last u = .ok a t := by
  rcases h s with ⟨e, u, failed, -⟩ | ⟨u, before, same⟩
  · rw [failed] at run
    cases run
  · exact ⟨u, before, same ▸ run⟩

variable [IsPreorder σ R]

theorem respects (h : EndsWith R last x) (ends : Respects R last) : Respects R x := by
  intro s
  rcases h s with ⟨e, t, failed, before⟩ | ⟨u, before, same⟩
  · rw [failed]
    exact before
  · rw [same]
    exact trans_of R before (ends u)

theorem here : EndsWith R x x := fun s => .inr ⟨s, refl_of R s, rfl⟩

theorem throw (e : ε) : EndsWith R last (throw e) := fun s => .inl ⟨e, s, rfl, refl_of R s⟩

theorem bind {y : EStateM ε σ β} {f : β → EStateM ε σ α} (hy : Respects R y)
    (hf : ∀ b, EndsWith R last (f b)) : EndsWith R last (y >>= f) := by
  intro s
  cases run : y s with
  | error e t => exact .inl ⟨e, t, bind_of_error run, hy.of_error run⟩
  | ok b u =>
    rw [bind_of_ok run]
    exact (hf b u).imp (fun ⟨e, t, failed, after⟩ => ⟨e, t, failed, trans_of R (hy.of_ok run) after⟩)
      fun ⟨v, after, same⟩ => ⟨v, trans_of R (hy.of_ok run) after, same⟩

end EndsWith

/-- Every returning run of `x` moves the state along `R`; a failed run may do anything. -/
def Returns (R : σ → σ → Prop) (x : EStateM ε σ α) : Prop := ∀ s a t, x s = .ok a t → R s t

theorem Respects.returns {x : EStateM ε σ α} (h : Respects R x) : Returns R x :=
  fun _ _ _ run => h.of_ok run

theorem Returns.throw (e : ε) : Returns R (throw e : EStateM ε σ α) :=
  fun _ _ _ run => by cases run

section Preorder
variable [IsPreorder σ R]

theorem Returns.pure (a : α) : Returns R (pure a : EStateM ε σ α) := (Respects.pure a).returns

theorem Returns.bind {x : EStateM ε σ α} {f : α → EStateM ε σ β}
    (hx : Returns R x) (hf : ∀ a, Returns R (f a)) : Returns R (x >>= f) := by
  intro s b t run
  obtain ⟨a, u, first, second⟩ := bind_eq_ok.mp run
  exact trans_of R (hx s a u first) (hf a u b t second)

theorem Returns.forM {f : β → EStateM ε σ PUnit} :
    ∀ items : List β, (∀ b ∈ items, Returns R (f b)) → Returns R (items.forM f)
  | [], _ => Returns.pure PUnit.unit
  | b :: rest, h =>
    Returns.bind (h b List.mem_cons_self)
      fun _ => Returns.forM rest fun c member => h c (List.mem_cons_of_mem b member)

end Preorder
end Relational
end QwidNode.Lib
