import QwidNode.Lib.Exec

/-!
# Two runs of one program

A program is run twice, from states related by `R`. The runs are alike when both return the same
value, or both fail; the states they leave are related by `R` again.
-/
namespace QwidNode.Lib
variable {ε σ α β : Type} {R : σ → σ → Prop} {strict : Prop} {s s' : σ}
variable {x : EStateM ε σ α} {f : α → EStateM ε σ β}

inductive Alike (R : σ → σ → Prop) (strict : Prop) :
    EStateM.Result ε σ α → EStateM.Result ε σ α → Prop
  | ok {a : α} {t t' : σ} (related : R t t') : Alike R strict (.ok a t) (.ok a t')
  | error {e e' : ε} {t t' : σ} (related : strict → R t t') :
    Alike R strict (.error e t) (.error e' t')

def Parallel (R : σ → σ → Prop) (strict : Prop) (x : EStateM ε σ α) : Prop :=
  ∀ s s', R s s' → Alike R strict (x s) (x s')

theorem Alike.bind_into {S : σ → σ → Prop} {x y : EStateM ε σ α} {f g : α → EStateM ε σ β}
    (first : Alike R strict (x s) (y s')) (sub : strict → ∀ t t', R t t' → S t t')
    (next : ∀ a t t', x s = .ok a t → y s' = .ok a t' → R t t' →
      Alike S strict (f a t) (g a t')) :
    Alike S strict ((x >>= f) s) ((y >>= g) s') := by
  generalize run : x s = r at first
  generalize run' : y s' = r' at first
  cases first with
  | ok related =>
    rw [bind_of_ok run, bind_of_ok run']
    exact next _ _ _ run run' related
  | error related =>
    rw [bind_of_error run, bind_of_error run']
    exact .error fun asked => sub asked _ _ (related asked)

theorem Alike.bind {x y : EStateM ε σ α} {f g : α → EStateM ε σ β}
    (first : Alike R strict (x s) (y s'))
    (next : ∀ a t t', x s = .ok a t → R t t' → Alike R strict (f a t) (g a t')) :
    Alike R strict ((x >>= f) s) ((y >>= g) s') :=
  first.bind_into (fun _ _ _ related => related) fun a t t' run _ => next a t t' run

theorem Parallel.pure (a : α) : Parallel R strict (pure a : EStateM ε σ α) :=
  fun _ _ related => .ok related

theorem Parallel.throw (e : ε) : Parallel R strict (throw e : EStateM ε σ α) :=
  fun _ _ related => .error fun _ => related

theorem Parallel.failIf (p : Prop) [Decidable p] (e : ε) :
    Parallel R strict (failIf p e : EStateM ε σ Unit) := by
  unfold Lib.failIf
  split
  · exact Parallel.throw e
  · exact Parallel.pure ()

theorem Parallel.modify {f : σ → σ} (h : ∀ s s', R s s' → R (f s) (f s')) :
    Parallel R strict (modify f : EStateM ε σ PUnit) :=
  fun s s' related => .ok (h s s' related)

theorem Parallel.bind (hx : Parallel R strict x) (hf : ∀ a, Parallel R strict (f a)) :
    Parallel R strict (x >>= f) :=
  fun s s' related => (hx s s' related).bind fun a t t' _ later => hf a t t' later

theorem Parallel.read {f : σ → EStateM ε σ β} (same : ∀ s s', R s s' → f s' = f s)
    (each : ∀ s, Parallel R strict (f s)) : Parallel R strict ((get : EStateM ε σ σ) >>= f) := by
  intro s s' related
  change Alike R strict (f s s) (f s' s')
  rw [same s s' related]
  exact each s s s' related

theorem Parallel.attempt (h : Parallel R True x) : Parallel R strict (attempt x) := by
  intro s s' related
  have both := h s s' related
  unfold Lib.attempt
  generalize x s = r at both
  generalize x s' = r' at both
  cases both with
  | ok later => exact .ok later
  | error later => exact .ok (later trivial)

theorem Alike.withDefer {deferred : σ → σ} (alike : Alike R strict (x s) (x s'))
    (hd : ∀ t t', R t t' → R (deferred t) (deferred t')) :
    Alike R strict (withDefer x deferred s) (withDefer x deferred s') := by
  unfold Lib.withDefer
  generalize x s = r at alike
  generalize x s' = r' at alike
  cases alike with
  | ok related => exact .ok (hd _ _ related)
  | error related => exact .error fun asked => hd _ _ (related asked)

theorem Parallel.onError {cleanup : σ → σ} (hx : Parallel R strict x)
    (hc : strict → ∀ s s', R s s' → R (cleanup s) (cleanup s')) :
    Parallel R strict (onError x cleanup) := by
  intro s s' related
  have both := hx s s' related
  unfold Lib.onError
  generalize x s = r at both
  generalize x s' = r' at both
  cases both with
  | ok later => exact .ok later
  | error later => exact .error fun asked => hc asked _ _ (later asked)

theorem Parallel.tryCatch {handle : ε → EStateM ε σ α} (hx : Parallel R True x)
    (hh : ∀ e e' s s', R s s' → Alike R strict (handle e s) (handle e' s')) :
    Parallel R strict (tryCatch x handle) := by
  intro s s' related
  have both := hx s s' related
  change Alike R strict (EStateM.tryCatch x handle s) (EStateM.tryCatch x handle s')
  simp only [EStateM.tryCatch]
  generalize x s = r at both
  generalize x s' = r' at both
  cases both with
  | ok later => exact .ok later
  | error later => exact hh _ _ _ _ (later trivial)

theorem Parallel.forM {f : β → EStateM ε σ PUnit} (items : List β)
    (h : ∀ b ∈ items, Parallel R strict (f b)) : Parallel R strict (items.forM f) := by
  induction items with
  | nil => exact Parallel.pure PUnit.unit
  | cons b rest ih =>
    apply Parallel.bind (h b List.mem_cons_self)
    intro _
    exact ih fun c member => h c (List.mem_cons_of_mem b member)

end QwidNode.Lib
