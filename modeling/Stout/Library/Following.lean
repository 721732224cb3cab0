import Mathlib

/-! # Programs that follow others

Two fallible programs over different states. The first follows the second if from related
states both return the same value and leave related states, or both fail; what is known of
the errors and the states after a failure is said by a second relation.
-/
namespace Stout
variable {ε δ σ τ α β : Type}

theorem bind_of_ok {m : EStateM ε σ α} {f : α → EStateM ε σ β} {s t : σ} {a : α} (h : m s = .ok a t) :
    (m >>= f) s = f a t := by
  change EStateM.bind m f s = f a t
  rw [EStateM.bind, h]

theorem bind_of_error {m : EStateM ε σ α} {f : α → EStateM ε σ β} {s t : σ} {e : ε} (h : m s = .error e t) :
    (m >>= f) s = .error e t := by
  change EStateM.bind m f s = .error e t
  rw [EStateM.bind, h]

/-- The result of one program is that of the other, in a related state. -/
inductive Agrees (R : σ → τ → Prop) (E : δ → σ → ε → τ → Prop) : EStateM.Result δ σ α → EStateM.Result ε τ α → Prop
  | ok {a : α} {s : σ} {t : τ} (h : R s t) : Agrees R E (.ok a s) (.ok a t)
  | error {d : δ} {e : ε} {s : σ} {t : τ} (h : E d s e t) : Agrees R E (.error d s) (.error e t)

theorem Agrees.bind {R : σ → τ → Prop} {E : δ → σ → ε → τ → Prop} {M : EStateM δ σ α} {m : EStateM ε τ α}
    {F : α → EStateM δ σ β} {f : α → EStateM ε τ β} {s : σ} {t : τ}
    (hm : Agrees R E (M s) (m t)) (hf : ∀ a s' t', M s = .ok a s' → m t = .ok a t' → R s' t' → Agrees R E (F a s') (f a t')) :
    Agrees R E ((M >>= F) s) ((m >>= f) t) := by
  generalize hM : M s = rM at hm
  generalize hmt : m t = rm at hm
  cases hm with
  | ok h =>
    rw [bind_of_ok hM, bind_of_ok hmt]
    exact hf _ _ _ hM hmt h
  | error h =>
    rw [bind_of_error hM, bind_of_error hmt]
    exact .error h

/-- From states related by `R` the program `M` does what `m` does. -/
def Follows (R : σ → τ → Prop) (E : δ → σ → ε → τ → Prop) (M : EStateM δ σ α) (m : EStateM ε τ α) : Prop :=
  ∀ s t, R s t → Agrees R E (M s) (m t)

namespace Follows
variable {R : σ → τ → Prop} {E : δ → σ → ε → τ → Prop} {M : EStateM δ σ α} {m : EStateM ε τ α}

theorem pure (a : α) : Follows R E (Pure.pure a) (Pure.pure a) := fun _ _ h => .ok h

theorem throw {d : δ} {e : ε} (h : ∀ s t, R s t → E d s e t) :
    Follows R E (MonadExcept.throw d : EStateM δ σ α) (MonadExcept.throw e) := fun s t hR => .error (h s t hR)

theorem bind {F : α → EStateM δ σ β} {f : α → EStateM ε τ β} (hm : Follows R E M m)
    (hf : ∀ a, Follows R E (F a) (f a)) : Follows R E (M >>= F) (m >>= f) :=
  fun s t h => (hm s t h).bind fun a _ _ _ _ hR => hf a _ _ hR

theorem ite {c : Prop} [Decidable c] {M₁ M₂ : EStateM δ σ α} {m₁ m₂ : EStateM ε τ α} (h₁ : c → Follows R E M₁ m₁)
    (h₂ : ¬c → Follows R E M₂ m₂) : Follows R E (if c then M₁ else M₂) (if c then m₁ else m₂) := by
  split
  · exact h₁ ‹c›
  · exact h₂ ‹¬c›

theorem mono {E' : δ → σ → ε → τ → Prop} (h : Follows R E M m) (hE : ∀ d s e t, E d s e t → E' d s e t) :
    Follows R E' M m := by
  intro s t hR
  have hs := h s t hR
  generalize M s = rM at hs
  generalize m t = rm at hs
  cases hs with
  | ok h => exact .ok h
  | error h => exact .error (hE _ _ _ _ h)

end Follows
end Stout
