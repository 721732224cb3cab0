import Stout.Library.Following

/-! # Programs that add nothing

A measure of the state, such as the length of what is still to be read, that is never
larger after a program than before it, whether the program fails or not.
-/
namespace Stout
variable {ε σ α β : Type} {μ : σ → ℕ}

def after : EStateM.Result ε σ α → σ
  | .ok _ s => s
  | .error _ s => s

def Shrinks (μ : σ → ℕ) (m : EStateM ε σ α) : Prop := ∀ s, μ (after (m s)) ≤ μ s

namespace Shrinks
variable {m n : EStateM ε σ α} {f : α → EStateM ε σ β}

theorem pure (a : α) : Shrinks μ (Pure.pure a : EStateM ε σ α) := fun _ => le_rfl

theorem throw (e : ε) : Shrinks μ (MonadExcept.throw e : EStateM ε σ α) := fun _ => le_rfl

theorem bind (hm : Shrinks μ m) (hf : ∀ a, Shrinks μ (f a)) : Shrinks μ (m >>= f) := by
  intro s
  have hs := hm s
  cases hms : m s with
  | ok a t =>
    rw [hms] at hs
    rw [bind_of_ok hms]
    exact (hf a t).trans hs
  | error e t =>
    rw [hms] at hs
    rw [bind_of_error hms]
    exact hs

theorem ite {c : Prop} [Decidable c] (hm : Shrinks μ m) (hn : Shrinks μ n) : Shrinks μ (if c then m else n) := by
  split
  · exact hm
  · exact hn

end Shrinks
end Stout
