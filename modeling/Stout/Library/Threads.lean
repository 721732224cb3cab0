import Mathlib

/-! # Counting the threads of a pool

A pool of threads is the list of their program counters; a step replaces one of
them. Counts over the pool are stated additively, so that linear arithmetic closes
the goals that use them.
-/
namespace Stout.Threads
variable {τ : Type*}

theorem of_getElem?_set {l : List τ} {i j : ℕ} {x y : τ} (h : (l.set i y)[j]? = some x) :
    (i = j ∧ y = x) ∨ (i ≠ j ∧ l[j]? = some x) := by
  by_cases he : i = j
  · rw [List.getElem?_set, if_pos he] at h
    split at h
    case isTrue => exact Or.inl ⟨he,Option.some.inj h⟩
    case isFalse => cases h
  · rw [List.getElem?_set_ne he] at h
    exact Or.inr ⟨he,h⟩

theorem countP_set_add {l : List τ} {i : ℕ} {x : τ} (h : l[i]? = some x) (y : τ) (p : τ → Bool) :
    (l.set i y).countP p + (p x).toNat = l.countP p + (p y).toNat := by
  induction l generalizing i with
  | nil => simp at h
  | cons z l ih =>
    cases i with
    | zero =>
      simp only [List.getElem?_cons_zero, Option.some.injEq] at h
      subst z
      cases hx : p x <;> cases hy : p y <;> simp [hx, hy]
    | succ i =>
      have hh := ih (i := i) (by simpa using h)
      simp only [List.set_cons_succ, List.countP_cons]
      omega

/-- The others: what is counted besides one thread of the pool. -/
theorem countP_eraseIdx_add {l : List τ} {i : ℕ} {x : τ} (h : l[i]? = some x) (p : τ → Bool) :
    (l.eraseIdx i).countP p + (p x).toNat = l.countP p := by
  induction l generalizing i with
  | nil => simp at h
  | cons z l ih =>
    cases i with
    | zero =>
      simp only [List.getElem?_cons_zero, Option.some.injEq] at h
      subst z
      cases hx : p x <;> simp [hx]
    | succ i =>
      have hh := ih (i := i) (by simpa using h)
      simp only [List.eraseIdx_cons_succ, List.countP_cons]
      omega

theorem perm_cons_eraseIdx {l : List τ} {i : ℕ} {x : τ} (h : l[i]? = some x) : l.Perm (x :: l.eraseIdx i) := by
  obtain ⟨hi,rfl⟩ := List.getElem?_eq_some_iff.mp h
  exact (List.getElem_cons_eraseIdx_perm hi).symm

theorem set_perm_cons_eraseIdx {l : List τ} {i : ℕ} {x : τ} (h : l[i]? = some x) (y : τ) :
    (l.set i y).Perm (y :: l.eraseIdx i) :=
  List.set_perm_cons_eraseIdx (List.getElem?_eq_some_iff.mp h).1 y

theorem forall_mem_set {l : List τ} {i : ℕ} {x : τ} {P : τ → Prop} (hx : P x) (hl : ∀ y ∈ l, P y) :
    ∀ y ∈ l.set i x, P y := by
  intro y hy
  rcases List.mem_or_eq_of_mem_set hy with hy | rfl
  · exact hl y hy
  · exact hx

end Stout.Threads
