import Mathlib

/-! # Labelled runs of a guarded step function

A system is a step function `σ → α → Option σ`: the label names the party that
moves and every choice it makes, and `none` says that the move is not enabled.
Safety results are stated for every list of labels, so every scheduling of the
parties is covered by one induction.
-/
namespace Stout
variable {σ α : Type*} {step : σ → α → Option σ}

/-- A finite execution taking its labels in order. -/
inductive Runs (step : σ → α → Option σ) : σ → List α → σ → Prop
  | refl (s : σ) : Runs step s [] s
  | step {s t u : σ} {a : α} {as : List α} :
      step s a = some t → Runs step t as u → Runs step s (a :: as) u

/-- The same execution, computed. -/
def run (step : σ → α → Option σ) : σ → List α → Option σ
  | s, [] => some s
  | s, a :: as => (step s a).bind (fun t => run step t as)

theorem Runs.of_run {s t : σ} {as : List α} (h : run step s as = some t) : Runs step s as t := by
  induction as generalizing s with
  | nil => cases h; exact .refl _
  | cons a as ih =>
    obtain ⟨u,hu,ht⟩ := Option.bind_eq_some_iff.mp h
    exact .step hu (ih ht)

theorem Runs.append {s t u : σ} {as bs : List α} (h : Runs step s as t) (k : Runs step t bs u) :
    Runs step s (as ++ bs) u := by
  induction h with
  | refl => exact k
  | step he _ ih => exact .step he (ih k)

theorem Runs.single {s t : σ} {a : α} (h : step s a = some t) : Runs step s [a] t :=
  .step h (.refl t)

theorem Runs.functional {s t u : σ} {as : List α} (h : Runs step s as t) (k : Runs step s as u) :
    t = u := by
  induction h with
  | refl => cases k; rfl
  | step he _ ih =>
    cases k with
    | step hk hr =>
      cases Option.some.inj (he.symm.trans hk)
      exact ih hr

theorem Runs.split {s u : σ} {as bs : List α} (h : Runs step s (as ++ bs) u) :
    ∃ t, Runs step s as t ∧ Runs step t bs u := by
  induction as generalizing s with
  | nil => exact ⟨s,.refl s,h⟩
  | cons a as ih =>
    cases h with
    | step he hr =>
      obtain ⟨t,ht,hu⟩ := ih hr
      exact ⟨t,.step he ht,hu⟩

theorem Runs.snoc {s u : σ} {as : List α} {a : α} (h : Runs step s (as ++ [a]) u) :
    ∃ t, Runs step s as t ∧ step t a = some u := by
  obtain ⟨t,ht,hu⟩ := h.split
  cases hu with
  | step he hr => cases hr; exact ⟨t,ht,he⟩

/-- What holds at the start and is kept by each step holds in every state reached. -/
theorem Runs.invariant {I : σ → Prop} (hI : ∀ s a t, I s → step s a = some t → I t)
    {s t : σ} {as : List α} (h : Runs step s as t) (hs : I s) : I t := by
  induction h with
  | refl => exact hs
  | step he _ ih => exact ih (hI _ _ _ hs he)

/-- What each label of the run does in the state it is taken from. -/
def trace {β : Type*} (step : σ → α → Option σ) (ev : σ → α → β) : σ → List α → List β
  | _, [] => []
  | s, a :: as => ev s a :: (step s a).elim [] (fun t => trace step ev t as)

/-- Each label of the run meets `G` in the state it is taken from. -/
def Meets (step : σ → α → Option σ) (G : σ → α → Prop) : σ → List α → Prop
  | _, [] => True
  | s, a :: as => G s a ∧ ∀ t, step s a = some t → Meets step G t as

instance decidableMeets {G : σ → α → Prop} [∀ s a, Decidable (G s a)] :
    (s : σ) → (as : List α) → Decidable (Meets step G s as)
  | _, [] => .isTrue trivial
  | s, a :: as =>
    match hs : step s a with
    | none => decidable_of_iff (G s a) ⟨fun h => ⟨h,fun t ht => by rw [hs] at ht; cases ht⟩,fun h => h.1⟩
    | some t =>
      have := decidableMeets (G := G) t as
      decidable_of_iff (G s a ∧ Meets step G t as)
        ⟨fun h => ⟨h.1,fun u hu => by rw [hs] at hu; cases hu; exact h.2⟩,fun h => ⟨h.1,h.2 t hs⟩⟩

theorem Meets.of_forall {G : σ → α → Prop} {as : List α} (h : ∀ a ∈ as, ∀ s, G s a) (s : σ) : Meets step G s as := by
  induction as generalizing s with
  | nil => trivial
  | cons a as ih =>
    exact ⟨h a (by simp) s,fun t _ => ih (fun b hb => h b (List.mem_cons_of_mem a hb)) t⟩

theorem Meets.snoc {G : σ → α → Prop} {s : σ} {as : List α} {a : α} (h : Meets step G s as)
    (ha : ∀ t, Runs step s as t → G t a) : Meets step G s (as ++ [a]) := by
  induction as generalizing s with
  | nil => exact ⟨ha s (.refl s),fun _ _ => trivial⟩
  | cons b bs ih =>
    refine ⟨h.1,?_⟩
    intro t ht
    exact ih (h.2 t ht) (fun u hu => ha u (.step ht hu))

/-- A step invariant that needs the side condition `G` holds along the runs that meet it. -/
theorem Runs.invariant_of_meets {I : σ → Prop} {G : σ → α → Prop}
    (hI : ∀ s a t, I s → G s a → step s a = some t → I t)
    {s t : σ} {as : List α} (h : Runs step s as t) (hg : Meets step G s as) (hs : I s) : I t := by
  induction h with
  | refl => exact hs
  | step he _ ih => exact ih (hg.2 _ he) (hI _ _ _ hs hg.1 he)

/-- A property that a step keeps exactly when it meets `G` holds exactly after the runs
that meet it. -/
theorem Runs.iff_meets {I P : σ → Prop} {G : σ → α → Prop} (hI : ∀ s a t, I s → step s a = some t → I t)
    (hP : ∀ s a t, I s → step s a = some t → (P t ↔ P s ∧ G s a))
    {s t : σ} {as : List α} (h : Runs step s as t) (hs : I s) : P t ↔ P s ∧ Meets step G s as := by
  induction h with
  | refl => exact ⟨fun hp => ⟨hp,trivial⟩,fun hp => hp.1⟩
  | step he _ ih =>
    rw [ih (hI _ _ _ hs he), hP _ _ _ hs he]
    constructor
    · rintro ⟨⟨hp,hg⟩,hm⟩
      refine ⟨hp,hg,?_⟩
      intro u hu
      cases Option.some.inj (he.symm.trans hu)
      exact hm
    · rintro ⟨hp,hg,hm⟩
      exact ⟨⟨hp,hg⟩,hm _ he⟩

/-! ## Two systems that take the same steps -/

section Congr
variable {step' : σ → α → Option σ} {I : σ → Prop} {G : σ → α → Prop}
  (hstep : ∀ s a, I s → G s a → step s a = step' s a ∧ ∀ t, step s a = some t → I t)
include hstep

theorem Runs.congr_of_meets {s t : σ} {as : List α} (h : Runs step s as t) (hg : Meets step G s as) (hs : I s) :
    Runs step' s as t := by
  induction h with
  | refl s => exact .refl s
  | step he _ ih =>
    obtain ⟨heq,hI⟩ := hstep _ _ hs hg.1
    exact .step (heq.symm.trans he) (ih (hg.2 _ he) (hI _ he))

theorem Meets.congr_of_meets {H : σ → α → Prop} {s : σ} {as : List α} (h : Meets step H s as) (hg : Meets step G s as)
    (hs : I s) : Meets step' H s as := by
  induction as generalizing s with
  | nil => trivial
  | cons a as ih =>
    obtain ⟨heq,hI⟩ := hstep s a hs hg.1
    refine ⟨h.1,?_⟩
    intro t ht
    rw [← heq] at ht
    exact ih (h.2 t ht) (hg.2 t ht) (hI t ht)

theorem trace_congr_of_meets {β : Type*} {ev ev' : σ → α → β} (hev : ∀ s a, I s → G s a → ev s a = ev' s a) {s : σ}
    {as : List α} (hg : Meets step G s as) (hs : I s) : trace step ev s as = trace step' ev' s as := by
  induction as generalizing s with
  | nil => rfl
  | cons a as ih =>
    obtain ⟨heq,hI⟩ := hstep s a hs hg.1
    rw [trace, trace, hev s a hs hg.1, ← heq]
    cases ht : step s a with
    | none => rfl
    | some t => rw [Option.elim_some, Option.elim_some, ih (hg.2 t ht) (hI t ht)]

end Congr

end Stout
