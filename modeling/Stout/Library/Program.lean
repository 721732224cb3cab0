import Mathlib

/-! # Imperative calls with errors and panics

A call reads and changes a state and ends with a value, with an error or in a panic.
What a call that returned a value has done is read off its parts, one by one; the
other two ends are the business of whoever handles them, for instance of a
transaction that is rolled back.
-/
namespace Stout

/-- How a call ends. -/
inductive Outcome (ε α : Type) where
  | ok (a : α)
  | error (e : ε)
  | panic (message : String)
deriving DecidableEq, Repr

def Outcome.map {ε α β : Type} (g : α → β) : Outcome ε α → Outcome ε β
  | .ok a => .ok (g a)
  | .error e => .error e
  | .panic p => .panic p

def Outcome.value? {ε α : Type} : Outcome ε α → Option α
  | .ok a => some a
  | _ => none

/-- An imperative call over the state `σ`. -/
def Prog (σ ε α : Type) := σ → Outcome ε α × σ

namespace Prog
variable {σ τ ε δ α β : Type}

def bind (m : Prog σ ε α) (f : α → Prog σ ε β) : Prog σ ε β := fun s =>
  match m s with
  | (.ok a,t) => f a t
  | (.error e,t) => (.error e,t)
  | (.panic p,t) => (.panic p,t)

instance : Monad (Prog σ ε) where
  pure a := fun s => (.ok a,s)
  bind := bind

def throw (e : ε) : Prog σ ε α := fun s => (.error e,s)

/-- A nil dereference, an index out of range, a failed type assertion. -/
def crash (message : String) : Prog σ ε α := fun s => (.panic message,s)

def read : Prog σ ε σ := fun s => (.ok s,s)

def modify (f : σ → σ) : Prog σ ε Unit := fun s => (.ok (),f s)

/-- What has been computed without the state. -/
def ofOutcome (o : Outcome ε α) : Prog σ ε α := fun s => (o,s)

/-- The error as a value, for a caller that looks at it. -/
def attempt (m : Prog σ ε α) : Prog σ δ (Except ε α) := fun s =>
  match m s with
  | (.ok a,t) => (.ok (.ok a),t)
  | (.error e,t) => (.ok (.error e),t)
  | (.panic p,t) => (.panic p,t)

/-- The error under the caller's own wrapping. -/
def mapError (g : ε → δ) (m : Prog σ ε α) : Prog σ δ α := fun s =>
  match m s with
  | (.ok a,t) => (.ok a,t)
  | (.error e,t) => (.error (g e),t)
  | (.panic p,t) => (.panic p,t)

/-- A call on a part of the state. -/
def zoom (get : σ → τ) (set : σ → τ → σ) (m : Prog τ ε α) : Prog σ ε α := fun s =>
  ((m (get s)).1,set s (m (get s)).2)

/-- What is still to be done when the call fails; what that returns is not looked at. -/
def onError (m : Prog σ ε α) (cleanup : Prog σ ε Unit) : Prog σ ε α := fun s =>
  match m s with
  | (.ok a,t) => (.ok a,t)
  | (.error e,t) => (.error e,(cleanup t).2)
  | (.panic p,t) => (.panic p,t)

/-- What is done when the call is left, whichever way. -/
def defer (cleanup : Prog σ ε Unit) (m : Prog σ ε α) : Prog σ ε α := fun s => ((m s).1,(cleanup (m s).2).2)

theorem pure_apply (a : α) (s : σ) : (pure a : Prog σ ε α) s = (.ok a,s) := rfl

theorem bind_apply (m : Prog σ ε α) (f : α → Prog σ ε β) (s : σ) : (m >>= f) s = bind m f s := rfl

theorem bind_ok {m : Prog σ ε α} {s t : σ} {a : α} (h : m s = (.ok a,t)) (f : α → Prog σ ε β) :
    (m >>= f) s = f a t := by
  rw [bind_apply, bind, h]

theorem read_bind (f : σ → Prog σ ε β) (s : σ) : (read >>= f) s = f s s := rfl

theorem bind_pure_apply (m : Prog σ ε α) (g : α → β) (s : σ) :
    (m >>= fun a => pure (g a)) s = ((m s).1.map g,(m s).2) := by
  rw [bind_apply]
  unfold bind
  split <;> rename_i h <;> rw [h] <;> rfl

theorem of_bind_ok {m : Prog σ ε α} {f : α → Prog σ ε β} {s u : σ} {b : β} (h : (m >>= f) s = (.ok b,u)) :
    ∃ a t, m s = (.ok a,t) ∧ f a t = (.ok b,u) := by
  rw [bind_apply, bind] at h
  split at h
  · exact ⟨_,_,by assumption,h⟩
  · cases h
  · cases h

theorem of_bind_error {m : Prog σ ε α} {f : α → Prog σ ε β} {s u : σ} {e : ε} (h : (m >>= f) s = (.error e,u)) :
    m s = (.error e,u) ∨ ∃ a t, m s = (.ok a,t) ∧ f a t = (.error e,u) := by
  rw [bind_apply, bind] at h
  split at h
  · exact Or.inr ⟨_,_,by assumption,h⟩
  · rename_i hm
    cases h
    exact Or.inl hm
  · cases h

theorem of_onError_ok {m : Prog σ ε α} {cleanup : Prog σ ε Unit} {s t : σ} {a : α}
    (h : onError m cleanup s = (.ok a,t)) : m s = (.ok a,t) := by
  unfold onError at h
  split at h
  · rename_i hm
    cases h
    exact hm
  · cases h
  · cases h

theorem of_onError_error {m : Prog σ ε α} {cleanup : Prog σ ε Unit} {s u : σ} {e : ε}
    (h : onError m cleanup s = (.error e,u)) : ∃ t, m s = (.error e,t) ∧ u = (cleanup t).2 := by
  unfold onError at h
  split at h
  · cases h
  · rename_i hm
    cases h
    exact ⟨_,hm,rfl⟩
  · cases h

theorem onError_error_iff {m : Prog σ ε α} {cleanup : Prog σ ε Unit} {s : σ} :
    (∃ e t, onError m cleanup s = (.error e,t)) ↔ ∃ e t, m s = (.error e,t) := by
  constructor
  · rintro ⟨e,u,h⟩
    obtain ⟨t,ht,-⟩ := of_onError_error h
    exact ⟨e,t,ht⟩
  · rintro ⟨e,t,h⟩
    exact ⟨e,(cleanup t).2,by rw [onError, h]⟩

theorem bind_error {m : Prog σ ε α} {s t : σ} {e : ε} (h : m s = (.error e,t)) (f : α → Prog σ ε β) :
    (m >>= f) s = (.error e,t) := by
  rw [bind_apply, bind, h]

theorem bind_panic {m : Prog σ ε α} {s t : σ} {p : String} (h : m s = (.panic p,t)) (f : α → Prog σ ε β) :
    (m >>= f) s = (.panic p,t) := by
  rw [bind_apply, bind, h]

theorem bind_ends {P : σ → Prop} {m : Prog σ ε α} {f : α → Prog σ ε β} {s : σ} (hm : P (m s).2)
    (hf : ∀ a t, m s = (.ok a,t) → P t → P (f a t).2) : P ((m >>= f) s).2 := by
  rcases hr : m s with ⟨r,t⟩
  rw [hr] at hm
  cases r with
  | ok a =>
    rw [bind_ok hr]
    exact hf a t hr hm
  | error e =>
    rw [bind_error hr]
    exact hm
  | panic p =>
    rw [bind_panic hr]
    exact hm

theorem bind_assoc {γ : Type} (m : Prog σ ε α) (f : α → Prog σ ε β) (g : β → Prog σ ε γ) :
    (m >>= f) >>= g = m >>= fun a => f a >>= g := by
  funext s
  rcases h : m s with ⟨r,t⟩
  cases r with
  | ok a =>
    rw [bind_ok h, bind_apply, bind, bind_ok h]
    rfl
  | error e => rw [bind_error h, bind_error (bind_error h f)]
  | panic p => rw [bind_panic h, bind_panic (bind_panic h f)]

theorem of_throw_ok {e : ε} {s t : σ} {a : α} (h : (throw e : Prog σ ε α) s = (.ok a,t)) : False := by
  cases h

theorem of_mapError_ok {g : ε → δ} {m : Prog σ ε α} {s t : σ} {a : α} (h : mapError g m s = (.ok a,t)) :
    m s = (.ok a,t) := by
  unfold mapError at h
  split at h
  · rename_i hm
    cases h
    exact hm
  · cases h
  · cases h

theorem mapError_ok {g : ε → δ} {m : Prog σ ε α} {s t : σ} {a : α} (h : m s = (.ok a,t)) : mapError g m s = (.ok a,t) := by
  rw [mapError, h]

theorem mapError_error {g : ε → δ} {m : Prog σ ε α} {s t : σ} {e : ε} (h : m s = (.error e,t)) :
    mapError g m s = (.error (g e),t) := by
  rw [mapError, h]

theorem mapError_panic {g : ε → δ} {m : Prog σ ε α} {s t : σ} {p : String} (h : m s = (.panic p,t)) :
    mapError g m s = (.panic p,t) := by
  rw [mapError, h]

theorem of_attempt_ok {m : Prog σ ε α} {s t : σ} {r : Except ε α}
    (h : (attempt m : Prog σ δ (Except ε α)) s = (.ok r,t)) :
    (∃ a, r = .ok a ∧ m s = (.ok a,t)) ∨ ∃ e, r = .error e ∧ m s = (.error e,t) := by
  unfold attempt at h
  split at h
  · rename_i hm
    cases h
    exact Or.inl ⟨_,rfl,hm⟩
  · rename_i hm
    cases h
    exact Or.inr ⟨_,rfl,hm⟩
  · cases h

theorem attempt_ok {m : Prog σ ε α} {s t : σ} {a : α} (h : m s = (.ok a,t)) :
    (attempt m : Prog σ δ (Except ε α)) s = (.ok (.ok a),t) := by
  rw [attempt, h]

theorem attempt_error {m : Prog σ ε α} {s t : σ} {e : ε} (h : m s = (.error e,t)) :
    (attempt m : Prog σ δ (Except ε α)) s = (.ok (.error e),t) := by
  rw [attempt, h]

theorem attempt_panic {m : Prog σ ε α} {s t : σ} {p : String} (h : m s = (.panic p,t)) :
    (attempt m : Prog σ δ (Except ε α)) s = (.panic p,t) := by
  rw [attempt, h]

/-- A loop over a list that returns keeps an invariant of the part already visited. -/
theorem forM_invariant {l : List β} {f : β → Prog σ ε PUnit} {I : List β → σ → Prop}
    (hI : ∀ pre x post s t u, l = pre ++ x :: post → I pre s → f x s = (.ok u,t) → I (pre ++ [x]) t)
    {s t : σ} {u : PUnit} (hs : I [] s) (h : l.forM f s = (.ok u,t)) : I l t := by
  have hgen : ∀ post pre s, l = pre ++ post → I pre s → post.forM f s = (.ok u,t) → I l t := by
    intro post
    induction post with
    | nil =>
      intro pre s hl hp h
      cases h
      rw [List.append_nil] at hl
      exact hl ▸ hp
    | cons x post ih =>
      intro pre s hl hp h
      obtain ⟨v,s₁,hx,hr⟩ := of_bind_ok h
      refine ih (pre ++ [x]) s₁ ?_ (hI pre x post s s₁ v hl hp hx) hr
      rw [hl, List.append_assoc, List.singleton_append]
  exact hgen l [] s rfl hs h

/-- What a loop that returned has made of a part of the state, if every turn makes
something of it. -/
theorem forM_foldl {γ : Type} {l : List β} {f : β → Prog σ ε PUnit} {part : σ → γ} {g : γ → β → γ}
    (hf : ∀ x s t u, f x s = (.ok u,t) → part t = g (part s) x) {s t : σ} {u : PUnit}
    (h : l.forM f s = (.ok u,t)) : part t = l.foldl g (part s) := by
  induction l generalizing s with
  | nil =>
    cases h
    rfl
  | cons x l ih =>
    obtain ⟨v,s₁,hx,hr⟩ := of_bind_ok h
    rw [ih hr, hf x s s₁ v hx]
    rfl

/-- However it ends, the call moves the state along `R`. -/
def Moves (R : σ → σ → Prop) (m : Prog σ ε α) : Prop := ∀ s, R s (m s).2

theorem Moves.of_eq {R : σ → σ → Prop} {m : Prog σ ε α} (h : Moves R m) {s t : σ} {o : Outcome ε α} (hm : m s = (o,t)) : R s t := by
  have hr := h s
  rwa [hm] at hr

theorem Moves.attempt {R : σ → σ → Prop} {m : Prog σ ε α} (hm : Moves R m) :
    Moves R (Prog.attempt m : Prog σ δ (Except ε α)) := by
  intro s
  unfold Prog.attempt
  split <;> rename_i h <;> exact hm.of_eq h

theorem Moves.mapError {R : σ → σ → Prop} {m : Prog σ ε α} (hm : Moves R m) (g : ε → δ) :
    Moves R (Prog.mapError g m) := by
  intro s
  unfold Prog.mapError
  split <;> rename_i h <;> exact hm.of_eq h

theorem Moves.modify {R : σ → σ → Prop} {f : σ → σ} (h : ∀ s, R s (f s)) : Moves R (Prog.modify f : Prog σ ε Unit) := h

/-- A call that ends without a value has moved the state along `R`. -/
def Fails (R : σ → σ → Prop) (m : Prog σ ε α) : Prop :=
  ∀ s o t, m s = (o,t) → (∀ a, o ≠ .ok a) → R s t

theorem Moves.fails {R : σ → σ → Prop} {m : Prog σ ε α} (h : Moves R m) : Fails R m :=
  fun _ _ _ hm _ => h.of_eq hm

theorem Fails.map {R : σ → σ → Prop} {m : Prog σ ε α} (h : Fails R m) (g : α → β) :
    Fails R (m >>= fun a => pure (g a)) := by
  intro s o t hm ho
  rw [bind_pure_apply] at hm
  cases hm
  refine h s _ _ rfl fun a ha => ?_
  exact ho (g a) (by rw [ha]; rfl)

theorem Fails.attempt {R : σ → σ → Prop} {m : Prog σ ε α} (h : Fails R m) :
    Fails R (Prog.attempt m : Prog σ δ (Except ε α)) := by
  intro s o t hm ho
  unfold Prog.attempt at hm
  split at hm <;> rename_i hs <;> cases hm
  · exact (ho _ rfl).elim
  · exact (ho _ rfl).elim
  · exact h s _ t hs nofun

section Moves
variable {R : σ → σ → Prop} [IsPreorder σ R] {m : Prog σ ε α}

theorem Moves.pure (a : α) : Moves R (Pure.pure a : Prog σ ε α) := fun s => refl_of R s

theorem Moves.throw (e : ε) : Moves R (Prog.throw e : Prog σ ε α) := fun s => refl_of R s

theorem Moves.read : Moves R (Prog.read : Prog σ ε σ) := fun s => refl_of R s

theorem Moves.bind {f : α → Prog σ ε β} (hm : Moves R m) (hf : ∀ a, Moves R (f a)) : Moves R (m >>= f) := by
  intro s
  rw [bind_apply]
  unfold Prog.bind
  split <;> rename_i h
  · exact trans_of R (hm.of_eq h) (hf _ _)
  · exact hm.of_eq h
  · exact hm.of_eq h

theorem onError_moves {cleanup : Prog σ ε Unit} {s : σ} (hm : R s (m s).2) (hc : Moves R cleanup) :
    R s (Prog.onError m cleanup s).2 := by
  unfold Prog.onError
  rcases hs : m s with ⟨o,t⟩
  rw [hs] at hm
  cases o with
  | ok a => exact hm
  | error e => exact trans_of R hm (hc t)
  | panic p => exact hm

theorem Moves.onError {cleanup : Prog σ ε Unit} (hm : Moves R m) (hc : Moves R cleanup) :
    Moves R (Prog.onError m cleanup) :=
  fun s => onError_moves (hm s) hc

theorem Moves.forM_mem {l : List β} {f : β → Prog σ ε PUnit} (hf : ∀ x ∈ l, Moves R (f x)) : Moves R (l.forM f) := by
  induction l with
  | nil => exact Moves.pure _
  | cons x l ih =>
    refine Moves.bind (hf x List.mem_cons_self) fun _ => ih ?_
    intro y hy
    exact hf y (List.mem_cons_of_mem x hy)

theorem Moves.forM {l : List β} {f : β → Prog σ ε PUnit} (hf : ∀ x, Moves R (f x)) : Moves R (l.forM f) :=
  .forM_mem fun x _ => hf x

theorem Fails.bind {f : α → Prog σ ε β} (hm : Moves R m) (hf : ∀ a, Fails R (f a)) : Fails R (m >>= f) := by
  intro s o u h ho
  rw [bind_apply] at h
  unfold Prog.bind at h
  split at h <;> rename_i hs
  · exact trans_of R (hm.of_eq hs) (hf _ _ _ _ h ho)
  · cases h
    exact hm.of_eq hs
  · cases h
    exact hm.of_eq hs

end Moves

/-! ## When a call fails -/

/-- The call ends with an error if `c` holds and with a value if not, whatever the state. -/
def FailsIff (c : Prop) (m : Prog σ ε α) : Prop :=
  ∀ s, (c ∧ ∃ e, (m s).1 = .error e) ∨ (¬c ∧ ∃ a, (m s).1 = .ok a)

theorem FailsIff.error {c : Prop} {m : Prog σ ε α} (h : FailsIff c m) {s t : σ} {e : ε} (hm : m s = (.error e,t)) :
    c := by
  rcases h s with ⟨hc,-⟩ | ⟨-,a,ha⟩
  · exact hc
  · rw [hm] at ha
    cases ha

theorem FailsIff.ok {c : Prop} {m : Prog σ ε α} (h : FailsIff c m) {s t : σ} {a : α} (hm : m s = (.ok a,t)) : ¬c := by
  rcases h s with ⟨-,e,he⟩ | ⟨hc,-⟩
  · rw [hm] at he
    cases he
  · exact hc

theorem FailsIff.error_iff {c : Prop} {m : Prog σ ε α} (h : FailsIff c m) (s : σ) :
    (∃ e t, m s = (.error e,t)) ↔ c := by
  constructor
  · rintro ⟨e,t,hm⟩
    exact h.error hm
  · intro hc
    rcases h s with ⟨-,e,he⟩ | ⟨hn,-⟩
    · exact ⟨e,(m s).2,by rw [← he]⟩
    · exact absurd hc hn

theorem FailsIff.exists_ok {c : Prop} {m : Prog σ ε α} (h : FailsIff c m) (hc : ¬c) (s : σ) :
    ∃ a t, m s = (.ok a,t) := by
  rcases h s with ⟨hn,-⟩ | ⟨-,a,ha⟩
  · exact absurd hn hc
  · exact ⟨a,(m s).2,by rw [← ha]⟩

theorem FailsIff.congr {c d : Prop} {m : Prog σ ε α} (h : FailsIff c m) (hcd : c ↔ d) : FailsIff d m := by
  intro s
  rw [← hcd]
  exact h s

theorem FailsIff.pure (a : α) : FailsIff False (Pure.pure a : Prog σ ε α) := fun _ => Or.inr ⟨not_false,a,rfl⟩

theorem FailsIff.throw (e : ε) : FailsIff True (Prog.throw e : Prog σ ε α) := fun _ => Or.inl ⟨trivial,e,rfl⟩

theorem FailsIff.read : FailsIff False (Prog.read : Prog σ ε σ) := fun s => Or.inr ⟨not_false,s,rfl⟩

theorem FailsIff.modify (f : σ → σ) : FailsIff False (Prog.modify f : Prog σ ε Unit) :=
  fun _ => Or.inr ⟨not_false,(),rfl⟩

theorem FailsIff.bind {c d : Prop} {m : Prog σ ε α} {f : α → Prog σ ε β} (hm : FailsIff c m)
    (hf : ∀ a, FailsIff d (f a)) : FailsIff (c ∨ d) (m >>= f) := by
  intro s
  rw [bind_apply]
  unfold Prog.bind
  rcases h : m s with ⟨o,t⟩
  cases o with
  | ok a =>
    have hc := hm.ok h
    dsimp only
    rw [or_iff_right hc]
    exact hf a t
  | error e => exact Or.inl ⟨Or.inl (hm.error h),e,rfl⟩
  | panic p =>
    have := hm s
    rw [h] at this
    simp at this

theorem FailsIff.onError {c : Prop} {m : Prog σ ε α} (hm : FailsIff c m) (cleanup : Prog σ ε Unit) :
    FailsIff c (Prog.onError m cleanup) := by
  intro s
  have h := hm s
  unfold Prog.onError
  rcases hr : m s with ⟨r,t⟩
  rw [hr] at h
  cases r with
  | ok a => exact h
  | error e => exact h
  | panic p => exact h

theorem FailsIff.forM {l : List β} {f : β → Prog σ ε PUnit} {c : β → Prop} (hf : ∀ x ∈ l, FailsIff (c x) (f x)) :
    FailsIff (∃ x ∈ l, c x) (l.forM f) := by
  induction l with
  | nil => exact (FailsIff.pure _).congr (by simp)
  | cons x l ih =>
    have ht := ih fun y hy => hf y (List.mem_cons_of_mem x hy)
    exact ((hf x List.mem_cons_self).bind fun _ => ht).congr (by simp)

/-! ## Calls that do not panic -/

/-- From the states in `P` the call ends with a value or with an error. -/
def Safe (P : σ → Prop) (m : Prog σ ε α) : Prop := ∀ s, P s → ∀ p, (m s).1 ≠ .panic p

theorem Safe.mono {P Q : σ → Prop} {m : Prog σ ε α} (h : Safe Q m) (hP : ∀ s, P s → Q s) : Safe P m :=
  fun s hs => h s (hP s hs)

theorem Safe.pure {P : σ → Prop} (a : α) : Safe P (Pure.pure a : Prog σ ε α) := fun _ _ _ => nofun

theorem Safe.throw {P : σ → Prop} (e : ε) : Safe P (Prog.throw e : Prog σ ε α) := fun _ _ _ => nofun

theorem Safe.read {P : σ → Prop} : Safe P (Prog.read : Prog σ ε σ) := fun _ _ _ => nofun

theorem Safe.modify {P : σ → Prop} (f : σ → σ) : Safe P (Prog.modify f : Prog σ ε Unit) := fun _ _ _ => nofun

theorem Safe.bind {P Q : σ → Prop} {m : Prog σ ε α} {f : α → Prog σ ε β} (hm : Safe P m)
    (hQ : ∀ s a t, P s → m s = (.ok a,t) → Q t) (hf : ∀ a, Safe Q (f a)) : Safe P (m >>= f) := by
  intro s hs p
  rw [bind_apply, Prog.bind]
  rcases h : m s with ⟨o,t⟩
  cases o with
  | ok a => exact hf a t (hQ s a t hs h) p
  | error e => exact nofun
  | panic q =>
    have hp := hm s hs q
    rw [h] at hp
    exact (hp rfl).elim

theorem Safe.seq {P : σ → Prop} {m : Prog σ ε α} {f : α → Prog σ ε β} (hm : Safe P m)
    (hf : ∀ a, Safe (fun _ => True) (f a)) : Safe P (m >>= f) :=
  hm.bind (fun _ _ _ _ _ => trivial) hf

theorem Safe.after {P : σ → Prop} {R : σ → σ → Prop} {m : Prog σ ε α} {f : α → Prog σ ε β} (hm : Safe P m)
    (hR : Moves R m) (hP : ∀ s t, R s t → P s → P t) (hf : ∀ a, Safe P (f a)) : Safe P (m >>= f) :=
  hm.bind (fun s _ t hs h => hP s t (hR.of_eq h) hs) hf

theorem Safe.attempt {P : σ → Prop} {m : Prog σ ε α} (h : Safe P m) :
    Safe P (Prog.attempt m : Prog σ δ (Except ε α)) := by
  intro s hs p
  unfold Prog.attempt
  split
  · exact nofun
  · exact nofun
  · rename_i q t hm
    have hp := h s hs q
    rw [hm] at hp
    exact (hp rfl).elim

theorem Safe.mapError {P : σ → Prop} {m : Prog σ ε α} (h : Safe P m) (g : ε → δ) : Safe P (Prog.mapError g m) := by
  intro s hs p
  unfold Prog.mapError
  split
  · exact nofun
  · exact nofun
  · rename_i q t hm
    have hp := h s hs q
    rw [hm] at hp
    exact (hp rfl).elim

theorem Safe.forM {l : List β} {f : β → Prog σ ε PUnit} (hf : ∀ x, Safe (fun _ => True) (f x)) :
    Safe (fun _ => True) (l.forM f) := by
  induction l with
  | nil => exact .pure _
  | cons x l ih => exact (hf x).seq fun _ => ih

/-! ## The errors of a call -/

def Throws (E : ε → Prop) (m : Prog σ ε α) : Prop := ∀ s e, (m s).1 = .error e → E e

theorem Throws.pure {E : ε → Prop} (a : α) : Throws E (Pure.pure a : Prog σ ε α) := fun _ _ => nofun

theorem Throws.bind {E : ε → Prop} {m : Prog σ ε α} {f : α → Prog σ ε β} (hm : Throws E m)
    (hf : ∀ a, Throws E (f a)) : Throws E (m >>= f) := by
  intro s e he
  rcases of_bind_error (Prod.ext he rfl : (m >>= f) s = (.error e,_)) with h | ⟨a,t,-,h⟩
  · exact hm s e (by rw [h])
  · exact hf a t e (by rw [h])

theorem Throws.mapError {E : δ → Prop} {g : ε → δ} (hg : ∀ e, E (g e)) (m : Prog σ ε α) :
    Throws E (Prog.mapError g m) := by
  intro s e he
  unfold Prog.mapError at he
  split at he
  · cases he
  · rename_i e' _ _
    cases he
    exact hg e'
  · cases he

theorem Throws.forM {E : ε → Prop} {l : List β} {f : β → Prog σ ε PUnit} (hf : ∀ x, Throws E (f x)) :
    Throws E (l.forM f) := by
  induction l with
  | nil => exact .pure _
  | cons x l ih => exact (hf x).bind fun _ => ih

/-! ## Calls on more state -/

theorem zoom_of_eq {get : σ → τ} {set : σ → τ → σ} {m : Prog τ ε α} {s : σ} {r : Outcome ε α} {u : τ} (h : m (get s) = (r,u)) :
    zoom get set m s = (r,set s u) := by
  rw [zoom, h]

theorem of_zoom_ok {get : σ → τ} {set : σ → τ → σ} {m : Prog τ ε α} {s t : σ} {a : α} (h : zoom get set m s = (.ok a,t)) :
    ∃ u, m (get s) = (.ok a,u) ∧ t = set s u := by
  have h₁ : (m (get s)).1 = .ok a := congrArg Prod.fst h
  have h₂ : set s (m (get s)).2 = t := congrArg Prod.snd h
  exact ⟨(m (get s)).2,Prod.ext h₁ rfl,h₂.symm⟩

/-- On the part `get` shows of the state the call does what the other one does. -/
def Projects (get : σ → τ) (m : Prog σ ε α) (n : Prog τ ε α) : Prop := ∀ s, n (get s) = ((m s).1,get (m s).2)

section Projects
variable {get : σ → τ} {m : Prog σ ε α} {n : Prog τ ε α}

theorem Projects.pure (a : α) : Projects get (Pure.pure a : Prog σ ε α) (Pure.pure a) := fun _ => rfl

theorem Projects.throw (e : ε) : Projects get (Prog.throw e : Prog σ ε α) (Prog.throw e) := fun _ => rfl

theorem Projects.zoom {set : σ → τ → σ} (h : ∀ s t, get (set s t) = t) (n : Prog τ ε α) :
    Projects get (Prog.zoom get set n) n := by
  intro s
  rw [Prog.zoom, h]

theorem Projects.bind {f : α → Prog σ ε β} {g : α → Prog τ ε β} (h : Projects get m n) (hf : ∀ a, Projects get (f a) (g a)) :
    Projects get (m >>= f) (n >>= g) := by
  intro s
  have hs := h s
  rcases hm : m s with ⟨r,t⟩
  rw [hm] at hs
  cases r with
  | ok a =>
    rw [bind_ok hm, bind_ok hs]
    exact hf a t
  | error e => rw [bind_error hm, bind_error hs]
  | panic p => rw [bind_panic hm, bind_panic hs]

theorem Projects.safe {P : τ → Prop} (h : Projects get m n) (hn : Safe P n) : Safe (fun s => P (get s)) m := by
  intro s hs p hp
  refine hn (get s) hs p ?_
  rw [h s, hp]

end Projects
/-! ## Calls that agree where an invariant holds -/

section Agreement
variable {P : σ → Prop} {Q : α → Prop} {R : β → Prop}

/-- Where `P` holds the two calls do the same, `P` holds afterwards, and what they return
is in `Q`. -/
def AgreesOn (P : σ → Prop) (Q : α → Prop) (m m' : Prog σ ε α) : Prop :=
  ∀ s, P s → m s = m' s ∧ P (m' s).2 ∧ ∀ a, (m' s).1 = .ok a → Q a

theorem AgreesOn.pure {a : α} (ha : Q a) : AgreesOn P Q (Pure.pure a : Prog σ ε α) (Pure.pure a) := by
  intro s hs
  refine ⟨rfl,hs,?_⟩
  intro b hb
  cases hb
  exact ha

theorem AgreesOn.throw (e : ε) : AgreesOn P Q (Prog.throw e : Prog σ ε α) (Prog.throw e) :=
  fun _ hs => ⟨rfl,hs,nofun⟩

theorem AgreesOn.of_moves {r : σ → σ → Prop} {m : Prog σ ε α} (hm : Moves r m) (hP : ∀ s t, r s t → P s → P t)
    (hQ : ∀ s a t, P s → m s = (.ok a,t) → Q a) : AgreesOn P Q m m :=
  fun s hs => ⟨rfl,hP _ _ (hm s) hs,fun a ha => hQ s a (m s).2 hs (Prod.ext ha rfl)⟩

theorem AgreesOn.bind {m m' : Prog σ ε α} {f f' : α → Prog σ ε β} (hm : AgreesOn P Q m m')
    (hf : ∀ a, Q a → AgreesOn P R (f a) (f' a)) : AgreesOn P R (m >>= f) (m' >>= f') := by
  intro s hs
  obtain ⟨he,hP,hQ⟩ := hm s hs
  rcases h : m' s with ⟨o,t⟩
  rw [h] at he hP hQ
  cases o with
  | ok a =>
    rw [bind_ok he, bind_ok h]
    exact hf a (hQ a rfl) t hP
  | error e =>
    rw [bind_error he, bind_error h]
    exact ⟨rfl,hP,nofun⟩
  | panic p =>
    rw [bind_panic he, bind_panic h]
    exact ⟨rfl,hP,nofun⟩

theorem AgreesOn.read_bind {f f' : σ → Prog σ ε β} (hf : ∀ s, P s → AgreesOn P R (f s) (f' s)) :
    AgreesOn P R (Prog.read >>= f) (Prog.read >>= f') :=
  fun s hs => hf s hs s hs

theorem AgreesOn.attempt {m m' : Prog σ ε α} (hm : AgreesOn P Q m m') :
    AgreesOn P (fun _ => True) (Prog.attempt m : Prog σ δ (Except ε α)) (Prog.attempt m') := by
  intro s hs
  obtain ⟨he,hP,-⟩ := hm s hs
  unfold Prog.attempt
  rw [he]
  split <;> rename_i h <;> rw [h] at hP <;> exact ⟨rfl,hP,fun _ _ => trivial⟩

theorem AgreesOn.mapError {m m' : Prog σ ε α} (hm : AgreesOn P Q m m') (g : ε → δ) :
    AgreesOn P Q (Prog.mapError g m) (Prog.mapError g m') := by
  intro s hs
  obtain ⟨he,hP,hQ⟩ := hm s hs
  unfold Prog.mapError
  rw [he]
  rcases h : m' s with ⟨o,t⟩
  rw [h] at hP hQ
  cases o with
  | ok a =>
    refine ⟨rfl,hP,fun b hb => ?_⟩
    cases hb
    exact hQ a rfl
  | error e => exact ⟨rfl,hP,nofun⟩
  | panic p => exact ⟨rfl,hP,nofun⟩

theorem AgreesOn.forM_mem {l : List β} {f f' : β → Prog σ ε PUnit}
    (hf : ∀ x ∈ l, AgreesOn P (fun _ => True) (f x) (f' x)) : AgreesOn P (fun _ => True) (l.forM f) (l.forM f') := by
  induction l with
  | nil => exact .pure trivial
  | cons x l ih =>
    refine (hf x List.mem_cons_self).bind fun _ _ => ih ?_
    intro y hy
    exact hf y (List.mem_cons_of_mem x hy)

end Agreement

end Prog
end Stout
