import Stout.Library.Runs
import Stout.Library.Threads

/-! # A waiting room in front of a semaphore

Calls enter a room by an increment of a counter, read the counter in a second step and
turn back if it is above a limit. The others wait for a permit of a semaphore, leave
the room by a decrement whether or not they got one, do their work and give the permit
back. The work is a parameter: places, and what an event does in each of them.
-/
namespace Stout.Admission
open Threads
variable {β ε ρ : Type*}

/-- The work of a call that has a permit: an event moves it to another place or ends it. -/
structure Work (β ε ρ : Type*) where
  start : β
  next : β → ε → Option (β ⊕ ρ)

inductive Reply (ρ : Type*) where
  | invalid
  | refused
  | cancelled
  | done (r : ρ)
deriving DecidableEq, Repr

inductive Pc (β ρ : Type*) where
  | prepare
  | inc
  | count
  | refuse
  | acquire
  | dec (acquired : Bool)
  | work (b : β)
  | release (r : ρ)
  | returned (r : Reply ρ)
deriving DecidableEq, Repr

inductive Event (ε : Type*) where
  | call
  | prepare (ok : Bool)
  | inc
  | count
  | dec
  | acquire
  | cancel
  | work (e : ε)
  | release
deriving DecidableEq, Repr

structure State (β ρ : Type*) where
  queue : ℤ
  permits : ℕ
  calls : List (Pc β ρ)
deriving DecidableEq, Repr

def initial : State β ρ := ⟨0,0,[]⟩

/-- One operation of a call, with the counter and the permits after it. Taking a permit
blocks while all are given out, giving one back while none is. -/
def Pc.next (limit size : ℕ) (w : Work β ε ρ) (q : ℤ) (n : ℕ) : Pc β ρ → Event ε → Option (Pc β ρ × ℤ × ℕ)
  | .prepare, .prepare true => some (.inc,q,n)
  | .prepare, .prepare false => some (.returned .invalid,q,n)
  | .inc, .inc => some (.count,q + 1,n)
  | .count, .count => if q > limit then some (.refuse,q,n) else some (.acquire,q,n)
  | .refuse, .dec => some (.returned .refused,q - 1,n)
  | .acquire, .acquire => if n < size then some (.dec true,q,n + 1) else none
  | .acquire, .cancel => some (.dec false,q,n)
  | .dec true, .dec => some (.work w.start,q - 1,n)
  | .dec false, .dec => some (.returned .cancelled,q - 1,n)
  | .work b, .work e =>
    match w.next b e with
    | none => none
    | some (.inl b') => some (.work b',q,n)
    | some (.inr r) => some (.release r,q,n)
  | .release r, .release => if 0 < n then some (.returned (.done r),q,n - 1) else none
  | _, _ => none

/-- A new call, or one operation of the call with the given index. -/
def step (limit size : ℕ) (w : Work β ε ρ) (s : State β ρ) (a : ℕ × Event ε) : Option (State β ρ) :=
  match a.2 with
  | .call => some { s with calls := s.calls ++ [.prepare] }
  | e => (s.calls[a.1]?).bind fun pc =>
    (pc.next limit size w s.queue s.permits e).map fun r => ⟨r.2.1,r.2.2,s.calls.set a.1 r.1⟩

def Pc.follow (limit size : ℕ) (w : Work β ε ρ) : Pc β ρ → ℤ → ℕ → List (Event ε) → Option (Pc β ρ × ℤ × ℕ)
  | pc, q, n, [] => some (pc,q,n)
  | pc, q, n, e :: es => (pc.next limit size w q n e).bind fun r => r.1.follow limit size w r.2.1 r.2.2 es

/-! ## Regions of a call -/

/-- Between the increment and the decrement. -/
def Pc.inRoom : Pc β ρ → Bool
  | .count | .refuse | .acquire | .dec _ => true
  | _ => false

/-- Past the test and not out of the room. -/
def Pc.admitted : Pc β ρ → Bool
  | .acquire | .dec _ => true
  | _ => false

def Pc.waiting : Pc β ρ → Bool
  | .acquire => true
  | _ => false

/-- Between taking a permit and giving it back. -/
def Pc.holding : Pc β ρ → Bool
  | .dec true | .work _ | .release _ => true
  | _ => false

def Pc.isReturned : Pc β ρ → Bool
  | .returned _ => true
  | _ => false

section Next
variable {limit size n n' : ℕ} {w : Work β ε ρ} {q q' : ℤ} {pc pc' : Pc β ρ} {e : Event ε}

/-- What an operation does to the counter, the permits and the regions. -/
structure Moved (limit size : ℕ) (q q' : ℤ) (n n' : ℕ) (pc pc' : Pc β ρ) : Prop where
  room : q' + pc.inRoom.toNat = q + pc'.inRoom.toNat
  permits : n' + pc.holding.toNat = n + pc'.holding.toNat
  taken : n' ≤ n ∨ n' ≤ size
  admitted : pc'.admitted = true → pc.admitted = true ∨ (pc.inRoom = true ∧ q ≤ limit)
  refused : pc' = .refuse → pc.inRoom = true ∧ (limit : ℤ) < q

theorem next_moved (h : pc.next limit size w q n e = some (pc',q',n')) : Moved limit size q q' n n' pc pc' := by
  unfold Pc.next at h
  split at h <;> (try split at h) <;> cases h <;>
    refine ⟨?_,?_,?_,?_,?_⟩ <;> simp [Pc.inRoom, Pc.holding, Pc.admitted] <;> omega

end Next

section Runs
variable {limit size : ℕ} {w : Work β ε ρ} {s t : State β ρ}

theorem step_cases {a : ℕ × Event ε} (h : step limit size w s a = some t) :
    t = { s with calls := s.calls ++ [.prepare] } ∨
    ∃ pc pc' q n, s.calls[a.1]? = some pc ∧ pc.next limit size w s.queue s.permits a.2 = some (pc',q,n) ∧
      t = ⟨q,n,s.calls.set a.1 pc'⟩ := by
  unfold step at h
  split at h
  · exact Or.inl (Option.some.inj h).symm
  · obtain ⟨pc,hpc,h⟩ := Option.bind_eq_some_iff.mp h
    obtain ⟨⟨pc',q,n⟩,hn,ht⟩ := Option.map_eq_some_iff.mp h
    exact Or.inr ⟨pc,pc',q,n,hpc,hn,ht.symm⟩

theorem runs_of_follow {calls : List (Pc β ρ)} {pc pc' : Pc β ρ} {q q' : ℤ} {n n' : ℕ} {es : List (Event ε)}
    (h : pc.follow limit size w q n es = some (pc',q',n')) :
    Runs (step limit size w) ⟨q,n,calls ++ [pc]⟩ (es.map fun e => (calls.length,e)) ⟨q',n',calls ++ [pc']⟩ := by
  induction es generalizing pc q n with
  | nil =>
    cases h
    exact .refl _
  | cons e es ih =>
    obtain ⟨⟨pc1,q1,n1⟩,hn,hf⟩ := Option.bind_eq_some_iff.mp h
    refine .step ?_ (ih hf)
    have hlast : (calls ++ [pc])[calls.length]? = some pc := by simp
    have hset : (calls ++ [pc]).set calls.length pc1 = calls ++ [pc1] := by simp
    cases e with
    | call => simp [Pc.next] at hn
    | _ => simp only [step, hlast, Option.bind_some, hn, Option.map_some, hset]

structure Inv (limit size : ℕ) (s : State β ρ) : Prop where
  room : s.queue = s.calls.countP Pc.inRoom
  permits : s.permits = s.calls.countP Pc.holding
  bounded : s.permits ≤ size
  admitted : s.calls.countP Pc.admitted ≤ limit

theorem inv_initial : Inv limit size (initial : State β ρ) :=
  ⟨rfl,rfl,Nat.zero_le _,Nat.zero_le _⟩

theorem countP_admitted_le (calls : List (Pc β ρ)) : calls.countP Pc.admitted ≤ calls.countP Pc.inRoom := by
  refine List.countP_mono_left ?_
  intro pc _ h
  cases pc <;> simp [Pc.admitted, Pc.inRoom] at h ⊢

/-- A call that passes the test does so in a room of at most `limit`, itself included. -/
theorem step_inv (s : State β ρ) (a : ℕ × Event ε) (t : State β ρ) (hs : Inv limit size s)
    (h : step limit size w s a = some t) : Inv limit size t := by
  obtain ⟨hroom,hpermits,hbounded,hadmitted⟩ := hs
  obtain rfl | ⟨pc,pc',q,n,hpc,hn,rfl⟩ := step_cases h
  · refine ⟨?_,?_,hbounded,?_⟩
    · simpa [List.countP_append, Pc.inRoom] using hroom
    · simpa [List.countP_append, Pc.holding] using hpermits
    · simpa [List.countP_append, Pc.admitted] using hadmitted
  · have hm := next_moved hn
    have h1 := countP_set_add hpc pc' Pc.inRoom
    have h2 := countP_set_add hpc pc' Pc.holding
    have h3 := countP_set_add hpc pc' Pc.admitted
    have hr := hm.room
    have hp := hm.permits
    refine ⟨by dsimp only; omega,by dsimp only; omega,?_,?_⟩
    · have ht := hm.taken
      dsimp only
      omega
    · dsimp only
      cases hadm : pc'.admitted with
      | false =>
        rw [hadm, Bool.toNat_false] at h3
        omega
      | true =>
        rcases hm.admitted hadm with hold | ⟨hin,hq⟩
        · rw [hadm, hold] at h3
          omega
        · have e1 := countP_eraseIdx_add hpc Pc.inRoom
          have e2 := countP_eraseIdx_add hpc Pc.admitted
          have hle := countP_admitted_le (s.calls.eraseIdx a.1)
          rw [hin, Bool.toNat_true] at e1
          rw [hadm, Bool.toNat_true] at h3
          omega

/-- What the waiting room promises in a state. -/
structure Admits (limit size : ℕ) (w : Work β ε ρ) (s : State β ρ) : Prop where
  waiting : s.calls.countP Pc.waiting ≤ limit
  holding : s.calls.countP Pc.holding ≤ size
  counted : s.queue = s.calls.countP Pc.inRoom
  idle : (∀ pc ∈ s.calls, pc.isReturned = true) → s.queue = 0 ∧ s.permits = 0
  release : ∀ i r, s.calls[i]? = some (.release r) → (step limit size w s (i,.release)).isSome = true
  refused : ∀ a t, step limit size w s a = some t → s.calls[a.1]? ≠ some .refuse → t.calls[a.1]? = some .refuse →
    limit ≤ (s.calls.eraseIdx a.1).countP Pc.inRoom

theorem countP_eq_zero_of_returned {calls : List (Pc β ρ)} {p : Pc β ρ → Bool}
    (hp : ∀ pc, p pc = true → pc.isReturned = false) (h : ∀ pc ∈ calls, pc.isReturned = true) : calls.countP p = 0 := by
  rw [List.countP_eq_zero]
  intro pc hpc hn
  have hr := h pc hpc
  rw [hp pc hn] at hr
  cases hr

theorem Inv.admits (h : Inv limit size s) (w : Work β ε ρ) : Admits limit size w s := by
  obtain ⟨hroom,hpermits,hbounded,hadmitted⟩ := h
  refine ⟨?_,by omega,hroom,?_,?_,?_⟩
  · refine le_trans (List.countP_mono_left ?_) hadmitted
    intro pc _ hw
    cases pc <;> simp [Pc.waiting, Pc.admitted] at hw ⊢
  · intro hr
    have h1 : s.calls.countP Pc.inRoom = 0 :=
      countP_eq_zero_of_returned (fun pc hp => by cases pc <;> simp [Pc.inRoom, Pc.isReturned] at hp ⊢) hr
    have h2 : s.calls.countP Pc.holding = 0 :=
      countP_eq_zero_of_returned (fun pc hp => by cases pc <;> simp [Pc.holding, Pc.isReturned] at hp ⊢) hr
    omega
  · intro i r hi
    have hpos : 0 < s.permits := by
      rw [hpermits]
      exact List.countP_pos_iff.mpr ⟨_,List.mem_of_getElem? hi,rfl⟩
    simp [step, hi, Pc.next, hpos]
  · intro a t hstep hne hr
    obtain rfl | ⟨pc,pc',q,n,hpc,hn,rfl⟩ := step_cases hstep
    · exfalso
      rw [List.getElem?_append] at hr
      split at hr
      · exact hne hr
      · have hm := List.mem_of_getElem? hr
        simp at hm
    · rw [List.getElem?_set_self (List.getElem?_eq_some_iff.mp hpc).1] at hr
      cases hr
      obtain ⟨hin,hq⟩ := (next_moved hn).refused rfl
      have he := countP_eraseIdx_add hpc Pc.inRoom
      rw [hin, Bool.toNat_true] at he
      omega

theorem runs_admits {as : List (ℕ × Event ε)} (h : Runs (step limit size w) initial as t) : Admits limit size w t :=
  (h.invariant step_inv inv_initial).admits w

end Runs

end Stout.Admission
