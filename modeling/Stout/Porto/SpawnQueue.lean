import Stout.Library.Runs
import Stout.Library.Threads

/-! # The spawn queue of the porto box

`Box.Spawn` of `isolate/porto/box.go` as a pool of calls that share the counter
`spawningQueueSize` and the semaphore `spawnSM`. Each atomic operation on either of
them is a step of its own, and every call outside this package may succeed or fail.
-/
namespace Stout.Porto.SpawnQueue
open Threads

/-- How a `Spawn` call that got its slot of the semaphore ends. -/
inductive Created where
  | createError | startError | spawned
deriving DecidableEq, Repr

inductive Reply where
  | decodeError | EAGAIN | noLayers | connectError | ErrSpawningCancelled
  | created (r : Created)
deriving DecidableEq, Repr

inductive Pc where
  | decodeTo
  | inc
  | count
  | refuse
  | getManifestLayers
  | portoConnect
  | acquire
  | dec (acquired : Bool)
  | newContainer
  | start
  | releaseLock (r : Created)
  | returned (r : Reply)
deriving DecidableEq, Repr

structure State where
  spawningQueueSize : ℤ
  sm : ℕ
  calls : List Pc
deriving DecidableEq, Repr

def initial : State := ⟨0,0,[]⟩

inductive Event where
  | call
  | decodeTo (ok : Bool)
  | inc
  | count
  | dec
  | getManifestLayers (found : Bool)
  | portoConnect (ok : Bool)
  | acquire
  | cancelled
  | newContainer (ok : Bool)
  | start (ok : Bool)
  | releaseLock
deriving DecidableEq, Repr

/-- One operation of a call: its next place, the counter and the semaphore after it. -/
def Pc.next (size : ℕ) (q : ℤ) (sm : ℕ) : Pc → Event → Option (Pc × ℤ × ℕ)
  | .decodeTo, .decodeTo true => some (.inc,q,sm)
  | .decodeTo, .decodeTo false => some (.returned .decodeError,q,sm)
  | .inc, .inc => some (.count,q + 1,sm)
  | .count, .count => if q > 10 then some (.refuse,q,sm) else some (.getManifestLayers,q,sm)
  | .refuse, .dec => some (.returned .EAGAIN,q - 1,sm)
  | .getManifestLayers, .getManifestLayers true => some (.portoConnect,q,sm)
  | .getManifestLayers, .getManifestLayers false => some (.returned .noLayers,q,sm)
  | .portoConnect, .portoConnect true => some (.acquire,q,sm)
  | .portoConnect, .portoConnect false => some (.returned .connectError,q,sm)
  | .acquire, .acquire => if sm < size then some (.dec true,q,sm + 1) else none
  | .acquire, .cancelled => some (.dec false,q,sm)
  | .dec true, .dec => some (.newContainer,q - 1,sm)
  | .dec false, .dec => some (.returned .ErrSpawningCancelled,q - 1,sm)
  | .newContainer, .newContainer true => some (.start,q,sm)
  | .newContainer, .newContainer false => some (.releaseLock .createError,q,sm)
  | .start, .start true => some (.releaseLock .spawned,q,sm)
  | .start, .start false => some (.releaseLock .startError,q,sm)
  | .releaseLock r, .releaseLock => some (.returned (.created r),q,sm - 1)
  | _, _ => none

/-- A new call, or one operation of the call with the given index. -/
def step (size : ℕ) (s : State) (a : ℕ × Event) : Option State :=
  if a.2 = .call then some { s with calls := s.calls ++ [.decodeTo] }
  else match s.calls[a.1]? with
    | none => none
    | some pc => (pc.next size s.spawningQueueSize s.sm a.2).map
        (fun r => ⟨r.2.1,r.2.2,s.calls.set a.1 r.1⟩)

/-- Between the increment and the decrement that follows the semaphore's answer or
the refusal. -/
def Pc.inQueue : Pc → Bool
  | .count | .refuse | .getManifestLayers | .portoConnect | .acquire | .dec _ => true
  | _ => false

def Pc.isReturned : Pc → Bool
  | .returned _ => true
  | _ => false

/-- Returned between the increment and the decrement. -/
def Pc.leaked : Pc → Bool
  | .returned .noLayers | .returned .connectError => true
  | _ => false

/-- The two outcomes after which `Spawn` returns without its decrement. -/
def Event.leaks : Event → Bool
  | .getManifestLayers false | .portoConnect false => true
  | _ => false

theorem next_counter {size : ℕ} {q q' : ℤ} {sm sm' : ℕ} {pc pc' : Pc} {e : Event}
    (h : pc.next size q sm e = some (pc',q',sm')) :
    q' + pc.inQueue.toNat + pc.leaked.toNat = q + pc'.inQueue.toNat + pc'.leaked.toNat := by
  unfold Pc.next at h
  split at h <;> (try split at h) <;> cases h <;> simp [Pc.inQueue, Pc.leaked]

theorem next_leaked {size : ℕ} {q q' : ℤ} {sm sm' : ℕ} {pc pc' : Pc} {e : Event}
    (h : pc.next size q sm e = some (pc',q',sm')) :
    pc'.leaked.toNat = pc.leaked.toNat + e.leaks.toNat := by
  unfold Pc.next at h
  split at h <;> (try split at h) <;> cases h <;> simp [Pc.leaked, Event.leaks]

theorem next_refuse {size : ℕ} {q q' : ℤ} {sm sm' : ℕ} {pc : Pc} {e : Event}
    (h : pc.next size q sm e = some (.refuse,q',sm')) : pc = .count ∧ 10 < q := by
  unfold Pc.next at h
  split at h <;> (try split at h) <;> cases h
  exact ⟨rfl,by assumption⟩

theorem step_cases {size : ℕ} {s t : State} {a : ℕ × Event} (h : step size s a = some t) :
    (a.2 = .call ∧ t = { s with calls := s.calls ++ [.decodeTo] }) ∨
    ∃ pc pc' q sm, s.calls[a.1]? = some pc ∧ pc.next size s.spawningQueueSize s.sm a.2 = some (pc',q,sm) ∧
      t = ⟨q,sm,s.calls.set a.1 pc'⟩ := by
  unfold step at h
  split at h
  · rename_i hc
    exact Or.inl ⟨hc,(Option.some.inj h).symm⟩
  · split at h
    · cases h
    · rename_i pc hpc
      obtain ⟨⟨pc',q,sm⟩,hn,ht⟩ := Option.map_eq_some_iff.mp h
      exact Or.inr ⟨pc,pc',q,sm,hpc,hn,ht.symm⟩

/-- The counter is the number of calls in the queue and of calls that left it
without their decrement. -/
def Balanced (s : State) : Prop :=
  s.spawningQueueSize = s.calls.countP Pc.inQueue + s.calls.countP Pc.leaked

theorem step_balanced {size : ℕ} (s : State) (a : ℕ × Event) (t : State) (hs : Balanced s)
    (h : step size s a = some t) : Balanced t := by
  unfold Balanced at hs ⊢
  obtain ⟨-,rfl⟩ | ⟨pc,pc',q,sm,hpc,hn,rfl⟩ := step_cases h
  · simpa [List.countP_append, Pc.inQueue, Pc.leaked] using hs
  · have hq := next_counter hn
    have h1 := countP_set_add hpc pc' Pc.inQueue
    have h2 := countP_set_add hpc pc' Pc.leaked
    dsimp only
    omega

theorem runs_balanced {size : ℕ} {as : List (ℕ × Event)} {t : State}
    (h : Runs (step size) initial as t) : Balanced t :=
  h.invariant step_balanced rfl

/-- Each leaking outcome of a run leaves one leaked call behind, for ever. -/
theorem runs_leaked {size : ℕ} {as : List (ℕ × Event)} {s t : State} (h : Runs (step size) s as t) :
    t.calls.countP Pc.leaked = s.calls.countP Pc.leaked + as.countP (fun a => a.2.leaks) := by
  induction h with
  | refl => rfl
  | @step s t u a as he _ ih =>
    rw [ih, List.countP_cons]
    obtain ⟨hc,rfl⟩ | ⟨pc,pc',q,sm,hpc,hn,rfl⟩ := step_cases he
    · simp [hc, List.countP_append, Pc.leaked, Event.leaks]
    · have h1 := next_leaked hn
      have h2 := countP_set_add hpc pc' Pc.leaked
      cases hl : a.2.leaks <;> simp only [hl, Bool.toNat_true, Bool.toNat_false] at h1 <;> simp <;> omega

/-- The counter is the number of calls in the queue, hence nought when none is in flight. -/
def Accounted (s : State) : Prop :=
  s.spawningQueueSize = s.calls.countP Pc.inQueue ∧
  ((∀ pc ∈ s.calls, pc.isReturned = true) → s.spawningQueueSize = 0)

theorem accounted_iff {s : State} (hs : Balanced s) : Accounted s ↔ s.calls.countP Pc.leaked = 0 := by
  unfold Balanced at hs
  constructor
  · intro h
    have := h.1
    omega
  · intro h
    refine ⟨by omega,?_⟩
    intro hr
    have hq : s.calls.countP Pc.inQueue = 0 := by
      rw [List.countP_eq_zero]
      intro pc hpc
      have := hr pc hpc
      cases pc <;> simp [Pc.isReturned, Pc.inQueue] at this ⊢
    omega

/-- A call refused in the step from `s` has at least ten others in the queue there. -/
def RefusedWhileFull (size : ℕ) (s : State) (a : ℕ × Event) : Prop :=
  ∀ t, step size s a = some t → s.calls[a.1]? ≠ some .refuse → t.calls[a.1]? = some .refuse →
    10 ≤ (s.calls.eraseIdx a.1).countP Pc.inQueue

theorem refusedWhileFull_of_accounted {size : ℕ} {s : State} (hs : Accounted s) (a : ℕ × Event) :
    RefusedWhileFull size s a := by
  intro t h hne hr
  obtain ⟨hc,rfl⟩ | ⟨pc,pc',q,sm,hpc,hn,rfl⟩ := step_cases h
  · exfalso
    rw [List.getElem?_append] at hr
    split at hr
    · exact hne hr
    · rw [List.getElem?_singleton] at hr
      split at hr <;> simp at hr
  · have hlt : a.1 < s.calls.length := (List.getElem?_eq_some_iff.mp hpc).1
    rw [List.getElem?_set_self hlt] at hr
    cases hr
    obtain ⟨rfl,hq⟩ := next_refuse hn
    have he := countP_eraseIdx_add hpc Pc.inQueue
    have h1 := hs.1
    simp only [Pc.inQueue, Bool.toNat_true] at he
    omega

/-- Along every run of `Spawn` calls the counter is right in each state and refusals
are justified exactly when no call of the run returned for want of layers or of a
connection. -/
theorem accounted_runs_iff {size : ℕ} {as : List (ℕ × Event)} {t : State}
    (h : Runs (step size) initial as t) :
    (∀ pre s, pre <+: as → Runs (step size) initial pre s →
      Accounted s ∧ ∀ a, pre ++ [a] <+: as → RefusedWhileFull size s a) ↔
      ∀ a ∈ as, a.2.leaks = false := by
  have hzero : initial.calls.countP Pc.leaked = 0 := rfl
  constructor
  · intro hp a ha
    have hl := runs_leaked h
    rw [(accounted_iff (runs_balanced h)).mp (hp as t (List.prefix_refl as) h).1, hzero] at hl
    have hc : as.countP (fun a => a.2.leaks) = 0 := by omega
    simpa using (List.countP_eq_zero.mp hc) a ha
  · intro hn pre s hpre hs
    have hl := runs_leaked hs
    have hc : pre.countP (fun a => a.2.leaks) = 0 := by
      rw [List.countP_eq_zero]
      intro a ha
      simp [hn a (hpre.subset ha)]
    rw [hzero, hc] at hl
    have ha : Accounted s := (accounted_iff (runs_balanced hs)).mpr hl
    exact ⟨ha,fun a _ => refusedWhileFull_of_accounted ha a⟩

def spawnOnce : List (ℕ × Event) :=
  [(0,.call),(0,.decodeTo true),(0,.inc),(0,.count),(0,.getManifestLayers true),(0,.portoConnect true),
    (0,.acquire),(0,.dec),(0,.newContainer true),(0,.start true),(0,.releaseLock)]

theorem accounted_spawnOnce :
    Runs (step 5) initial spawnOnce ⟨0,0,[.returned (.created .spawned)]⟩ ∧
      ∀ pre s, pre <+: spawnOnce → Runs (step 5) initial pre s →
        Accounted s ∧ ∀ a, pre ++ [a] <+: spawnOnce → RefusedWhileFull 5 s a := by
  have hr : Runs (step 5) initial spawnOnce ⟨0,0,[.returned (.created .spawned)]⟩ := Runs.of_run (by decide)
  exact ⟨hr,(accounted_runs_iff hr).mpr (by decide)⟩

/-- One spawn of an application without layers: no call is in flight and the counter is one. -/
theorem leak_noLayers :
    ∃ s, Runs (step 5) initial
        [(0,.call),(0,.decodeTo true),(0,.inc),(0,.count),(0,.getManifestLayers false)] s ∧
      (∀ pc ∈ s.calls, pc.isReturned = true) ∧ s.spawningQueueSize = 1 ∧ ¬Accounted s := by
  refine ⟨⟨1,0,[.returned .noLayers]⟩,Runs.of_run (by decide),by decide,rfl,?_⟩
  intro h
  exact absurd h.1 (by decide)

end Stout.Porto.SpawnQueue
