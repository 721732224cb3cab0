import Stout.Library.Runs

/-! # Watching for die events

`watchEvents` of `docker/box.go`: it asks Docker for the events since a second, handles
them one by one, and when the stream ends asks again from the second of the last event
it has received. The events are a family over any type, since two of them may agree in
all that the program reads. An event has all three fields that are decoded, so nothing
of the event before is left in the response.
-/
namespace Stout.Docker.WatchEvents

structure Event where
  status : String
  id : String
  time : ℤ
deriving DecidableEq, Repr

def dieEvent : String := "die"

/-- The longest pause between two attempts, in seconds. -/
def maxSleep : ℕ := 32

/-- A stream of events: the second it was asked for and what has been read from it. -/
structure Feed (ι : Type) where
  since : ℤ
  delivered : List ι
deriving DecidableEq, Repr

inductive Pc (ι : Type) where
  | connecting
  | decoding (f : Feed ι)
  | received (f : Feed ι) (i : ι)
  | removing (f : Feed ι) (i : ι) (ok : Bool)
  | sleeping
  | returned
deriving DecidableEq, Repr

/-- `removals` are the calls that remove a container, with whether there was a process
object to make it; `handled` are the events they were made for. -/
structure State (ι : Type) where
  since : ℤ
  sleep : ℕ
  containers : Finset String
  removals : List (String × Bool)
  handled : List ι
  pc : Pc ι

def initial (ι : Type) (now : ℤ) : State ι := ⟨now,1,∅,[],[],.connecting⟩

inductive Label (ι : Type) where
  | spawned (id : String)
  | connected
  | refused
  | woken
  | cancelled
  | event (i : ι)
  | broken
  | status
  | remove
deriving DecidableEq, Repr

variable {ι : Type} (E : ι → Event)

/-- `broken` is a failed `Decode`, between two events or in the middle of one. -/
def step (s : State ι) : Label ι → Option (State ι)
  | .spawned id => some { s with containers := insert id s.containers }
  | .connected =>
    match s.pc with
    | .connecting => some { s with sleep := 1, pc := .decoding ⟨s.since,[]⟩ }
    | _ => none
  | .refused =>
    match s.pc with
    | .connecting => some { s with sleep := min (s.sleep * 2) maxSleep, pc := .sleeping }
    | _ => none
  | .woken =>
    match s.pc with
    | .sleeping => some { s with pc := .connecting }
    | _ => none
  | .cancelled =>
    match s.pc with
    | .connecting => some { s with pc := .returned }
    | _ => none
  | .event i =>
    match s.pc with
    | .decoding f => some { s with since := (E i).time, pc := .received ⟨f.since,f.delivered ++ [i]⟩ i }
    | _ => none
  | .broken =>
    match s.pc with
    | .decoding _ => some { s with pc := .connecting }
    | _ => none
  | .status =>
    match s.pc with
    | .received f i =>
      if (E i).status = dieEvent then
        some { s with
          containers := s.containers.erase (E i).id
          pc := .removing f i (decide ((E i).id ∈ s.containers)) }
      else some { s with pc := .decoding f }
    | _ => none
  | .remove =>
    match s.pc with
    | .removing f i ok =>
      some { s with removals := s.removals ++ [((E i).id,ok)], handled := s.handled ++ [i], pc := .decoding f }
    | _ => none

/-- What Docker may put on a stream next: an event not older than what it was asked for
and not older than those before it, when no event between has been left out. -/
def Delivers (s : State ι) : Label ι → Prop
  | .event i =>
    match s.pc with
    | .decoding f => f.since ≤ (E i).time ∧ (∀ j ∈ f.delivered, (E j).time ≤ (E i).time) ∧
        ∀ j, f.since ≤ (E j).time → (E j).time < (E i).time → j ∈ f.delivered
    | _ => True
  | _ => True

instance [Fintype ι] [DecidableEq ι] (s : State ι) (l : Label ι) : Decidable (Delivers E s l) :=
  match l with
  | .event i =>
    match h : s.pc with
    | .decoding f =>
      decidable_of_iff (f.since ≤ (E i).time ∧ (∀ j ∈ f.delivered, (E j).time ≤ (E i).time) ∧
        ∀ j, f.since ≤ (E j).time → (E j).time < (E i).time → j ∈ f.delivered) (by rw [Delivers, h])
    | .connecting | .received .. | .removing .. | .sleeping | .returned => .isTrue (by rw [Delivers, h]; trivial)
  | .spawned _ | .connected | .refused | .woken | .cancelled | .broken | .status | .remove => .isTrue trivial

/-! ## What a step can do -/

/-- A die event that the program has to handle. -/
def Due (start : ℤ) (i : ι) : Prop := (E i).status = dieEvent ∧ start ≤ (E i).time

instance (start : ℤ) (i : ι) : Decidable (Due E start i) := inferInstanceAs (Decidable (_ ∧ _))

def Covered (start t : ℤ) (handled : List ι) : Prop :=
  ∀ i, Due E start i → (E i).time < t → i ∈ handled

/-- What is known of an open stream: all before it is handled, and so is what it has
delivered, but for the event at hand. -/
structure Fed (start : ℤ) (handled : List ι) (f : Feed ι) (rest : List ι) : Prop where
  before : Covered E start f.since handled
  delivered : ∀ i ∈ f.delivered, Due E start i → i ∈ handled ∨ i ∈ rest

def PcInv (start : ℤ) (handled : List ι) : Pc ι → Prop
  | .decoding f => Fed E start handled f []
  | .received f i => Fed E start handled f [i]
  | .removing f i _ => Fed E start handled f [i]
  | _ => True

structure Inv (start : ℤ) (s : State ι) : Prop where
  covered : Covered E start s.since s.handled
  pc : PcInv E start s.handled s.pc
  removed : ∀ i ∈ s.handled, ∃ ok, ((E i).id,ok) ∈ s.removals

theorem inv_initial (now : ℤ) : Inv E now (initial ι now) := by
  refine ⟨?_,trivial,nofun⟩
  intro i hi hlt
  exact absurd hlt (not_lt.mpr hi.2)

variable {E} {start : ℤ} {s t : State ι} {f : Feed ι} {i : ι}

theorem Inv.move (hs : Inv E start s) (containers : Finset String) (sleep : ℕ) {pc : Pc ι}
    (hpc : PcInv E start s.handled pc) : Inv E start { s with containers := containers, sleep := sleep, pc := pc } :=
  ⟨hs.covered,hpc,hs.removed⟩

/-- The next event of a stream moves `since` past handled events only. -/
theorem Inv.event (hs : Inv E start s) (hfed : Fed E start s.handled f [])
    (hbetween : ∀ j, f.since ≤ (E j).time → (E j).time < (E i).time → j ∈ f.delivered) :
    Inv E start { s with since := (E i).time, pc := .received ⟨f.since,f.delivered ++ [i]⟩ i } := by
  refine ⟨?_,⟨hfed.before,?_⟩,hs.removed⟩
  · intro j hj hlt
    by_cases hold : (E j).time < f.since
    · exact hfed.before j hj hold
    · exact (hfed.delivered j (hbetween j (not_lt.mp hold) hlt) hj).resolve_right nofun
  · intro j hj hdue
    rcases List.mem_append.mp hj with hj | hj
    · exact .inl ((hfed.delivered j hj hdue).resolve_right nofun)
    · exact .inr hj

theorem Fed.skip {handled : List ι} (h : Fed E start handled f [i]) (hi : (E i).status ≠ dieEvent) :
    Fed E start handled f [] := by
  refine ⟨h.before,?_⟩
  intro j hj hdue
  refine (h.delivered j hj hdue).imp_right ?_
  intro hji
  rw [List.mem_singleton.mp hji] at hdue
  exact absurd hdue.1 hi

theorem Fed.handle {handled : List ι} (h : Fed E start handled f [i]) : Fed E start (handled ++ [i]) f [] :=
  ⟨fun j hj hlt => List.mem_append_left _ (h.before j hj hlt),
    fun j hj hdue => .inl (List.mem_append.mpr (h.delivered j hj hdue))⟩

theorem Inv.remove (hs : Inv E start s) (hfed : Fed E start s.handled f [i]) (ok : Bool) :
    Inv E start { s with
      removals := s.removals ++ [((E i).id,ok)], handled := s.handled ++ [i], pc := .decoding f } := by
  refine ⟨fun j hj hlt => List.mem_append_left _ (hs.covered j hj hlt),hfed.handle,?_⟩
  intro j hj
  rcases List.mem_append.mp hj with hj | hj
  · obtain ⟨ok',hok⟩ := hs.removed j hj
    exact ⟨ok',List.mem_append_left _ hok⟩
  · rw [List.mem_singleton.mp hj]
    exact ⟨ok,by simp⟩

theorem step_inv (s : State ι) (l : Label ι) (t : State ι) (hs : Inv E start s) (hd : Delivers E s l)
    (h : step E s l = some t) : Inv E start t := by
  have hpc := hs.pc
  cases l with
  | spawned id =>
    cases h
    exact hs.move _ _ hpc
  | event i =>
    simp only [step] at h
    simp only [Delivers] at hd
    split at h
    · rename_i f hf
      cases h
      rw [hf] at hpc hd
      exact hs.event hpc hd.2.2
    · cases h
  | status =>
    simp only [step] at h
    split at h
    · rename_i f i hf
      rw [hf] at hpc
      split at h
      · cases h
        exact hs.move _ _ hpc
      · rename_i hi
        cases h
        exact hs.move _ _ (hpc.skip hi)
    · cases h
  | remove =>
    simp only [step] at h
    split at h
    · rename_i f i ok hf
      cases h
      rw [hf] at hpc
      exact hs.remove hpc ok
    · cases h
  | connected =>
    simp only [step] at h
    split at h
    · cases h
      exact hs.move _ _ ⟨hs.covered,nofun⟩
    · cases h
  | refused | woken | cancelled | broken =>
    simp only [step] at h
    split at h
    · cases h
      exact hs.move _ _ trivial
    · cases h

/-- In every state that can be reached, whatever breaks and whenever, the die events
from the start on and before `since` have been handled. What has not been handled is
asked for again when the next stream is opened. -/
theorem no_event_lost (E : ι → Event) (start : ℤ) (labels : List (Label ι)) (s : State ι)
    (h : Runs (step E) (initial ι start) labels s) (hd : Meets (step E) (Delivers E) (initial ι start) labels) :
    (∀ i, Due E start i → (E i).time < s.since → i ∈ s.handled ∧ ∃ ok, ((E i).id,ok) ∈ s.removals) ∧
    ∀ i, Due E start i → i ∉ s.handled → s.since ≤ (E i).time ∧
      ∀ t, step E s .connected = some t → ∃ f, t.pc = .decoding f ∧ f.since ≤ (E i).time ∧ i ∉ f.delivered := by
  have hinv := h.invariant_of_meets step_inv hd (inv_initial E start)
  constructor
  · intro i hi hlt
    exact ⟨hinv.covered i hi hlt,hinv.removed i (hinv.covered i hi hlt)⟩
  · intro i hi hn
    have hsince : s.since ≤ (E i).time := not_lt.mp (mt (hinv.covered i hi) hn)
    refine ⟨hsince,?_⟩
    intro t ht
    simp only [step] at ht
    split at ht
    · cases ht
      exact ⟨_,rfl,hsince,nofun⟩
    · cases ht

/-- Two of three containers die in second 5; the stream breaks after the first of the
two, and the next attempt is refused. -/
theorem no_event_lost_broken :
    let E : Fin 3 → Event := fun i => [⟨"die","a",4⟩,⟨"die","b",5⟩,⟨"die","c",5⟩].getD i ⟨"die","",0⟩
    let s : State (Fin 3) := ⟨5,2,∅,[("a",false),("b",false)],[0,1],.connecting⟩
    (0 ∈ s.handled ∧ ∃ ok, ("a",ok) ∈ s.removals) ∧ 2 ∉ s.handled ∧ s.since ≤ (E 2).time ∧
      ∀ t, step E s .connected = some t → ∃ f, t.pc = .decoding f ∧ f.since ≤ (E 2).time ∧ 2 ∉ f.delivered := by
  intro E s
  have hlost := no_event_lost E 4 [.connected,.event 0,.status,.remove,.event 1,.status,.remove,.broken,.refused,.woken]
    s (.of_run rfl) (by decide)
  exact ⟨hlost.1 0 (by decide) (by decide),by decide,hlost.2 2 (by decide) (by decide)⟩

end Stout.Docker.WatchEvents
