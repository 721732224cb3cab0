import Stout.Library.Runs

/-! # One job for each key

A caller that does not find what it wants registers for its key. The first to register
starts a job for the key; a job that has a result takes the lock, sends the result to the
channel of each caller that is registered, one after the other, and deletes the key. A
channel has one slot, and a caller may give up while it waits. What a job does on the
shared store is a parameter.
-/
namespace Stout.SingleFlight
variable {κ σ β ε ρ : Type*}

/-- How a caller looks at the store, with a result if that is enough, and how a job works. -/
structure Work (κ σ β ε ρ : Type*) where
  look : κ → σ → ε → Option (Option ρ)
  start : β
  next : κ → σ → β → ε → Option (σ × (β ⊕ ρ))

inductive CallerPc (ρ : Type*) where
  | looking
  | registering
  | waiting
  | returned (r : Option ρ)
deriving DecidableEq, Repr

/-- A caller with its channel: all that was sent to it, by which job, and how much of it was
received. `since` is how many jobs had finished when it registered. -/
structure Caller (κ ρ : Type*) where
  key : κ
  pc : CallerPc ρ
  since : Option ℕ
  sends : List (ℕ × ρ)
  received : ℕ
deriving DecidableEq, Repr

inductive JobPc (β ρ : Type*) where
  | working (b : β)
  | locking (r : ρ)
  | notifying (r : ρ)
  | done (r : ρ)
deriving DecidableEq, Repr

structure Job (κ β ρ : Type*) where
  key : κ
  pc : JobPc β ρ
deriving DecidableEq, Repr

/-- The job that has the lock, and the callers it has not yet sent to. -/
structure Notify (κ ρ : Type*) where
  job : ℕ
  key : κ
  result : ρ
  left : List ℕ
deriving DecidableEq, Repr

structure State (κ σ β ρ : Type*) where
  store : σ
  callers : List (Caller κ ρ)
  table : κ → Option (List ℕ)
  jobs : List (Job κ β ρ)
  mu : Option (Notify κ ρ)
  finished : List ℕ

def initial (store : σ) : State κ σ β ρ := ⟨store,[],fun _ => none,[],none,[]⟩

inductive Label (κ ε : Type*) where
  | call (k : κ)
  | look (i : ℕ) (e : ε)
  | register (i : ℕ)
  | cancel (i : ℕ)
  | receive (i : ℕ)
  | work (j : ℕ) (e : ε)
  | lock (j : ℕ)
  | send
  | finish
deriving DecidableEq, Repr

section Step
variable [DecidableEq κ]

def State.look (w : Work κ σ β ε ρ) (s : State κ σ β ρ) (i : ℕ) (e : ε) : Option (State κ σ β ρ) :=
  match s.callers[i]? with
  | some ⟨k,.looking,n,l,m⟩ => (w.look k s.store e).map fun r => { s with
      callers := s.callers.set i ⟨k,r.elim .registering (fun x => .returned (some x)),n,l,m⟩ }
  | _ => none

/-- A caller registers under the lock and starts the job if the key is new. -/
def State.register (w : Work κ σ β ε ρ) (s : State κ σ β ρ) (i : ℕ) : Option (State κ σ β ρ) :=
  match s.mu, s.callers[i]? with
  | none, some ⟨k,.registering,_,l,m⟩ => some { s with
      callers := s.callers.set i ⟨k,.waiting,some s.finished.length,l,m⟩
      table := Function.update s.table k (some ((s.table k).getD [] ++ [i]))
      jobs := if (s.table k).isSome then s.jobs else s.jobs ++ [⟨k,.working w.start⟩] }
  | _, _ => none

def State.cancel (s : State κ σ β ρ) (i : ℕ) : Option (State κ σ β ρ) :=
  match s.callers[i]? with
  | some ⟨k,.waiting,n,l,m⟩ => some { s with callers := s.callers.set i ⟨k,.returned none,n,l,m⟩ }
  | _ => none

def State.receive (s : State κ σ β ρ) (i : ℕ) : Option (State κ σ β ρ) :=
  match s.callers[i]? with
  | some ⟨k,.waiting,n,l,m⟩ => (l[m]?).map fun x => { s with
      callers := s.callers.set i ⟨k,.returned (some x.2),n,l,m + 1⟩ }
  | _ => none

def State.work (w : Work κ σ β ε ρ) (s : State κ σ β ρ) (j : ℕ) (e : ε) : Option (State κ σ β ρ) :=
  match s.jobs[j]? with
  | some ⟨k,.working b⟩ => (w.next k s.store b e).map fun x => { s with
      store := x.1
      jobs := s.jobs.set j ⟨k,x.2.elim .working .locking⟩ }
  | _ => none

def State.lock (s : State κ σ β ρ) (j : ℕ) : Option (State κ σ β ρ) :=
  match s.mu, s.jobs[j]? with
  | none, some ⟨k,.locking r⟩ => some { s with
      mu := some ⟨j,k,r,(s.table k).getD []⟩
      jobs := s.jobs.set j ⟨k,.notifying r⟩ }
  | _, _ => none

/-- Sending blocks while the slot of the channel is taken. -/
def State.send (s : State κ σ β ρ) : Option (State κ σ β ρ) :=
  match s.mu with
  | some ⟨j,k,r,i :: left⟩ => (s.callers[i]?).bind fun c =>
    if c.received = c.sends.length then
      some { s with
        mu := some ⟨j,k,r,left⟩
        callers := s.callers.set i { c with sends := c.sends ++ [(j,r)] } }
    else none
  | _ => none

def State.finish (s : State κ σ β ρ) : Option (State κ σ β ρ) :=
  match s.mu with
  | some ⟨j,k,r,[]⟩ => some { s with
      mu := none
      table := Function.update s.table k none
      jobs := s.jobs.set j ⟨k,.done r⟩
      finished := s.finished ++ [j] }
  | _ => none

def step (w : Work κ σ β ε ρ) (s : State κ σ β ρ) : Label κ ε → Option (State κ σ β ρ)
  | .call k => some { s with callers := s.callers ++ [⟨k,.looking,none,[],0⟩] }
  | .look i e => s.look w i e
  | .register i => s.register w i
  | .cancel i => s.cancel i
  | .receive i => s.receive i
  | .work j e => s.work w j e
  | .lock j => s.lock j
  | .send => s.send
  | .finish => s.finish

end Step

/-! ## What a step can do -/

section Cases
variable [DecidableEq κ] {w : Work κ σ β ε ρ} {s t : State κ σ β ρ} {l : Label κ ε}

inductive Stepped (w : Work κ σ β ε ρ) (s : State κ σ β ρ) : Label κ ε → State κ σ β ρ → Prop
  | call (k : κ) : Stepped w s (.call k) { s with callers := s.callers ++ [⟨k,.looking,none,[],0⟩] }
  | look (i : ℕ) (e : ε) (c : Caller κ ρ) (hc : s.callers[i]? = some c) (hp : c.pc = .looking) (r : Option ρ)
      (hr : w.look c.key s.store e = some r) : Stepped w s (.look i e)
        { s with callers := s.callers.set i { c with pc := r.elim .registering fun x => .returned (some x) } }
  | register (i : ℕ) (c : Caller κ ρ) (hm : s.mu = none) (hc : s.callers[i]? = some c) (hp : c.pc = .registering) :
      Stepped w s (.register i) { s with
        callers := s.callers.set i { c with pc := .waiting, since := some s.finished.length }
        table := Function.update s.table c.key (some ((s.table c.key).getD [] ++ [i]))
        jobs := if (s.table c.key).isSome then s.jobs else s.jobs ++ [⟨c.key,.working w.start⟩] }
  | cancel (i : ℕ) (c : Caller κ ρ) (hc : s.callers[i]? = some c) (hp : c.pc = .waiting) :
      Stepped w s (.cancel i) { s with callers := s.callers.set i { c with pc := .returned none } }
  | receive (i : ℕ) (c : Caller κ ρ) (hc : s.callers[i]? = some c) (hp : c.pc = .waiting) (x : ℕ × ρ)
      (hx : c.sends[c.received]? = some x) : Stepped w s (.receive i)
        { s with callers := s.callers.set i { c with pc := .returned (some x.2), received := c.received + 1 } }
  | work (j : ℕ) (e : ε) (k : κ) (b : β) (hj : s.jobs[j]? = some ⟨k,.working b⟩) (store : σ) (x : β ⊕ ρ)
      (hx : w.next k s.store b e = some (store,x)) : Stepped w s (.work j e)
        { s with store := store, jobs := s.jobs.set j ⟨k,x.elim .working .locking⟩ }
  | lock (j : ℕ) (k : κ) (r : ρ) (hm : s.mu = none) (hj : s.jobs[j]? = some ⟨k,.locking r⟩) : Stepped w s (.lock j)
        { s with mu := some ⟨j,k,r,(s.table k).getD []⟩, jobs := s.jobs.set j ⟨k,.notifying r⟩ }
  | send (j : ℕ) (k : κ) (r : ρ) (i : ℕ) (left : List ℕ) (hm : s.mu = some ⟨j,k,r,i :: left⟩) (c : Caller κ ρ)
      (hc : s.callers[i]? = some c) (he : c.received = c.sends.length) : Stepped w s .send
        { s with mu := some ⟨j,k,r,left⟩, callers := s.callers.set i { c with sends := c.sends ++ [(j,r)] } }
  | finish (j : ℕ) (k : κ) (r : ρ) (hm : s.mu = some ⟨j,k,r,[]⟩) : Stepped w s .finish
        { s with
          mu := none
          table := Function.update s.table k none
          jobs := s.jobs.set j ⟨k,.done r⟩
          finished := s.finished ++ [j] }

theorem step_cases (h : step w s l = some t) : Stepped w s l t := by
  cases l with
  | call k => cases h; exact .call k
  | look i e =>
    simp only [step, State.look] at h
    split at h
    case h_1 k n l m hc =>
      obtain ⟨r,hr,rfl⟩ := Option.map_eq_some_iff.mp h
      exact .look i e _ hc rfl r hr
    case h_2 => cases h
  | register i =>
    simp only [step, State.register] at h
    split at h
    case h_1 k n l m hm hc => cases h; exact .register i _ hm hc rfl
    case h_2 => cases h
  | cancel i =>
    simp only [step, State.cancel] at h
    split at h
    case h_1 k n l m hc => cases h; exact .cancel i _ hc rfl
    case h_2 => cases h
  | receive i =>
    simp only [step, State.receive] at h
    split at h
    case h_1 k n l m hc =>
      obtain ⟨x,hx,rfl⟩ := Option.map_eq_some_iff.mp h
      exact .receive i _ hc rfl x hx
    case h_2 => cases h
  | work j e =>
    simp only [step, State.work] at h
    split at h
    case h_1 k b hj =>
      obtain ⟨⟨store,x⟩,hx,rfl⟩ := Option.map_eq_some_iff.mp h
      exact .work j e k b hj store x hx
    case h_2 => cases h
  | lock j =>
    simp only [step, State.lock] at h
    split at h
    case h_1 k r hm hj => cases h; exact .lock j k r hm hj
    case h_2 => cases h
  | send =>
    simp only [step, State.send] at h
    split at h
    case h_1 j k r i left hm =>
      obtain ⟨c,hc,ht⟩ := Option.bind_eq_some_iff.mp h
      obtain ⟨he,ht⟩ := Option.ite_none_right_eq_some.mp ht
      cases ht
      exact .send j k r i left hm c hc he
    case h_2 => cases h
  | finish =>
    simp only [step, State.finish] at h
    split at h
    case h_1 j k r hm => cases h; exact .finish j k r hm
    case h_2 => cases h

end Cases

end Stout.SingleFlight
