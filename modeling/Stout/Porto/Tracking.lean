import Stout.Library.RangeOrder
import Stout.Library.Threads
import Stout.Porto.Cleanup

/-! # Containers are tracked or cleaned up

The porto box from the return of `newContainer` on: `Spawn` puts the container into
`containers` and starts it, the dispatchers call `Kill`, and `waitLoop` goes over the
names in `containers`, takes a container that is dead or missing out of it and kills it.
`Kill` makes a connection of its own, and only then is `Cleanup` deferred. What `Cleanup`
does with the allocation is that of the clean-ups of containers.
-/
namespace Stout.Porto.Tracking
open Mtn
open Std (ExtTreeMap)
open RangeOrder Threads

/-- Where a call of `Spawn` or `Kill` on a container is. `Spawn` goes through `inserting`
and `starting`, `Kill` through `connecting` and `killing`; both may end with a call of
`Cleanup`. -/
inductive Pc where
  | inserting (id : String)
  | starting
  | connecting
  | killing
  | cleaning
  | cleanup (call : ℕ)
  | returned
deriving DecidableEq, Repr

structure User where
  container : ℕ
  pc : Pc
deriving DecidableEq, Repr

/-- Where `waitLoop` is; a `Kill` that it makes is one of the users, and it waits for it. -/
inductive Loop where
  | sleeping
  | checking (names : List String)
  | killing (user : ℕ) (names : List String)
  | stopped
  | crashed
deriving DecidableEq, Repr

/-- A container is known by its place among all that were created. -/
structure State where
  core : Cleanup.State
  containers : ExtTreeMap String ℕ compare
  users : List User
  loop : Loop

def initial (db : Db) : State := ⟨Cleanup.initial db,∅,[],.sleeping⟩

/-- What `GetProperty` says of the state of a container: alive, dead or missing, another
error of porto, or an error that is not porto's, on which the conversion panics. -/
inductive Seen where
  | alive
  | dead
  | doesNotExist
  | portoError
  | otherError
deriving DecidableEq, Repr

inductive Label where
  | newContainer (id : String) (mtn : Bool) (netId box : String) (env : Env)
  | bindAllocs (netId : String) (env : Env)
  | insert (u : ℕ)
  | start (u : ℕ) (ok : Bool)
  | kill (i : ℕ)
  | connect (u : ℕ) (ok : Bool)
  | killed (u : ℕ)
  | read (u : ℕ)
  | unuseAlloc (u : ℕ) (env : Env)
  | set (u : ℕ)
  | cleaned (u : ℕ)
  | list (order : List ℕ)
  | check (seen : Seen)
  | next
  | stop

def State.move (s : State) (u : ℕ) (x : User) (pc : Pc) : State := { s with users := s.users.set u { x with pc := pc } }

/-- `newContainer` answers; if it has a container, a call of `Spawn` goes on with it. -/
def State.newContainer (cfg : MtnCfg) (s : State) (id : String) (mtn : Bool) (netId box : String) (env : Env) : State :=
  let core := s.core.newContainer cfg mtn netId box env
  if core.containers.length = s.core.containers.length then { s with core := core }
  else { s with core := core, users := s.users ++ [⟨s.core.containers.length,.inserting id⟩] }

/-- One operation of a call of `Spawn` or `Kill`. What `Kill` asks porto for after it has
connected does not keep it from `Cleanup`, whatever the answers. -/
def State.use (s : State) (u : ℕ) (x : User) : Pc → Label → Option State
  | .inserting id, .insert _ =>
    some { s.move u x .starting with containers := s.containers.insert id x.container }
  | .starting, .start _ true => some (s.move u x .returned)
  | .starting, .start _ false => some (s.move u x .cleaning)
  | .connecting, .connect _ true => some (s.move u x .killing)
  | .connecting, .connect _ false => some (s.move u x .returned)
  | .killing, .killed _ => some (s.move u x .cleaning)
  | .cleaning, .read _ =>
    (s.core.read x.container).map fun core => { s.move u x (.cleanup s.core.calls.length) with core := core }
  | .cleanup j, .unuseAlloc _ env => (s.core.unuseAlloc j env).map fun core => { s with core := core }
  | .cleanup j, .set _ => (s.core.set j).map fun core => { s with core := core }
  | .cleanup j, .cleaned _ => if s.core.calls[j]? = some ⟨x.container,.past⟩ then some (s.move u x .returned) else none
  | _, _ => none

def State.take (s : State) (name : String) (names : List String) : State :=
  match s.containers[name]? with
  | none => { s with loop := .checking names }
  | some i => { s with
      containers := s.containers.erase name
      users := s.users ++ [⟨i,.connecting⟩]
      loop := .killing s.users.length names }

def State.check (s : State) (name : String) (names : List String) : Seen → State
  | .alive => { s with loop := .checking names }
  | .dead | .doesNotExist => s.take name names
  | .portoError => { s with loop := .sleeping }
  | .otherError => { s with loop := .crashed }

def step (cfg : MtnCfg) (s : State) (l : Label) : Option State :=
  if s.loop = .crashed then none
  else match l with
    | .newContainer id mtn netId box env => some (s.newContainer cfg id mtn netId box env)
    | .bindAllocs netId env => some { s with core := { s.core with db := (Mtn.bindAllocs cfg netId ⟨s.core.db,env⟩).2.db } }
    | .kill i => if i < s.core.containers.length then some { s with users := s.users ++ [⟨i,.connecting⟩] } else none
    | .list order =>
      if s.loop = .sleeping then some { s with loop := .checking (arrange order s.containers.keys) } else none
    | .check seen =>
      match s.loop with
      | .checking (name :: names) => some (s.check name names seen)
      | _ => none
    | .next =>
      match s.loop with
      | .checking [] => some { s with loop := .sleeping }
      | .killing u names =>
        if (s.users[u]?).any (·.pc = .returned) then some { s with loop := .checking names } else none
      | _ => none
    | .stop => if s.loop = .sleeping then some { s with loop := .stopped } else none
    | .insert u | .start u _ | .connect u _ | .killed u | .read u | .unuseAlloc u _ | .set u | .cleaned u =>
      (s.users[u]?).bind fun x => s.use u x x.pc l

/-! ## The property -/

def Idle (s : State) (i : ℕ) : Prop := ∀ x ∈ s.users, x.container = i → x.pc = .returned

def Tracked (s : State) (i : ℕ) : Prop := ∃ id : String, s.containers[id]? = some i

/-- A call of `Cleanup` on the container is done with its allocation, for which
`UnuseAlloc` has been called. -/
def Cleaned (s : State) (i : ℕ) : Prop :=
  ⟨i,.past⟩ ∈ s.core.calls ∧ ∀ c, s.core.containers[i]? = some c → c.mtn = true → 0 < c.unused

def TrackedOrCleaned (s : State) : Prop :=
  ∀ i < s.core.containers.length, Idle s i → Tracked s i ∨ Cleaned s i

def Pc.cares : Pc → Bool
  | .inserting _ | .killing | .cleaning | .cleanup _ => true
  | .starting | .connecting | .returned => false

def caredFor (s : State) (i : ℕ) : Bool :=
  decide (⟨i,.past⟩ ∈ s.core.calls) || s.users.any fun x => decide (x.container = i) && x.pc.cares

def Loop.kills : Loop → ℕ → Bool
  | .killing v _, u => v == u
  | _, _ => false

/-- The container whose entry `Spawn` is about to replace. -/
def replaced (s : State) (u : ℕ) : Option ℕ :=
  match s.users[u]? with
  | some ⟨_,.inserting id⟩ => s.containers[id]?
  | _ => none

/-- A `Kill` that `waitLoop` makes gets its connection, and `Spawn` replaces no container in
the table, unless the container is cared for otherwise. -/
def Careful (s : State) : Label → Prop
  | .connect u false => s.loop.kills u = true → (s.users[u]?).all (fun x => caredFor s x.container) = true
  | .insert u => (replaced s u).all (caredFor s) = true
  | _ => True

instance (s : State) (l : Label) : Decidable (Careful s l) :=
  match l with
  | .connect u false => inferInstanceAs
      (Decidable (s.loop.kills u = true → (s.users[u]?).all (fun x => caredFor s x.container) = true))
  | .insert u => inferInstanceAs (Decidable ((replaced s u).all (caredFor s) = true))
  | .connect _ true | .newContainer _ _ _ _ _ | .bindAllocs _ _ | .start _ _ | .kill _ | .killed _ | .read _
  | .unuseAlloc _ _ | .set _ | .cleaned _ | .list _ | .check _ | .next | .stop => .isTrue trivial

/-! ## Allocations of containers that were cleaned up -/

/-- The flag of a container, and a call of `Cleanup` that is past `UnuseAlloc`, say that
`UnuseAlloc` was called. -/
structure Released (core : Cleanup.State) : Prop where
  known : ∀ k ∈ core.calls, k.container < core.containers.length
  flag : ∀ (i : ℕ) (c : Cleanup.Container), core.containers[i]? = some c → c.mtn = true → c.mtnAllocCleaned = true →
    0 < c.unused
  call : ∀ k ∈ core.calls, k.phase ≠ .unusing → ∀ c, core.containers[k.container]? = some c → c.mtn = true → 0 < c.unused

/-- Clean-ups move on: those that are past their end stay so, and the containers stay. -/
structure Advances (core core' : Cleanup.State) : Prop where
  past : ∀ i, ⟨i,.past⟩ ∈ core.calls → ⟨i,.past⟩ ∈ core'.calls
  length : core'.containers.length = core.containers.length

section Core
variable {core core' : Cleanup.State} {i j : ℕ} {c : Cleanup.Container} {env : Env}

theorem Released.add (h : Released core) {db : Db} (hc : c.mtn = true → c.mtnAllocCleaned = false) :
    Released ⟨db,core.containers ++ [c],core.calls⟩ := by
  refine ⟨?_,?_,?_⟩
  · intro k hk
    have := h.known k hk
    rw [List.length_append]
    omega
  · intro i d hd hm hf
    rw [List.getElem?_append] at hd
    split at hd
    · exact h.flag i d hd hm hf
    · cases List.mem_singleton.mp (List.mem_of_getElem? hd)
      rw [hc hm] at hf
      cases hf
  · intro k hk hp d hd
    rw [List.getElem?_append_left (h.known k hk)] at hd
    exact h.call k hk hp d hd

theorem newContainer_grows (cfg : MtnCfg) (core : Cleanup.State) (mtn : Bool) (netId box : String) (env : Env) :
    (Released core → Released (core.newContainer cfg mtn netId box env)) ∧
      (core.newContainer cfg mtn netId box env).calls = core.calls ∧
      ((core.newContainer cfg mtn netId box env).containers.length = core.containers.length ∨
        (core.newContainer cfg mtn netId box env).containers.length = core.containers.length + 1) := by
  unfold Cleanup.State.newContainer
  split
  · split
    · exact ⟨fun h => h.add fun _ => rfl,rfl,Or.inr (by simp)⟩
    · exact ⟨fun h => ⟨h.known,h.flag,h.call⟩,rfl,Or.inl rfl⟩
  · exact ⟨fun h => h.add nofun,rfl,Or.inr (by simp)⟩

theorem Released.read (h : Released core) (hr : core.read i = some core') : Released core' ∧ Advances core core' := by
  obtain ⟨c,hc,rfl⟩ := Option.map_eq_some_iff.mp hr
  refine ⟨⟨?_,h.flag,?_⟩,fun i hi => List.mem_append_left _ hi,rfl⟩
  · intro k hk
    rcases List.mem_append.mp hk with hk | hk
    · exact h.known k hk
    · rw [List.mem_singleton.mp hk]
      exact (List.getElem?_eq_some_iff.mp hc).1
  · intro k hk hp d hd hm
    rcases List.mem_append.mp hk with hk | hk
    · exact h.call k hk hp d hd hm
    · rw [List.mem_singleton.mp hk] at hp hd
      cases hc.symm.trans hd
      refine h.flag i c hc hm ?_
      by_contra hf
      exact hp (if_pos (by simp [hm, hf]))

theorem Released.set (h : Released core) {x y : Cleanup.Phase} {c' : Cleanup.Container} {db : Db}
    (hj : core.calls[j]? = some ⟨i,x⟩) (hx : x ≠ .past) (hc : core.containers[i]? = some c)
    (hu : c'.mtn = true → 0 < c'.unused) :
    Released ⟨db,core.containers.set i c',core.calls.set j ⟨i,y⟩⟩ ∧
      Advances core ⟨db,core.containers.set i c',core.calls.set j ⟨i,y⟩⟩ := by
  have hlen := (List.getElem?_eq_some_iff.mp hc).1
  refine ⟨⟨?_,?_,?_⟩,?_,?_⟩
  · intro k hk
    rw [List.length_set]
    rcases List.mem_or_eq_of_mem_set hk with hk | rfl
    · exact h.known k hk
    · exact hlen
  · intro m d hd hdm hf
    rcases of_getElem?_set hd with ⟨-,rfl⟩ | ⟨-,hd⟩
    · exact hu hdm
    · exact h.flag m d hd hdm hf
  · intro k hk hp d hd hdm
    rcases of_getElem?_set hd with ⟨-,rfl⟩ | ⟨he,hd⟩
    · exact hu hdm
    · rcases List.mem_or_eq_of_mem_set hk with hk | rfl
      · exact h.call k hk hp d hd hdm
      · exact absurd rfl he
  · intro m hm
    obtain ⟨n,hn⟩ := List.getElem?_of_mem hm
    have hne : j ≠ n := by
      rintro rfl
      cases hj.symm.trans hn
      exact hx rfl
    exact List.mem_of_getElem? (i := n) (by rw [List.getElem?_set_ne hne, hn])
  · exact List.length_set

theorem Released.unuseAlloc (h : Released core) (hs : core.unuseAlloc j env = some core') :
    Released core' ∧ Advances core core' := by
  unfold Cleanup.State.unuseAlloc at hs
  split at hs
  case h_1 i hj =>
    obtain ⟨c,hc,rfl⟩ := Option.map_eq_some_iff.mp hs
    exact h.set hj nofun hc fun _ => Nat.succ_pos _
  case h_2 => cases hs

theorem Released.setFlag (h : Released core) (hs : core.set j = some core') : Released core' ∧ Advances core core' := by
  unfold Cleanup.State.set at hs
  split at hs
  case h_1 i hj =>
    obtain ⟨c,hc,rfl⟩ := Option.map_eq_some_iff.mp hs
    exact h.set hj nofun hc (h.call _ (List.mem_of_getElem? hj) nofun c hc)
  case h_2 => cases hs

end Core

/-! ## No container is lost -/

/-- The container is cared for, or `waitLoop` has taken it out of the table and its `Kill`
is about to connect. -/
def Handled (s : State) (i : ℕ) : Prop :=
  caredFor s i = true ∨ ∃ u names, s.loop = .killing u names ∧ s.users[u]? = some ⟨i,.connecting⟩

structure Inv (s : State) : Prop where
  released : Released s.core
  kept : ∀ i < s.core.containers.length, Tracked s i ∨ Handled s i

section Handled
variable {s : State} {i u : ℕ} {x : User}

theorem caredFor_iff : caredFor s i = true ↔ ⟨i,.past⟩ ∈ s.core.calls ∨ ∃ x ∈ s.users, x.container = i ∧ x.pc.cares = true := by
  simp [caredFor]

theorem Handled.setCore {core : Cleanup.State} (hp : ⟨i,.past⟩ ∈ s.core.calls → ⟨i,.past⟩ ∈ core.calls) (h : Handled s i) :
    Handled { s with core := core } i :=
  h.imp_left fun hc => caredFor_iff.mpr ((caredFor_iff.mp hc).imp_left hp)

theorem caredFor_addUser (hc : caredFor s i = true) (x : User) : caredFor { s with users := s.users ++ [x] } i = true := by
  refine caredFor_iff.mpr ((caredFor_iff.mp hc).imp_right ?_)
  rintro ⟨y,hy,hrest⟩
  exact ⟨y,List.mem_append_left _ hy,hrest⟩

theorem Handled.addUser (h : Handled s i) (x : User) : Handled { s with users := s.users ++ [x] } i := by
  refine h.imp (caredFor_addUser · x) ?_
  rintro ⟨u,names,hl,hu⟩
  exact ⟨u,names,hl,by rw [List.getElem?_append_left (List.getElem?_eq_some_iff.mp hu).1, hu]⟩

theorem Handled.move (h : Handled s i) (hu : s.users[u]? = some x) {pc : Pc}
    (hcare : x.container = i → x.pc.cares = true → pc.cares = true ∨ ⟨i,.past⟩ ∈ s.core.calls)
    (hconn : x.container = i → x.pc = .connecting → s.loop.kills u = true → pc.cares = true ∨ caredFor s i = true) :
    Handled (s.move u x pc) i := by
  have hlen := (List.getElem?_eq_some_iff.mp hu).1
  have hself : x.container = i → pc.cares = true → caredFor (s.move u x pc) i = true := by
    intro hi hc
    exact caredFor_iff.mpr (Or.inr ⟨_,List.mem_of_getElem? (List.getElem?_set_self hlen),hi,hc⟩)
  have hcares : caredFor s i = true → caredFor (s.move u x pc) i = true := by
    intro hc
    rcases caredFor_iff.mp hc with hp | ⟨y,hy,hyi,hyc⟩
    · exact caredFor_iff.mpr (Or.inl hp)
    obtain ⟨v,hv⟩ := List.getElem?_of_mem hy
    by_cases he : u = v
    · subst he
      cases hu.symm.trans hv
      rcases hcare hyi hyc with hpc | hp
      · exact hself hyi hpc
      · exact caredFor_iff.mpr (Or.inl hp)
    · refine caredFor_iff.mpr (Or.inr ⟨y,List.mem_of_getElem? (i := v) ?_,hyi,hyc⟩)
      exact (List.getElem?_set_ne he).trans hv
  rcases h with hc | ⟨v,names,hl,hv⟩
  · exact Or.inl (hcares hc)
  by_cases he : u = v
  · subst he
    cases hu.symm.trans hv
    rcases hconn rfl rfl (by simp [hl, Loop.kills]) with hpc | hc
    · exact Or.inl (hself rfl hpc)
    · exact Or.inl (hcares hc)
  · exact Or.inr ⟨v,names,hl,(List.getElem?_set_ne he).trans hv⟩

end Handled

section Step
variable {cfg : MtnCfg} {s t : State} {u : ℕ} {x : User} {l : Label}

theorem Inv.trackedOrCleaned (h : Inv s) : TrackedOrCleaned s := by
  intro i hi hidle
  rcases h.kept i hi with ht | hc | ⟨u,names,-,hu⟩
  · exact Or.inl ht
  · rcases caredFor_iff.mp hc with hp | ⟨x,hx,hxi,hcares⟩
    · exact Or.inr ⟨hp,h.released.call _ hp nofun⟩
    · rw [hidle x hx hxi] at hcares
      cases hcares
  · cases hidle _ (List.mem_of_getElem? hu) rfl

theorem inv_initial (db : Db) : Inv (initial db) :=
  ⟨⟨nofun,by simp [initial, Cleanup.initial],nofun⟩,nofun⟩

theorem Inv.newContainer (h : Inv s) (id : String) (mtn : Bool) (netId box : String) (env : Env) :
    Inv (s.newContainer cfg id mtn netId box env) := by
  obtain ⟨hrel,hcalls,hlen⟩ := newContainer_grows cfg s.core mtn netId box env
  have hp : ∀ i, ⟨i,.past⟩ ∈ s.core.calls → ⟨i,.past⟩ ∈ (s.core.newContainer cfg mtn netId box env).calls := fun i hi => hcalls ▸ hi
  unfold State.newContainer
  dsimp only
  split
  case isTrue heq => exact ⟨hrel h.released,fun i hi => (h.kept i (heq ▸ hi)).imp_right (.setCore (hp i))⟩
  case isFalse hne =>
    refine ⟨hrel h.released,fun i hi => ?_⟩
    dsimp only at hi
    by_cases hold : i < s.core.containers.length
    · exact (h.kept i hold).imp_right fun hk => (hk.setCore (hp i)).addUser _
    -- The container is the new one: `Spawn` is about to put it into the table.
    · have he : s.core.containers.length = i := by omega
      exact Or.inr (Or.inl (caredFor_iff.mpr (Or.inr ⟨_,List.mem_append_right _ (List.mem_singleton_self _),he,rfl⟩)))

theorem Inv.moveLoop (h : Inv s) (loop : Loop)
    (hl : ∀ u names, s.loop = .killing u names → ∀ i, s.users[u]? ≠ some ⟨i,.connecting⟩) : Inv { s with loop := loop } := by
  refine ⟨h.released,fun i hi => (h.kept i hi).imp_right (Or.imp_right ?_)⟩
  rintro ⟨u,names,hk,hu⟩
  exact absurd hu (hl u names hk i)

theorem Inv.take (h : Inv s) (name : String) (names : List String) (hl : ∀ u names, s.loop ≠ .killing u names) :
    Inv (s.take name names) := by
  unfold State.take
  split
  case h_1 => exact h.moveLoop _ fun u names hk => absurd hk (hl u names)
  case h_2 i hget =>
    refine ⟨h.released,fun k hk => ?_⟩
    rcases h.kept k hk with ⟨id,hid⟩ | hc | ⟨u,names,hk,-⟩
    · by_cases he : name = id
      · subst he
        cases hget.symm.trans hid
        refine Or.inr (Or.inr ⟨s.users.length,names,rfl,?_⟩)
        rw [List.getElem?_append_right le_rfl, Nat.sub_self, List.getElem?_cons_zero]
      · exact Or.inl ⟨id,by rw [ExtTreeMap.getElem?_erase, if_neg (by simpa using he), hid]⟩
    · exact Or.inr (Or.inl (caredFor_addUser hc _))
    · exact absurd hk (hl u names)

theorem Inv.check (h : Inv s) (name : String) (names : List String) (seen : Seen) (hl : ∀ u names, s.loop ≠ .killing u names) :
    Inv (s.check name names seen) := by
  have hmove : ∀ loop, Inv { s with loop := loop } := fun loop => h.moveLoop loop fun u names hk => absurd hk (hl u names)
  cases seen with
  | alive => exact hmove _
  | dead => exact h.take name names hl
  | doesNotExist => exact h.take name names hl
  | portoError => exact hmove _
  | otherError => exact hmove _

theorem Inv.insert (h : Inv s) {id : String} (hx : s.users[u]? = some x)
    (hg : ∀ i, s.containers[id]? = some i → caredFor s i = true) :
    Inv { s.move u x .starting with containers := s.containers.insert id x.container } := by
  refine ⟨h.released,fun i hi => ?_⟩
  by_cases he : x.container = i
  · exact Or.inl ⟨id,by rw [ExtTreeMap.getElem?_insert_self, he]⟩
  have hmove : Handled s i → Handled (s.move u x .starting) i :=
    fun hk => hk.move hx (fun hi => absurd hi he) (fun hi => absurd hi he)
  rcases h.kept i hi with ⟨id',hid⟩ | hk
  · by_cases hsame : id = id'
    · subst hsame
      exact Or.inr (hmove (Or.inl (hg i hid)))
    · exact Or.inl ⟨id',by rw [ExtTreeMap.getElem?_insert, if_neg (by simpa using hsame)]; exact hid⟩
  · exact Or.inr (hmove hk)

def Label.user : Label → Option ℕ
  | .insert u | .start u _ | .connect u _ | .killed u | .read u | .unuseAlloc u _ | .set u | .cleaned u => some u
  | _ => none

theorem Inv.setCore (h : Inv s) {core : Cleanup.State} (hr : Released core) (ha : Advances s.core core) :
    Inv { s with core := core } :=
  ⟨hr,fun i hi => (h.kept i (ha.length ▸ hi)).imp_right (.setCore (ha.past i))⟩

theorem Inv.move (h : Inv s) (hx : s.users[u]? = some x) {pc : Pc}
    (hcare : x.pc.cares = true → pc.cares = true ∨ ⟨x.container,.past⟩ ∈ s.core.calls)
    (hconn : x.pc = .connecting → s.loop.kills u = true → pc.cares = true ∨ caredFor s x.container = true) :
    Inv (s.move u x pc) := by
  refine ⟨h.released,fun i hi => (h.kept i hi).imp_right fun hk => hk.move hx ?_ ?_⟩
  · rintro rfl
    exact hcare
  · rintro rfl
    exact hconn

theorem Inv.use (h : Inv s) (hx : s.users[u]? = some x) (hl : l.user = some u) (hg : Careful s l)
    (hs : s.use u x x.pc l = some t) : Inv t := by
  obtain ⟨k,pc⟩ := x
  have hcares : ∀ {pc' : Pc}, pc'.cares = true → Inv (s.move u ⟨k,pc⟩ pc') :=
    fun hpc => h.move hx (fun _ => Or.inl hpc) (fun _ _ => Or.inl hpc)
  dsimp only at hs
  unfold State.use at hs
  split at hs
  -- insert
  case h_1 id v =>
    cases hl
    cases hs
    refine h.insert hx fun i hi => ?_
    simpa [Careful, replaced, hx, hi] using hg
  -- start
  case h_2 =>
    cases hs
    exact h.move hx nofun nofun
  case h_3 =>
    cases hs
    exact hcares rfl
  -- connect
  case h_4 =>
    cases hs
    exact hcares rfl
  case h_5 v =>
    cases hl
    cases hs
    refine h.move hx nofun fun _ hk => Or.inr ?_
    simpa [hx] using hg hk
  -- killed
  case h_6 =>
    cases hs
    exact hcares rfl
  -- the steps of `Cleanup`
  case h_7 =>
    obtain ⟨core,hc,rfl⟩ := Option.map_eq_some_iff.mp hs
    obtain ⟨hr,ha⟩ := h.released.read hc
    exact (hcares rfl).setCore hr ha
  case h_8 =>
    obtain ⟨core,hc,rfl⟩ := Option.map_eq_some_iff.mp hs
    obtain ⟨hr,ha⟩ := h.released.unuseAlloc hc
    exact h.setCore hr ha
  case h_9 =>
    obtain ⟨core,hc,rfl⟩ := Option.map_eq_some_iff.mp hs
    obtain ⟨hr,ha⟩ := h.released.setFlag hc
    exact h.setCore hr ha
  case h_10 j v =>
    split at hs
    case isTrue hpast =>
      cases hs
      exact h.move hx (fun _ => Or.inr (List.mem_of_getElem? hpast)) nofun
    case isFalse => cases hs
  case h_11 => cases hs

theorem Inv.step (h : Inv s) (hg : Careful s l) (hs : step cfg s l = some t) : Inv t := by
  unfold Tracking.step at hs
  split at hs
  case isTrue => cases hs
  cases l with
  | newContainer id mtn netId box env =>
    cases hs
    exact h.newContainer id mtn netId box env
  | bindAllocs netId env =>
    cases hs
    exact h.setCore ⟨h.released.known,h.released.flag,h.released.call⟩ ⟨fun _ hi => hi,rfl⟩
  | kill i =>
    obtain ⟨-,hs⟩ := Option.ite_none_right_eq_some.mp hs
    cases hs
    exact ⟨h.released,fun i hi => (h.kept i hi).imp_right (.addUser · _)⟩
  | list order =>
    obtain ⟨hl,hs⟩ := Option.ite_none_right_eq_some.mp hs
    cases hs
    exact h.moveLoop _ fun u names hk => by cases hl.symm.trans hk
  | check seen =>
    dsimp only at hs
    split at hs
    case h_1 name names hl =>
      cases hs
      exact h.check name names seen fun u names hk => by cases hl.symm.trans hk
    case h_2 => cases hs
  | next =>
    dsimp only at hs
    split at hs
    case h_1 hl =>
      cases hs
      exact h.moveLoop _ fun u names hk => by cases hl.symm.trans hk
    case h_2 u names hl =>
      obtain ⟨hret,hs⟩ := Option.ite_none_right_eq_some.mp hs
      cases hs
      refine h.moveLoop _ fun v names' hk i hv => ?_
      cases hl.symm.trans hk
      simp [hv] at hret
    case h_3 => cases hs
  | stop =>
    obtain ⟨hl,hs⟩ := Option.ite_none_right_eq_some.mp hs
    cases hs
    exact h.moveLoop _ fun u names hk => by cases hl.symm.trans hk
  | insert u | start u _ | connect u _ | killed u | read u | unuseAlloc u _ | set u | cleaned u =>
    obtain ⟨x,hx,hs⟩ := Option.bind_eq_some_iff.mp hs
    exact h.use hx rfl hg hs

end Step

/-- In a run in which every `Kill` that `waitLoop` makes gets its connection and no `Spawn`
replaces a container in the table, unless that container is cleaned up otherwise, no
container that `newContainer` returned is lost: when no call on it is on its way it is in
the table or was cleaned up. -/
theorem trackedOrCleaned_of_careful {cfg : MtnCfg} {db : Db} {ls : List Label} {t : State}
    (h : Runs (step cfg) (initial db) ls t) (hg : Meets (step cfg) Careful (initial db) ls) : TrackedOrCleaned t :=
  (h.invariant_of_meets (fun _ _ _ hI hG hs => Inv.step hI hG hs) hg (inv_initial db)).trackedOrCleaned

/-- A container with an address is started and dies, and `waitLoop` takes it out of the table. -/
def startedThenDead : List Label :=
  [.newContainer "app_1" true "lan" "box" silent,.insert 0,.start 0 true,.list [0],.check .dead]

/-- The `Kill` of `waitLoop` gets its connection, a `Kill` of a dispatcher does not. -/
def deadThenCleaned : List Label :=
  startedThenDead ++ ([.kill 0,.connect 2 false,.connect 1 true,.killed 1,.read 1,.unuseAlloc 1 silent,.set 1,.cleaned 1,
    .next,.next] : List Label)

theorem trackedOrCleaned_of_careful_dead :
    ∃ t, Runs (step lanCfg) (initial lanDb) deadThenCleaned t ∧ t.containers.keys = [] ∧ Cleaned t 0 := by
  have hobs : (run (step lanCfg) (initial lanDb) deadThenCleaned).map
      (fun t => (t.containers.keys,t.users,t.core.containers.length)) =
        some ([],[⟨0,.returned⟩,⟨0,.returned⟩,⟨0,.returned⟩],1) := by
    decide +kernel
  obtain ⟨t,ht,ho⟩ := Option.map_eq_some_iff.mp hobs
  simp only [Prod.mk.injEq] at ho
  obtain ⟨hk,hu,hl⟩ := ho
  have hr := Runs.of_run ht
  have hidle : Idle t 0 := by simp [Idle, hu]
  refine ⟨t,hr,hk,(trackedOrCleaned_of_careful hr (by decide +kernel) 0 (by omega) hidle).resolve_left ?_⟩
  rintro ⟨id,hid⟩
  simp [ExtTreeMap.keys_eq_nil_iff.mp hk] at hid

/-- The `Kill` of `waitLoop` gets no connection. The container is in no table, nothing is
on its way for it, and its address stays taken. -/
theorem lost_without_connection :
    ∃ t, Runs (step lanCfg) (initial lanDb) (startedThenDead ++ ([.connect 1 false,.next,.next] : List Label)) t ∧
      ("lan","a1") ∈ held t.core.db ∧ ¬TrackedOrCleaned t := by
  have hobs : (run (step lanCfg) (initial lanDb) (startedThenDead ++ ([.connect 1 false,.next,.next] : List Label))).map
      (fun t => (t.containers.keys,t.users,t.core.containers.length,t.core.calls.length,
        (record t.core.db "lan" "a1").map (·.used))) =
        some ([],[⟨0,.returned⟩,⟨0,.returned⟩],1,0,some true) := by
    decide +kernel
  obtain ⟨t,ht,ho⟩ := Option.map_eq_some_iff.mp hobs
  simp only [Prod.mk.injEq] at ho
  obtain ⟨hk,hu,hl,hc,hrec⟩ := ho
  refine ⟨t,Runs.of_run ht,Option.map_eq_some_iff.mp hrec,fun h => ?_⟩
  have hidle : Idle t 0 := by simp [Idle, hu]
  rcases h 0 (by omega) hidle with ⟨id,hid⟩ | ⟨hp,-⟩
  · simp [ExtTreeMap.keys_eq_nil_iff.mp hk] at hid
  · simp [List.length_eq_zero_iff.mp hc] at hp

end Stout.Porto.Tracking
