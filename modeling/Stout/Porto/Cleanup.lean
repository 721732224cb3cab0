import Stout.Library.Threads
import Stout.Isolate.MtnRuns

/-! # Clean-ups of a container and its MTN allocation

`Cleanup` reads `mtnAllocCleaned`, calls `UnuseAlloc` if it is not set, and sets it.
Any number of calls on any container may be on their way at once, among containers
being created and pools being refilled. What else `Cleanup` and `Kill` do touches
neither the flag nor the database.
-/
namespace Stout.Porto.Cleanup
open Mtn Threads

/-- The fields of `container` that `Cleanup` uses for the allocation, and how often
`UnuseAlloc` has been called for it. -/
structure Container where
  mtn : Bool
  netId : String
  mtnAllocationId : String
  mtnAllocCleaned : Bool
  unused : ℕ
deriving DecidableEq, Repr

/-- Where a call of `Cleanup` is: before `UnuseAlloc`, before the flag is set, or done
with both. -/
inductive Phase where
  | unusing
  | setting
  | past
deriving DecidableEq, Repr

structure Call where
  container : ℕ
  phase : Phase
deriving DecidableEq, Repr

structure State where
  db : Db
  containers : List Container
  calls : List Call

def initial (db : Db) : State := ⟨db,[],[]⟩

inductive Label where
  | newContainer (mtn : Bool) (netId box : String) (env : Env)
  | bindAllocs (netId : String) (env : Env)
  | read (container : ℕ)
  | unuseAlloc (call : ℕ) (env : Env)
  | set (call : ℕ)

/-- The container is there once `UseAlloc` has answered; without MTN it is there with
the flag set. -/
def State.newContainer (cfg : MtnCfg) (s : State) (mtn : Bool) (netId box : String) (env : Env) : State :=
  if mtn then
    match useAlloc cfg netId box ⟨s.db,env⟩ with
    | (.ok a,t) => { s with db := t.db, containers := s.containers ++ [⟨true,netId,a.id,false,0⟩] }
    | (_,t) => { s with db := t.db }
  else { s with containers := s.containers ++ [⟨false,netId,"",true,0⟩] }

def State.read (s : State) (i : ℕ) : Option State :=
  (s.containers[i]?).map fun c =>
    { s with calls := s.calls ++ [⟨i,if c.mtn && !c.mtnAllocCleaned then .unusing else .past⟩] }

def State.unuseAlloc (s : State) (j : ℕ) (env : Env) : Option State :=
  match s.calls[j]? with
  | some ⟨i,.unusing⟩ => (s.containers[i]?).map fun c =>
      ⟨(Mtn.unuseAlloc c.netId c.mtnAllocationId ⟨s.db,env⟩).2.db,
        s.containers.set i { c with unused := c.unused + 1 },s.calls.set j ⟨i,.setting⟩⟩
  | _ => none

def State.set (s : State) (j : ℕ) : Option State :=
  match s.calls[j]? with
  | some ⟨i,.setting⟩ => (s.containers[i]?).map fun c =>
      { s with
        containers := s.containers.set i { c with mtnAllocCleaned := true }
        calls := s.calls.set j ⟨i,.past⟩ }
  | _ => none

def step (cfg : MtnCfg) (s : State) : Label → Option State
  | .newContainer mtn netId box env => some (s.newContainer cfg mtn netId box env)
  | .bindAllocs netId env => some { s with db := (Mtn.bindAllocs cfg netId ⟨s.db,env⟩).2.db }
  | .read i => s.read i
  | .unuseAlloc j env => s.unuseAlloc j env
  | .set j => s.set j

/-- The flag of a container is read only when every earlier call that found it unset
has set it. The other two cases are the assumption on the allocator. -/
def Serial (s : State) : Label → Prop
  | .newContainer mtn netId _ env => mtn = true → FreshFor s.db netId env
  | .bindAllocs netId env => FreshFor s.db netId env
  | .read i => ∀ k ∈ s.calls, k.container = i → k.phase = .past
  | _ => True

instance (s : State) (l : Label) : Decidable (Serial s l) :=
  match l with
  | .newContainer mtn netId _ env => inferInstanceAs (Decidable (mtn = true → FreshFor s.db netId env))
  | .bindAllocs netId env => inferInstanceAs (Decidable (FreshFor s.db netId env))
  | .read i => inferInstanceAs (Decidable (∀ k ∈ s.calls, k.container = i → k.phase = .past))
  | .unuseAlloc _ _ | .set _ => .isTrue trivial

/-- `UnuseAlloc` has run at most once for each container, and the allocation of a
container for which it has not run is marked used. -/
def Safe (s : State) : Prop :=
  (∀ c ∈ s.containers, c.unused ≤ 1) ∧
    ∀ c ∈ s.containers, c.mtn = true → c.unused = 0 → (c.netId,c.mtnAllocationId) ∈ held s.db

/-! ## Invariant -/

def Container.lease (c : Container) : Option (String × String) :=
  if c.mtn = true ∧ c.unused = 0 then some (c.netId,c.mtnAllocationId) else none

def State.owners (s : State) : List (Option (String × String)) := s.containers.map Container.lease

def busy (calls : List Call) (i : ℕ) (p : Phase) : ℕ := calls.countP (fun k => k = ⟨i,p⟩)

structure Inv (s : State) : Prop where
  keyed : WellKeyed s.db
  owned : Lease.Owned (held s.db) s.owners
  known : ∀ k ∈ s.calls, k.container < s.containers.length
  mtn : ∀ i c, s.containers[i]? = some c → 0 < busy s.calls i .unusing → c.mtn = true
  once : ∀ i c, s.containers[i]? = some c → c.unused + busy s.calls i .unusing ≤ 1
  flag : ∀ i c, s.containers[i]? = some c → c.unused ≤ c.mtnAllocCleaned.toNat + busy s.calls i .setting

/-- A container with `u` calls before `UnuseAlloc` and `f` before the flag is set. -/
structure Fine (u f : ℕ) (c : Container) : Prop where
  mtn : 0 < u → c.mtn = true
  once : c.unused + u ≤ 1
  flag : c.unused ≤ c.mtnAllocCleaned.toNat + f

def AllFine (containers : List Container) (calls : List Call) : Prop :=
  ∀ i c, containers[i]? = some c → Fine (busy calls i .unusing) (busy calls i .setting) c

theorem Inv.fine {s : State} (h : Inv s) : AllFine s.containers s.calls :=
  fun i c hc => ⟨h.mtn i c hc,h.once i c hc,h.flag i c hc⟩

theorem Inv.of_fine {s : State} (hk : WellKeyed s.db) (ho : Lease.Owned (held s.db) s.owners)
    (hn : ∀ k ∈ s.calls, k.container < s.containers.length) (hf : AllFine s.containers s.calls) : Inv s :=
  ⟨hk,ho,hn,fun i c hc => (hf i c hc).mtn,fun i c hc => (hf i c hc).once,fun i c hc => (hf i c hc).flag⟩

theorem inv_initial {db : Db} (h : WellKeyed db) : Inv (initial db) :=
  .of_fine h (.nil _) (by simp [initial]) (by simp [initial, AllFine])

theorem Inv.safe {s : State} (h : Inv s) : Safe s := by
  refine ⟨?_,?_⟩
  · intro c hc
    obtain ⟨i,hi⟩ := List.getElem?_of_mem hc
    have := h.once i c hi
    omega
  · intro c hc hm hu
    have hl : c.lease = some (c.netId,c.mtnAllocationId) := if_pos ⟨hm,hu⟩
    exact h.owned.held _ (hl ▸ List.mem_map_of_mem hc)

/-! ## Calls on their way -/

theorem busy_eq_zero {calls : List Call} {i : ℕ} {p : Phase} (h : ∀ k ∈ calls, k ≠ ⟨i,p⟩) : busy calls i p = 0 := by
  unfold busy
  rw [List.countP_eq_zero]
  intro k hk
  simpa using h k hk

theorem busy_pos {calls : List Call} {i j : ℕ} {p : Phase} (h : calls[j]? = some ⟨i,p⟩) : 0 < busy calls i p :=
  List.countP_pos_iff.mpr ⟨_,List.mem_of_getElem? h,by simp⟩

theorem busy_append (calls : List Call) (i j : ℕ) (x p : Phase) :
    busy (calls ++ [⟨j,x⟩]) i p = busy calls i p + if j = i ∧ x = p then 1 else 0 := by
  simp [busy, List.countP_append, List.countP_singleton]

theorem busy_set {calls : List Call} {i j : ℕ} {x : Phase} (h : calls[j]? = some ⟨i,x⟩) (y : Phase) (i' : ℕ)
    (p : Phase) : busy (calls.set j ⟨i,y⟩) i' p + (if i = i' ∧ x = p then 1 else 0) =
      busy calls i' p + if i = i' ∧ y = p then 1 else 0 := by
  have hc := countP_set_add h ⟨i,y⟩ (fun k => k = ⟨i',p⟩)
  simpa [busy, Bool.toNat, cond_eq_ite] using hc

theorem busy_set_of_ne {calls : List Call} {i i' j : ℕ} {x : Phase} (h : calls[j]? = some ⟨i,x⟩) (hne : i ≠ i')
    (y p : Phase) : busy (calls.set j ⟨i,y⟩) i' p = busy calls i' p := by
  have hset := busy_set h y i' p
  simpa [hne] using hset

theorem AllFine.set {containers : List Container} {calls : List Call} (h : AllFine containers calls) {i j : ℕ}
    {x y : Phase} {c' : Container} (hj : calls[j]? = some ⟨i,x⟩)
    (hc : Fine (busy (calls.set j ⟨i,y⟩) i .unusing) (busy (calls.set j ⟨i,y⟩) i .setting) c') :
    AllFine (containers.set i c') (calls.set j ⟨i,y⟩) := by
  intro i' d hd
  rcases of_getElem?_set hd with ⟨rfl,rfl⟩ | ⟨he,hd⟩
  · exact hc
  · rw [busy_set_of_ne hj he, busy_set_of_ne hj he]
    exact h i' d hd

theorem known_set {s : State} (hs : Inv s) {i j : ℕ} {c : Container} {x y : Phase} (hj : s.calls[j]? = some ⟨i,x⟩) :
    ∀ k ∈ s.calls.set j ⟨i,y⟩, k.container < (s.containers.set i c).length := by
  intro k hk
  rw [List.length_set]
  rcases List.mem_or_eq_of_mem_set hk with hk | rfl
  · exact hs.known k hk
  · exact hs.known ⟨i,x⟩ (List.mem_of_getElem? hj)

theorem owners_perm {containers : List Container} {i : ℕ} {c : Container} (hc : containers[i]? = some c) :
    (containers.map Container.lease).Perm (c.lease :: (containers.eraseIdx i).map Container.lease) :=
  (perm_cons_eraseIdx hc).map Container.lease

theorem owners_set_perm {containers : List Container} {i : ℕ} {c : Container} (hc : containers[i]? = some c)
    (c' : Container) : (c'.lease :: (containers.eraseIdx i).map Container.lease).Perm
      ((containers.set i c').map Container.lease) :=
  ((set_perm_cons_eraseIdx hc c').map Container.lease).symm

/-! ## Steps -/

theorem Inv.add {s : State} (hs : Inv s) {db : Db} {c : Container} (hk : WellKeyed db)
    (ho : Lease.Owned (held db) (c.lease :: s.owners)) (hu : c.unused = 0) :
    Inv ⟨db,s.containers ++ [c],s.calls⟩ := by
  refine .of_fine hk ?_ ?_ ?_
  · refine ho.perm ?_
    unfold State.owners
    rw [List.map_append]
    exact (List.perm_append_singleton _ _).symm
  · intro k hk
    have := hs.known k hk
    simp only [List.length_append, List.length_singleton]
    omega
  · intro i d hd
    rw [List.getElem?_append] at hd
    split at hd
    · exact hs.fine i d hd
    · rename_i hlt
      have hfree : ∀ p, busy s.calls i p = 0 := by
        refine fun p => busy_eq_zero fun k hk he => ?_
        have hlt' := hs.known k hk
        rw [he] at hlt'
        exact hlt hlt'
      have hdc : d = c := List.mem_singleton.mp (List.mem_of_getElem? hd)
      subst hdc
      dsimp only
      rw [hfree, hfree]
      exact ⟨by omega,by omega,by omega⟩

theorem Inv.sameHeld {s : State} (hs : Inv s) {db : Db} (hk : WellKeyed db) (hh : held db = held s.db) :
    Inv { s with db := db } :=
  .of_fine hk (hh ▸ hs.owned) hs.known hs.fine

theorem Inv.newContainer {cfg : MtnCfg} {s : State} {mtn : Bool} {netId box : String} {env : Env} (hs : Inv s)
    (hf : mtn = true → FreshFor s.db netId env) : Inv (s.newContainer cfg mtn netId box env) := by
  unfold State.newContainer
  split
  · rename_i hm
    rcases h : useAlloc cfg netId box ⟨s.db,env⟩ with ⟨o,t⟩
    cases o with
    | ok a =>
      have hh := useAlloc_handed hs.keyed (hf hm) h
      exact hs.add (hh.wellKeyed hs.keyed) (hs.owned.acquire hh.acquires) rfl
    | error _ | panic _ =>
      have hd : t.db = s.db := transaction_fails _ _ _ h nofun
      exact hs.sameHeld (hd ▸ hs.keyed) (by rw [hd])
  · exact hs.add hs.keyed hs.owned.idle rfl

theorem Inv.bindAllocs {cfg : MtnCfg} {s : State} {netId : String} {env : Env} (hs : Inv s)
    (hf : FreshFor s.db netId env) : Inv { s with db := (Mtn.bindAllocs cfg netId ⟨s.db,env⟩).2.db } :=
  hs.sameHeld ((bindAllocs_grown hf).wellKeyed hs.keyed) (bindAllocs_grown hf).held_eq

theorem Inv.read {s t : State} {i : ℕ} (hs : Inv s) (hser : ∀ k ∈ s.calls, k.container = i → k.phase = .past)
    (h : s.read i = some t) : Inv t := by
  obtain ⟨c,hc,rfl⟩ := Option.map_eq_some_iff.mp h
  have hfree : ∀ p, p ≠ .past → busy s.calls i p = 0 := by
    intro p hp
    refine busy_eq_zero fun k hk he => hp ?_
    have := hser k hk (by rw [he])
    rwa [he] at this
  generalize hx : (if c.mtn && !c.mtnAllocCleaned then Phase.unusing else .past) = x
  have hun : x = .unusing → c.mtn = true ∧ c.mtnAllocCleaned = false := by
    rintro rfl
    by_contra hn
    rw [if_neg (by simpa using hn)] at hx
    cases hx
  refine .of_fine hs.keyed hs.owned ?_ ?_
  · intro k hk
    rcases List.mem_append.mp hk with hk | hk
    · exact hs.known k hk
    · rw [List.mem_singleton.mp hk]
      exact (List.getElem?_eq_some_iff.mp hc).1
  · intro i' d hd
    have hfine := hs.fine i' d hd
    dsimp only
    rw [busy_append, busy_append]
    by_cases hnew : i = i' ∧ x = .unusing
    · obtain ⟨rfl,rfl⟩ := hnew
      rw [hc] at hd
      cases hd
      obtain ⟨hm,hcl⟩ := hun rfl
      have h1 := hfree .unusing nofun
      have h2 := hfree .setting nofun
      have hflag := hfine.flag
      rw [hcl, h2, Bool.toNat_false] at hflag
      simp only [true_and, reduceCtorEq, if_true, if_false]
      exact ⟨fun _ => hm,by omega,by omega⟩
    · rw [if_neg hnew]
      have hflag := hfine.flag
      exact ⟨hfine.mtn,hfine.once,by omega⟩

theorem Inv.unuseAlloc {s t : State} {j : ℕ} {env : Env} (hs : Inv s) (h : s.unuseAlloc j env = some t) : Inv t := by
  unfold State.unuseAlloc at h
  split at h
  · rename_i i hj
    obtain ⟨c,hc,rfl⟩ := Option.map_eq_some_iff.mp h
    have hfine := hs.fine i c hc
    have hpos := busy_pos hj
    have hmtn := hfine.mtn hpos
    have honce := hfine.once
    have hflag := hfine.flag
    have hlease : c.lease = some (c.netId,c.mtnAllocationId) := if_pos ⟨hmtn,by omega⟩
    have hgone : Container.lease { c with unused := c.unused + 1 } = none := if_neg (by simp)
    refine .of_fine (unuseAlloc_wellKeyed hs.keyed) ?_ (known_set hs hj) (hs.fine.set hj ?_)
    · have hbefore := hs.owned.perm (owners_perm hc)
      rw [hlease] at hbefore
      refine Lease.Owned.perm ?_ (owners_set_perm hc _)
      rw [hgone]
      rcases unuseAlloc_cases c.netId c.mtnAllocationId ⟨s.db,env⟩ with hf | hd
      · exact (hbefore.release hf.releases).idle
      · rw [hd]
        exact hbefore.forget.idle
    · have hu := busy_set hj .setting i .unusing
      have hf := busy_set hj .setting i .setting
      simp only [true_and, reduceCtorEq, if_true, if_false] at hu hf
      exact ⟨fun _ => hmtn,by dsimp only; omega,by dsimp only; omega⟩
  · cases h

theorem Inv.set {s t : State} {j : ℕ} (hs : Inv s) (h : s.set j = some t) : Inv t := by
  unfold State.set at h
  split at h
  · rename_i i hj
    obtain ⟨c,hc,rfl⟩ := Option.map_eq_some_iff.mp h
    have hfine := hs.fine i c hc
    have honce := hfine.once
    refine .of_fine hs.keyed ?_ (known_set hs hj) (hs.fine.set hj ?_)
    · have hsame : Container.lease { c with mtnAllocCleaned := true } = c.lease := rfl
      refine (hs.owned.perm (owners_perm hc)).perm ?_
      rw [← hsame]
      exact owners_set_perm hc _
    · have hu := busy_set hj .past i .unusing
      simp only [true_and, reduceCtorEq, if_false] at hu
      refine ⟨fun hpos => hfine.mtn (by omega),by dsimp only; omega,?_⟩
      dsimp only
      rw [Bool.toNat_true]
      omega
  · cases h

theorem step_inv {cfg : MtnCfg} (s : State) (l : Label) (t : State) (hs : Inv s) (hl : Serial s l)
    (h : step cfg s l = some t) : Inv t := by
  cases l with
  | newContainer mtn netId box env =>
    cases h
    exact hs.newContainer hl
  | bindAllocs netId env =>
    cases h
    exact hs.bindAllocs hl
  | read i => exact hs.read hl h
  | unuseAlloc j env => exact hs.unuseAlloc h
  | set j => exact hs.set h

/-- Along every run in which the clean-ups of each container look at its flag one after
the other, and the allocator sends only new ids, each container releases its
allocation at most once and until then nobody else does. -/
theorem runs_safe (cfg : MtnCfg) {db : Db} (hdb : WellKeyed db) {ls : List Label} {s : State}
    (h : Runs (step cfg) (initial db) ls s) (hser : Meets (step cfg) Serial (initial db) ls) : Safe s :=
  (h.invariant_of_meets step_inv hser (inv_initial hdb)).safe

/-- A container is cleaned up and its address goes to the next one. -/
def cleanupThenReuse : List Label :=
  [.newContainer true "lan" "box" silent,.read 0,.unuseAlloc 0 silent,.set 0,.newContainer true "lan" "box" silent,.read 0]

theorem safe_cleanupThenReuse :
    ∃ s, Runs (step lanCfg) (initial lanDb) cleanupThenReuse s ∧
      s.containers = [⟨true,"lan","a1",true,1⟩,⟨true,"lan","a1",false,0⟩] ∧ Safe s := by
  have hr : Runs (step lanCfg) (initial lanDb) cleanupThenReuse _ := Runs.of_run rfl
  exact ⟨_,hr,rfl,runs_safe lanCfg lanDb_wellKeyed hr (by decide)⟩

/-- Two clean-ups of one container both find the flag unset; between their releases the
address is given to another container, which then holds an address marked free. -/
def cleanupTwice : List Label :=
  [.newContainer true "lan" "box" silent,.read 0,.read 0,.unuseAlloc 0 silent,.newContainer true "lan" "box" silent,
    .unuseAlloc 1 silent]

theorem released_by_cleanupTwice :
    ∃ s, Runs (step lanCfg) (initial lanDb) cleanupTwice s ∧
      s.containers = [⟨true,"lan","a1",false,2⟩,⟨true,"lan","a1",false,0⟩] ∧ ("lan","a1") ∉ held s.db ∧ ¬Safe s := by
  have hr : Runs (step lanCfg) (initial lanDb) cleanupTwice _ := Runs.of_run rfl
  refine ⟨_,hr,rfl,?_,?_⟩
  · rintro ⟨a,ha,hu⟩
    cases ha
    cases hu
  · intro hs
    have h1 := hs.1 ⟨true,"lan","a1",false,2⟩ List.mem_cons_self
    cases h1
    contradiction

end Stout.Porto.Cleanup
