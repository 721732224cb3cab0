import Stout.Porto.GcPhase
import Stout.Porto.Tracking

/-! # The watcher of porto

`waitLoop` of `porto/box.go` as a machine that takes the answers of the calls it makes,
in any order of outcomes: the connection and the collection before the loop, and then
round after round. The connection is nil or not; a call of one of its methods on nil is a
panic. Beside the loop `Spawn` adds containers and the context may be cancelled.
-/
namespace Stout.Porto.WaitLoop
open Mtn
open Std (ExtTreeMap)
open RangeOrder

structure Config where
  gc : Bool
  metaName : String
  cocaineAppVolumeLabel : String
  name : String

/-- What `GetProperty` returns: a value, a `*porto.Error` of some name, or an error of the
transport. -/
inductive Property where
  | value (v : String)
  | portoError (errName : String)
  | otherError
deriving DecidableEq, Repr

/-- The first result, which is empty if there is an error. -/
def Property.text : Property → String
  | .value v => v
  | _ => ""

structure VolumeDescription where
  path : String
  priv : String
deriving DecidableEq, Repr

/-- Which call the loop waits for. Lists are what is left of a range loop, with the element
it is at; `returned` says whether the context had been cancelled. -/
inductive Pc where
  | connecting
  | listing
  | usedAllocations (names : List String)
  | gcState (name : String) (names : List String) (ips : List String) (used : List Allocation)
  | gcDestroy (names : List String) (ips : List String) (used : List Allocation)
  | gcIp (names : List String) (ips : List String) (used : List Allocation)
  | freeing (used : List Allocation)
  | listingVolumes
  | unlinking (volumes : List VolumeDescription)
  | sleeping
  | reconnecting
  | backingOff
  | collecting
  | checking (name : String) (names : List String)
  | killing (names : List String)
  | returned (cancelled : Bool)
  | panicked (message : String)
deriving DecidableEq, Repr

structure State where
  /-- `portoConn` is not nil -/
  conn : Bool
  cancelled : Bool
  containers : ExtTreeMap String ℕ compare
  pc : Pc

def initial : State := ⟨false,false,∅,.connecting⟩

inductive Label where
  | connect (ok : Bool)
  | list (names : Option (List String))
  | usedAllocations (used : Option (List Allocation))
  | property (p : Property)
  | destroyed (ok : Bool)
  | unused (ok : Bool)
  | listVolumes (volumes : Option (List VolumeDescription))
  | unlinked (ok : Bool)
  /-- a sleep is over -/
  | tick
  /-- the range loop over `containers`, in some order -/
  | collect (order : List ℕ)
  | killed (ok : Bool)
  /-- `ctx.Done()` in the pause after a failed connection -/
  | done
  | cancel
  | track (id : String) (container : ℕ)

def interfaceConversion : String := "interface conversion: error is not *porto.Error"

def State.call (s : State) (pc : Pc) : State := { s with pc := if s.conn then pc else .panicked nilDereference }

/-! ## The collection before the loop -/

/-- After the last allocation is freed, `ListVolumes`. -/
def State.nextFree (cfg : Config) (s : State) : List Allocation → State
  | [] => s.call .listingVolumes
  | a :: used => if a.box = cfg.name then { s with pc := .freeing used } else s.nextFree cfg used

/-- After the last container, the comparison of the allocations with the addresses. -/
def State.nextName (cfg : Config) (s : State) (ips : List String) (used : List Allocation) : List String → State
  | [] =>
    match GcPhase.compareIps ips used with
    | .panic message => { s with pc := .panicked message }
    | .ok used => s.nextFree cfg used
    | .error _ => s.nextFree cfg used
  | name :: names => s.call (.gcState name names ips used)

def State.gcState (cfg : Config) (s : State) (name : String) (names ips : List String) (used : List Allocation)
    (containerState : String) : State :=
  if containerState = "dead" then s.call (.gcDestroy names ips used)
  else if containerState = "stopped" then
    if name ≠ cfg.metaName then s.call (.gcDestroy names ips used) else s.nextName cfg ips used names
  else if containerState = "meta" then s.nextName cfg ips used names
  else if containerState = "running" ∨ containerState = "starting" then s.call (.gcIp names ips used)
  else s.nextName cfg ips used names

def State.gcIp (cfg : Config) (s : State) (names ips : List String) (used : List Allocation) (containerIp : String) : State :=
  s.nextName cfg (if 2 < containerIp.utf8ByteSize then ips ++ [containerIp] else ips) used names

def State.nextVolume (cfg : Config) (s : State) : List VolumeDescription → State
  | [] => { s with pc := .sleeping }
  | v :: volumes => if v.priv = cfg.cocaineAppVolumeLabel then s.call (.unlinking volumes) else s.nextVolume cfg volumes

/-! ## The loop -/

def State.nextCheck (s : State) : List String → State
  | [] => { s with pc := .sleeping }
  | name :: names => s.call (.checking name names)

/-- The container leaves the table and is killed, if it was there. -/
def State.take (s : State) (name : String) (names : List String) : State :=
  match s.containers[name]? with
  | none => s.nextCheck names
  | some _ => { s with containers := s.containers.erase name, pc := .killing names }

def State.check (s : State) (name : String) (names : List String) : Property → State
  | .value containerState => if containerState = "dead" then s.take name names else s.nextCheck names
  | .portoError errName =>
    if errName = "ContainerDoesNotExist" then s.take name names else { s with conn := false, pc := .sleeping }
  | .otherError => { s with pc := .panicked interfaceConversion }

def State.answer (cfg : Config) (s : State) : Pc → Label → Option State
  | .connecting, .connect ok =>
    let s := { s with conn := ok }
    some (if cfg.gc then s.call .listing else { s with pc := .sleeping })
  | .listing, .list names => some { s with pc := .usedAllocations (names.getD []) }
  | .usedAllocations names, .usedAllocations used =>
    some (match used with
      | none => { s with pc := .returned s.cancelled }
      | some used => s.nextName cfg [] used names)
  | .gcState name names ips used, .property p => some (s.gcState cfg name names ips used p.text)
  | .gcDestroy names ips used, .destroyed _ => some (s.nextName cfg ips used names)
  | .gcIp names ips used, .property p => some (s.gcIp cfg names ips used p.text)
  | .freeing used, .unused _ => some (s.nextFree cfg used)
  | .listingVolumes, .listVolumes volumes => some (s.nextVolume cfg (volumes.getD []))
  | .unlinking volumes, .unlinked _ => some (s.nextVolume cfg volumes)
  | .sleeping, .tick =>
    some { s with pc := if s.cancelled then .returned true else if s.conn then .collecting else .reconnecting }
  | .reconnecting, .connect ok => some { s with conn := ok, pc := if ok then .collecting else .backingOff }
  | .backingOff, .tick => some { s with pc := .sleeping }
  | .backingOff, .done => if s.cancelled then some { s with pc := .returned true } else none
  | .collecting, .collect order => some (s.nextCheck (arrange order s.containers.keys))
  | .checking name names, .property p => some (s.check name names p)
  | .killing names, .killed _ => some (s.nextCheck names)
  | _, _ => none

def step (cfg : Config) (s : State) : Label → Option State
  | .cancel => some { s with cancelled := true }
  | .track id container => some { s with containers := s.containers.insert id container }
  | l => s.answer cfg s.pc l

/-! ## What the loop survives -/

/-- The loop has not panicked, and has not returned before its context was cancelled. -/
def Pc.survives : Pc → Bool
  | .panicked _ => false
  | .returned cancelled => cancelled
  | _ => true

def Survives (s : State) : Prop := s.pc.survives = true

/-- What each answer has to be for the loop to go on: there is a connection for the
collection, the used allocations are known, and in the loop every error is porto's. -/
def tolerable (cfg : Config) (s : State) : Pc → Label → Bool
  | .connecting, .connect ok => ok || !cfg.gc
  | .usedAllocations _, .usedAllocations used => used.isSome || s.cancelled
  | .checking _ _, .property p => p ≠ .otherError
  | _, _ => true

def Tolerable (cfg : Config) (s : State) (l : Label) : Prop := tolerable cfg s s.pc l = true

instance (s : State) : Decidable (Survives s) := inferInstanceAs (Decidable (_ = true))

instance (cfg : Config) (s : State) (l : Label) : Decidable (Tolerable cfg s l) := inferInstanceAs (Decidable (_ = true))

/-- Where the loop counts on its connection. -/
def Pc.connected : Pc → Bool
  | .connecting | .sleeping | .reconnecting | .backingOff | .returned _ | .panicked _ => false
  | _ => true

def Connected (s : State) : Prop := s.pc.connected = true → s.conn = true

/-- The loop is well and has its connection if it counts on it. -/
structure Well (s : State) : Prop where
  survives : Survives s
  connected : Connected s

section Well
variable {cfg : Config} {s : State} (hs : s.conn = true)
include hs

theorem well_call {pc : Pc} (h : Survives { s with pc := pc }) : Well (s.call pc) := by
  rw [State.call, if_pos hs]
  exact ⟨h,fun _ => hs⟩

theorem well_nextFree (used : List Allocation) : Well (s.nextFree cfg used) := by
  induction used with
  | nil => exact well_call hs rfl
  | cons a used ih =>
    unfold State.nextFree
    split
    · exact ⟨rfl,fun _ => hs⟩
    · exact ih

theorem well_nextName (ips : List String) (used : List Allocation) (names : List String) :
    Well (s.nextName cfg ips used names) := by
  cases names with
  | cons name names => exact well_call hs rfl
  | nil =>
    rw [State.nextName, GcPhase.compareIps_eq]
    exact well_nextFree hs _

theorem well_gcState (name : String) (names ips : List String) (used : List Allocation) (containerState : String) :
    Well (s.gcState cfg name names ips used containerState) := by
  have hnext : Well (s.nextName cfg ips used names) := well_nextName hs ips used names
  unfold State.gcState
  split
  · exact well_call hs rfl
  split
  · split
    · exact well_call hs rfl
    · exact hnext
  split
  · exact hnext
  split
  · exact well_call hs rfl
  · exact hnext

theorem well_nextVolume (volumes : List VolumeDescription) : Well (s.nextVolume cfg volumes) := by
  induction volumes with
  | nil => exact ⟨rfl,nofun⟩
  | cons v volumes ih =>
    unfold State.nextVolume
    split
    · exact well_call hs rfl
    · exact ih

theorem well_nextCheck (names : List String) : Well (s.nextCheck names) := by
  cases names with
  | nil => exact ⟨rfl,nofun⟩
  | cons name names => exact well_call hs rfl

theorem well_take (name : String) (names : List String) : Well (s.take name names) := by
  unfold State.take
  split
  · exact well_nextCheck hs names
  · exact ⟨rfl,fun _ => hs⟩

theorem well_check (name : String) (names : List String) {p : Property} (hp : p ≠ .otherError) :
    Well (s.check name names p) := by
  cases p with
  | value containerState =>
    rw [State.check]
    split
    · exact well_take hs name names
    · exact well_nextCheck hs names
  | portoError errName =>
    rw [State.check]
    split
    · exact well_take hs name names
    · exact ⟨rfl,nofun⟩
  | otherError => exact absurd rfl hp

end Well

/-- What an answer does to the loop: it needs the connection only where it has one, and it
goes on exactly if the answer is tolerable. -/
theorem answer_spec {cfg : Config} {s t : State} {pc : Pc} {l : Label} (hc : pc.connected = true → s.conn = true)
    (h : s.answer cfg pc l = some t) :
    Connected t ∧ pc.survives = true ∧ (Survives t ↔ tolerable cfg s pc l = true) := by
  have hwell {t : State} (ht : Well t) : Connected t ∧ true = true ∧ (Survives t ↔ true = true) :=
    ⟨ht.connected,rfl,iff_of_true ht.survives rfl⟩
  unfold State.answer at h
  split at h
  · rename_i ok
    cases h
    cases hg : cfg.gc with
    | false => exact ⟨nofun,rfl,iff_of_true rfl (by simp [tolerable, hg])⟩
    | true =>
      cases ok with
      | true => exact ⟨fun _ => rfl,rfl,iff_of_true rfl rfl⟩
      | false => exact ⟨nofun,rfl,iff_of_false nofun (by simp [tolerable, hg])⟩
  · cases h
    exact hwell ⟨rfl,fun _ => hc rfl⟩
  · rename_i names used
    cases h
    cases used with
    | none => exact ⟨nofun,rfl,by simp [Survives, Pc.survives, tolerable]⟩
    | some used => exact hwell (well_nextName (hc rfl) [] used names)
  · cases h
    exact hwell (well_gcState (hc rfl) _ _ _ _ _)
  · cases h
    exact hwell (well_nextName (hc rfl) _ _ _)
  · cases h
    exact hwell (well_nextName (hc rfl) _ _ _)
  · cases h
    exact hwell (well_nextFree (hc rfl) _)
  · cases h
    exact hwell (well_nextVolume (hc rfl) _)
  · cases h
    exact hwell (well_nextVolume (hc rfl) _)
  · cases h
    cases hcancel : s.cancelled with
    | true => exact hwell ⟨rfl,nofun⟩
    | false =>
      cases hconn : s.conn with
      | true => exact hwell ⟨rfl,fun _ => rfl⟩
      | false => exact hwell ⟨rfl,nofun⟩
  · rename_i ok
    cases h
    cases ok with
    | true => exact hwell ⟨rfl,fun _ => rfl⟩
    | false => exact hwell ⟨rfl,nofun⟩
  · cases h
    exact hwell ⟨rfl,nofun⟩
  · split at h
    · cases h
      exact hwell ⟨rfl,nofun⟩
    · cases h
  · cases h
    exact hwell (well_nextCheck (hc rfl) _)
  · rename_i name names p
    cases h
    by_cases hp : p = .otherError
    · rw [hp]
      exact ⟨nofun,rfl,iff_of_false nofun nofun⟩
    · have ht : tolerable cfg s (.checking name names) (.property p) = true := decide_eq_true hp
      rw [ht]
      exact hwell (well_check (hc rfl) name names hp)
  · cases h
    exact hwell (well_nextCheck (hc rfl) _)
  · cases h

theorem step_spec {cfg : Config} {s t : State} {l : Label} (hc : Connected s) (h : step cfg s l = some t) :
    Connected t ∧ (Survives t ↔ Survives s ∧ Tolerable cfg s l) := by
  have hanswer (h : s.answer cfg s.pc l = some t) : Connected t ∧ (Survives t ↔ Survives s ∧ Tolerable cfg s l) := by
    obtain ⟨ht,hs,hiff⟩ := answer_spec hc h
    exact ⟨ht,hiff.trans (and_iff_right hs).symm⟩
  have hbeside (ht : t.pc = s.pc) (hconn : t.conn = s.conn) (hl : tolerable cfg s s.pc l = true) :
      Connected t ∧ (Survives t ↔ Survives s ∧ Tolerable cfg s l) := by
    refine ⟨?_,?_⟩
    · unfold Connected
      rw [ht, hconn]
      exact hc
    · unfold Survives
      rw [ht]
      exact (and_iff_left hl).symm
  cases l with
  | cancel =>
    cases h
    exact hbeside rfl rfl (by cases s.pc <;> rfl)
  | track id container =>
    cases h
    exact hbeside rfl rfl (by cases s.pc <;> rfl)
  | _ => exact hanswer h

/-- `waitLoop` does not panic and does not return before its context is cancelled, exactly
along the runs whose answers are tolerable. -/
theorem survives_iff_tolerable (cfg : Config) {t : State} {as : List Label} (h : Runs (step cfg) initial as t) :
    Survives t ↔ Meets (step cfg) (Tolerable cfg) initial as := by
  have hiff := h.iff_meets (fun _ _ _ hc hs => (step_spec hc hs).1) (fun _ _ _ hc hs => (step_spec hc hs).2)
    (nofun : Connected initial)
  rw [hiff]
  exact and_iff_right rfl

/-- The collection, in which all but the connection and the allocations fails, then a round
that loses the connection, one that does not get it back, and one that kills a container. -/
def troubled : List Label :=
  [.connect true,.list (some ["a"]),.usedAllocations (some []),.property .otherError,.listVolumes none,.track "b" 0,.tick,
    .collect [],.property (.portoError "SocketTimeout"),.tick,.connect false,.tick,.tick,.connect true,.collect [],
    .property (.value "dead"),.killed false]

theorem survives_troubled : ∃ t, Runs (step ⟨true,"","label","box"⟩) initial troubled t ∧ Survives t := by
  have hrun : ((run (step ⟨true,"","label","box"⟩) initial troubled).isSome) = true := by decide +kernel
  obtain ⟨t,ht⟩ := Option.isSome_iff_exists.mp hrun
  exact ⟨t,.of_run ht,(survives_iff_tolerable _ (.of_run ht)).mpr (by decide +kernel)⟩

/-- No connection at the start, allocations that cannot be read, and an error of the
transport in the loop: a nil dereference, a return, a failed conversion. -/
theorem waitLoop_ends :
    (run (step ⟨true,"","label","box"⟩) initial [.connect false]).map State.pc = some (.panicked nilDereference) ∧
    (run (step ⟨true,"","label","box"⟩) initial [.connect true,.list none,.usedAllocations none]).map State.pc =
      some (.returned false) ∧
    (run (step ⟨false,"","label","box"⟩) initial [.connect true,.track "b" 0,.tick,.collect [],.property .otherError]).map
      State.pc = some (.panicked interfaceConversion) := by
  decide +kernel

/-! ## The loop comes round -/

/-- How far the loop is from its sleep. -/
def Pc.rank : Pc → ℕ ×ₗ ℕ
  | .connecting => toLex (11,0)
  | .listing => toLex (10,0)
  | .usedAllocations _ => toLex (9,0)
  | .gcState _ names _ _ => toLex (8,2 * names.length + 2)
  | .gcDestroy names _ _ => toLex (8,2 * names.length + 1)
  | .gcIp names _ _ => toLex (8,2 * names.length + 1)
  | .freeing used => toLex (7,used.length)
  | .listingVolumes => toLex (6,0)
  | .unlinking volumes => toLex (5,volumes.length)
  | .reconnecting => toLex (4,0)
  | .collecting => toLex (3,0)
  | .checking _ names => toLex (2,2 * names.length + 2)
  | .killing names => toLex (2,2 * names.length + 1)
  | .backingOff => toLex (1,0)
  | .sleeping | .returned _ | .panicked _ => toLex (0,0)

theorem rank_lt {a b c d : ℕ} (h : a < c ∨ a = c ∧ b < d) : (toLex (a,b) : ℕ ×ₗ ℕ) < toLex (c,d) :=
  Prod.Lex.toLex_lt_toLex.mpr h

section Rank
variable {cfg : Config} {s : State}

theorem rank_call {pc : Pc} {r : ℕ ×ₗ ℕ} (h : pc.rank < r) : (s.call pc).pc.rank < r := by
  unfold State.call
  dsimp only
  split
  · exact h
  · exact lt_of_le_of_lt (by exact bot_le) h

theorem rank_nextFree (used : List Allocation) : (s.nextFree cfg used).pc.rank < toLex (7,used.length) := by
  induction used with
  | nil => exact rank_call (rank_lt (by simp))
  | cons a used ih =>
    have hlt : (toLex (7,used.length) : ℕ ×ₗ ℕ) < toLex (7,(a :: used).length) := rank_lt (by simp)
    unfold State.nextFree
    split
    · exact hlt
    · exact ih.trans hlt

theorem rank_nextName (ips : List String) (used : List Allocation) (names : List String) :
    (s.nextName cfg ips used names).pc.rank < toLex (8,2 * names.length + 1) := by
  cases names with
  | nil =>
    rw [State.nextName, GcPhase.compareIps_eq]
    exact (rank_nextFree _).trans (rank_lt (by simp))
  | cons name names => exact rank_call (rank_lt (by simp; omega))

theorem rank_gcState (name : String) (names ips : List String) (used : List Allocation) (containerState : String) :
    (s.gcState cfg name names ips used containerState).pc.rank < toLex (8,2 * names.length + 2) := by
  have hlt : (toLex (8,2 * names.length + 1) : ℕ ×ₗ ℕ) < toLex (8,2 * names.length + 2) := rank_lt (by simp)
  have hnext : (s.nextName cfg ips used names).pc.rank < toLex (8,2 * names.length + 2) := (rank_nextName ips used names).trans hlt
  unfold State.gcState
  split
  · exact rank_call hlt
  split
  · split
    · exact rank_call hlt
    · exact hnext
  split
  · exact hnext
  split
  · exact rank_call hlt
  · exact hnext

theorem rank_nextVolume (volumes : List VolumeDescription) :
    (s.nextVolume cfg volumes).pc.rank < toLex (5,volumes.length) := by
  induction volumes with
  | nil => exact rank_lt (by simp)
  | cons v volumes ih =>
    have hlt : (toLex (5,volumes.length) : ℕ ×ₗ ℕ) < toLex (5,(v :: volumes).length) := rank_lt (by simp)
    unfold State.nextVolume
    split
    · exact rank_call hlt
    · exact ih.trans hlt

theorem rank_nextCheck (names : List String) : (s.nextCheck names).pc.rank < toLex (2,2 * names.length + 1) := by
  cases names with
  | nil => exact rank_lt (by simp)
  | cons name names => exact rank_call (rank_lt (by simp; omega))

theorem rank_take (name : String) (names : List String) : (s.take name names).pc.rank < toLex (2,2 * names.length + 2) := by
  have hlt : (toLex (2,2 * names.length + 1) : ℕ ×ₗ ℕ) < toLex (2,2 * names.length + 2) := rank_lt (by simp)
  unfold State.take
  split
  · exact (rank_nextCheck names).trans hlt
  · exact hlt

theorem rank_check (name : String) (names : List String) (p : Property) :
    (s.check name names p).pc.rank < toLex (2,2 * names.length + 2) := by
  have hnext : (s.nextCheck names).pc.rank < toLex (2,2 * names.length + 2) :=
    (rank_nextCheck names).trans (rank_lt (by simp))
  cases p with
  | value containerState =>
    rw [State.check]
    split
    · exact rank_take name names
    · exact hnext
  | portoError errName =>
    rw [State.check]
    split
    · exact rank_take name names
    · exact rank_lt (by simp)
  | otherError => exact rank_lt (by simp)

theorem rank_answer {t : State} {pc : Pc} {l : Label} (hpc : pc ≠ .sleeping) (h : s.answer cfg pc l = some t) :
    t.pc.rank < pc.rank := by
  unfold State.answer at h
  split at h
  · cases h
    dsimp only
    split
    · exact rank_call (rank_lt (by simp))
    · exact rank_lt (by simp)
  · cases h
    exact rank_lt (by simp)
  · rename_i names used
    cases h
    cases used with
    | none => exact rank_lt (by simp)
    | some used => exact (rank_nextName [] used names).trans (rank_lt (by simp))
  · cases h
    exact rank_gcState _ _ _ _ _
  · cases h
    exact rank_nextName _ _ _
  · cases h
    exact rank_nextName _ _ _
  · cases h
    exact rank_nextFree _
  · cases h
    exact (rank_nextVolume _).trans (rank_lt (by simp))
  · cases h
    exact rank_nextVolume _
  · exact absurd rfl hpc
  · cases h
    dsimp only
    split <;> exact rank_lt (by simp)
  · cases h
    exact rank_lt (by simp)
  · split at h
    · cases h
      exact rank_lt (by simp)
    · cases h
  · cases h
    exact (rank_nextCheck _).trans (rank_lt (by simp))
  · cases h
    exact rank_check _ _ _
  · cases h
    exact rank_nextCheck _
  · cases h

/-- Whatever the answers, the loop comes back to its sleep or ends: no run of answers goes
on for ever without it. -/
theorem round_terminates (cfg : Config) :
    WellFounded fun t s : State => s.pc ≠ .sleeping ∧ ∃ l, s.answer cfg s.pc l = some t := by
  refine Subrelation.wf ?_ (InvImage.wf (fun s : State => s.pc.rank) wellFounded_lt)
  rintro t s ⟨hpc,l,h⟩
  exact rank_answer hpc h

end Rank

/-! ## The table -/

def seen : Property → Tracking.Seen
  | .value containerState => if containerState = "dead" then .dead else .alive
  | .portoError errName => if errName = "ContainerDoesNotExist" then .doesNotExist else .portoError
  | .otherError => .otherError

def SamePlace : Pc → Tracking.Loop → Prop
  | .sleeping, .sleeping | .sleeping, .checking [] => True
  | .checking name names, .checking (name' :: names') => name = name' ∧ names = names'
  | .killing names, .killing _ names' => names = names'
  | .panicked _, .crashed => True
  | _, _ => False

theorem samePlace_nextCheck {s : State} (hs : s.conn = true) (names : List String) :
    SamePlace (s.nextCheck names).pc (.checking names) := by
  cases names with
  | nil => trivial
  | cons name names =>
    rw [State.nextCheck, State.call, if_pos hs]
    exact ⟨rfl,rfl⟩

theorem nextCheck_containers (s : State) (names : List String) : (s.nextCheck names).containers = s.containers := by
  cases names <;> rfl

theorem take_agrees {s : State} {u : Tracking.State} (hs : s.conn = true) (h : s.containers = u.containers)
    (name : String) (names : List String) :
    (s.take name names).containers = (u.take name names).containers ∧
    SamePlace (s.take name names).pc (u.take name names).loop := by
  unfold State.take Tracking.State.take
  rw [← h]
  cases s.containers[name]? with
  | none => exact ⟨nextCheck_containers s names,samePlace_nextCheck hs names⟩
  | some i => exact ⟨rfl,rfl⟩

/-- One check of a container does the same to the table and to the loop as in the model in
which containers are tracked until they are cleaned up. -/
theorem check_agrees {s : State} {u : Tracking.State} (hs : s.conn = true) (h : s.containers = u.containers)
    (name : String) (names : List String) (p : Property) :
    (s.check name names p).containers = (u.check name names (seen p)).containers ∧
    SamePlace (s.check name names p).pc (u.check name names (seen p)).loop := by
  cases p with
  | value containerState =>
    rw [State.check, seen]
    by_cases hd : containerState = "dead"
    · rw [if_pos hd, if_pos hd]
      exact take_agrees hs h name names
    · rw [if_neg hd, if_neg hd]
      exact ⟨(nextCheck_containers s names).trans h,samePlace_nextCheck hs names⟩
  | portoError errName =>
    rw [State.check, seen]
    by_cases he : errName = "ContainerDoesNotExist"
    · rw [if_pos he, if_pos he]
      exact take_agrees hs h name names
    · rw [if_neg he, if_neg he]
      exact ⟨h,trivial⟩
  | otherError => exact ⟨h,trivial⟩

end Stout.Porto.WaitLoop
