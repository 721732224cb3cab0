import Stout.Library.Runs
import Stout.Library.ChildTable
import Stout.Process.Spawn

/-! # The process box and the children of the daemon

`Box` of `process/box.go` among the children of the daemon: calls of `Spawn`, of which
one at a time has the lock, `sigchldHandler` with its loop `wait`, and calls of
`process.Kill`. The system gives out numbers, lets children exit, merges SIGCHLD and
delivers it to the channel of one slot once `signal.Notify` has been called.
-/
namespace Stout.Process
open ChildTable
open Std (ExtTreeMap)

/-- What a command that waits for its own child by number gets. -/
inductive Result where
  | exited (status : ℕ)
  | errNoChild
deriving DecidableEq, Repr

/-- A child is a worker, with how often its entry was deleted and its `Cmd` waited for, or
was started by another part of the daemon, with what its own wait gave. -/
inductive Role where
  | worker (deleted waited : ℕ)
  | helper (result : Option Result)
deriving DecidableEq, Repr

abbrev Child := Proc Role

/-- Where `sigchldHandler` is; between `polling` and `unlocking` it has the lock. -/
inductive Handler where
  | starting
  | idle
  | locking
  | polling
  | found (pid : ℕ)
  | killing (pid cmd : ℕ)
  | waiting (pid cmd : ℕ)
  | unlocking
  | stopped
deriving DecidableEq, Repr

def Handler.locked : Handler → Bool
  | .polling | .found _ | .killing _ _ | .waiting _ _ | .unlocking => true
  | _ => false

def Handler.notified : Handler → Bool
  | .starting | .stopped => false
  | _ => true

/-- A call of `process.Kill`: the handle and the workers whose groups are hit. -/
structure Sent where
  handle : ℕ
  victims : List ℕ
deriving DecidableEq, Repr

/-- A command is known by the place of its child. -/
structure State where
  procs : List Child
  children : ExtTreeMap ℕ ℕ compare
  spawning : Option Place
  handler : Handler
  sigchld : Bool
  pending : Bool
  kills : List Sent

def initial : State := ⟨[],∅,none,.starting,false,false,[]⟩

/-! ## Spawn -/

/-- What an operation of `Spawn` does besides moving on; `pid` is the number of the process
that is started. -/
def State.spawned (s : State) (pid : ℕ) : Place → Event → Option State
  | .newProcess, .newProcess (some cmd) =>
    if cmd = s.procs.length ∧ Fresh s.procs pid then some { s with procs := fork s.procs pid (.worker 0 0) } else none
  | .insert cmd, .insert => (s.procs[cmd]?).map fun p => { s with children := s.children.insert p.pid cmd }
  | _, _ => some s

def State.spawn (s : State) (pid : ℕ) (e : Event) : Option State :=
  if s.spawning = none ∧ s.handler.locked = true then none
  else ((s.spawning.getD .lock).next e).bind fun r =>
    (s.spawned pid (s.spawning.getD .lock) e).map fun t => { t with spawning := r.getLeft? }

/-! ## The handler -/

inductive Poll where
  | child (i : ℕ)
  | nothing
  | eintr
deriving DecidableEq, Repr

inductive HandlerOp where
  | notify
  | receive
  | done
  | lock
  | wait4 (r : Poll)
  | lookup
  | killPg
  | cmdWait
  | unlock
deriving DecidableEq, Repr

def Role.delete : Role → Role
  | .worker d w => .worker (d + 1) w
  | r => r

def Role.wait : Role → Role
  | .worker d w => .worker d (w + 1)
  | r => r

/-- `Wait4(-1)` takes the status of any zombie and says so when there is none. `Cmd.Wait`
waits for the number, whoever has it. -/
def State.handle (s : State) : HandlerOp → Option State
  | .notify => if s.handler = .starting then some { s with handler := .idle } else none
  | .receive =>
    if s.handler = .idle ∧ s.sigchld = true then some { s with sigchld := false, handler := .locking } else none
  | .done => if s.handler = .idle then some { s with handler := .stopped } else none
  | .lock => if s.handler = .locking ∧ s.spawning = none then some { s with handler := .polling } else none
  | .wait4 (.child i) =>
    if s.handler = .polling then
      (reap s.procs i).map fun r => { s with procs := r.2.2, handler := .found r.1 }
    else none
  | .wait4 .nothing =>
    if s.handler = .polling ∧ anyZombie s.procs = false then some { s with handler := .unlocking } else none
  | .wait4 .eintr => if s.handler = .polling then some s else none
  | .lookup =>
    match s.handler with
    | .found pid =>
      match s.children[pid]? with
      | some cmd => some { s with
          procs := update s.procs cmd Role.delete
          children := s.children.erase pid
          handler := .killing pid cmd }
      | none => some { s with handler := .polling }
    | _ => none
  | .killPg =>
    match s.handler with
    | .killing pid cmd => some { s with handler := .waiting pid cmd }
    | _ => none
  | .cmdWait =>
    match s.handler with
    | .waiting pid cmd =>
      match unreapedAt s.procs pid with
      | none => some { s with procs := update s.procs cmd Role.wait, handler := .polling }
      | some i => (reap s.procs i).map fun r => { s with procs := update r.2.2 cmd Role.wait, handler := .polling }
    | _ => none
  | .unlock => if s.handler = .unlocking then some { s with handler := .idle } else none

/-! ## The box -/

def Role.isWorker : Role → Bool
  | .worker _ _ => true
  | .helper _ => false

/-- The workers of the process group with this number. -/
def victims (procs : List Child) (pid : ℕ) : List ℕ :=
  (List.range procs.length).filter fun j => (procs[j]?).any fun p => p.pid == pid && p.group && p.info.isWorker

inductive Label where
  | spawn (pid : ℕ) (e : Event)
  | handler (op : HandlerOp)
  | kill (cmd : ℕ)
  | exit (i status : ℕ)
  | disband (i : ℕ)
  | raise
  | deliver
deriving DecidableEq, Repr

/-- `raise` is a SIGCHLD for something else than the end of a child. -/
def step (s : State) : Label → Option State
  | .spawn pid e => s.spawn pid e
  | .handler op => s.handle op
  | .kill cmd => (s.procs[cmd]?).bind fun p =>
    if p.info.isWorker then some { s with kills := s.kills ++ [⟨cmd,victims s.procs p.pid⟩] } else none
  | .exit i status => (exit s.procs i status).map fun ps => { s with procs := ps, pending := true }
  | .disband i => (disband s.procs i).map fun ps => { s with procs := ps }
  | .raise => some { s with pending := true }
  | .deliver =>
    if s.pending = true then some { s with pending := false, sigchld := s.sigchld || s.handler.notified } else none

/-- A call of `Spawn` that nothing disturbs. -/
def launch (pid cmd : ℕ) : List Label :=
  [.lock,.isCancelled false,.newProcess (some cmd),.insert,.unlock].map (.spawn pid)

/-- A turn of the handler that reaps one worker. -/
def reapOne (i : ℕ) : List Label :=
  [.receive,.lock,.wait4 (.child i),.lookup,.killPg,.cmdWait,.wait4 .nothing,.unlock].map .handler

/-! ## What an operation can do -/

section Cases
variable {s t : State} {pid : ℕ} {e : Event} {op : HandlerOp}

inductive SpawnStep (s : State) (pid : ℕ) : State → Prop
  | lock (hs : s.spawning = none) (hl : s.handler.locked = false) : SpawnStep s pid { s with spawning := some .isCancelled }
  | move (pl : Place) (hs : s.spawning = some pl) (hpl : ∀ cmd, pl ≠ .insert cmd) (next : Option Place)
      (hn : ∀ cmd, next ≠ some (.insert cmd)) : SpawnStep s pid { s with spawning := next }
  | fork (hs : s.spawning = some .newProcess) (hf : Fresh s.procs pid) : SpawnStep s pid
      { s with procs := fork s.procs pid (.worker 0 0), spawning := some (.insert s.procs.length) }
  | insert (cmd : ℕ) (p : Child) (hs : s.spawning = some (.insert cmd)) (hp : s.procs[cmd]? = some p) : SpawnStep s pid
      { s with children := s.children.insert p.pid cmd, spawning := some (.unlock (.spawned cmd)) }

theorem spawn_cases (h : s.spawn pid e = some t) : SpawnStep s pid t := by
  obtain ⟨hl,h⟩ := Option.ite_none_left_eq_some.mp h
  obtain ⟨r,hr,ht⟩ := Option.bind_eq_some_iff.mp h
  obtain ⟨u,hu,rfl⟩ := Option.map_eq_some_iff.mp ht
  clear h ht
  cases hsp : s.spawning with
  | none =>
    rw [hsp, Option.getD_none] at hr hu
    cases e <;> cases hr
    cases hu
    exact .lock hsp (by simpa [hsp] using hl)
  | some pl =>
    rw [hsp, Option.getD_some] at hr hu
    unfold Place.next at hr
    split at hr <;> cases hr
    case h_1 => cases hu; exact .move _ hsp nofun _ nofun
    case h_2 => cases hu; exact .move _ hsp nofun _ nofun
    case h_3 => cases hu; exact .move _ hsp nofun _ nofun
    case h_4 cmd =>
      obtain ⟨⟨rfl,hf⟩,hst⟩ := Option.ite_none_right_eq_some.mp hu
      obtain rfl := Option.some.inj hst
      exact .fork hsp hf
    case h_5 => cases hu; exact .move _ hsp nofun _ nofun
    case h_6 cmd =>
      obtain ⟨p,hp,rfl⟩ := Option.map_eq_some_iff.mp hu
      exact .insert cmd p hsp hp
    case h_7 => cases hu; exact .move _ hsp nofun _ nofun

inductive HandlerStep (s : State) : HandlerOp → State → Prop
  | notify (h : s.handler = .starting) : HandlerStep s .notify { s with handler := .idle }
  | receive (h : s.handler = .idle) (hc : s.sigchld = true) :
      HandlerStep s .receive { s with sigchld := false, handler := .locking }
  | done (h : s.handler = .idle) : HandlerStep s .done { s with handler := .stopped }
  | lock (h : s.handler = .locking) (hs : s.spawning = none) : HandlerStep s .lock { s with handler := .polling }
  | child (h : s.handler = .polling) (i : ℕ) (p : Child) (status : ℕ) (hp : s.procs[i]? = some p)
      (hz : p.life = .zombie status) : HandlerStep s (.wait4 (.child i))
        { s with procs := s.procs.set i { p with life := .reaped status }, handler := .found p.pid }
  | nothing (h : s.handler = .polling) (hz : anyZombie s.procs = false) :
      HandlerStep s (.wait4 .nothing) { s with handler := .unlocking }
  | eintr (h : s.handler = .polling) : HandlerStep s (.wait4 .eintr) s
  | known (pid cmd : ℕ) (h : s.handler = .found pid) (hc : s.children[pid]? = some cmd) : HandlerStep s .lookup
      { s with
        procs := update s.procs cmd Role.delete
        children := s.children.erase pid
        handler := .killing pid cmd }
  | unknown (pid : ℕ) (h : s.handler = .found pid) (hc : s.children[pid]? = none) :
      HandlerStep s .lookup { s with handler := .polling }
  | killPg (pid cmd : ℕ) (h : s.handler = .killing pid cmd) :
      HandlerStep s .killPg { s with handler := .waiting pid cmd }
  | gone (pid cmd : ℕ) (h : s.handler = .waiting pid cmd) (hu : unreapedAt s.procs pid = none) :
      HandlerStep s .cmdWait { s with procs := update s.procs cmd Role.wait, handler := .polling }
  | other (pid cmd : ℕ) (h : s.handler = .waiting pid cmd) (i : ℕ) (hu : unreapedAt s.procs pid = some i) (p : Child)
      (status : ℕ) (hp : s.procs[i]? = some p) (hz : p.life = .zombie status) : HandlerStep s .cmdWait
        { s with
          procs := update (s.procs.set i { p with life := .reaped status }) cmd Role.wait
          handler := .polling }
  | unlock (h : s.handler = .unlocking) : HandlerStep s .unlock { s with handler := .idle }

theorem handle_cases (h : s.handle op = some t) : HandlerStep s op t := by
  unfold State.handle at h
  split at h
  case h_1 =>
    obtain ⟨hh,ht⟩ := Option.ite_none_right_eq_some.mp h
    cases ht
    exact .notify hh
  case h_2 =>
    obtain ⟨⟨hh,hc⟩,ht⟩ := Option.ite_none_right_eq_some.mp h
    cases ht
    exact .receive hh hc
  case h_3 =>
    obtain ⟨hh,ht⟩ := Option.ite_none_right_eq_some.mp h
    cases ht
    exact .done hh
  case h_4 =>
    obtain ⟨⟨hh,hs⟩,ht⟩ := Option.ite_none_right_eq_some.mp h
    cases ht
    exact .lock hh hs
  case h_5 i =>
    obtain ⟨hh,ht⟩ := Option.ite_none_right_eq_some.mp h
    obtain ⟨⟨pid,status,ps⟩,hr,rfl⟩ := Option.map_eq_some_iff.mp ht
    obtain ⟨p,hp,rfl,hz,rfl⟩ := reap_cases hr
    exact .child hh i p status hp hz
  case h_6 =>
    obtain ⟨⟨hh,hz⟩,ht⟩ := Option.ite_none_right_eq_some.mp h
    cases ht
    exact .nothing hh hz
  case h_7 =>
    obtain ⟨hh,ht⟩ := Option.ite_none_right_eq_some.mp h
    cases ht
    exact .eintr hh
  case h_8 =>
    split at h
    case h_1 pid hh =>
      split at h
      case h_1 cmd hc => cases h; exact .known pid cmd hh hc
      case h_2 hc => cases h; exact .unknown pid hh hc
    case h_2 => cases h
  case h_9 =>
    split at h
    case h_1 pid cmd hh => cases h; exact .killPg pid cmd hh
    case h_2 => cases h
  case h_10 =>
    split at h
    case h_1 pid cmd hh =>
      split at h
      case h_1 hu => cases h; exact .gone pid cmd hh hu
      case h_2 i hu =>
        obtain ⟨⟨q,status,ps⟩,hr,rfl⟩ := Option.map_eq_some_iff.mp h
        obtain ⟨p,hp,rfl,hz,rfl⟩ := reap_cases hr
        exact .other pid cmd hh i hu p status hp hz
    case h_2 => cases h
  case h_11 =>
    obtain ⟨hh,ht⟩ := Option.ite_none_right_eq_some.mp h
    cases ht
    exact .unlock hh

inductive Stepped (s : State) : Label → State → Prop
  | spawn (pid : ℕ) (e : Event) (t : State) (h : SpawnStep s pid t) : Stepped s (.spawn pid e) t
  | handler (op : HandlerOp) (t : State) (h : HandlerStep s op t) : Stepped s (.handler op) t
  | kill (cmd : ℕ) (p : Child) (hp : s.procs[cmd]? = some p) :
      Stepped s (.kill cmd) { s with kills := s.kills ++ [⟨cmd,victims s.procs p.pid⟩] }
  | exit (i status : ℕ) (p : Child) (hp : s.procs[i]? = some p) (hr : p.life = .running) :
      Stepped s (.exit i status) { s with procs := s.procs.set i { p with life := .zombie status }, pending := true }
  | disband (i : ℕ) (p : Child) (hp : s.procs[i]? = some p) (hu : p.life.unreaped = false) :
      Stepped s (.disband i) { s with procs := s.procs.set i { p with group := false } }
  | raise : Stepped s .raise { s with pending := true }
  | deliver : Stepped s .deliver { s with pending := false, sigchld := s.sigchld || s.handler.notified }

theorem step_cases {l : Label} (h : step s l = some t) : Stepped s l t := by
  cases l with
  | spawn pid e => exact .spawn pid e t (spawn_cases h)
  | handler op => exact .handler op t (handle_cases h)
  | kill cmd =>
    obtain ⟨p,hp,ht⟩ := Option.bind_eq_some_iff.mp h
    obtain ⟨-,ht⟩ := Option.ite_none_right_eq_some.mp ht
    cases ht
    exact .kill cmd p hp
  | exit i status =>
    obtain ⟨ps,he,rfl⟩ := Option.map_eq_some_iff.mp h
    obtain ⟨p,hp,hr,rfl⟩ := exit_cases he
    exact .exit i status p hp hr
  | disband i =>
    obtain ⟨ps,he,rfl⟩ := Option.map_eq_some_iff.mp h
    obtain ⟨p,hp,hu,rfl⟩ := disband_cases he
    exact .disband i p hp hu
  | raise => cases h; exact .raise
  | deliver =>
    obtain ⟨-,ht⟩ := Option.ite_none_right_eq_some.mp h
    cases ht
    exact .deliver

end Cases

/-! ## Numbers of the children -/

section Numbers
variable {s t : State} {pid : ℕ} {op : HandlerOp}

theorem SpawnStep.numbered (h : SpawnStep s pid t) (hs : Numbered s.procs) : Numbered t.procs := by
  cases h with
  | fork _ hf => exact hs.fork hf
  | _ => exact hs

theorem numbered_reap {ps : List Child} {i : ℕ} {p : Child} {status : ℕ} (hs : Numbered ps) (hp : ps[i]? = some p) :
    Numbered (ps.set i { p with life := .reaped status }) :=
  hs.set hp rfl id nofun

theorem HandlerStep.numbered (h : HandlerStep s op t) (hs : Numbered s.procs) : Numbered t.procs := by
  cases h with
  | child _ i p status hp _ => exact numbered_reap hs hp
  | known => exact hs.update
  | gone => exact hs.update
  | other _ _ _ i _ p status hp _ => exact (numbered_reap hs hp).update
  | _ => exact hs

theorem numbered_exit {ps : List Child} {i status : ℕ} {p : Child} (hs : Numbered ps) (hp : ps[i]? = some p)
    (hr : p.life = .running) : Numbered (ps.set i { p with life := .zombie status }) :=
  hs.set hp rfl id (fun _ => hs.group i p hp (by rw [hr]; rfl))

theorem numbered_disband {ps : List Child} {i : ℕ} {p : Child} (hs : Numbered ps) (hp : ps[i]? = some p)
    (hu : p.life.unreaped = false) : Numbered (ps.set i { p with group := false }) :=
  hs.set hp rfl nofun (fun hu' => by rw [hu] at hu'; cases hu')

theorem step_numbered (s : State) (l : Label) (t : State) (hs : Numbered s.procs) (h : step s l = some t) :
    Numbered t.procs := by
  cases step_cases h with
  | spawn pid e t hst => exact hst.numbered hs
  | handler op t hst => exact hst.numbered hs
  | exit i status p hp hr => exact numbered_exit hs hp hr
  | disband i p hp hu => exact numbered_disband hs hp hu
  | _ => exact hs

end Numbers

end Stout.Process
