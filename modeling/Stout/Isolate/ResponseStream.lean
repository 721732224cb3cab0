import Stout.Library.MsgpackAppend

/-! # The reply side of a channel

`responseStream` of `isolate/conn_handler.go`. Every method holds the stream's mutex
from its first line to its return, so an interleaving of callers is a sequence of
whole calls; who makes a call does not change what it does. `close` reads the flag
`closed` and no line of the source assigns it.
-/
namespace Stout.ResponseStream
open Msgpack

/-- What `wr.Write(p)` does: all of `p`, or a first part of it and an error. -/
abbrev WriteOutcome := Option (ℕ × String)

/-- A stream together with what it has caused: the bytes handed to the connection,
one entry a write, and the number of runs of the callback. -/
structure Stream where
  channel : ℕ
  onClose : Bool
  closed : Bool
  sent : List Bytes
  onCloseCalls : ℕ
deriving DecidableEq, Repr

/-- `newResponseStream`, then `OnClose` when a callback is registered. -/
def newResponseStream (channel : ℕ) (onClose : Bool) : Stream where
  channel := channel
  onClose := onClose
  closed := false
  sent := []
  onCloseCalls := 0

inductive Ret where
  | ok
  | errStreamIsClosed
  | writeError (e : String)
deriving DecidableEq, Repr

/-- Array of three, without headers, up to the number. -/
def frameStart (channel num : ℕ) : Bytes :=
  appendUint64 (appendUint64 (appendArrayHeader [] 3) channel) num

def writeFrame (channel num : ℕ) (data : Bytes) : Bytes :=
  appendStringFromBytes (appendArrayHeader (frameStart channel num) 1) data

def errorFrame (channel num : ℕ) (code : ℤ × ℤ) (msg : Bytes) : Bytes :=
  let p := appendArrayHeader (appendArrayHeader (frameStart channel num) 2) 2
  appendString (appendInt (appendInt p code.1) code.2) msg

def closeFrame (channel num : ℕ) : Bytes := appendArrayHeader (frameStart channel num) 0

/-- The unexported `close`, deferred by `Error` and `Close`. -/
def close (s : Stream) : Stream :=
  if s.closed then s
  else if s.onClose then { s with onCloseCalls := s.onCloseCalls + 1 }
  else s

/-- `r.wr.Write(p)` and the error the caller returns for it. -/
def emit (s : Stream) (p : Bytes) : WriteOutcome → Ret × Stream
  | none => (.ok,{ s with sent := s.sent ++ [p] })
  | some (n,e) => (.writeError e,{ s with sent := s.sent ++ [p.take n] })

inductive Call where
  | write (num : ℕ) (data : Bytes)
  | error (num : ℕ) (code : ℤ × ℤ) (msg : Bytes)
  | close (num : ℕ)
deriving DecidableEq, Repr

def Call.terminal : Call → Bool
  | .write .. => false
  | _ => true

def terminalReply (s : Stream) (p : Bytes) (w : WriteOutcome) : Ret × Stream :=
  let r := emit s p w
  (r.1,close r.2)

def perform (s : Stream) (c : Call) (w : WriteOutcome) : Ret × Stream :=
  if s.closed then (.errStreamIsClosed,s)
  else match c with
    | .write num data => emit s (writeFrame s.channel num data) w
    | .error num code msg => terminalReply s (errorFrame s.channel num code msg) w
    | .close num => terminalReply s (closeFrame s.channel num) w

/-- A call and what the connection made of its bytes. -/
abbrev Op := Call × WriteOutcome

def Op.terminal (o : Op) : Bool := o.1.terminal

def runOps (s : Stream) (ops : List Op) : Stream := ops.foldl (fun s o => (perform s o.1 o.2).2) s

@[simp] theorem runOps_append (s : Stream) (as bs : List Op) :
    runOps s (as ++ bs) = runOps (runOps s as) bs := List.foldl_append

@[simp] theorem emit_closed (s : Stream) (p : Bytes) (w : WriteOutcome) :
    (emit s p w).2.closed = s.closed := by
  rcases w with _ | ⟨n,e⟩ <;> rfl
@[simp] theorem emit_onClose (s : Stream) (p : Bytes) (w : WriteOutcome) :
    (emit s p w).2.onClose = s.onClose := by
  rcases w with _ | ⟨n,e⟩ <;> rfl
@[simp] theorem emit_onCloseCalls (s : Stream) (p : Bytes) (w : WriteOutcome) :
    (emit s p w).2.onCloseCalls = s.onCloseCalls := by
  rcases w with _ | ⟨n,e⟩ <;> rfl
@[simp] theorem emit_channel (s : Stream) (p : Bytes) (w : WriteOutcome) :
    (emit s p w).2.channel = s.channel := by
  rcases w with _ | ⟨n,e⟩ <;> rfl
theorem emit_ret (s : Stream) (p : Bytes) (w : WriteOutcome) : (emit s p w).1 ≠ .errStreamIsClosed := by
  rcases w with _ | ⟨n,e⟩ <;> exact nofun

@[simp] theorem close_closed (s : Stream) : (close s).closed = s.closed := by
  unfold close
  split
  · rfl
  · split <;> rfl

@[simp] theorem close_channel (s : Stream) : (close s).channel = s.channel := by
  unfold close
  split
  · rfl
  · split <;> rfl

@[simp] theorem close_sent (s : Stream) : (close s).sent = s.sent := by
  unfold close
  split
  · rfl
  · split <;> rfl

theorem perform_closed (s : Stream) (o : Op) : (perform s o.1 o.2).2.closed = s.closed := by
  obtain ⟨c,w⟩ := o
  unfold perform
  split
  · rfl
  · cases c <;> simp [terminalReply]

theorem runOps_closed (s : Stream) (ops : List Op) : (runOps s ops).closed = s.closed := by
  induction ops generalizing s with
  | nil => rfl
  | cons o ops ih => exact (ih _).trans (perform_closed s o)

theorem perform_not_refused {s : Stream} (h : s.closed = false) (o : Op) :
    (perform s o.1 o.2).1 ≠ .errStreamIsClosed := by
  obtain ⟨c,w⟩ := o
  unfold perform
  rw [h]
  cases c <;> exact emit_ret _ _ w

theorem perform_write_onCloseCalls {s : Stream} {o : Op} (h : o.terminal = false) :
    (perform s o.1 o.2).2.onCloseCalls = s.onCloseCalls ∧ (perform s o.1 o.2).2.onClose = s.onClose := by
  obtain ⟨c,w⟩ := o
  cases c with
  | write num data =>
    unfold perform
    split <;> simp
  | error => simp [Op.terminal, Call.terminal] at h
  | close => simp [Op.terminal, Call.terminal] at h

theorem runOps_writes {s : Stream} {ops : List Op} (h : ∀ o ∈ ops, Op.terminal o = false) :
    (runOps s ops).onCloseCalls = s.onCloseCalls ∧ (runOps s ops).onClose = s.onClose := by
  induction ops generalizing s with
  | nil => exact ⟨rfl,rfl⟩
  | cons o ops ih =>
    have ho := perform_write_onCloseCalls (s := s) (h o List.mem_cons_self)
    obtain ⟨h1,h2⟩ := ih (s := (perform s o.1 o.2).2) (fun q hq => h q (List.mem_cons_of_mem o hq))
    exact ⟨h1.trans ho.1,h2.trans ho.2⟩

def callbacks (s : Stream) : ℕ := if s.onClose then 1 else 0

theorem perform_terminal_onCloseCalls {s : Stream} (hs : s.closed = false) {o : Op}
    (h : o.terminal = true) :
    (perform s o.1 o.2).2.onCloseCalls = s.onCloseCalls + callbacks s := by
  obtain ⟨c,w⟩ := o
  cases c with
  | write => simp [Op.terminal, Call.terminal] at h
  | error num code msg =>
    cases ho : s.onClose <;> simp [perform, terminalReply, close, callbacks, hs, ho]
  | close num =>
    cases ho : s.onClose <;> simp [perform, terminalReply, close, callbacks, hs, ho]

/-- The terminal reply is final in this run: after the first `Error` or `Close` the
callback has run exactly once, and every later call is refused without effect. -/
def TerminalFinal (s : Stream) (ops : List Op) : Prop :=
  ∀ pre o post, ops = pre ++ o :: post → (∀ q ∈ pre, Op.terminal q = false) → Op.terminal o = true →
    (runOps s (pre ++ [o])).onCloseCalls = callbacks s ∧
    ∀ mid q rest, post = mid ++ q :: rest →
      perform (runOps s (pre ++ o :: mid)) q.1 q.2 = (.errStreamIsClosed,runOps s (pre ++ o :: mid))

theorem exists_first_terminal {ops : List Op} {o : Op} (h : o ∈ ops) (ht : Op.terminal o = true) :
    ∃ pre q post, ops = pre ++ q :: post ∧ (∀ p ∈ pre, Op.terminal p = false) ∧ Op.terminal q = true := by
  induction ops with
  | nil => simp at h
  | cons p ops ih =>
    cases hp : Op.terminal p with
    | true => exact ⟨[],p,ops,rfl,by simp,hp⟩
    | false =>
      rcases List.mem_cons.mp h with rfl | h
      · simp [hp] at ht
      · obtain ⟨pre,q,post,rfl,hpre,hq⟩ := ih h
        refine ⟨p :: pre,q,post,rfl,?_,hq⟩
        intro r hr
        rcases List.mem_cons.mp hr with rfl | hr
        · exact hp
        · exact hpre r hr

/-- For every sequence of calls on a new stream, the terminal reply is final exactly
when no call at all comes after it: the stream itself refuses nothing. -/
theorem terminalFinal_iff (channel : ℕ) (onClose : Bool) (ops : List Op) :
    TerminalFinal (newResponseStream channel onClose) ops ↔
      ∀ o ∈ ops.dropLast, Op.terminal o = false := by
  constructor
  · intro h o ho
    by_contra hne
    obtain ⟨pre,q,post,hd,hpre,hq⟩ := exists_first_terminal ho (by simpa using hne)
    have hops : ops ≠ [] := by
      rintro rfl
      simp at ho
    have he : ops = pre ++ q :: (post ++ [ops.getLast hops]) := by
      conv_lhs => rw [← List.dropLast_append_getLast hops, hd]
      simp
    have hc := (h pre q _ he hpre hq).2 post (ops.getLast hops) [] rfl
    refine perform_not_refused ?_ (ops.getLast hops) (congrArg Prod.fst hc)
    rw [runOps_closed]
    rfl
  · rintro h pre o post rfl hpre ho
    have hpost : post = [] := by
      by_contra hne
      have hm : o ∈ (pre ++ o :: post).dropLast := by
        rw [List.dropLast_append_of_ne_nil (by simp)]
        refine List.mem_append_right _ ?_
        rw [List.dropLast_cons_of_ne_nil hne]
        exact List.mem_cons_self
      simp [h o hm] at ho
    subst hpost
    obtain ⟨h1,h2⟩ := runOps_writes (s := newResponseStream channel onClose) hpre
    refine ⟨?_,?_⟩
    · rw [runOps_append]
      have hs : (runOps (newResponseStream channel onClose) pre).closed = false := runOps_closed _ pre
      change (perform _ o.1 o.2).2.onCloseCalls = _
      rw [perform_terminal_onCloseCalls hs ho, h1, callbacks, h2]
      simp [newResponseStream, callbacks]
    · intro mid q rest he
      simp at he

/-! ## Spool and cancel -/

def replySpoolOk : ℕ := 0
def replySpoolError : ℕ := 1

def isolateErrCategory : ℤ := 42
def codeSpawnEAGAIN : ℤ := 11
def errSpoolingFailed : ℤ × ℤ := (isolateErrCategory,codeSpawnEAGAIN + 4)

/-- The reply of the goroutine started by `onSpool`, given what `box.Spool` returned. -/
def spoolReply : Option Bytes → Call
  | some msg => .error replySpoolError errSpoolingFailed msg
  | none => .close replySpoolOk

/-- The reply of `spoolCancelationDispatch.Handle`. -/
def cancelReply : Call := .close replySpoolOk

/-- A spool on channel 1 that completes, then a cancel: two terminal frames are sent,
nothing is refused and the channel is detached twice. -/
theorem spool_cancel_two_terminal_frames :
    let ops : List Op := [(spoolReply none,none),(cancelReply,none)]
    (runOps (newResponseStream 1 true) ops).sent = [[0x93,0x01,0x00,0x90],[0x93,0x01,0x00,0x90]] ∧
      (runOps (newResponseStream 1 true) ops).onCloseCalls = 2 ∧
      ¬TerminalFinal (newResponseStream 1 true) ops := by
  refine ⟨by decide,by decide,?_⟩
  intro h
  have hc := (h [] (spoolReply none,none) [(cancelReply,none)] rfl (by simp) rfl).2 [] _ [] rfl
  exact perform_not_refused (runOps_closed _ _) (cancelReply,none) (congrArg Prod.fst hc)

end Stout.ResponseStream
