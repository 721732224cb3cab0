import Stout.Isolate.Dispatch

/-! # The connection loop

`HandleConn` of `isolate/conn_handler.go`, one turn of its loop at a time: the head of
a frame, the dispatcher of its channel, its `Handle`, and what is done with the result.
-/
namespace Stout.Isolate
open Msgpack

structure Handler where
  session : ℕ → Option Dispatcher
  highestChannel : ℕ

def Handler.attach (h : Handler) (channel : ℕ) (d : Dispatcher) : Handler :=
  { h with session := Function.update h.session channel (some d) }

def Handler.detach (h : Handler) (channel : ℕ) : Handler :=
  { h with session := Function.update h.session channel none }

/-- `next`: whether there are headers, the channel and the number. -/
def next : EStateM HandleError Bytes (Bool × ℕ × ℕ) := do
  let sz ← reading readArrayHeader
  let channel ← reading readUint64
  let c ← reading readUint64
  pure (sz == 4,channel,c)

/-- The dispatcher of a channel, a new one for a channel above all before it; none for
a channel that was detached. -/
def Handler.dispatcher (h : Handler) (channel : ℕ) : Option (Dispatcher × Handler) :=
  match h.session channel with
  | some d => some (d,h)
  | none =>
    if channel ≤ h.highestChannel then none
    else some (.initialDispatch channel,{ h with highestChannel := channel })

/-- Each terminal reply runs the callback that detaches the stream's channel. -/
def Handler.replied (h : Handler) (stream : ℕ) (effects : List Effect) : Handler :=
  effects.foldl (fun h e => match e with
    | .reply c => if c.terminal then h.detach stream else h
    | _ => h) h

/-- What the loop does with the result of `Handle`; nothing when it returns. -/
def Handler.settle (h : Handler) (channel : ℕ) : Except HandleError (Option Dispatcher) → Option Handler
  | .error .errInvalidArgsNum => none
  | .error _ => some (h.detach channel)
  | .ok none => some (h.detach channel)
  | .ok (some d) => some (h.attach channel d)

def skipHeaders (hasHeaders : Bool) (r : Bytes) : Bytes := if hasHeaders then (skip r).2 else r

/-- One turn of the loop; nothing when the connection is closed. -/
def turn (boxes : Bytes → Bool) (h : Handler) (r : Bytes) : Option (Handler × Bytes) :=
  match next r with
  | .error _ _ => none
  | .ok (hasHeaders,channel,c) r =>
    match h.dispatcher channel with
    | none => some (h,skipHeaders hasHeaders (skip r).2)
    | some (d,h) =>
      let handled := d.handle boxes c r
      let r := skipHeaders hasHeaders handled.reader
      ((h.replied d.stream handled.effects).settle channel handled.result).map fun h => (h,r)

end Stout.Isolate
