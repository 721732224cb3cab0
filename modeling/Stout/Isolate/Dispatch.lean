import Stout.Library.MsgpackReader
import Stout.Isolate.ResponseStream

/-! # Dispatchers

The three dispatchers of a channel: `initialDispatch`, `spoolCancelationDispatch` and
`spawnDispatch`. A dispatcher's `Handle` reads the arguments of one message from the
connection, may reply on its stream, and may start goroutines; these are listed with
what they are given, and run elsewhere.
-/
namespace Stout.Isolate
open Msgpack

/-- A dispatcher and the channel its response stream replies on. -/
inductive Dispatcher where
  | initialDispatch (stream : ℕ)
  | spoolCancelationDispatch (stream : ℕ)
  | spawnDispatch (stream : ℕ)
deriving DecidableEq, Repr

def Dispatcher.stream : Dispatcher → ℕ
  | .initialDispatch c | .spoolCancelationDispatch c | .spawnDispatch c => c

inductive HandleError where
  | errInvalidArgsNum
  | read (e : ReadError)
  | profileMustBe (nt : Kind)
  | unknownTransition (id : ℕ)
  | corruptedProfile (opts : Bytes)
  | isolateNotAvailable (isolateType : Bytes)
deriving DecidableEq, Repr

def text (s : String) : Bytes := s.toUTF8.toList

/-- The texts that `onSpool` and `onSpawn` also send to the client. -/
def HandleError.error : HandleError → Bytes
  | .corruptedProfile opts => text "corrupted profile: " ++ opts
  | .isolateNotAvailable t => text "isolate type " ++ t ++ text " is not available"
  | .unknownTransition id => text ("unknown transition id: " ++ toString id)
  | .errInvalidArgsNum => text "invalid arguments number"
  | _ => []

def isolateErrCategory : ℤ := 42
def errBadProfile : ℤ × ℤ := (isolateErrCategory,13)
def errUnknownIsolate : ℤ × ℤ := (isolateErrCategory,14)

/-- What a `Handle` does besides reading: replies on the stream, goroutines, and the
cancellation of the spool. -/
inductive Effect where
  | reply (c : ResponseStream.Call)
  | goSpool (opts name : Bytes)
  | goSpawn (opts name executable : Bytes) (args env : List (Bytes × Bytes))
  | goAsyncKill
  | cancelSpool
deriving DecidableEq, Repr

structure Handled where
  result : Except HandleError (Option Dispatcher)
  reader : Bytes
  effects : List Effect
deriving DecidableEq, Repr

/-! ## Arguments -/

def reading {α : Type} (f : Bytes → Read α) : EStateM HandleError Bytes α := fun r =>
  match f r with
  | (.ok a,rest) => .ok a rest
  | (.error e,rest) => .error (.read e) rest

def checkSize (num : ℕ) : EStateM HandleError Bytes Unit := do
  let size ← reading readArrayHeader
  if size ≠ num then throw .errInvalidArgsNum else pure ()

def readPairs : ℕ → List (Bytes × Bytes) → EStateM HandleError Bytes (List (Bytes × Bytes))
  | 0, mp => pure mp
  | i + 1, mp => do
    let key ← reading readString
    let val ← reading readString
    readPairs i (mp ++ [(key,val)])

/-- The assignments to the map in their order; a later one to the same key wins. -/
def readMapStrStr : EStateM HandleError Bytes (List (Bytes × Bytes)) := do
  let sz ← reading readMapHeader
  readPairs sz []

def readProfile : EStateM HandleError Bytes Bytes := do
  let nt ← reading fun r => (nextType r,r)
  if nt ≠ .map then throw (.profileMustBe nt) else reading copyNext

/-- `_onSpoolArgsNum` and `_onSpawnArgsNum`: the parameters of the two methods. -/
def onSpoolArgsNum : ℕ := 2
def onSpawnArgsNum : ℕ := 5

def readSpool : EStateM HandleError Bytes (Bytes × Bytes) := do
  checkSize onSpoolArgsNum
  let rawProfile ← readProfile
  let name ← reading readString
  pure (rawProfile,name)

def readSpawn : EStateM HandleError Bytes (Bytes × Bytes × Bytes × List (Bytes × Bytes) × List (Bytes × Bytes)) := do
  checkSize onSpawnArgsNum
  let rawProfile ← readProfile
  let name ← reading readString
  let executable ← reading readString
  let args ← readMapStrStr
  let env ← readMapStrStr
  pure (rawProfile,name,executable,args,env)

/-! ## The type of a profile -/

/-- `msgp.Locate`: the bytes of the first value under the key. -/
def locate (key : Bytes) (raw : Bytes) : Bytes :=
  let rec search : ℕ → Bytes → Bytes
    | 0, _ => []
    | i + 1, bts =>
      match readString bts with
      | (.error _,_) => []
      | (.ok field,bts) =>
        match skip bts with
        | (.error _,_) => []
        | (.ok (),rest) => if field = key then bts.take (bts.length - rest.length) else search i rest
  match readMapHeader raw with
  | (.error _,_) => []
  | (.ok sz,bts) => search sz bts

/-- `cocaineProfile.Type`; the errors are not told apart by its callers. -/
def profileType (buff : Bytes) : Option Bytes :=
  match locate (text "type") buff with
  | [] => none
  | raw =>
    match readString raw with
    | (.ok t,_) => some t
    | (.error _,_) => none

/-! ## Handling -/

/-- The common head of `onSpool` and `onSpawn`: an error is replied and returned. -/
def onProfile (boxes : Bytes → Bool) (opts : Bytes) (go : Effect) (next : Dispatcher) (r : Bytes) : Handled :=
  match profileType opts with
  | none =>
    let err := HandleError.corruptedProfile opts
    ⟨.error err,r,[.reply (.error 1 errBadProfile err.error)]⟩
  | some isolateType =>
    if boxes isolateType then ⟨.ok (some next),r,[go]⟩
    else
      let err := HandleError.isolateNotAvailable isolateType
      ⟨.error err,r,[.reply (.error 1 errUnknownIsolate err.error)]⟩

def onSpool (boxes : Bytes → Bool) (stream : ℕ) (opts name : Bytes) (r : Bytes) : Handled :=
  onProfile boxes opts (.goSpool opts name) (.spoolCancelationDispatch stream) r

def onSpawn (boxes : Bytes → Bool) (stream : ℕ) (opts name executable : Bytes) (args env : List (Bytes × Bytes))
    (r : Bytes) : Handled :=
  onProfile boxes opts (.goSpawn opts name executable args env) (.spawnDispatch stream) r

def Dispatcher.handle (boxes : Bytes → Bool) (d : Dispatcher) (id : ℕ) (r : Bytes) : Handled :=
  match d with
  | .initialDispatch stream =>
    match id with
    | 0 =>
      match readSpool r with
      | .ok (opts,name) r => onSpool boxes stream opts name r
      | .error e r => ⟨.error e,r,[]⟩
    | 1 =>
      match readSpawn r with
      | .ok (opts,name,executable,args,env) r => onSpawn boxes stream opts name executable args env r
      | .error e r => ⟨.error e,r,[]⟩
    | id => ⟨.error (.unknownTransition id),r,[]⟩
  | .spoolCancelationDispatch _ =>
    match id with
    | 0 => ⟨.ok none,(skip r).2,[.cancelSpool,.reply (.close 0)]⟩
    | id => ⟨.error (.unknownTransition id),r,[]⟩
  | .spawnDispatch _ =>
    match id with
    | 0 => ⟨.ok none,(skip r).2,[.goAsyncKill]⟩
    | id => ⟨.error (.unknownTransition id),r,[]⟩

end Stout.Isolate
