import Stout.Library.Buckets
import Stout.Library.Program
import Stout.Library.RangeOrder

/-! # The pool of MTN allocations

`MtnState` of `isolate/mtn.go`. The database is bolt: buckets named by the network,
in each the allocations under their ids, both in key order. The values are what
`encoding/json` makes of the allocations, and the calls are written over any such
`Codec`; a Go string is a `String` whose characters are its bytes. What is outside the
package answers through scripts that are consumed call by call: bolt and JSON calls
succeed or fail with a text, the allocator answers its requests, and the loops over
Go maps take their order from `picks`.
-/
namespace Stout.Mtn
open Std RangeOrder

structure Allocation where
  net : String
  hostname : String
  ip : String
  id : String
  netId : String
  box : String
  used : Bool
deriving DecidableEq, Repr

structure RawPorto where
  hostname : String
  ip : String
  net : String
deriving DecidableEq, Repr

structure RawAlloc where
  id : String
  porto : RawPorto
  network : String
deriving DecidableEq, Repr

structure ErrorCause where
  message : List String
deriving DecidableEq, Repr

structure AllocError where
  message : List String
  cause : ErrorCause
deriving DecidableEq, Repr

structure MtnCfg where
  enable : Bool
  allocbuffer : ℤ
  url : String
  ident : String
  schedLabel : String
  headers : List (String × String)
deriving DecidableEq, Repr

structure PostAllocreq where
  network : String
  host : String
  scheduler : String
deriving DecidableEq, Repr

structure AllocsStat where
  total : ℤ
  free : ℤ
  used : ℤ
  mtnEnabled : Bool
deriving DecidableEq, Repr

inductive Errno where
  | ErrStdb | ErrIpbr | ErrUnkn
deriving DecidableEq, Repr

/-- An `error` of the package: an `MtnError` or one of another type. -/
inductive Err where
  | mtnError (err : String) (errno : Errno)
  | text (err : String)
deriving DecidableEq, Repr

def Err.error : Err → String
  | .mtnError err _ => err
  | .text err => err

inductive Request where
  | get (url : String) (headers : List (String × String))
  | post (url : String) (headers : List (String × String)) (body : PostAllocreq)
deriving DecidableEq, Repr

/-- An answer of the allocator: the status, the body, what decoding it as the type
asked for gives, and what decoding it as an `AllocError` leaves and reports. -/
structure Response (β : Type) where
  statusCode : ℕ
  raw : String
  decoded : Except String β
  allocError : AllocError × Option String

/-- One HTTP exchange: a request that cannot be built, a failed `Do` with or without
a response, or a response. -/
inductive Exchange (β : Type) where
  | newRequestError (err : String)
  | doError (err : String) (response : Option (Response β))
  | response (r : Response β)

structure Env where
  faults : List (Option String)
  listing : Exchange (List RawAlloc)
  replies : List (Exchange RawAlloc)
  picks : List ℕ
  requests : List Request

structure StoreOf (V : Type) where
  db : Buckets.Db String V
  env : Env

abbrev CallOf (V α : Type) := Prog (StoreOf V) Err α

/-- How allocations are stored. Reading a value gives what `decode` says, unless the codec
is `erratic`: then it may fail as well, as the world says. -/
structure Codec (V : Type) where
  encode : Allocation → V
  decode : V → Except String Allocation
  erratic : Bool

variable {V : Type}

def external : CallOf V Unit := fun s =>
  match s.env.faults with
  | [] => (.ok (),s)
  | none :: rest => (.ok (),{ s with env := { s.env with faults := rest } })
  | some e :: rest => (.error (.text e),{ s with env := { s.env with faults := rest } })

def createBucketIfNotExists (netId : String) : CallOf V Unit := do
  external
  if netId = "" then Prog.throw (.text "bucket name required")
  else Prog.modify fun s => { s with db := Buckets.addBucket s.db netId }

def put (netId id : String) (value : V) : CallOf V Unit := do
  external
  if id = "" then Prog.throw (.text "key required")
  else if 32768 < id.length then Prog.throw (.text "key too large")
  else Prog.modify fun s => { s with db := Buckets.put s.db netId id value }

/-- `Db.Begin(true)`, the body, `tx.Commit()`, with the deferred `tx.Rollback()`. -/
def transaction {α : Type} (body : CallOf V α) (beginErr commitErr : Err → Err) : CallOf V α := fun s =>
  match (do external.mapError beginErr; let a ← body; external.mapError commitErr; pure a : CallOf V α) s with
  | (.ok a,t) => (.ok a,t)
  | (o,t) => (o,{ t with db := s.db })

/-- The entries of a Go map in the order a `range` visits them. -/
def range {β : Type} (entries : List β) : CallOf V (List β) := fun s =>
  (.ok (arrange (s.env.picks.take entries.length) entries),
    { s with env := { s.env with picks := s.env.picks.drop entries.length } })

def nilDereference : String := "invalid memory address or nil pointer dereference"

def indexOutOfRange : String := "index out of range [0] with length 0"

/-- `errDo != nil` with a response: only after a refused redirect. -/
def doErrorText {β : Type} (errDo : String) (r : Response β) : Outcome Err Unit :=
  if r.statusCode = 400 then
    match r.allocError with
    | (resp,some _) =>
      match resp.message, resp.cause.message with
      | m :: _, c :: _ => .error (.text ("Cant allocate. Request error: " ++ errDo ++ ". Internal error: " ++ m ++
          ". Caused: " ++ c ++ ". Raw body: " ++ r.raw ++ "."))
      | _, _ => .panic indexOutOfRange
    | (_,none) => .error (.text ("Cant allocate. Request error: " ++ errDo ++
        ". Body parse error: %!s(<nil>). Raw body: " ++ r.raw ++ "."))
  else .error (.text errDo)

def group (raws : List RawAlloc) : ExtTreeMap String (List Allocation) compare :=
  raws.foldl (fun r a => r.insert a.network (r.getD a.network [] ++
    [⟨a.porto.net,a.porto.hostname,a.porto.ip,a.id,a.network,"",false⟩])) ∅

def getAllocations (c : MtnCfg) : CallOf V (ExtTreeMap String (List Allocation) compare) := fun s =>
  let sent : StoreOf V := { s with env := { s.env with
    requests := s.env.requests ++ [.get (c.url ++ "?scheduler=" ++ c.schedLabel) c.headers] } }
  match s.env.listing with
  | .newRequestError e => (.error (.text e),s)
  | .doError _ none => (.panic nilDereference,sent)
  | .doError e (some r) =>
    match doErrorText e r with
    | .ok () => (.error (.text e),sent)
    | .error e => (.error e,sent)
    | .panic p => (.panic p,sent)
  | .response r =>
    match r.decoded with
    | .error e => (.error (.text e),sent)
    | .ok jresp => (.ok (group jresp),sent)

/-- One turn of the loop of `RequestAllocs`. An allocator that answers no more lets
the request time out. -/
def requestAlloc (c : MtnCfg) (netid : String) : CallOf V RawAlloc := fun s =>
  let sent : StoreOf V := { s with env := { s.env with
    replies := s.env.replies.tail
    requests := s.env.requests ++ [.post c.url (c.headers ++ [("Content-Type","application/json")])
      ⟨netid,c.ident,c.schedLabel⟩] } }
  match s.env.replies with
  | [] => (.panic nilDereference,sent)
  | .newRequestError e :: rest => (.error (.text e),{ s with env := { s.env with replies := rest } })
  | .doError _ none :: _ => (.panic nilDereference,sent)
  | .doError e (some _) :: _ => (.error (.text e),sent)
  | .response r :: _ =>
    match r.decoded with
    | .error e => (.error (.text e),sent)
    | .ok jsonResp => (.ok jsonResp,sent)

def replied (netid : String) (raw : RawAlloc) : Allocation :=
  ⟨raw.porto.net,raw.porto.hostname,raw.porto.ip,raw.id,netid,"",false⟩

abbrev Bucket := Buckets.Bucket String Allocation

def requestLoop (c : MtnCfg) (netid : String) : ℕ → Bucket → CallOf V Bucket
  | 0, r => pure r
  | i + 1, r => do
    let jsonResp ← requestAlloc c netid
    requestLoop c netid i (r.insert jsonResp.id (replied netid jsonResp))

def requestAllocs (c : MtnCfg) (netid : String) : CallOf V Bucket := do
  external
  requestLoop c netid c.allocbuffer.toNat ∅

/-- `fmt.Sprint` of a text and an error: the verb in the text stays as it is. -/
def sprint (msg : String) (e : Err) : String := msg ++ e.error

namespace Codec
variable (codec : Codec V)

def marshal (a : Allocation) : CallOf V V := do
  external
  pure (codec.encode a)

def unmarshal (value : V) : CallOf V Allocation := do
  (if codec.erratic then external else pure () : CallOf V Unit)
  match codec.decode value with
  | .error e => Prog.throw (.text e)
  | .ok a => pure a

/-- A value that does not decode counts as used. -/
def dbAllocIsFree (value : V) : CallOf V Bool := do
  match ← Prog.attempt (codec.unmarshal value) with
  | .error (_ : Err) => pure false
  | .ok a => pure (!a.used)

def countFree : List (String × V) → ℤ → CallOf V ℤ
  | [], counter => pure counter
  | (_,v) :: rest, counter => do
    if ← codec.dbAllocIsFree v then countFree rest (counter + 1) else countFree rest counter

def countFreeAllocs (netId : String) : CallOf V ℤ := do
  createBucketIfNotExists netId
  let s ← Prog.read
  codec.countFree (s.db.getD netId ∅).toList 0

/-- The cursor loop of `GetDbAlloc`: takes the first free record, if there is one. -/
def takeFree (netId box : String) : List (String × V) → CallOf V (Option Allocation)
  | [] => pure none
  | (_,v) :: rest => do
    if ← codec.dbAllocIsFree v then
      let a ← codec.unmarshal v
      let a := { a with used := true, box := box }
      let value ← codec.marshal a
      put netId a.id value
      pure (some a)
    else takeFree netId box rest

/-- The loop of `GetDbAlloc` over the requested allocations: all are stored, and the
first one visited is taken. -/
def storeTaking (netId box : String) : Option Allocation → List (String × Allocation) → CallOf V (Option Allocation)
  | gotcha, [] => pure gotcha
  | none, (id,alloc) :: rest => do
    let alloc := { alloc with used := true, box := box }
    let value ← codec.marshal alloc
    put netId id value
    storeTaking netId box (some alloc) rest
  | some a, (id,alloc) :: rest => do
    let value ← codec.marshal alloc
    put netId id value
    storeTaking netId box (some a) rest

def getDbAlloc (c : MtnCfg) (netId box : String) : CallOf V Allocation := do
  let s ← Prog.read
  match s.db[netId]? with
  | none => Prog.throw (.text ("BUG inside GetDbAlloc()! Backet " ++ netId ++ " not exist!"))
  | some b =>
    match ← codec.takeFree netId box b.toList with
    | some a => pure a
    | none =>
      let _ ← (Prog.attempt (codec.countFreeAllocs netId) : CallOf V (Except Err ℤ))
      let allocs ← requestAllocs c netId
      createBucketIfNotExists netId
      match ← codec.storeTaking netId box none (← range allocs.toList) with
      | some a => pure a
      | none => Prog.throw (.text ("BUG inside GetDbAlloc()... or somewhere! Cant get allocation from DB and " ++
          "cant request more. Clean allocaion: \x7b      %!s(bool=false)\x7d."))

def useAlloc (c : MtnCfg) (netId box : String) : CallOf V Allocation :=
  transaction (codec.getDbAlloc c netId box) id id

def freeDbAlloc (netId id : String) : CallOf V Unit :=
  transaction (do
    let s ← Prog.read
    match s.db[netId]? with
    | none => Prog.throw (.text ("BUG inside FreeDbAlloc()! Bucket " ++ netId ++ " not exist!"))
    | some b =>
      match b[id]? with
      | none => Prog.throw (.text "unexpected end of JSON input")
      | some v => do
        let a ← codec.unmarshal v
        let value ← codec.marshal { a with used := false }
        put netId id value) (fun e => e) (fun e => e)

/-- The error goes to the log and nowhere else; the result is what the log is told. -/
def unuseAlloc (netId id : String) : CallOf V (Except Err Unit) := Prog.attempt (codec.freeDbAlloc netId id)

def storeAll (netId : String) (entries : List (String × Allocation)) : CallOf V Unit :=
  entries.forM fun p => do
    let value ← codec.marshal p.2
    put netId p.1 value

def bindAllocs (c : MtnCfg) (netId : String) : CallOf V Unit :=
  if netId = "" then Prog.throw (.text "Len(netId) is zero.")
  else transaction (do
    let fCount ← codec.countFreeAllocs netId
    if c.allocbuffer > fCount then
      let allocs ← requestAllocs c netId
      createBucketIfNotExists netId
      codec.storeAll netId (← range allocs.toList)
    else pure ()) id id

def initAlloc (netId : String) (alloc : Allocation) : CallOf V Unit := do
  createBucketIfNotExists netId
  let s ← Prog.read
  if (Buckets.value s.db netId alloc.id).isNone then
    let value ← codec.marshal ⟨alloc.net,alloc.hostname,alloc.ip,alloc.id,netId,"",false⟩
    put netId alloc.id value
  else pure ()

def poolInit (c : MtnCfg) : CallOf V Unit :=
  if c.enable = false then pure ()
  else do
    let allAllocs ← (getAllocations c).mapError fun e =>
      .mtnError (sprint "Cant init pool inside PoolInit(), err: %s" e) .ErrIpbr
    transaction (do
        let nets ← range allAllocs.toList
        nets.forM fun p => p.2.forM fun alloc => (codec.initAlloc p.1 alloc).mapError fun e =>
          .mtnError (sprint "Cant continue transaction inside PoolInit(), err: %s" e) .ErrStdb)
      (fun e => .mtnError (sprint "Cant start transaction inside PoolInit(), err: %s" e) .ErrStdb)
      (fun e => .mtnError (sprint "Cant commit transaction inside PoolInit(), err: %s" e) .ErrStdb)

def collectUsed : List (String × V) → List Allocation × AllocsStat → CallOf V (List Allocation × AllocsStat)
  | [], r => pure r
  | (_,value) :: rest, (allocs,stat) => do
    if ← codec.dbAllocIsFree value then
      collectUsed rest (allocs,{ stat with total := stat.total + 1, free := stat.free + 1 })
    else
      let a ← codec.unmarshal value
      collectUsed rest (allocs ++ [a],{ stat with total := stat.total + 1, used := stat.used + 1 })

def usedAllocations (c : MtnCfg) : CallOf V (List Allocation × AllocsStat) :=
  if c.enable = false then pure ([],⟨0,0,0,c.enable⟩)
  else transaction (do
    let s ← Prog.read
    codec.collectUsed (s.db.toList.flatMap fun p => p.2.toList) ([],⟨0,0,0,c.enable⟩)) id id

end Codec

/-- `encoding/json` as far as what it writes it can read, and whether it can read a value
depends on nothing but the value. -/
structure Json (V : Type) extends Codec V where
  decode_encode : ∀ a, decode (encode a) = .ok a
  steady : erratic = false

def plain : Json Allocation := ⟨⟨id,.ok,false⟩,fun _ => rfl,rfl⟩

/-! ## Texts that JSON gives back

`json.Marshal` and `json.Unmarshal` keep every text that is UTF-8. As long as all of them
are, the database may as well hold the allocations themselves; a value that is none of
them is one that cannot be read.
-/

def texts : Codec Allocation := ⟨id,.ok,true⟩

abbrev Db := Buckets.Db String Allocation

abbrev Store := StoreOf Allocation

abbrev Call (α : Type) := CallOf Allocation α

/-- The stored allocation with the given network and id. -/
def record (db : Db) (netId id : String) : Option Allocation := Buckets.value db netId id

def putRecord (db : Db) (netId id : String) (a : Allocation) : Db := Buckets.put db netId id a

abbrev useAlloc (c : MtnCfg) (netId box : String) : Call Allocation := texts.useAlloc c netId box

abbrev freeDbAlloc (netId id : String) : Call Unit := texts.freeDbAlloc netId id

abbrev unuseAlloc (netId id : String) : Call (Except Err Unit) := texts.unuseAlloc netId id

abbrev bindAllocs (c : MtnCfg) (netId : String) : Call Unit := texts.bindAllocs c netId

abbrev poolInit (c : MtnCfg) : Call Unit := texts.poolInit c

abbrev usedAllocations (c : MtnCfg) : Call (List Allocation × AllocsStat) := texts.usedAllocations c

end Stout.Mtn
