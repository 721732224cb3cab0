import Stout.Isolate.ConnectionHandler
import Stout.Isolate.Requests
import Stout.Library.MsgpackStreamSpec

/-! # The connection as it arrives

`HandleConn` over a connection whose bytes come in pieces, through the buffer of its
reader. The loop does what it does on the list of the bytes, whatever the pieces, as long
as no `Skip` meets an extension with a length of four bytes or an object larger than the
buffer.
-/
namespace Stout.Isolate
open Msgpack

/-- `fwd.DefaultReaderSize`; a reader of the pool may have grown. -/
def defaultReaderSize : ℕ := 2048

/-- The errors of `Handle`, or of the reader. -/
inductive ConnError where
  | handle (e : HandleError)
  | stream (e : StreamError)
deriving DecidableEq, Repr

namespace Conn

abbrev M := EStateM ConnError Stream

/-! ## The loop -/

section Reading
variable {α : Type}

def reading (f : Stream.M α) : M α := fun r =>
  match f r with
  | .ok a r => .ok a r
  | .error e r => .error (.stream e) r

end Reading

def checkSize (num : ℕ) : M Unit := do
  let size ← reading Stream.readArrayHeader
  if size ≠ num then throw (.handle .errInvalidArgsNum) else pure ()

def readPairs : ℕ → List (Bytes × Bytes) → M (List (Bytes × Bytes))
  | 0, mp => pure mp
  | i + 1, mp => do
    let key ← reading Stream.readString
    let val ← reading Stream.readString
    readPairs i (mp ++ [(key,val)])

def readMapStrStr : M (List (Bytes × Bytes)) := do
  let sz ← reading Stream.readMapHeader
  readPairs sz []

def readProfile : M Bytes := do
  let nt ← reading Stream.nextType
  if nt ≠ .map then throw (.handle (.profileMustBe nt)) else reading Stream.copyNext

def readSpool : M (Bytes × Bytes) := do
  checkSize onSpoolArgsNum
  let rawProfile ← readProfile
  let name ← reading Stream.readString
  pure (rawProfile,name)

def readSpawn : M (Bytes × Bytes × Bytes × List (Bytes × Bytes) × List (Bytes × Bytes)) := do
  checkSize onSpawnArgsNum
  let rawProfile ← readProfile
  let name ← reading Stream.readString
  let executable ← reading Stream.readString
  let args ← readMapStrStr
  let env ← readMapStrStr
  pure (rawProfile,name,executable,args,env)

/-- `Skip`, whose error is not looked at. -/
def skip (r : Stream) : Stream :=
  match Stream.skip r with
  | .ok _ r => r
  | .error _ r => r

structure Handled where
  result : Except ConnError (Option Dispatcher)
  reader : Stream
  effects : List Effect

/-- `onSpool` and `onSpawn` do not read. -/
def Handled.of (r : Stream) (h : Isolate.Handled) : Handled := ⟨h.result.mapError .handle,r,h.effects⟩

def handle (boxes : Bytes → Bool) (d : Dispatcher) (id : ℕ) (r : Stream) : Handled :=
  match d with
  | .initialDispatch stream =>
    match id with
    | 0 =>
      match readSpool r with
      | .ok (opts,name) r => .of r (onSpool boxes stream opts name [])
      | .error e r => ⟨.error e,r,[]⟩
    | 1 =>
      match readSpawn r with
      | .ok (opts,name,executable,args,env) r => .of r (onSpawn boxes stream opts name executable args env [])
      | .error e r => ⟨.error e,r,[]⟩
    | id => ⟨.error (.handle (.unknownTransition id)),r,[]⟩
  | .spoolCancelationDispatch _ =>
    match id with
    | 0 => ⟨.ok none,skip r,[.cancelSpool,.reply (.close 0)]⟩
    | id => ⟨.error (.handle (.unknownTransition id)),r,[]⟩
  | .spawnDispatch _ =>
    match id with
    | 0 => ⟨.ok none,skip r,[.goAsyncKill]⟩
    | id => ⟨.error (.handle (.unknownTransition id)),r,[]⟩

def next : M (Bool × ℕ × ℕ) := do
  let sz ← reading Stream.readArrayHeader
  let channel ← reading Stream.readUint64
  let c ← reading Stream.readUint64
  pure (sz == 4,channel,c)

def settle (h : Handler) (channel : ℕ) : Except ConnError (Option Dispatcher) → Option Handler
  | .error (.handle .errInvalidArgsNum) => none
  | .error _ => some (h.detach channel)
  | .ok none => some (h.detach channel)
  | .ok (some d) => some (h.attach channel d)

def skipHeaders (hasHeaders : Bool) (r : Stream) : Stream := if hasHeaders then skip r else r

/-- One turn of the loop: what the dispatcher does, and the loop after it, or nothing when
the connection is closed. -/
def turn (boxes : Bytes → Bool) (h : Handler) (r : Stream) : List Effect × Option (Handler × Stream) :=
  match next r with
  | .error _ _ => ([],none)
  | .ok (hasHeaders,channel,c) r =>
    match h.dispatcher channel with
    | none => ([],some (h,skipHeaders hasHeaders (skip r)))
    | some (d,h) =>
      let handled := handle boxes d c r
      let r := skipHeaders hasHeaders handled.reader
      (handled.effects,(settle (h.replied d.stream handled.effects) channel handled.result).map fun h => (h,r))

/-- What the dispatchers do in the turns of a connection. Before each turn the channels in
the schedule are detached by their streams. -/
def conversation (boxes : Bytes → Bool) : List (List ℕ) → Handler → Stream → List (List Effect)
  | [], _, _ => []
  | detached :: later, h, r =>
    let t := turn boxes (detached.foldl Handler.detach h) r
    t.1 :: match t.2 with
      | none => []
      | some (h,r) => conversation boxes later h r

end Conn

/-! ## The loop on a list of bytes -/

def turnEffects (boxes : Bytes → Bool) (h : Handler) (r : Bytes) : List Effect :=
  match next r with
  | .error _ _ => []
  | .ok (_,channel,c) r =>
    match h.dispatcher channel with
    | none => []
    | some (d,_) => (d.handle boxes c r).effects

def conversation (boxes : Bytes → Bool) : List (List ℕ) → Handler → Bytes → List (List Effect)
  | [], _, _ => []
  | detached :: later, h, r =>
    let h := detached.foldl Handler.detach h
    turnEffects boxes h r :: match turn boxes h r with
      | none => []
      | some (h,r) => conversation boxes later h r

def Dispatcher.handlePlain (size : ℕ) (d : Dispatcher) (id : ℕ) (r : Bytes) : Bool :=
  match d, id with
  | .spoolCancelationDispatch _, 0 | .spawnDispatch _, 0 => skipPlain size r
  | _, _ => true

def turnPlain (size : ℕ) (boxes : Bytes → Bool) (h : Handler) (r : Bytes) : Bool :=
  match next r with
  | .error _ _ => true
  | .ok (hasHeaders,channel,c) r =>
    match h.dispatcher channel with
    | none => skipPlain size r && (!hasHeaders || skipPlain size (skip r).2)
    | some (d,_) => d.handlePlain size c r && (!hasHeaders || skipPlain size (d.handle boxes c r).reader)

def conversationPlain (size : ℕ) (boxes : Bytes → Bool) : List (List ℕ) → Handler → Bytes → Bool
  | [], _, _ => true
  | detached :: later, h, r =>
    let h := detached.foldl Handler.detach h
    turnPlain size boxes h r && match turn boxes h r with
      | none => true
      | some (h,r) => conversationPlain size boxes later h r

/-! ## Handling -/

/-- Both calls fail, both for the number of arguments or neither. The readers stay
together, but for a profile that is cut off. -/
structure HandleFails (size : ℕ) (d : ConnError) (r : Stream) (e : HandleError) (bs : Bytes) : Prop where
  num : d = .handle .errInvalidArgsNum ↔ e = .errInvalidArgsNum
  together : Holds size r bs ∨ Lost size r bs

section Handling
variable {size : ℕ} {α : Type}

theorem follows_reading {E : StreamError → Stream → ReadError → Bytes → Prop} {f : Stream.M α} {g : Bytes → Read α}
    (h : Follows (Holds size) E f (ofRead g)) (hE : ∀ d r e bs, E d r e bs → Holds size r bs ∨ Lost size r bs) :
    Follows (Holds size) (HandleFails size) (Conn.reading f) (reading g) := by
  intro r bs hR
  have hs := h r bs hR
  unfold Conn.reading reading
  rcases hg : g bs with ⟨e | a,rest⟩
  · rw [ofRead_error hg] at hs
    generalize f r = x at hs
    cases hs with
    | error hf => exact .error ⟨by simp,hE _ _ _ _ hf⟩
  · rw [ofRead_ok hg] at hs
    generalize f r = x at hs
    cases hs with
    | ok hf => exact .ok hf

/-- Most reads fail in the same way on both sides. -/
theorem follows_typed {f : Stream.M α} {g : Bytes → Read α} (h : Follows (Holds size) (Fails size) f (ofRead g)) :
    Follows (Holds size) (HandleFails size) (Conn.reading f) (reading g) :=
  follows_reading h fun _ _ _ _ hf => Or.inl hf.2

theorem follows_throw (e : HandleError) :
    Follows (Holds size) (HandleFails size) (throw (.handle e) : Conn.M α) (throw e) :=
  .throw fun _ _ h => ⟨by simp,Or.inl h⟩

theorem follows_checkSize (num : ℕ) : Follows (Holds size) (HandleFails size) (Conn.checkSize num) (checkSize num) :=
  (follows_typed follows_readArrayHeader).bind fun _ => .ite (fun _ => follows_throw _) fun _ => .pure _

theorem follows_readPairs (i : ℕ) (mp : List (Bytes × Bytes)) :
    Follows (Holds size) (HandleFails size) (Conn.readPairs i mp) (readPairs i mp) := by
  induction i generalizing mp with
  | zero => exact .pure mp
  | succ i ih =>
    exact (follows_typed follows_readString).bind fun key => (follows_typed follows_readString).bind fun val =>
      ih (mp ++ [(key,val)])

theorem follows_readMapStrStr : Follows (Holds size) (HandleFails size) Conn.readMapStrStr readMapStrStr :=
  (follows_typed follows_readMapHeader).bind fun sz => follows_readPairs sz []

theorem follows_readProfile (hpos : 0 < size) : Follows (Holds size) (HandleFails size) Conn.readProfile readProfile :=
  (follows_typed follows_nextType).bind fun _ => .ite (fun _ => follows_throw _) fun _ =>
    follows_reading (follows_copyNext hpos) fun _ _ _ _ h => h

theorem follows_readSpool (hpos : 0 < size) : Follows (Holds size) (HandleFails size) Conn.readSpool readSpool :=
  (follows_checkSize _).bind fun _ => (follows_readProfile hpos).bind fun _ =>
    (follows_typed follows_readString).bind fun _ => .pure _

theorem follows_readSpawn (hpos : 0 < size) : Follows (Holds size) (HandleFails size) Conn.readSpawn readSpawn :=
  (follows_checkSize _).bind fun _ => (follows_readProfile hpos).bind fun _ =>
    (follows_typed follows_readString).bind fun _ => (follows_typed follows_readString).bind fun _ =>
      follows_readMapStrStr.bind fun _ => follows_readMapStrStr.bind fun _ => .pure _

theorem follows_next : Follows (Holds size) (HandleFails size) Conn.next next :=
  (follows_typed follows_readArrayHeader).bind fun _ => (follows_typed follows_readUint64).bind fun _ =>
    (follows_typed follows_readUint64).bind fun _ => .pure _

theorem holds_skip {r : Stream} {bs : Bytes} (h : Holds size r bs) (hplain : skipPlain size bs = true) :
    Holds size (Conn.skip r) (skip bs).2 := by
  have hs := agrees_skip h hplain
  unfold Conn.skip
  rcases hb : skip bs with ⟨e | u,rest⟩
  · rw [ofRead_error hb] at hs
    generalize Stream.skip r = x at hs
    cases hs with
    | error hf => exact hf
  · rw [ofRead_ok hb] at hs
    generalize Stream.skip r = x at hs
    cases hs with
    | ok hf => exact hf

structure HandledAlike (size : ℕ) (a : Conn.Handled) (b : Handled) : Prop where
  effects : a.effects = b.effects
  together : Holds size a.reader b.reader ∨ Lost size a.reader b.reader
  settle : ∀ h channel, Conn.settle h channel a.result = h.settle channel b.result

theorem settle_failed {d : ConnError} {e : HandleError} (hnum : d = .handle .errInvalidArgsNum ↔ e = .errInvalidArgsNum)
    (h : Handler) (channel : ℕ) : Conn.settle h channel (.error d) = h.settle channel (.error e) := by
  by_cases he : e = .errInvalidArgsNum
  · rw [he, hnum.mpr he]
    rfl
  · have hd := mt hnum.mp he
    rw [Conn.settle, Handler.settle]
    · exact he
    · exact hd

theorem handledAlike_failed {d : ConnError} {e : HandleError} {r : Stream} {bs : Bytes} (h : HandleFails size d r e bs) :
    HandledAlike size ⟨.error d,r,[]⟩ ⟨.error e,bs,[]⟩ :=
  ⟨rfl,h.together,settle_failed h.num⟩

theorem handledAlike_onProfile {boxes : Bytes → Bool} {opts : Bytes} {go : Effect} {d : Dispatcher} {r : Stream} {bs : Bytes}
    (h : Holds size r bs) : HandledAlike size (.of r (onProfile boxes opts go d [])) (onProfile boxes opts go d bs) := by
  unfold onProfile
  cases profileType opts with
  | none => exact ⟨rfl,Or.inl h,settle_failed (by simp)⟩
  | some t =>
    dsimp only
    split
    · exact ⟨rfl,Or.inl h,fun _ _ => rfl⟩
    · exact ⟨rfl,Or.inl h,settle_failed (by simp)⟩

theorem handle_alike (hpos : 0 < size) (boxes : Bytes → Bool) {d : Dispatcher} {id : ℕ} {r : Stream} {bs : Bytes}
    (h : Holds size r bs) (hplain : d.handlePlain size id bs = true) :
    HandledAlike size (Conn.handle boxes d id r) (d.handle boxes id bs) := by
  have hunknown : HandledAlike size ⟨.error (.handle (.unknownTransition id)),r,[]⟩
      ⟨.error (.unknownTransition id),bs,[]⟩ := handledAlike_failed ⟨by simp,Or.inl h⟩
  cases d with
  | initialDispatch stream =>
    rcases id with _ | _ | id
    · have hs := follows_readSpool hpos r bs h
      rw [Conn.handle, Dispatcher.handle]
      generalize Conn.readSpool r = x at hs
      generalize readSpool bs = y at hs
      cases hs with
      | ok hR => exact handledAlike_onProfile hR
      | error hE => exact handledAlike_failed hE
    · have hs := follows_readSpawn hpos r bs h
      rw [Conn.handle, Dispatcher.handle]
      generalize Conn.readSpawn r = x at hs
      generalize readSpawn bs = y at hs
      cases hs with
      | ok hR => exact handledAlike_onProfile hR
      | error hE => exact handledAlike_failed hE
    · exact hunknown
  | spoolCancelationDispatch _ =>
    cases id with
    | zero => exact ⟨rfl,Or.inl (holds_skip h hplain),fun _ _ => rfl⟩
    | succ id => exact hunknown
  | spawnDispatch _ =>
    cases id with
    | zero => exact ⟨rfl,Or.inl (holds_skip h hplain),fun _ _ => rfl⟩
    | succ id => exact hunknown

end Handling

/-! ## Turns -/

section Turns
variable {size : ℕ} {r : Stream} {bs : Bytes}

theorem array_sizes : ∀ lead : UInt8, ∀ spec ∈ sizes lead, spec.typ = .array →
    spec.size ≤ 5 ∧ (spec.extra.fixed = true ∨ spec.extra = .array16v ∨ spec.extra = .array32v) := by decide +kernel

theorem array_short {lead : UInt8} {spec : ByteSpec} (hs : sizes lead = some spec) (ht : spec.typ = .array) (bs : Bytes) :
    (spec.extra.resolve spec.size bs).1 ≤ 5 := by
  obtain ⟨hsize,he⟩ := array_sizes lead spec hs ht
  have hfst : (spec.extra.resolve spec.size bs).1 = spec.size := by
    cases hx : spec.extra <;> simp_all [VarMode.fixed, VarMode.resolve]
  rw [hfst]
  exact hsize

theorem readArrayHeader_large (h5 : 5 ≤ size) {v o : ℕ} (h : getNextSize bs = .ok (v,o)) (hv : size < v) :
    ∃ e, readArrayHeader bs = (.error e,bs) := by
  cases bs with
  | nil => cases h
  | cons lead rest =>
    cases hs : sizes lead with
    | none => simp [getNextSize, hs] at h
    | some spec =>
      have hres : spec.extra.resolve spec.size (lead :: rest) = (v,o) := by
        simp only [getNextSize, hs] at h
        split at h
        · exact Except.ok.inj h
        · cases h
      have harray : (sizes lead).map ByteSpec.typ ≠ some .array := by
        intro ht
        rw [hs] at ht
        have hshort := array_short hs (Option.some.inj ht) (lead :: rest)
        rw [hres] at hshort
        omega
      obtain ⟨hf,h1,h2⟩ := array_leads lead harray
      exact ⟨badPrefix .array lead,by simp only [readArrayHeader, hf, Bool.false_eq_true, ↓reduceIte]⟩

theorem turn_lost (h5 : 5 ≤ size) (h : Lost size r bs) (boxes : Bytes → Bool) (hd : Handler) :
    Conn.turn boxes hd r = ([],none) ∧ turnEffects boxes hd bs = [] ∧ turn boxes hd bs = none := by
  obtain ⟨v,o,hv,hlarge,-⟩ := h.large
  obtain ⟨e,he⟩ := readArrayHeader_large h5 hv hlarge
  have hnext : next bs = .error (.read e) bs := bind_error (reading_error he)
  have hs := follows_next r [] h.ended
  have hempty : next [] = .error (.read .eof) [] := rfl
  rw [hempty] at hs
  refine ⟨?_,by rw [turnEffects, hnext],by rw [turn, hnext]⟩
  unfold Conn.turn
  generalize Conn.next r = x at hs
  cases hs with
  | error => rfl

theorem together_skipHeaders {hasHeaders : Bool} (h : Holds size r bs ∨ Lost size r bs)
    (hplain : (!hasHeaders || skipPlain size bs) = true) :
    Holds size (Conn.skipHeaders hasHeaders r) (skipHeaders hasHeaders bs) ∨
      Lost size (Conn.skipHeaders hasHeaders r) (skipHeaders hasHeaders bs) := by
  cases hasHeaders with
  | false => exact h
  | true =>
    rcases h with h | h
    · exact Or.inl (holds_skip h (by simpa using hplain))
    · left
      rw [skipHeaders, if_pos rfl, h.skip]
      exact holds_skip h.ended rfl

/-- The loop goes on from related readers, or closes the connection, on both sides. -/
theorem turn_together (h5 : 5 ≤ size) (h : Holds size r bs) (boxes : Bytes → Bool) (hd : Handler)
    (hplain : turnPlain size boxes hd bs = true) :
    (Conn.turn boxes hd r).1 = turnEffects boxes hd bs ∧
      ((Conn.turn boxes hd r).2 = none ∧ turn boxes hd bs = none ∨
        ∃ hd' r' bs', (Conn.turn boxes hd r).2 = some (hd',r') ∧ turn boxes hd bs = some (hd',bs') ∧
          (Holds size r' bs' ∨ Lost size r' bs')) := by
  have hs := follows_next r bs h
  unfold Conn.turn turnEffects turn
  unfold turnPlain at hplain
  generalize Conn.next r = x at hs
  generalize next bs = y at hs hplain
  cases hs with
  | error => exact ⟨rfl,Or.inl ⟨rfl,rfl⟩⟩
  | @ok a r bs hR =>
    obtain ⟨hasHeaders,channel,c⟩ := a
    dsimp only at hplain ⊢
    cases hdis : hd.dispatcher channel with
    | none =>
      rw [hdis] at hplain
      dsimp only at hplain ⊢
      rw [Bool.and_eq_true] at hplain
      exact ⟨rfl,Or.inr ⟨hd,_,_,rfl,rfl,together_skipHeaders (Or.inl (holds_skip hR hplain.1)) hplain.2⟩⟩
    | some p =>
      obtain ⟨d,hd'⟩ := p
      rw [hdis] at hplain
      dsimp only at hplain ⊢
      rw [Bool.and_eq_true] at hplain
      have halike := handle_alike (by omega) boxes hR hplain.1
      refine ⟨halike.effects,?_⟩
      rw [halike.effects, halike.settle]
      cases ((hd'.replied d.stream (d.handle boxes c bs).effects).settle channel (d.handle boxes c bs).result) with
      | none => exact Or.inl ⟨rfl,rfl⟩
      | some hd'' => exact Or.inr ⟨hd'',_,_,rfl,rfl,together_skipHeaders halike.together hplain.2⟩

end Turns

/-! ## The whole connection -/

theorem conversation_together {size : ℕ} (h5 : 5 ≤ size) (boxes : Bytes → Bool) (schedule : List (List ℕ)) {h : Handler}
    {r : Stream} {bs : Bytes} (hR : Holds size r bs ∨ Lost size r bs)
    (hplain : conversationPlain size boxes schedule h bs = true) :
    Conn.conversation boxes schedule h r = conversation boxes schedule h bs := by
  induction schedule generalizing h r bs with
  | nil => rfl
  | cons detached later ih =>
    unfold Conn.conversation conversation
    unfold conversationPlain at hplain
    generalize detached.foldl Handler.detach h = hd at hplain
    dsimp only at hplain ⊢
    rw [Bool.and_eq_true] at hplain
    rcases hR with hR | hR
    · obtain ⟨heff,⟨hs,hb⟩ | ⟨hd',r',bs',hs,hb,hR'⟩⟩ := turn_together h5 hR boxes hd hplain.1
      · rw [heff, hs, hb]
      · rw [hb] at hplain
        rw [heff, hs, hb]
        dsimp only
        rw [ih hR' hplain.2]
    · obtain ⟨hs,heff,hb⟩ := turn_lost h5 hR boxes hd
      rw [hs, heff, hb]

/-- What the dispatchers do on a connection depends on the bytes that are sent and on when
the channels are detached, and not on the pieces in which the bytes arrive or on what is
buffered, as long as what is skipped is plain. -/
theorem conversation_of_bytes (boxes : Bytes → Bool) (schedule : List (List ℕ)) (h : Handler) (r : Stream)
    (hcap : defaultReaderSize ≤ r.cap)
    (hplain : conversationPlain defaultReaderSize boxes schedule h r.pending = true) :
    Conn.conversation boxes schedule h r = conversation boxes schedule h r.pending :=
  conversation_together (by decide) boxes schedule (Or.inl ⟨rfl,hcap⟩) hplain

/-- A spool with the profile `type: t` and its cancellation, byte by byte. -/
def spoolAndCancel : Bytes :=
  [0x93,1,0,0x92,0x81,0xa4,0x74,0x79,0x70,0x65,0xa1,0x74,0xa1,0x61,0x93,1,0,0x90]

theorem conversation_of_bytes_spoolAndCancel :
    Conn.conversation (fun _ => true) [[],[],[]] ⟨fun _ => none,0⟩
        ⟨⟨[],⟨spoolAndCancel,List.replicate 18 1⟩⟩,2048,by decide⟩ =
      [[.goSpool [0x81,0xa4,0x74,0x79,0x70,0x65,0xa1,0x74] [0x61]],[.cancelSpool,.reply (.close 0)],[]] :=
  (conversation_of_bytes (fun _ => true) [[],[],[]] ⟨fun _ => none,0⟩
    ⟨⟨[],⟨spoolAndCancel,List.replicate 18 1⟩⟩,2048,by decide⟩ (by decide) (by decide +kernel)).trans (by decide +kernel)

end Stout.Isolate
