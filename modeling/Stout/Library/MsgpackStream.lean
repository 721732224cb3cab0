import Stout.Library.ForwardReader
import Stout.Library.MsgpackReader

/-! # The MessagePack reader on a stream

The methods of the pull reader as they are on a stream that arrives in pieces, over a
reader that looks ahead.
-/
namespace Stout.Msgpack
open Forward (Err)

abbrev Stream := Forward.Reader UInt8

/-- The errors of the reader on a list of bytes, and those it does not have. -/
inductive StreamError where
  | read (e : ReadError)
  | shortBytes
  | noProgress
  | uintOverflow (value : ℕ)
deriving DecidableEq, Repr

def StreamError.ofErr : Err → StreamError
  | .eof => .read .eof
  | .unexpectedEOF => .read .unexpectedEOF
  | .noProgress => .noProgress

namespace Stream

abbrev M := EStateM StreamError Stream

def call {α : Type} (f : Stream → Except Err α × Stream) : M α := fun r =>
  match f r with
  | (.ok a,r) => .ok a r
  | (.error e,r) => .error (.ofErr e) r

def peek (n : ℕ) : M Bytes := call (Forward.Reader.peek n)
def next (n : ℕ) : M Bytes := call (Forward.Reader.next n)
def skipBytes (n : ℕ) : M Unit := call (Forward.Reader.skip n)
def readFull (n : ℕ) : M Bytes := call (Forward.Reader.readFull n)

def lead : M UInt8 := do
  let p ← peek 1
  pure (p.headD 0)

def field (k : ℕ) : M ℕ := do
  let p ← next (1 + k)
  pure (beVal (p.drop 1))

def readArrayHeader : M ℕ := do
  let lead ← lead
  if isfixarray lead then do
    skipBytes 1
    pure (last4 lead)
  else match lead with
    | 0xdc => field 2
    | 0xdd => field 4
    | _ => throw (.read (badPrefix .array lead))

def readMapHeader : M ℕ := do
  let lead ← lead
  if isfixmap lead then do
    skipBytes 1
    pure (last4 lead)
  else match lead with
    | 0xde => field 2
    | 0xdf => field 4
    | _ => throw (.read (badPrefix .map lead))

def fill (n : ℕ) : M Bytes := if n = 0 then pure [] else readFull n

def stringField (k : ℕ) : M Bytes := do
  let n ← field k
  fill n

def readString : M Bytes := do
  let lead ← lead
  if isfixstr lead then do
    skipBytes 1
    fill (last5 lead)
  else match lead with
    | 0xd9 => stringField 1
    | 0xda => stringField 2
    | 0xdb => stringField 4
    | _ => throw (.read (badPrefix .str lead))

def signedField (k : ℕ) : M ℕ := do
  let n ← field k
  if signed k n < 0 then throw (.read (.uintBelowZero (signed k n))) else pure (signed k n).toNat

def readUint64 : M ℕ := do
  let lead ← lead
  if isfixint lead then do
    skipBytes 1
    pure lead.toNat
  else match lead with
    | 0xd0 => signedField 1
    | 0xcc => field 1
    | 0xd1 => signedField 2
    | 0xcd => field 2
    | 0xd2 => signedField 4
    | 0xce => field 4
    | 0xd3 => signedField 8
    | 0xcf => field 8
    | _ =>
      if isnfixint lead then throw (.read (.uintBelowZero ((lead.toNat : ℤ) - 256)))
      else throw (.read (badPrefix .uint lead))

def peekExtensionType : M UInt8 := do
  let p ← peek 2
  match sizes (p.headD 0) with
  | none => throw (.read (badPrefix .extension (p.headD 0)))
  | some spec =>
    if spec.typ ≠ .extension then throw (.read (badPrefix .extension (p.headD 0)))
    else if spec.extra = .objects 0 then pure (p.getD 1 0)
    else do
      let p ← peek spec.size
      pure (p.getD (spec.size - 1) 0)

def extensionKind (type : UInt8) : Kind :=
  match type with
  | 3 => .complex64
  | 4 => .complex128
  | 5 => .time
  | _ => .extension

def nextType : M Kind := do
  let lead ← lead
  match sizes lead with
  | none => throw (.read (.invalidPrefix lead))
  | some spec =>
    if spec.typ = .extension then do
      let type ← peekExtensionType
      pure (extensionKind type)
    else pure spec.typ

def getNextSize : M (ℕ × ℕ) := do
  let lead ← lead
  match sizes lead with
  | none => throw (.read (.invalidPrefix lead))
  | some spec =>
    if spec.extra.fixed then pure (spec.extra.resolve spec.size [])
    else do
      let p ← peek spec.size
      pure (spec.extra.resolve spec.size p)

def getSize (b : Bytes) : Except StreamError (ℕ × ℕ) :=
  match b with
  | [] => .error .shortBytes
  | lead :: _ =>
    match sizes lead with
    | none => .error (.read (.invalidPrefix lead))
    | some spec =>
      if spec.extra.fixed || spec.size ≤ b.length then .ok (spec.extra.resolve spec.size b)
      else .error .shortBytes

/-- Five bytes that are there already are looked at as a slice. -/
def sizeToSkip : M (ℕ × ℕ) := fun r =>
  if 5 ≤ r.buf.length then
    (do
      let p ← peek 5
      match getSize p with
      | .ok vo => pure vo
      | .error e => throw e) r
  else getNextSize r

/-- Steps over one object; the number of objects nested in it. -/
def skipObject : M ℕ := do
  let (v,o) ← sizeToSkip
  skipBytes v
  pure o

/-- An object costs a byte at least, which bounds the fuel. -/
def skipObjects : ℕ → ℕ → M Unit
  | _, 0 => pure ()
  | 0, _ + 1 => throw (.read .eof)
  | fuel + 1, n + 1 => do
    let o ← skipObject
    skipObjects fuel (o + n)

def skip : M Unit := fun r => skipObjects r.pending.length 1 r

/-- What `io.CopyN` takes at once. -/
def copyChunk : ℕ := 32 * 1024

def takeWhole (v : ℕ) : M Bytes := fun r =>
  match Forward.Reader.next v r with
  | (.ok b,r) => .ok b r
  | (.error .unexpectedEOF,r) => .error .shortBytes r
  | (.error e,r) => .error (.ofErr e) r

def takePieces (v : ℕ) : M Bytes := fun r =>
  match Forward.Reader.copyN copyChunk v r with
  | (b,true,r) => .ok b r
  | (_,false,r) => .error (.read .eof) r

def takeObject (v : ℕ) : M Bytes := fun r => if v ≤ r.cap then takeWhole v r else takePieces v r

def copyObject : M (Bytes × ℕ) := do
  let (v,o) ← getNextSize
  let b ← takeObject v
  pure (b,o)

def copyObjects : ℕ → ℕ → Bytes → M Bytes
  | _, 0, acc => pure acc
  | 0, _ + 1, _ => throw (.read .eof)
  | fuel + 1, n + 1, acc => do
    let (b,o) ← copyObject
    copyObjects fuel (o + n) (acc ++ b)

def copyNext : M Bytes := fun r => copyObjects r.pending.length 1 [] r

end Stream

end Stout.Msgpack
