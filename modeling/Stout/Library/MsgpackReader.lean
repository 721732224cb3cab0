import Stout.Library.MsgpackWire

/-! # A pull reader for MessagePack

The reader is the list of bytes still to come; a method returns its result and the
bytes it leaves. A read of the wrong type leaves the reader where it was, an
integer below zero is consumed before it is refused, and `skip` and `copyNext`
walk one whole value whatever its type.
-/
namespace Stout.Msgpack

inductive Kind where
  | str | bin | map | array | float64 | float32 | bool | int | uint | nil
  | extension | complex64 | complex128 | time
deriving DecidableEq, Repr

inductive ReadError where
  | eof
  | unexpectedEOF
  | typeError (method encoded : Kind)
  | invalidPrefix (lead : UInt8)
  | uintBelowZero (value : ℤ)
deriving DecidableEq, Repr

abbrev Read (α : Type) := Except ReadError α × Bytes

def isfixint (b : UInt8) : Bool := b >>> 7 == 0
def isnfixint (b : UInt8) : Bool := b &&& 0xe0 == 0xe0
def isfixmap (b : UInt8) : Bool := b &&& 0xf0 == 0x80
def isfixarray (b : UInt8) : Bool := b &&& 0xf0 == 0x90
def isfixstr (b : UInt8) : Bool := b &&& 0xe0 == 0xa0
def last4 (b : UInt8) : ℕ := (b &&& 0x0f).toNat
def last5 (b : UInt8) : ℕ := (b &&& 0x1f).toNat

/-- How a lead byte's remaining size is found. -/
inductive VarMode where
  | objects (n : ℕ)
  | extra8 | extra16 | extra32 | map16v | map32v | array16v | array32v
deriving DecidableEq, Repr

structure ByteSpec where
  size : ℕ
  extra : VarMode
  typ : Kind
deriving DecidableEq, Repr

/-- The table of lead bytes; `none` is the one unassigned byte. -/
def sizes (lead : UInt8) : Option ByteSpec :=
  if isfixint lead then some ⟨1,.objects 0,.int⟩
  else if isfixmap lead then some ⟨1,.objects (2 * last4 lead),.map⟩
  else if isfixarray lead then some ⟨1,.objects (last4 lead),.array⟩
  else if isfixstr lead then some ⟨1 + last5 lead,.objects 0,.str⟩
  else if isnfixint lead then some ⟨1,.objects 0,.int⟩
  else match lead with
    | 0xc0 => some ⟨1,.objects 0,.nil⟩
    | 0xc2 => some ⟨1,.objects 0,.bool⟩
    | 0xc3 => some ⟨1,.objects 0,.bool⟩
    | 0xc4 => some ⟨2,.extra8,.bin⟩
    | 0xc5 => some ⟨3,.extra16,.bin⟩
    | 0xc6 => some ⟨5,.extra32,.bin⟩
    | 0xc7 => some ⟨3,.extra8,.extension⟩
    | 0xc8 => some ⟨4,.extra16,.extension⟩
    | 0xc9 => some ⟨6,.extra32,.extension⟩
    | 0xca => some ⟨5,.objects 0,.float32⟩
    | 0xcb => some ⟨9,.objects 0,.float64⟩
    | 0xcc => some ⟨2,.objects 0,.uint⟩
    | 0xcd => some ⟨3,.objects 0,.uint⟩
    | 0xce => some ⟨5,.objects 0,.uint⟩
    | 0xcf => some ⟨9,.objects 0,.uint⟩
    | 0xd0 => some ⟨2,.objects 0,.int⟩
    | 0xd1 => some ⟨3,.objects 0,.int⟩
    | 0xd2 => some ⟨5,.objects 0,.int⟩
    | 0xd3 => some ⟨9,.objects 0,.int⟩
    | 0xd4 => some ⟨3,.objects 0,.extension⟩
    | 0xd5 => some ⟨4,.objects 0,.extension⟩
    | 0xd6 => some ⟨6,.objects 0,.extension⟩
    | 0xd7 => some ⟨10,.objects 0,.extension⟩
    | 0xd8 => some ⟨18,.objects 0,.extension⟩
    | 0xd9 => some ⟨2,.extra8,.str⟩
    | 0xda => some ⟨3,.extra16,.str⟩
    | 0xdb => some ⟨5,.extra32,.str⟩
    | 0xdc => some ⟨3,.array16v,.array⟩
    | 0xdd => some ⟨5,.array32v,.array⟩
    | 0xde => some ⟨3,.map16v,.map⟩
    | 0xdf => some ⟨5,.map32v,.map⟩
    | _ => none

def beAt (k : ℕ) (r : Bytes) : ℕ := beVal ((r.drop 1).take k)

/-- Bytes up to the next object and the number of objects nested in this one. -/
def VarMode.resolve (mode : VarMode) (size : ℕ) (r : Bytes) : ℕ × ℕ :=
  match mode with
  | .objects n => (size,n)
  | .extra8 => (size + beAt 1 r,0)
  | .extra16 => (size + beAt 2 r,0)
  | .extra32 => (size + beAt 4 r,0)
  | .map16v => (size,2 * beAt 2 r)
  | .map32v => (size,2 * beAt 4 r)
  | .array16v => (size,beAt 2 r)
  | .array32v => (size,beAt 4 r)

def VarMode.fixed : VarMode → Bool
  | .objects _ => true
  | _ => false

def getNextSize (r : Bytes) : Except ReadError (ℕ × ℕ) :=
  match r with
  | [] => .error .eof
  | lead :: _ =>
    match sizes lead with
    | none => .error (.invalidPrefix lead)
    | some spec =>
      if spec.extra.fixed || spec.size ≤ r.length then .ok (spec.extra.resolve spec.size r)
      else .error .eof

/-- Skips `n` values. An object is stepped over and the objects nested in it join
those still to skip; each costs at least a byte, which bounds the fuel. -/
def skipN : ℕ → ℕ → Bytes → Read Unit
  | _, 0, r => (.ok (),r)
  | 0, _ + 1, r => (.error .eof,r)
  | fuel + 1, n + 1, r =>
    match getNextSize r with
    | .error e => (.error e,r)
    | .ok (v,o) => if v ≤ r.length then skipN fuel (o + n) (r.drop v) else (.error .unexpectedEOF,[])

def skip (r : Bytes) : Read Unit := skipN r.length 1 r

/-- `skipN` that also hands on the bytes it steps over. -/
def copyN : ℕ → ℕ → Bytes → Bytes → Read Bytes
  | _, 0, acc, r => (.ok acc,r)
  | 0, _ + 1, _, r => (.error .eof,r)
  | fuel + 1, n + 1, acc, r =>
    match getNextSize r with
    | .error e => (.error e,r)
    | .ok (v,o) =>
      if v ≤ r.length then copyN fuel (o + n) (acc ++ r.take v) (r.drop v)
      else (.error .unexpectedEOF,r)

def copyNext (r : Bytes) : Read Bytes := copyN r.length 1 [] r

def badPrefix (want : Kind) (lead : UInt8) : ReadError :=
  match sizes lead with
  | none => .invalidPrefix lead
  | some spec => .typeError want spec.typ

/-- The `k`-byte field after the lead byte, when it has arrived. -/
def readField (k : ℕ) (r : Bytes) : Read ℕ :=
  if 1 + k ≤ r.length then (.ok (beAt k r),r.drop (1 + k)) else (.error .unexpectedEOF,r)

def readArrayHeader (r : Bytes) : Read ℕ :=
  match r with
  | [] => (.error .eof,r)
  | lead :: rest =>
    if isfixarray lead then (.ok (last4 lead),rest)
    else match lead with
      | 0xdc => readField 2 r
      | 0xdd => readField 4 r
      | _ => (.error (badPrefix .array lead),r)

def readMapHeader (r : Bytes) : Read ℕ :=
  match r with
  | [] => (.error .eof,r)
  | lead :: rest =>
    if isfixmap lead then (.ok (last4 lead),rest)
    else match lead with
      | 0xde => readField 2 r
      | 0xdf => readField 4 r
      | _ => (.error (badPrefix .map lead),r)

def fill (n : ℕ) (r : Bytes) : Read Bytes :=
  if n ≤ r.length then (.ok (r.take n),r.drop n) else (.error .unexpectedEOF,[])

def readStringField (k : ℕ) (r : Bytes) : Read Bytes :=
  match readField k r with
  | (.ok n,rest) => fill n rest
  | (.error e,rest) => (.error e,rest)

def readString (r : Bytes) : Read Bytes :=
  match r with
  | [] => (.error .eof,r)
  | lead :: rest =>
    if isfixstr lead then fill (last5 lead) rest
    else match lead with
      | 0xd9 => readStringField 1 r
      | 0xda => readStringField 2 r
      | 0xdb => readStringField 4 r
      | _ => (.error (badPrefix .str lead),r)

def signed (k n : ℕ) : ℤ := if n < 2 ^ (8 * k - 1) then n else (n : ℤ) - 256 ^ k

def readSignedField (k : ℕ) (r : Bytes) : Read ℕ :=
  match readField k r with
  | (.ok n,rest) =>
    if signed k n < 0 then (.error (.uintBelowZero (signed k n)),rest) else (.ok (signed k n).toNat,rest)
  | (.error e,rest) => (.error e,rest)

def readUint64 (r : Bytes) : Read ℕ :=
  match r with
  | [] => (.error .eof,r)
  | lead :: rest =>
    if isfixint lead then (.ok lead.toNat,rest)
    else match lead with
      | 0xd0 => readSignedField 1 r
      | 0xcc => readField 1 r
      | 0xd1 => readSignedField 2 r
      | 0xcd => readField 2 r
      | 0xd2 => readSignedField 4 r
      | 0xce => readField 4 r
      | 0xd3 => readSignedField 8 r
      | 0xcf => readField 8 r
      | _ =>
        if isnfixint lead then (.error (.uintBelowZero ((lead.toNat : ℤ) - 256)),r)
        else (.error (badPrefix .uint lead),r)

/-- The type byte of an extension, found without consuming it. -/
def peekExtensionType (spec : ByteSpec) (r : Bytes) : Except ReadError UInt8 :=
  let at_ := if spec.extra.fixed then 1 else spec.size - 1
  match r[at_]? with
  | none => .error .eof
  | some b => .ok b

def nextType (r : Bytes) : Except ReadError Kind :=
  match r with
  | [] => .error .eof
  | lead :: _ =>
    match sizes lead with
    | none => .error (.invalidPrefix lead)
    | some spec =>
      if spec.typ = .extension then
        match peekExtensionType spec r with
        | .error e => .error e
        | .ok 3 => .ok .complex64
        | .ok 4 => .ok .complex128
        | .ok 5 => .ok .time
        | .ok _ => .ok .extension
      else .ok spec.typ

end Stout.Msgpack
