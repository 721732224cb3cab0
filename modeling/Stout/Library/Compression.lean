import Mathlib

/-! # Compressed streams

The frames of gzip and zlib around a deflated text. A reader looks at the header only when
it is made; what is wrong behind it is found while the text is read. Of the blocks of the
text, those that are stored as they are can be read here.
-/
namespace Stout.Compression

abbrev Bytes := List UInt8

/-! ## Numbers and checksums -/

/-- A number of bytes, the lowest first. -/
def ofLE (bs : Bytes) : ℕ := bs.foldr (fun b n => b.toNat + 256 * n) 0

def toLE : ℕ → ℕ → Bytes
  | 0, _ => []
  | k + 1, n => UInt8.ofNat n :: toLE k (n / 256)

@[simp] theorem length_toLE (k n : ℕ) : (toLE k n).length = k := by
  induction k generalizing n with
  | zero => rfl
  | succ k ih => rw [toLE, List.length_cons, ih]

theorem ofLE_toLE {k n : ℕ} (h : n < 256 ^ k) : ofLE (toLE k n) = n := by
  induction k generalizing n with
  | zero =>
    rw [pow_zero, Nat.lt_one_iff] at h
    exact h.symm
  | succ k ih =>
    have hdiv : n / 256 < 256 ^ k := Nat.div_lt_of_lt_mul (by rwa [pow_succ, Nat.mul_comm] at h)
    have hrest : ofLE (toLE (k + 1) n) = (UInt8.ofNat n).toNat + 256 * ofLE (toLE k (n / 256)) := rfl
    rw [hrest, ih hdiv, UInt8.toNat_ofNat']
    omega

def crcStep (c : ℕ) : ℕ := if c % 2 = 1 then (c / 2) ^^^ 0xedb88320 else c / 2

/-- CRC-32 with the polynomial of IEEE 802.3. -/
def crc32 (bs : Bytes) : ℕ := (bs.foldl (fun c b => crcStep^[8] (c ^^^ b.toNat)) 0xffffffff) ^^^ 0xffffffff

def adler32 (bs : Bytes) : ℕ :=
  let (a,b) := bs.foldl (fun s x => ((s.1 + x.toNat) % 65521,(s.2 + s.1 + x.toNat) % 65521)) (1,0)
  65536 * b + a

/-! ## Headers -/

def skipText : ℕ → Bytes → Option Bytes
  | 0, _ => none
  | _ + 1, [] => none
  | n + 1, b :: rest => if b = 0 then some rest else skipText n rest

def readFull (n : ℕ) (bs : Bytes) : Option (Bytes × Bytes) := if n ≤ bs.length then some (bs.take n,bs.drop n) else none

def optionalPart (flags flag : UInt8) (skip : Bytes → Option Bytes) (rest : Bytes) : Option Bytes :=
  if flags &&& flag = 0 then some rest else skip rest

def skipExtra (rest : Bytes) : Option Bytes := do
  let (len,rest) ← readFull 2 rest
  let (_,rest) ← readFull (ofLE len) rest
  pure rest

def skipCrc (data rest : Bytes) : Option Bytes := do
  let (digest,behind) ← readFull 2 rest
  if ofLE digest = crc32 (data.take (data.length - rest.length)) % 65536 then pure behind else none

/-- What is behind a well-formed gzip header. -/
def gzipBody (data : Bytes) : Option Bytes :=
  match data with
  | 0x1f :: 0x8b :: 0x08 :: flags :: rest => do
    let (_,rest) ← readFull 6 rest
    let rest ← optionalPart flags 0x04 skipExtra rest
    let rest ← optionalPart flags 0x08 (skipText 512) rest
    let rest ← optionalPart flags 0x10 (skipText 512) rest
    optionalPart flags 0x02 (skipCrc data) rest
  | _ => none

/-- What is behind a zlib header: deflate, a window of 32 KiB at most, a check, and no
dictionary but the empty one. -/
def zlibBody : Bytes → Option Bytes
  | b₀ :: b₁ :: rest =>
    if b₀.toNat % 16 = 8 ∧ b₀.toNat / 16 ≤ 7 ∧ (256 * b₀.toNat + b₁.toNat) % 31 = 0 then
      if b₁ &&& 0x20 = 0 then some rest
      else (readFull 4 rest).bind fun r => if r.1 = [0,0,0,1] then some r.2 else none
    else none
  | _ => none

/-- No stream has both headers. -/
theorem gzipBody_of_zlib {data : Bytes} (h : (zlibBody data).isSome = true) : gzipBody data = none := by
  unfold gzipBody
  split
  · simp [zlibBody] at h
  · rfl

/-! ## Stored blocks -/

/-- The text of stored blocks, and what is behind the last one or the error that ends it;
`offset` counts what has been read. -/
def inflate : ℕ → ℕ → Bytes → Bytes × Except String Bytes
  | 0, _, _ => ([],.error "unexpected EOF")
  | _ + 1, _, [] => ([],.error "unexpected EOF")
  | fuel + 1, offset, h :: rest =>
    if h &&& 0x06 ≠ 0 then ([],.error "flate: not a stored block")
    else match readFull 4 rest with
      | none => ([],.error "unexpected EOF")
      | some (lens,rest) =>
        let n := ofLE (lens.take 2)
        if n + ofLE (lens.drop 2) ≠ 65535 then ([],.error ("flate: corrupt input before offset " ++ toString (offset + 5)))
        else match readFull n rest with
          | none => (rest,.error "unexpected EOF")
          | some (text,rest) =>
            if h &&& 0x01 = 1 then (text,.ok rest)
            else
              let r := inflate fuel (offset + 5 + n) rest
              (text ++ r.1,r.2)

def store (text : Bytes) : Bytes := 0x01 :: (toLE 2 text.length ++ toLE 2 (65535 - text.length) ++ text)

theorem readFull_append (a b : Bytes) : readFull a.length (a ++ b) = some (a,b) := by
  simp [readFull]

theorem inflate_store {text : Bytes} (h : text.length < 65536) (fuel offset : ℕ) (rest : Bytes) :
    inflate (fuel + 1) offset (store text ++ rest) = (text,.ok rest) := by
  have hlens : readFull 4 (toLE 2 text.length ++ toLE 2 (65535 - text.length) ++ text ++ rest) =
      some (toLE 2 text.length ++ toLE 2 (65535 - text.length),text ++ rest) := by
    have happ := readFull_append (toLE 2 text.length ++ toLE 2 (65535 - text.length)) (text ++ rest)
    rwa [List.length_append, length_toLE, length_toLE, ← List.append_assoc] at happ
  have hn : ofLE (toLE 2 text.length) = text.length := ofLE_toLE (by omega)
  have hm : ofLE (toLE 2 (65535 - text.length)) = 65535 - text.length := ofLE_toLE (by omega)
  have hsum : text.length + (65535 - text.length) = 65535 := by omega
  have htake : (toLE 2 text.length ++ toLE 2 (65535 - text.length)).take 2 = toLE 2 text.length := by simp
  have hdrop : (toLE 2 text.length ++ toLE 2 (65535 - text.length)).drop 2 = toLE 2 (65535 - text.length) := by simp
  have hflags : (0x01 : UInt8) &&& 0x06 = 0 ∧ (0x01 : UInt8) &&& 0x01 = 1 := by decide
  rw [store, List.cons_append, inflate, if_neg (not_not_intro hflags.1), hlens]
  dsimp only
  rw [htake, hdrop, hn, hm, if_neg (not_not_intro hsum), readFull_append]
  dsimp only
  rw [if_pos hflags.2]

/-! ## Whole streams -/

/-- The text of a gzip stream of one member, and the error it ends with. -/
def gunzip (data : Bytes) : Option (Bytes × Option String) :=
  (gzipBody data).map fun body =>
    match inflate body.length 0 body with
    | (text,.error e) => (text,some e)
    | (text,.ok rest) => (text,if rest = toLE 4 (crc32 text) ++ toLE 4 text.length then none else some "gzip: invalid checksum")

def unzlib (data : Bytes) : Option (Bytes × Option String) :=
  (zlibBody data).map fun body =>
    match inflate body.length 0 body with
    | (text,.error e) => (text,some e)
    | (text,.ok rest) => (text,if rest = (toLE 4 (adler32 text)).reverse then none else some "zlib: invalid checksum")

/-- A stream without name, time and checksum of its header. -/
def gzipStored (text : Bytes) : Bytes :=
  [0x1f,0x8b,0x08,0,0,0,0,0,0,0xff] ++ (store text ++ (toLE 4 (crc32 text) ++ toLE 4 text.length))

def zlibStored (text : Bytes) : Bytes := [0x78,0x01] ++ (store text ++ (toLE 4 (adler32 text)).reverse)

theorem gunzip_stored {text : Bytes} (h : text.length < 65536) : gunzip (gzipStored text) = some (text,none) := by
  have hbody : gzipBody (gzipStored text) = some (store text ++ (toLE 4 (crc32 text) ++ toLE 4 text.length)) := rfl
  have hfuel : (store text ++ (toLE 4 (crc32 text) ++ toLE 4 text.length)).length = (text.length + 12) + 1 := by
    simp [store]
    omega
  rw [gunzip, hbody, Option.map_some, hfuel, inflate_store h]
  simp

theorem unzlib_stored {text : Bytes} (h : text.length < 65536) : unzlib (zlibStored text) = some (text,none) := by
  have hbody : zlibBody (zlibStored text) = some (store text ++ (toLE 4 (adler32 text)).reverse) := rfl
  have hfuel : (store text ++ (toLE 4 (adler32 text)).reverse).length = (text.length + 8) + 1 := by
    simp [store]
    omega
  rw [unzlib, hbody, Option.map_some, hfuel, inflate_store h]
  simp

end Stout.Compression
