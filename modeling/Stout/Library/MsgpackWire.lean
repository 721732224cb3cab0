import Mathlib

/-! # The MessagePack wire format

Values and the relation `Encodes v bs`, which holds for every admissible width of
every header: a short string may be sent with a 32-bit length and a small integer
in nine bytes. Nothing here decodes; the relation only says which bytes are a value.
-/
namespace Stout.Msgpack

abbrev Bytes := List UInt8

/-- The `k` low bytes of `n`, most significant first. -/
def be : ℕ → ℕ → Bytes
  | 0, _ => []
  | k + 1, n => UInt8.ofNat (n / 256 ^ k) :: be k n

def beVal (bs : Bytes) : ℕ := bs.foldl (fun acc b => acc * 256 + b.toNat) 0

@[simp] theorem be_length (k n : ℕ) : (be k n).length = k := by
  induction k with
  | zero => rfl
  | succ k ih => simp [be, ih]

theorem foldl_be (k n acc : ℕ) :
    (be k n).foldl (fun acc b => acc * 256 + b.toNat) acc = acc * 256 ^ k + n % 256 ^ k := by
  induction k generalizing acc with
  | zero => simp [be, Nat.mod_one]
  | succ k ih =>
    have hd : n % 256 ^ (k + 1) = n / 256 ^ k % 256 * 256 ^ k + n % 256 ^ k := by
      rw [pow_succ, Nat.mod_mul]
      ring
    have hb : (UInt8.ofNat (n / 256 ^ k)).toNat = n / 256 ^ k % 256 := rfl
    rw [be, List.foldl_cons, ih, hb, hd]
    ring

theorem beVal_be {k n : ℕ} (h : n < 256 ^ k) : beVal (be k n) = n := by
  rw [beVal, foldl_be, Nat.mod_eq_of_lt h]
  simp

/-- A decoded value. Strings are byte strings: the format does not check UTF-8. -/
inductive Value where
  | nil
  | bool (b : Bool)
  | int (z : ℤ)
  | float32 (bits : Bytes)
  | float64 (bits : Bytes)
  | str (s : Bytes)
  | bin (s : Bytes)
  | ext (type : UInt8) (data : Bytes)
  | array (vs : List Value)
  | map (kvs : List (Value × Value))

/-- A map's keys and values in the order they are sent. -/
def flatten (kvs : List (Value × Value)) : List Value := kvs.flatMap (fun kv => [kv.1,kv.2])

@[simp] theorem flatten_cons (k v : Value) (kvs : List (Value × Value)) :
    flatten ((k,v) :: kvs) = k :: v :: flatten kvs := rfl

@[simp] theorem flatten_length (kvs : List (Value × Value)) : (flatten kvs).length = 2 * kvs.length := by
  induction kvs with
  | nil => rfl
  | cons kv kvs ih =>
    rw [flatten_cons, List.length_cons, List.length_cons, ih, List.length_cons]
    omega

inductive ArrayHeader : ℕ → Bytes → Prop
  | fix {n : ℕ} (h : n < 16) : ArrayHeader n [UInt8.ofNat (0x90 + n)]
  | wide16 {n : ℕ} (h : n < 256 ^ 2) : ArrayHeader n (0xdc :: be 2 n)
  | wide32 {n : ℕ} (h : n < 256 ^ 4) : ArrayHeader n (0xdd :: be 4 n)

inductive MapHeader : ℕ → Bytes → Prop
  | fix {n : ℕ} (h : n < 16) : MapHeader n [UInt8.ofNat (0x80 + n)]
  | wide16 {n : ℕ} (h : n < 256 ^ 2) : MapHeader n (0xde :: be 2 n)
  | wide32 {n : ℕ} (h : n < 256 ^ 4) : MapHeader n (0xdf :: be 4 n)

inductive StrHeader : ℕ → Bytes → Prop
  | fix {n : ℕ} (h : n < 32) : StrHeader n [UInt8.ofNat (0xa0 + n)]
  | wide8 {n : ℕ} (h : n < 256 ^ 1) : StrHeader n (0xd9 :: be 1 n)
  | wide16 {n : ℕ} (h : n < 256 ^ 2) : StrHeader n (0xda :: be 2 n)
  | wide32 {n : ℕ} (h : n < 256 ^ 4) : StrHeader n (0xdb :: be 4 n)

inductive BinHeader : ℕ → Bytes → Prop
  | wide8 {n : ℕ} (h : n < 256 ^ 1) : BinHeader n (0xc4 :: be 1 n)
  | wide16 {n : ℕ} (h : n < 256 ^ 2) : BinHeader n (0xc5 :: be 2 n)
  | wide32 {n : ℕ} (h : n < 256 ^ 4) : BinHeader n (0xc6 :: be 4 n)

inductive ExtHeader (type : UInt8) : ℕ → Bytes → Prop
  | fix1 : ExtHeader type 1 [0xd4, type]
  | fix2 : ExtHeader type 2 [0xd5, type]
  | fix4 : ExtHeader type 4 [0xd6, type]
  | fix8 : ExtHeader type 8 [0xd7, type]
  | fix16 : ExtHeader type 16 [0xd8, type]
  | wide8 {n : ℕ} (h : n < 256 ^ 1) : ExtHeader type n (0xc7 :: (be 1 n ++ [type]))
  | wide16 {n : ℕ} (h : n < 256 ^ 2) : ExtHeader type n (0xc8 :: (be 2 n ++ [type]))
  | wide32 {n : ℕ} (h : n < 256 ^ 4) : ExtHeader type n (0xc9 :: (be 4 n ++ [type]))

/-- Every admissible encoding of an integer: unsigned formats for what is not
negative, two's complement for what fits the signed width. -/
inductive IntEncodes : ℤ → Bytes → Prop
  | fix {n : ℕ} (h : n < 128) : IntEncodes n [UInt8.ofNat n]
  | negfix {n : ℕ} (h : n < 32) : IntEncodes ((n : ℤ) - 32) [UInt8.ofNat (0xe0 + n)]
  | uint8 {n : ℕ} (h : n < 256 ^ 1) : IntEncodes n (0xcc :: be 1 n)
  | uint16 {n : ℕ} (h : n < 256 ^ 2) : IntEncodes n (0xcd :: be 2 n)
  | uint32 {n : ℕ} (h : n < 256 ^ 4) : IntEncodes n (0xce :: be 4 n)
  | uint64 {n : ℕ} (h : n < 256 ^ 8) : IntEncodes n (0xcf :: be 8 n)
  | int8 {z : ℤ} (h : -2 ^ 7 ≤ z ∧ z < 2 ^ 7) : IntEncodes z (0xd0 :: be 1 (z % 256 ^ 1).toNat)
  | int16 {z : ℤ} (h : -2 ^ 15 ≤ z ∧ z < 2 ^ 15) : IntEncodes z (0xd1 :: be 2 (z % 256 ^ 2).toNat)
  | int32 {z : ℤ} (h : -2 ^ 31 ≤ z ∧ z < 2 ^ 31) : IntEncodes z (0xd2 :: be 4 (z % 256 ^ 4).toNat)
  | int64 {z : ℤ} (h : -2 ^ 63 ≤ z ∧ z < 2 ^ 63) : IntEncodes z (0xd3 :: be 8 (z % 256 ^ 8).toNat)

mutual
/-- `bs` is an encoding of the value. -/
inductive Encodes : Value → Bytes → Prop
  | nil : Encodes .nil [0xc0]
  | false : Encodes (.bool false) [0xc2]
  | true : Encodes (.bool true) [0xc3]
  | int {z : ℤ} {bs : Bytes} (h : IntEncodes z bs) : Encodes (.int z) bs
  | float32 {bits : Bytes} (h : bits.length = 4) : Encodes (.float32 bits) (0xca :: bits)
  | float64 {bits : Bytes} (h : bits.length = 8) : Encodes (.float64 bits) (0xcb :: bits)
  | str {s h : Bytes} (hh : StrHeader s.length h) : Encodes (.str s) (h ++ s)
  | bin {s h : Bytes} (hh : BinHeader s.length h) : Encodes (.bin s) (h ++ s)
  | ext {type : UInt8} {s h : Bytes} (hh : ExtHeader type s.length h) : Encodes (.ext type s) (h ++ s)
  | array {vs : List Value} {h bs : Bytes} (hh : ArrayHeader vs.length h) (hs : EncodesAll vs bs) :
      Encodes (.array vs) (h ++ bs)
  | map {kvs : List (Value × Value)} {h bs : Bytes} (hh : MapHeader kvs.length h)
      (hs : EncodesAll (flatten kvs) bs) : Encodes (.map kvs) (h ++ bs)

inductive EncodesAll : List Value → Bytes → Prop
  | nil : EncodesAll [] []
  | cons {v : Value} {vs : List Value} {b bs : Bytes} (h : Encodes v b) (hs : EncodesAll vs bs) :
      EncodesAll (v :: vs) (b ++ bs)
end

theorem EncodesAll.single {v : Value} {b : Bytes} (h : Encodes v b) : EncodesAll [v] b := by
  simpa using EncodesAll.cons h .nil

end Stout.Msgpack
