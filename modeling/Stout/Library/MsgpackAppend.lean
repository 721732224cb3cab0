import Stout.Library.MsgpackWire

/-! # Appending MessagePack to a buffer

Each function picks the shortest header that holds its argument. Lengths are
converted to 32 bits, so `be` keeps their low bytes only.
-/
namespace Stout.Msgpack

def appendArrayHeader (b : Bytes) (sz : ℕ) : Bytes :=
  if sz ≤ 15 then b ++ [UInt8.ofNat (0x90 + sz)]
  else if sz < 256 ^ 2 then b ++ 0xdc :: be 2 sz
  else b ++ 0xdd :: be 4 sz

def appendUint64 (b : Bytes) (u : ℕ) : Bytes :=
  if u < 128 then b ++ [UInt8.ofNat u]
  else if u < 256 ^ 1 then b ++ 0xcc :: be 1 u
  else if u < 256 ^ 2 then b ++ 0xcd :: be 2 u
  else if u < 256 ^ 4 then b ++ 0xce :: be 4 u
  else b ++ 0xcf :: be 8 u

def appendInt (b : Bytes) (i : ℤ) : Bytes :=
  if 0 ≤ i then
    if i < 2 ^ 7 then b ++ [UInt8.ofNat i.toNat]
    else if i < 2 ^ 15 then b ++ 0xd1 :: be 2 (i % 256 ^ 2).toNat
    else if i < 2 ^ 31 then b ++ 0xd2 :: be 4 (i % 256 ^ 4).toNat
    else b ++ 0xd3 :: be 8 (i % 256 ^ 8).toNat
  else if -32 ≤ i then b ++ [UInt8.ofNat (0xe0 + (i + 32).toNat)]
  else if -2 ^ 7 ≤ i then b ++ 0xd0 :: be 1 (i % 256 ^ 1).toNat
  else if -2 ^ 15 ≤ i then b ++ 0xd1 :: be 2 (i % 256 ^ 2).toNat
  else if -2 ^ 31 ≤ i then b ++ 0xd2 :: be 4 (i % 256 ^ 4).toNat
  else b ++ 0xd3 :: be 8 (i % 256 ^ 8).toNat

def appendStringFromBytes (b str : Bytes) : Bytes :=
  if str.length ≤ 31 then b ++ UInt8.ofNat (0xa0 + str.length) :: str
  else if str.length < 256 ^ 1 then b ++ 0xd9 :: (be 1 str.length ++ str)
  else if str.length < 256 ^ 2 then b ++ 0xda :: (be 2 str.length ++ str)
  else b ++ 0xdb :: (be 4 str.length ++ str)

/-- A Go string is its bytes, so this is the same function. -/
def appendString (b s : Bytes) : Bytes := appendStringFromBytes b s

/-! ## What is appended -/

theorem appendArrayHeader_spec (b : Bytes) (sz : ℕ) (hsz : sz < 256 ^ 4) :
    ∃ h, ArrayHeader sz h ∧ appendArrayHeader b sz = b ++ h := by
  unfold appendArrayHeader
  split
  · exact ⟨_,.fix (by omega),rfl⟩
  · split
    · exact ⟨_,.wide16 (by omega),rfl⟩
    · exact ⟨_,.wide32 hsz,rfl⟩

theorem appendUint64_spec (b : Bytes) {u : ℕ} (hu : u < 256 ^ 8) :
    ∃ e, IntEncodes u e ∧ appendUint64 b u = b ++ e := by
  unfold appendUint64
  split
  · exact ⟨_,.fix (by omega),rfl⟩
  · split
    · exact ⟨_,.uint8 (by omega),rfl⟩
    · split
      · exact ⟨_,.uint16 (by omega),rfl⟩
      · split
        · exact ⟨_,.uint32 (by omega),rfl⟩
        · exact ⟨_,.uint64 hu,rfl⟩

theorem appendInt_spec (b : Bytes) {i : ℤ} (hl : -2 ^ 63 ≤ i) (hu : i < 2 ^ 63) :
    ∃ e, IntEncodes i e ∧ appendInt b i = b ++ e := by
  unfold appendInt
  split
  · split
    · obtain ⟨n,rfl⟩ := Int.eq_ofNat_of_zero_le ‹0 ≤ i›
      exact ⟨_,.fix (by omega),rfl⟩
    · split
      · exact ⟨_,.int16 (by omega),rfl⟩
      · split
        · exact ⟨_,.int32 (by omega),rfl⟩
        · exact ⟨_,.int64 (by omega),rfl⟩
  · split
    · obtain ⟨n,hn⟩ := Int.eq_ofNat_of_zero_le (show 0 ≤ i + 32 by omega)
      obtain rfl : i = (n : ℤ) - 32 := by omega
      refine ⟨_,.negfix (n := n) (by omega),?_⟩
      rw [hn]
      rfl
    · split
      · exact ⟨_,.int8 (by omega),rfl⟩
      · split
        · exact ⟨_,.int16 (by omega),rfl⟩
        · split
          · exact ⟨_,.int32 (by omega),rfl⟩
          · exact ⟨_,.int64 (by omega),rfl⟩

theorem appendStringFromBytes_spec (b : Bytes) {s : Bytes} (hs : s.length < 256 ^ 4) :
    ∃ e, Encodes (.str s) e ∧ appendStringFromBytes b s = b ++ e := by
  unfold appendStringFromBytes
  split
  · exact ⟨_,.str (.fix (by omega)),rfl⟩
  · split
    · exact ⟨_,.str (.wide8 (by omega)),rfl⟩
    · split
      · exact ⟨_,.str (.wide16 (by omega)),rfl⟩
      · exact ⟨_,.str (.wide32 hs),rfl⟩

end Stout.Msgpack
