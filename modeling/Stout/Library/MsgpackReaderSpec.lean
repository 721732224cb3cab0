import Stout.Library.MsgpackReader

/-! # What the reader does on well-formed values

`Objects n bs` splits `bs` into the objects the reader steps over. Every encoding
of `n` values is such a split, so `skip` and `copyNext` consume exactly one value,
and a typed read either consumes its value whole or leaves it whole.
-/
namespace Stout.Msgpack

theorem beAt_field {k n : ℕ} (h : n < 256 ^ k) (lead : UInt8) (rest : Bytes) :
    beAt k (lead :: (be k n ++ rest)) = n := by
  rw [beAt, List.drop_succ_cons, List.drop_zero, List.take_left' (be_length k n)]
  exact beVal_be h

theorem readField_field {k n : ℕ} (h : n < 256 ^ k) (lead : UInt8) (rest : Bytes) :
    readField k (lead :: (be k n ++ rest)) = (.ok n,rest) := by
  have hl : 1 + k ≤ (lead :: (be k n ++ rest)).length := by simp; omega
  rw [readField, if_pos hl, beAt_field h, Nat.add_comm 1 k, List.drop_succ_cons,
    List.drop_left' (be_length k n)]

theorem sizes_fixint : ∀ n < 128, sizes (UInt8.ofNat n) = some ⟨1,.objects 0,.int⟩ := by decide
theorem sizes_negfix : ∀ n < 32, sizes (UInt8.ofNat (0xe0 + n)) = some ⟨1,.objects 0,.int⟩ := by decide
theorem sizes_fixmap : ∀ n < 16, sizes (UInt8.ofNat (0x80 + n)) = some ⟨1,.objects (2 * n),.map⟩ := by
  decide
theorem sizes_fixarray : ∀ n < 16, sizes (UInt8.ofNat (0x90 + n)) = some ⟨1,.objects n,.array⟩ := by decide
theorem sizes_fixstr : ∀ n < 32, sizes (UInt8.ofNat (0xa0 + n)) = some ⟨1 + n,.objects 0,.str⟩ := by decide

theorem getNextSize_fixed {lead : UInt8} {size n : ℕ} {typ : Kind}
    (h : sizes lead = some ⟨size,.objects n,typ⟩) (rest : Bytes) :
    getNextSize (lead :: rest) = .ok (size,n) := by
  simp [getNextSize, h, VarMode.fixed, VarMode.resolve]

theorem getNextSize_var {lead : UInt8} (spec : ByteSpec) (h : sizes lead = some spec) {rest : Bytes}
    (hl : spec.size ≤ (lead :: rest).length) :
    getNextSize (lead :: rest) = .ok (spec.extra.resolve spec.size (lead :: rest)) := by
  simp only [getNextSize, h]
  rw [if_pos]
  simp only [Bool.or_eq_true, decide_eq_true_eq]
  exact Or.inr hl

theorem ArrayHeader.getNextSize {n : ℕ} {h : Bytes} (hh : ArrayHeader n h) (rest : Bytes) :
    getNextSize (h ++ rest) = .ok (h.length,n) := by
  cases hh with
  | fix hn => exact getNextSize_fixed (sizes_fixarray n hn) rest
  | wide16 hn =>
    rw [List.cons_append, getNextSize_var ⟨3,.array16v,.array⟩ rfl (by simp)]
    simp [VarMode.resolve, beAt_field hn]
  | wide32 hn =>
    rw [List.cons_append, getNextSize_var ⟨5,.array32v,.array⟩ rfl (by simp)]
    simp [VarMode.resolve, beAt_field hn]

theorem MapHeader.getNextSize {n : ℕ} {h : Bytes} (hh : MapHeader n h) (rest : Bytes) :
    getNextSize (h ++ rest) = .ok (h.length,2 * n) := by
  cases hh with
  | fix hn => exact getNextSize_fixed (sizes_fixmap n hn) rest
  | wide16 hn =>
    rw [List.cons_append, getNextSize_var ⟨3,.map16v,.map⟩ rfl (by simp)]
    simp [VarMode.resolve, beAt_field hn]
  | wide32 hn =>
    rw [List.cons_append, getNextSize_var ⟨5,.map32v,.map⟩ rfl (by simp)]
    simp [VarMode.resolve, beAt_field hn]

theorem StrHeader.getNextSize {n : ℕ} {h : Bytes} (hh : StrHeader n h) (rest : Bytes) :
    getNextSize (h ++ rest) = .ok (h.length + n,0) := by
  cases hh with
  | fix hn => exact getNextSize_fixed (sizes_fixstr n hn) rest
  | wide8 hn =>
    rw [List.cons_append, getNextSize_var ⟨2,.extra8,.str⟩ rfl (by simp)]
    simp [VarMode.resolve, beAt_field hn]
  | wide16 hn =>
    rw [List.cons_append, getNextSize_var ⟨3,.extra16,.str⟩ rfl (by simp)]
    simp [VarMode.resolve, beAt_field hn]
  | wide32 hn =>
    rw [List.cons_append, getNextSize_var ⟨5,.extra32,.str⟩ rfl (by simp)]
    simp [VarMode.resolve, beAt_field hn]

theorem BinHeader.getNextSize {n : ℕ} {h : Bytes} (hh : BinHeader n h) (rest : Bytes) :
    getNextSize (h ++ rest) = .ok (h.length + n,0) := by
  cases hh with
  | wide8 hn =>
    rw [List.cons_append, getNextSize_var ⟨2,.extra8,.bin⟩ rfl (by simp)]
    simp [VarMode.resolve, beAt_field hn]
  | wide16 hn =>
    rw [List.cons_append, getNextSize_var ⟨3,.extra16,.bin⟩ rfl (by simp)]
    simp [VarMode.resolve, beAt_field hn]
  | wide32 hn =>
    rw [List.cons_append, getNextSize_var ⟨5,.extra32,.bin⟩ rfl (by simp)]
    simp [VarMode.resolve, beAt_field hn]

theorem ExtHeader.getNextSize {type : UInt8} {n : ℕ} {h : Bytes} (hh : ExtHeader type n h) (rest : Bytes) :
    getNextSize (h ++ rest) = .ok (h.length + n,0) := by
  cases hh with
  | fix1 => exact getNextSize_fixed rfl _
  | fix2 => exact getNextSize_fixed rfl _
  | fix4 => exact getNextSize_fixed rfl _
  | fix8 => exact getNextSize_fixed rfl _
  | fix16 => exact getNextSize_fixed rfl _
  | wide8 hn =>
    rw [List.cons_append, getNextSize_var ⟨3,.extra8,.extension⟩ rfl (by simp; omega), List.append_assoc]
    simp only [VarMode.resolve, beAt_field hn]
    simp
  | wide16 hn =>
    rw [List.cons_append, getNextSize_var ⟨4,.extra16,.extension⟩ rfl (by simp; omega), List.append_assoc]
    simp only [VarMode.resolve, beAt_field hn]
    simp
  | wide32 hn =>
    rw [List.cons_append, getNextSize_var ⟨6,.extra32,.extension⟩ rfl (by simp; omega), List.append_assoc]
    simp only [VarMode.resolve, beAt_field hn]
    simp

theorem IntEncodes.getNextSize {z : ℤ} {bs : Bytes} (h : IntEncodes z bs) (rest : Bytes) :
    getNextSize (bs ++ rest) = .ok (bs.length,0) := by
  cases h with
  | fix hn => exact getNextSize_fixed (sizes_fixint _ hn) rest
  | negfix hn => exact getNextSize_fixed (sizes_negfix _ hn) rest
  | uint8 | uint16 | uint32 | uint64 | int8 | int16 | int32 | int64 =>
    rw [List.cons_append, List.length_cons, be_length]
    exact getNextSize_fixed rfl _

/-- `bs` splits into objects, `n` of them not nested in another one. -/
inductive Objects : ℕ → Bytes → Prop
  | nil : Objects 0 []
  | item {o n : ℕ} {b bs : Bytes} (hb : 0 < b.length)
      (hs : ∀ rest, getNextSize (b ++ rest) = .ok (b.length,o)) (h : Objects (o + n) bs) :
      Objects (n + 1) (b ++ bs)

theorem StrHeader.length_pos {n : ℕ} {h : Bytes} (hh : StrHeader n h) : 0 < h.length := by
  cases hh <;> simp

theorem StrHeader.length_le {n : ℕ} {h : Bytes} (hh : StrHeader n h) : h.length ≤ 5 := by
  cases hh <;> simp

theorem BinHeader.length_pos {n : ℕ} {h : Bytes} (hh : BinHeader n h) : 0 < h.length := by
  cases hh <;> simp
theorem ExtHeader.length_pos {type : UInt8} {n : ℕ} {h : Bytes} (hh : ExtHeader type n h) :
    0 < h.length := by
  cases hh <;> simp
theorem ArrayHeader.length_pos {n : ℕ} {h : Bytes} (hh : ArrayHeader n h) : 0 < h.length := by
  cases hh <;> simp
theorem MapHeader.length_pos {n : ℕ} {h : Bytes} (hh : MapHeader n h) : 0 < h.length := by
  cases hh <;> simp
theorem IntEncodes.length_pos {z : ℤ} {bs : Bytes} (h : IntEncodes z bs) : 0 < bs.length := by
  cases h <;> simp

theorem Encodes.length_pos {v : Value} {b : Bytes} (h : Encodes v b) : 0 < b.length := by
  cases h with
  | nil | false | true | float32 | float64 => simp
  | int h => exact h.length_pos
  | str hh => simp [hh.length_pos]
  | bin hh => simp [hh.length_pos]
  | ext hh => simp [hh.length_pos]
  | array hh => simp [hh.length_pos]
  | map hh => simp [hh.length_pos]

theorem Objects.leaf {m : ℕ} {b bs : Bytes} (hb : 0 < b.length)
    (hs : ∀ rest, getNextSize (b ++ rest) = .ok (b.length,0)) (h : Objects m bs) :
    Objects (m + 1) (b ++ bs) :=
  .item hb hs (by simpa using h)

mutual
theorem Encodes.objects {v : Value} {b : Bytes} {m : ℕ} {bs : Bytes} (h : Encodes v b)
    (hs : Objects m bs) : Objects (m + 1) (b ++ bs) := by
  cases h with
  | nil => exact hs.leaf Nat.one_pos (getNextSize_fixed rfl)
  | false => exact hs.leaf Nat.one_pos (getNextSize_fixed rfl)
  | true => exact hs.leaf Nat.one_pos (getNextSize_fixed rfl)
  | int h => exact hs.leaf h.length_pos h.getNextSize
  | float32 h =>
    refine hs.leaf (by simp) ?_
    intro rest
    rw [List.length_cons, h]
    exact getNextSize_fixed rfl _
  | float64 h =>
    refine hs.leaf (by simp) ?_
    intro rest
    rw [List.length_cons, h]
    exact getNextSize_fixed rfl _
  | str hh =>
    refine hs.leaf (Encodes.str hh).length_pos ?_
    intro rest
    rw [List.append_assoc, hh.getNextSize, List.length_append]
  | bin hh =>
    refine hs.leaf (Encodes.bin hh).length_pos ?_
    intro rest
    rw [List.append_assoc, hh.getNextSize, List.length_append]
  | ext hh =>
    refine hs.leaf (Encodes.ext hh).length_pos ?_
    intro rest
    rw [List.append_assoc, hh.getNextSize, List.length_append]
  | array hh hv =>
    rw [List.append_assoc]
    exact .item hh.length_pos hh.getNextSize (EncodesAll.objects hv hs)
  | map hh hv =>
    rw [List.append_assoc]
    refine .item hh.length_pos hh.getNextSize ?_
    simpa using EncodesAll.objects hv hs
termination_by (b.length,0)
decreasing_by
  all_goals
    have hp := hh.length_pos
    apply Prod.Lex.left
    rw [List.length_append]
    omega

theorem EncodesAll.objects {vs : List Value} {b : Bytes} {m : ℕ} {bs : Bytes} (h : EncodesAll vs b)
    (hs : Objects m bs) : Objects (vs.length + m) (b ++ bs) := by
  cases h with
  | nil => simpa using hs
  | cons hv hvs =>
    rw [List.append_assoc, List.length_cons, Nat.add_right_comm]
    exact Encodes.objects hv (EncodesAll.objects hvs hs)
termination_by (b.length,1)
decreasing_by
  · have hp := hv.length_pos
    apply Prod.Lex.left
    rw [List.length_append]
    omega
  · rw [List.length_append]
    exact Prod.Lex.right' _ (Nat.le_add_right _ _) Nat.one_pos
end

theorem Objects.skipN {n : ℕ} {bs : Bytes} (h : Objects n bs) (rest : Bytes) {fuel : ℕ}
    (hf : bs.length ≤ fuel) : skipN fuel n (bs ++ rest) = (.ok (),rest) := by
  induction h generalizing fuel with
  | nil => simp [Msgpack.skipN]
  | @item o n b bs hb hs _ ih =>
    rw [List.length_append] at hf
    cases fuel with
    | zero => omega
    | succ fuel =>
      rw [Msgpack.skipN, List.append_assoc, hs]
      simp only [List.length_append, Nat.le_add_right, ↓reduceIte, List.drop_left]
      exact ih (by omega)

theorem Objects.copyN {n : ℕ} {bs : Bytes} (h : Objects n bs) (acc rest : Bytes) {fuel : ℕ}
    (hf : bs.length ≤ fuel) : copyN fuel n acc (bs ++ rest) = (.ok (acc ++ bs),rest) := by
  induction h generalizing fuel acc with
  | nil => simp [Msgpack.copyN]
  | @item o n b bs hb hs _ ih =>
    rw [List.length_append] at hf
    cases fuel with
    | zero => omega
    | succ fuel =>
      rw [Msgpack.copyN, List.append_assoc, hs]
      simp only [List.length_append, Nat.le_add_right, ↓reduceIte, List.drop_left, List.take_left]
      rw [ih (acc ++ b) (by omega), List.append_assoc]

theorem Encodes.skip {v : Value} {b : Bytes} (h : Encodes v b) (rest : Bytes) :
    skip (b ++ rest) = (.ok (),rest) := by
  have ho := (EncodesAll.single h).objects .nil
  rw [List.append_nil] at ho
  exact ho.skipN rest (by simp)

theorem Encodes.copyNext {v : Value} {b : Bytes} (h : Encodes v b) (rest : Bytes) :
    copyNext (b ++ rest) = (.ok b,rest) := by
  have ho := (EncodesAll.single h).objects .nil
  rw [List.append_nil] at ho
  exact ho.copyN [] rest (by simp)

/-- The types a value's lead byte can announce. -/
def Value.HasKind : Value → Kind → Prop
  | .nil, k => k = .nil
  | .bool _, k => k = .bool
  | .int _, k => k = .int ∨ k = .uint
  | .float32 _, k => k = .float32
  | .float64 _, k => k = .float64
  | .str _, k => k = .str
  | .bin _, k => k = .bin
  | .ext _ _, k => k = .extension
  | .array _, k => k = .array
  | .map _, k => k = .map

theorem Value.hasKind_str {v : Value} : v.HasKind .str ↔ ∃ s, v = .str s := by
  cases v <;> simp [Value.HasKind]

theorem Value.hasKind_array {v : Value} : v.HasKind .array ↔ ∃ vs, v = .array vs := by
  cases v <;> simp [Value.HasKind]

theorem Value.hasKind_map {v : Value} : v.HasKind .map ↔ ∃ kvs, v = .map kvs := by
  cases v <;> simp [Value.HasKind]

theorem IntEncodes.lead {z : ℤ} {b : Bytes} (h : IntEncodes z b) :
    ∃ lead tail spec, b = lead :: tail ∧ sizes lead = some spec ∧ (spec.typ = .int ∨ spec.typ = .uint) := by
  cases h with
  | fix hn => exact ⟨_,_,_,rfl,sizes_fixint _ hn,Or.inl rfl⟩
  | negfix hn => exact ⟨_,_,_,rfl,sizes_negfix _ hn,Or.inl rfl⟩
  | int8 | int16 | int32 | int64 => exact ⟨_,_,_,rfl,rfl,Or.inl rfl⟩
  | uint8 | uint16 | uint32 | uint64 => exact ⟨_,_,_,rfl,rfl,Or.inr rfl⟩

theorem Encodes.lead {v : Value} {b : Bytes} (h : Encodes v b) :
    ∃ lead tail spec, b = lead :: tail ∧ sizes lead = some spec ∧ v.HasKind spec.typ := by
  cases h with
  | nil | false | true => exact ⟨_,_,_,rfl,rfl,rfl⟩
  | float32 | float64 => exact ⟨_,_,_,rfl,rfl,rfl⟩
  | int h => exact h.lead
  | str hh =>
    cases hh with
    | fix hn => exact ⟨_,_,_,rfl,sizes_fixstr _ hn,rfl⟩
    | wide8 | wide16 | wide32 => exact ⟨_,_,_,rfl,rfl,rfl⟩
  | bin hh => cases hh <;> exact ⟨_,_,_,rfl,rfl,rfl⟩
  | @ext type s h hh =>
    generalize s.length = n at hh
    cases hh <;> exact ⟨_,_,_,rfl,rfl,rfl⟩
  | array hh =>
    cases hh with
    | fix hn => exact ⟨_,_,_,rfl,sizes_fixarray _ hn,rfl⟩
    | wide16 | wide32 => exact ⟨_,_,_,rfl,rfl,rfl⟩
  | map hh =>
    cases hh with
    | fix hn => exact ⟨_,_,_,rfl,sizes_fixmap _ hn,rfl⟩
    | wide16 | wide32 => exact ⟨_,_,_,rfl,rfl,rfl⟩

theorem array_leads : ∀ lead : UInt8, (sizes lead).map ByteSpec.typ ≠ some .array →
    isfixarray lead = false ∧ lead ≠ 0xdc ∧ lead ≠ 0xdd := by decide +kernel
theorem map_leads : ∀ lead : UInt8, (sizes lead).map ByteSpec.typ ≠ some .map →
    isfixmap lead = false ∧ lead ≠ 0xde ∧ lead ≠ 0xdf := by decide +kernel
theorem str_leads : ∀ lead : UInt8, (sizes lead).map ByteSpec.typ ≠ some .str →
    isfixstr lead = false ∧ lead ≠ 0xd9 ∧ lead ≠ 0xda ∧ lead ≠ 0xdb := by decide +kernel

theorem isfixarray_lead : ∀ n < 16, isfixarray (UInt8.ofNat (0x90 + n)) = true ∧
    last4 (UInt8.ofNat (0x90 + n)) = n := by decide
theorem isfixmap_lead : ∀ n < 16, isfixmap (UInt8.ofNat (0x80 + n)) = true ∧
    last4 (UInt8.ofNat (0x80 + n)) = n := by decide
theorem isfixstr_lead : ∀ n < 32, isfixstr (UInt8.ofNat (0xa0 + n)) = true ∧
    last5 (UInt8.ofNat (0xa0 + n)) = n := by decide
theorem isfixint_lead : ∀ n < 128, isfixint (UInt8.ofNat n) = true ∧ (UInt8.ofNat n).toNat = n := by decide

theorem ArrayHeader.readArrayHeader {n : ℕ} {h : Bytes} (hh : ArrayHeader n h) (rest : Bytes) :
    readArrayHeader (h ++ rest) = (.ok n,rest) := by
  cases hh with
  | fix hn =>
    obtain ⟨hf,hl⟩ := isfixarray_lead n hn
    simp only [Msgpack.readArrayHeader, List.cons_append, List.nil_append, hf, hl, ↓reduceIte]
  | wide16 hn => exact readField_field hn 0xdc rest
  | wide32 hn => exact readField_field hn 0xdd rest

theorem MapHeader.readMapHeader {n : ℕ} {h : Bytes} (hh : MapHeader n h) (rest : Bytes) :
    readMapHeader (h ++ rest) = (.ok n,rest) := by
  cases hh with
  | fix hn =>
    obtain ⟨hf,hl⟩ := isfixmap_lead n hn
    simp only [Msgpack.readMapHeader, List.cons_append, List.nil_append, hf, hl, ↓reduceIte]
  | wide16 hn => exact readField_field hn 0xde rest
  | wide32 hn => exact readField_field hn 0xdf rest

theorem fill_append (s rest : Bytes) : fill s.length (s ++ rest) = (.ok s,rest) := by
  simp [fill]

theorem readStringField_str {k : ℕ} {s : Bytes} (h : s.length < 256 ^ k) (lead : UInt8) (rest : Bytes) :
    readStringField k (lead :: (be k s.length ++ (s ++ rest))) = (.ok s,rest) := by
  rw [readStringField, readField_field h]
  exact fill_append s rest

theorem StrHeader.readString {s h : Bytes} (hh : StrHeader s.length h) (rest : Bytes) :
    readString (h ++ (s ++ rest)) = (.ok s,rest) := by
  cases hh with
  | fix hn =>
    obtain ⟨hf,hl⟩ := isfixstr_lead s.length hn
    simp only [Msgpack.readString, List.cons_append, List.nil_append, hf, hl, ↓reduceIte]
    exact fill_append s rest
  | wide8 hn => exact readStringField_str hn 0xd9 rest
  | wide16 hn => exact readStringField_str hn 0xda rest
  | wide32 hn => exact readStringField_str hn 0xdb rest

theorem Encodes.lead_other {v : Value} {b : Bytes} (h : Encodes v b) {k : Kind} (hv : ¬v.HasKind k) :
    ∃ lead tail, b = lead :: tail ∧ (sizes lead).map ByteSpec.typ ≠ some k := by
  obtain ⟨lead,tail,spec,rfl,hs,hk⟩ := h.lead
  refine ⟨lead,tail,rfl,?_⟩
  rw [hs]
  intro he
  exact hv (Option.some.inj he ▸ hk)

theorem Encodes.readArrayHeader_other {v : Value} {b : Bytes} (h : Encodes v b)
    (hv : ¬v.HasKind .array) (rest : Bytes) :
    ∃ e, readArrayHeader (b ++ rest) = (.error e,b ++ rest) := by
  obtain ⟨lead,tail,rfl,ht⟩ := h.lead_other hv
  obtain ⟨hf,h1,h2⟩ := array_leads lead ht
  refine ⟨badPrefix .array lead,?_⟩
  simp only [Msgpack.readArrayHeader, List.cons_append, hf, Bool.false_eq_true, ↓reduceIte]

theorem Encodes.readMapHeader_other {v : Value} {b : Bytes} (h : Encodes v b)
    (hv : ¬v.HasKind .map) (rest : Bytes) :
    ∃ e, readMapHeader (b ++ rest) = (.error e,b ++ rest) := by
  obtain ⟨lead,tail,rfl,ht⟩ := h.lead_other hv
  obtain ⟨hf,h1,h2⟩ := map_leads lead ht
  refine ⟨badPrefix .map lead,?_⟩
  simp only [Msgpack.readMapHeader, List.cons_append, hf, Bool.false_eq_true, ↓reduceIte]

theorem Encodes.readString_other {v : Value} {b : Bytes} (h : Encodes v b)
    (hv : ¬v.HasKind .str) (rest : Bytes) :
    ∃ e, readString (b ++ rest) = (.error e,b ++ rest) := by
  obtain ⟨lead,tail,rfl,ht⟩ := h.lead_other hv
  obtain ⟨hf,h1,h2,h3⟩ := str_leads lead ht
  refine ⟨badPrefix .str lead,?_⟩
  simp only [Msgpack.readString, List.cons_append, hf, Bool.false_eq_true, ↓reduceIte]

theorem Encodes.nextType_map {kvs : List (Value × Value)} {b : Bytes} (h : Encodes (.map kvs) b)
    (rest : Bytes) : nextType (b ++ rest) = .ok .map := by
  obtain ⟨lead,tail,spec,rfl,hs,hk⟩ := h.lead
  have ht : spec.typ = .map := hk
  simp only [nextType, List.cons_append, hs, ht]
  rfl

theorem nextType_other {lead : UInt8} (h : (sizes lead).map ByteSpec.typ ≠ some .map) (rest : Bytes) :
    nextType (lead :: rest) ≠ .ok .map := by
  simp only [nextType]
  split
  · exact nofun
  · rename_i spec hs
    split
    · split <;> exact nofun
    · intro he
      rw [hs] at h
      exact h (congrArg some (Except.ok.inj he))

theorem Encodes.nextType_other {v : Value} {b : Bytes} (h : Encodes v b) (hv : ¬v.HasKind .map)
    (rest : Bytes) : nextType (b ++ rest) ≠ .ok .map := by
  obtain ⟨lead,tail,rfl,ht⟩ := h.lead_other hv
  exact Msgpack.nextType_other ht _

theorem signed_field {k : ℕ} {n : ℕ} (h : n < 2 ^ (8 * k - 1)) : signed k n = n := by
  rw [signed, if_pos h]

theorem readSignedField_field (k n : ℕ) (h : n < 256 ^ k) (hn : n < 2 ^ (8 * k - 1)) (lead : UInt8)
    (rest : Bytes) : readSignedField k (lead :: (be k n ++ rest)) = (.ok n,rest) := by
  simp [readSignedField, readField_field h, signed_field hn]

theorem IntEncodes.readUint64 {n : ℕ} {b : Bytes} (h : IntEncodes n b) (rest : Bytes) :
    readUint64 (b ++ rest) = (.ok n,rest) := by
  generalize hz : (n : ℤ) = z at h
  cases h with
  | @fix m hm =>
    obtain ⟨hf,hl⟩ := isfixint_lead m hm
    obtain rfl : n = m := by omega
    simp only [Msgpack.readUint64, List.cons_append, List.nil_append, hf, hl, ↓reduceIte]
  | negfix hm => omega
  | uint8 hm =>
    rw [← Int.natCast_inj.mp hz] at hm ⊢
    exact readField_field hm 0xcc rest
  | uint16 hm =>
    rw [← Int.natCast_inj.mp hz] at hm ⊢
    exact readField_field hm 0xcd rest
  | uint32 hm =>
    rw [← Int.natCast_inj.mp hz] at hm ⊢
    exact readField_field hm 0xce rest
  | uint64 hm =>
    rw [← Int.natCast_inj.mp hz] at hm ⊢
    exact readField_field hm 0xcf rest
  | int8 hm =>
    have hr : (z % 256 ^ 1).toNat = n := by omega
    rw [hr]
    exact readSignedField_field 1 n (by omega) (by omega) 0xd0 rest
  | int16 hm =>
    have hr : (z % 256 ^ 2).toNat = n := by omega
    rw [hr]
    exact readSignedField_field 2 n (by omega) (by omega) 0xd1 rest
  | int32 hm =>
    have hr : (z % 256 ^ 4).toNat = n := by omega
    rw [hr]
    exact readSignedField_field 4 n (by omega) (by omega) 0xd2 rest
  | int64 hm =>
    have hr : (z % 256 ^ 8).toNat = n := by omega
    rw [hr]
    exact readSignedField_field 8 n (by omega) (by omega) 0xd3 rest

/-! ## Progress

A header or a number that is read takes at least one byte. -/

theorem readField_taken {k n : ℕ} {r rest : Bytes} (h : readField k r = (.ok n,rest)) : rest.length < r.length := by
  unfold readField at h
  split at h
  · cases h
    rw [List.length_drop]
    omega
  · cases h

theorem readArrayHeader_taken {n : ℕ} {r rest : Bytes} (h : readArrayHeader r = (.ok n,rest)) : rest.length < r.length := by
  unfold readArrayHeader at h
  split at h
  · cases h
  split at h
  · cases h
    exact Nat.lt_succ_self _
  split at h
  · exact readField_taken h
  · exact readField_taken h
  · cases h

theorem readSignedField_taken {k n : ℕ} {r rest : Bytes} (h : readSignedField k r = (.ok n,rest)) : rest.length < r.length := by
  unfold readSignedField at h
  rcases hr : readField k r with ⟨e | m,rest'⟩
  · rw [hr] at h
    cases h
  · rw [hr] at h
    dsimp only at h
    split at h
    · cases h
    · cases h
      exact readField_taken hr

theorem readUint64_taken {n : ℕ} {r rest : Bytes} (h : readUint64 r = (.ok n,rest)) : rest.length < r.length := by
  unfold readUint64 at h
  split at h
  · cases h
  split at h
  · cases h
    exact Nat.lt_succ_self _
  split at h
  · exact readSignedField_taken h
  · exact readField_taken h
  · exact readSignedField_taken h
  · exact readField_taken h
  · exact readSignedField_taken h
  · exact readField_taken h
  · exact readSignedField_taken h
  · exact readField_taken h
  · split at h <;> cases h

end Stout.Msgpack
