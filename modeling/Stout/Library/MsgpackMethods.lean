import Stout.Library.MsgpackStreamSpec

/-! # Typed reads of whole values

Further methods of the stream reader: keys, signed integers, floats, numbers of any type,
and `Skip` over a source that can seek. `Consumes` says what a program makes of one encoded
value: it returns what the value means and leaves what follows, or it fails.
-/
namespace Stout.Msgpack

namespace Stream

/-- The length of a key, which is a string or binary. -/
def keyHeader : M ℕ := do
  let lead ← lead
  if isfixstr lead then do
    skipBytes 1
    pure (last5 lead)
  else match lead with
    | 0xd9 => field 1
    | 0xc4 => field 1
    | 0xda => field 2
    | 0xc5 => field 2
    | 0xdb => field 4
    | 0xc6 => field 4
    | _ => throw (.read (badPrefix .str lead))

def readMapKeyPtr : M Bytes := do
  let read ← keyHeader
  if read = 0 then throw .shortBytes else next read

def signedInt (k : ℕ) : M ℤ := do
  let n ← field k
  pure (signed k n)

def unsignedInt (k : ℕ) : M ℤ := do
  let n ← field k
  pure n

def readInt64 : M ℤ := do
  let lead ← lead
  if isfixint lead then do
    skipBytes 1
    pure lead.toNat
  else if isnfixint lead then do
    skipBytes 1
    pure ((lead.toNat : ℤ) - 256)
  else match lead with
    | 0xd0 => signedInt 1
    | 0xcc => unsignedInt 1
    | 0xd1 => signedInt 2
    | 0xcd => unsignedInt 2
    | 0xd2 => signedInt 4
    | 0xce => unsignedInt 4
    | 0xd3 => signedInt 8
    | 0xcf => do
      let u ← field 8
      if u > 2 ^ 63 - 1 then throw (.uintOverflow u) else pure u
    | _ => throw (.read (badPrefix .int lead))

def readFloat (want : Kind) (mark : UInt8) (k : ℕ) : M ℕ := do
  let p ← peek (1 + k)
  if p.headD 0 ≠ mark then throw (.read (badPrefix want (p.headD 0)))
  else do
    skipBytes (1 + k)
    pure (beVal (p.drop 1))

def readFloat32 : M ℕ := readFloat .float32 0xca 4
def readFloat64 : M ℕ := readFloat .float64 0xcb 8

/-- `Skip` of the look-ahead reader over a source that can seek. Seeking past the end is not
an error. -/
def seekBytes (n : ℕ) : M Unit := fun r =>
  if n ≤ r.buf.length then .ok () (r.drop n)
  else .ok () ⟨⟨[],⟨r.src.rest.drop (n - r.buf.length),r.src.pieces⟩⟩,r.cap,Nat.zero_le _⟩

def seekObject : M ℕ := do
  let (v,o) ← sizeToSkip
  seekBytes v
  pure o

def seekObjects : ℕ → ℕ → M Unit
  | _, 0 => pure ()
  | 0, _ + 1 => throw (.read .eof)
  | fuel + 1, n + 1 => do
    let o ← seekObject
    seekObjects fuel (o + n)

def seek : M Unit := fun r => seekObjects r.pending.length 1 r

end Stream

def ofBytes (b : Bytes) : Stream := ⟨⟨[],⟨b,[]⟩⟩,2048,Nat.zero_le _⟩

/-! ## Numbers -/

inductive NumberType where
  | invalid | int | uint | float32 | float64
deriving DecidableEq, Repr

/-- The bits are those of an `int64`, a `uint64` or a float. -/
structure Number where
  bits : ℕ
  typ : NumberType
deriving DecidableEq, Repr

namespace Number

def asInt (i : ℤ) : Number := if i = 0 then ⟨0,.invalid⟩ else ⟨(i % 256 ^ 8).toNat,.int⟩
def asUint (u : ℕ) : Number := ⟨u,.uint⟩
def asFloat32 (bits : ℕ) : Number := ⟨bits,.float32⟩
def asFloat64 (bits : ℕ) : Number := ⟨bits,.float64⟩

/-- `Int`, which takes the bits for those of an `int64` whatever the type is. -/
def int (n : Number) : ℤ × Bool := (signed 8 n.bits,n.typ = .int ∨ n.typ = .invalid)

def decodeMsg : Stream.M Number := do
  let typ ← Stream.nextType
  match typ with
  | .float32 => asFloat32 <$> Stream.readFloat32
  | .float64 => asFloat64 <$> Stream.readFloat64
  | .int => asInt <$> Stream.readInt64
  | .uint => asUint <$> Stream.readUint64
  | typ => throw (.read (.typeError .int typ))

end Number

/-! ## What a program consumes -/

inductive Step where
  | field (name : String)
  | index (i : ℕ)
  | key (k : Bytes)
deriving DecidableEq, Repr

abbrev Path := List Step

/-- A failure by how it is reported: `ErrShortBytes` without a path, `UintBelowZero` with the
path it was given last. -/
inductive Fault where
  | short
  | belowZero (path : Path)
  | located (path : Path)
deriving DecidableEq, Repr

def StreamError.fault : StreamError → Fault
  | .shortBytes => .short
  | .read (.uintBelowZero _) => .belowZero []
  | _ => .located []

/-- The value and the bytes left, or the failure. -/
inductive Yields {ε α : Type} (fault : ε → Fault) (tail : Bytes) : Except Fault α → EStateM.Result ε Stream α → Prop
  | ok {a : α} {t : Stream} (h : t.pending = tail) : Yields fault tail (.ok a) (.ok a t)
  | error {e : ε} {t : Stream} {f : Fault} (h : fault e = f) : Yields fault tail (.error f) (.error e t)

/-- On a stream that begins with the bytes, in whatever pieces. -/
def Consumes {ε α : Type} (fault : ε → Fault) (m : EStateM ε Stream α) (b : Bytes) (x : Except Fault α) : Prop :=
  ∀ (r : Stream) tail, r.pending = b ++ tail → Yields fault tail x (m r)

section Rules
variable {ε α β : Type} {fault : ε → Fault} {m : EStateM ε Stream α} {b c : Bytes}

namespace Consumes

theorem pure (a : α) : Consumes fault (Pure.pure a) [] (.ok a) := fun _ _ h => .ok h

theorem bind {f : α → EStateM ε Stream β} {a : α} {x : Except Fault β} (hm : Consumes fault m b (.ok a))
    (hf : Consumes fault (f a) c x) : Consumes fault (m >>= f) (b ++ c) x := by
  intro r tail h
  have hr := hm r (c ++ tail) (by rw [h, List.append_assoc])
  generalize hmr : m r = y at hr
  cases hr with
  | ok ht =>
    rw [bind_of_ok hmr]
    exact hf _ tail ht

theorem bind_last {f : α → EStateM ε Stream β} {a : α} {x : Except Fault β} (hm : Consumes fault m b (.ok a))
    (hf : Consumes fault (f a) [] x) : Consumes fault (m >>= f) b x := by
  simpa using hm.bind hf

theorem bind_error {f : α → EStateM ε Stream β} {e : Fault} (hm : Consumes fault m b (.error e)) :
    Consumes fault (m >>= f) b (.error e) := by
  intro r tail h
  have hr := hm r tail h
  generalize hmr : m r = y at hr
  cases hr with
  | error he =>
    rw [bind_of_error hmr]
    exact .error he

theorem append {e : Fault} (hm : Consumes fault m b (.error e)) (c : Bytes) : Consumes fault m (b ++ c) (.error e) := by
  intro r tail h
  have hr := hm r (c ++ tail) (by rw [h, List.append_assoc])
  generalize m r = y at hr ⊢
  cases hr with
  | error he => exact .error he

theorem map (f : α → β) {x : Except Fault α} (hm : Consumes fault m b x) : Consumes fault (f <$> m) b (x.map f) := by
  rw [← bind_pure_comp]
  cases x with
  | ok a => exact hm.bind_last (.pure _)
  | error e => exact hm.bind_error

end Consumes

end Rules

/-! ## The methods -/

section Methods
variable {α : Type} {b : Bytes}

abbrev Reads {α : Type} (m : Stream.M α) (b : Bytes) (x : Except Fault α) : Prop := Consumes StreamError.fault m b x

abbrev refused {α : Type} : Except Fault α := .error (.located [])

theorem holds_zero {r : Stream} {bs : Bytes} (h : r.pending = bs) : Holds 0 r bs := ⟨h,Nat.zero_le _⟩

theorem reads_of_follows {M : Stream.M α} {f : Bytes → Read α} (h : Follows (Holds 0) (Fails 0) M (ofRead f)) {a : α}
    (hf : ∀ tail, f (b ++ tail) = (.ok a,tail)) : Reads M b (.ok a) := by
  intro r tail hr
  have hs := h r (b ++ tail) (holds_zero hr)
  rw [ofRead_ok (hf tail)] at hs
  generalize M r = x at hs
  cases hs with
  | ok hR => exact .ok hR.1

theorem reads_error {M : Stream.M α} {f : Bytes → Read α} {x : Fault} (h : Follows (Holds 0) (Fails 0) M (ofRead f))
    (hf : ∀ tail, ∃ e s, f (b ++ tail) = (.error e,s) ∧ (StreamError.read e).fault = x) : Reads M b (.error x) := by
  intro r tail hr
  have hs := h r (b ++ tail) (holds_zero hr)
  obtain ⟨e,s,he,hx⟩ := hf tail
  rw [ofRead_error he] at hs
  generalize M r = x at hs
  cases hs with
  | error hE =>
    rw [hE.1]
    exact .error hx

theorem reads_lead {F : UInt8 → Stream.M α} {lead : UInt8} {rest : Bytes} {x : Except Fault α}
    (h : ∀ (r : Stream) tail, r.pending = lead :: rest ++ tail → 0 < r.buf.length → Yields StreamError.fault tail x (F lead r)) :
    Reads (Stream.lead >>= F) (lead :: rest) x := by
  intro r tail hr
  obtain ⟨t,ht,hl,hb⟩ := Forward.Reader.peek_ok (r := r) (n := 1) (by simp [hr])
  rw [hr, List.cons_append, List.take_succ_cons, List.take_zero] at ht
  have hlead : Stream.lead r = .ok lead t := bind_of_ok (Stream.call_ok ht)
  rw [bind_of_ok hlead]
  exact h t tail (hl.pending.trans hr) hb

theorem reads_lead_of {F : UInt8 → Stream.M α} {lead : UInt8} {rest : Bytes} {x : Except Fault α}
    (h : Reads (F lead) (lead :: rest) x) : Reads (Stream.lead >>= F) (lead :: rest) x :=
  reads_lead fun r tail hr _ => h r tail hr

theorem yields_fix {r : Stream} {lead : UInt8} {tail : Bytes} (h : r.pending = [lead] ++ tail) (hb : 0 < r.buf.length) (a : α) :
    Yields StreamError.fault tail (.ok a) ((do Stream.skipBytes 1; pure a : Stream.M α) r) := by
  obtain ⟨t,ht,hl⟩ := skip_lead (holds_zero h) hb
  rw [bind_of_ok ht]
  exact .ok hl.1

theorem reads_field {k n : ℕ} (h : n < 256 ^ k) (lead : UInt8) : Reads (Stream.field k) (lead :: be k n) (.ok n) :=
  reads_of_follows (follows_field k) fun tail => readField_field h lead tail

theorem reads_next {n : ℕ} (h : b.length = n) : Reads (Stream.next n) b (.ok b) := by
  intro r tail hr
  obtain ⟨t,ht,hl⟩ := Forward.Reader.next_ok (r := r) (n := n) (by
    rw [hr, List.length_append]
    omega)
  rw [hr, ← h, List.take_left] at ht
  rw [hr, ← h, List.drop_left] at hl
  rw [← h, Stream.next, Stream.call_ok ht]
  exact .ok hl.pending

theorem MapHeader.reads {n : ℕ} (h : MapHeader n b) : Reads Stream.readMapHeader b (.ok n) :=
  reads_of_follows follows_readMapHeader h.readMapHeader

theorem ArrayHeader.reads {n : ℕ} (h : ArrayHeader n b) : Reads Stream.readArrayHeader b (.ok n) :=
  reads_of_follows follows_readArrayHeader h.readArrayHeader

theorem fault_badPrefix (want : Kind) (lead : UInt8) : (StreamError.read (badPrefix want lead)).fault = .located [] := by
  unfold badPrefix
  split <;> rfl

theorem Encodes.reads_map_other {v : Value} (h : Encodes v b) (hv : ¬v.HasKind .map) :
    Reads Stream.readMapHeader b refused := by
  obtain ⟨lead,tail,rfl,ht⟩ := h.lead_other hv
  obtain ⟨hf,hne⟩ := map_leads lead ht
  refine reads_error follows_readMapHeader fun rest => ⟨badPrefix .map lead,lead :: tail ++ rest,?_,fault_badPrefix ..⟩
  simp only [readMapHeader, List.cons_append, hf, Bool.false_eq_true, if_false]
  split <;> simp_all

theorem Encodes.reads_array_other {v : Value} (h : Encodes v b) (hv : ¬v.HasKind .array) :
    Reads Stream.readArrayHeader b refused := by
  obtain ⟨lead,tail,rfl,ht⟩ := h.lead_other hv
  obtain ⟨hf,hne⟩ := array_leads lead ht
  refine reads_error follows_readArrayHeader fun rest => ⟨badPrefix .array lead,lead :: tail ++ rest,?_,fault_badPrefix ..⟩
  simp only [readArrayHeader, List.cons_append, hf, Bool.false_eq_true, if_false]
  split <;> simp_all

/-! ### Strings and keys -/

def Value.asStr : Value → Except Fault Bytes
  | .str s => .ok s
  | _ => refused

theorem Value.asStr_other {v : Value} (h : ¬v.HasKind .str) : v.asStr = refused := by
  cases v with
  | str s => exact absurd rfl h
  | _ => rfl

theorem Encodes.reads_str {v : Value} (h : Encodes v b) : Reads Stream.readString b v.asStr := by
  by_cases hv : v.HasKind .str
  · obtain ⟨s,rfl⟩ := Value.hasKind_str.mp hv
    cases h with
    | str hh => exact reads_of_follows follows_readString fun tail => by rw [List.append_assoc, hh.readString]
  · rw [Value.asStr_other hv]
    obtain ⟨lead,tail,rfl,ht⟩ := h.lead_other hv
    obtain ⟨hf,hne⟩ := str_leads lead ht
    refine reads_error follows_readString fun rest => ⟨badPrefix .str lead,lead :: tail ++ rest,?_,fault_badPrefix ..⟩
    simp only [readString, List.cons_append, hf, Bool.false_eq_true, if_false]
    split <;> simp_all

/-- What a key is: a string or binary that is not empty. -/
def Value.asKey : Value → Except Fault Bytes
  | .str k => if k = [] then .error .short else .ok k
  | .bin k => if k = [] then .error .short else .ok k
  | _ => refused

theorem StrHeader.reads_key {n : ℕ} (h : StrHeader n b) : Reads Stream.keyHeader b (.ok n) := by
  cases h with
  | fix hn =>
    obtain ⟨hf,hl⟩ := isfixstr_lead n hn
    refine reads_lead fun r tail hr hb => ?_
    rw [if_pos hf, hl]
    exact yields_fix hr hb n
  | wide8 hn => exact reads_lead_of (reads_field hn 0xd9)
  | wide16 hn => exact reads_lead_of (reads_field hn 0xda)
  | wide32 hn => exact reads_lead_of (reads_field hn 0xdb)

theorem BinHeader.reads_key {n : ℕ} (h : BinHeader n b) : Reads Stream.keyHeader b (.ok n) := by
  cases h with
  | wide8 hn => exact reads_lead_of (reads_field hn 0xc4)
  | wide16 hn => exact reads_lead_of (reads_field hn 0xc5)
  | wide32 hn => exact reads_lead_of (reads_field hn 0xc6)

theorem key_leads : ∀ lead : UInt8, (sizes lead).map ByteSpec.typ ≠ some .str → (sizes lead).map ByteSpec.typ ≠ some .bin →
    isfixstr lead = false ∧ lead ≠ 0xd9 ∧ lead ≠ 0xc4 ∧ lead ≠ 0xda ∧ lead ≠ 0xc5 ∧ lead ≠ 0xdb ∧ lead ≠ 0xc6 := by
  decide +kernel

theorem reads_key_bytes {h k : Bytes} (hh : Reads Stream.keyHeader h (.ok k.length)) :
    Reads Stream.readMapKeyPtr (h ++ k) (if k = [] then .error .short else .ok k) := by
  refine Consumes.bind hh ?_
  by_cases hk : k = []
  · subst hk
    exact fun _ _ _ => .error rfl
  · rw [if_neg hk, if_neg (List.length_pos_iff.mpr hk).ne']
    exact reads_next rfl

theorem Encodes.reads_key {v : Value} (h : Encodes v b) : Reads Stream.readMapKeyPtr b v.asKey := by
  have other (hs : ¬v.HasKind .str) (hb : ¬v.HasKind .bin) : Reads Stream.readMapKeyPtr b refused := by
    obtain ⟨lead,tail,spec,rfl,hspec,hk⟩ := h.lead
    obtain ⟨hf,hne⟩ := key_leads lead (by rw [hspec]; exact fun he => hs (Option.some.inj he ▸ hk))
      (by rw [hspec]; exact fun he => hb (Option.some.inj he ▸ hk))
    refine Consumes.bind_error (reads_lead_of ?_)
    simp only [hf, Bool.false_eq_true, if_false]
    split <;> first
      | exact fun _ _ _ => .error (fault_badPrefix ..)
      | simp_all
  cases v with
  | str k =>
    cases h with
    | str hh => exact reads_key_bytes hh.reads_key
  | bin k =>
    cases h with
    | bin hh => exact reads_key_bytes hh.reads_key
  | _ => exact other (by simp [Value.HasKind]) (by simp [Value.HasKind])

/-! ### Values without extensions -/

inductive Value.NoExt : Value → Prop
  | nil : NoExt .nil
  | bool (b : Bool) : NoExt (.bool b)
  | int (z : ℤ) : NoExt (.int z)
  | float32 (bits : Bytes) : NoExt (.float32 bits)
  | float64 (bits : Bytes) : NoExt (.float64 bits)
  | str (s : Bytes) : NoExt (.str s)
  | bin (s : Bytes) : NoExt (.bin s)
  | array {vs : List Value} (h : ∀ v ∈ vs, NoExt v) : NoExt (.array vs)
  | map {kvs : List (Value × Value)} (h : ∀ v ∈ flatten kvs, NoExt v) : NoExt (.map kvs)

theorem Value.NoExt.elements {vs : List Value} (h : (Value.array vs).NoExt) : ∀ v ∈ vs, v.NoExt := by
  cases h with
  | array h => exact h

theorem Value.NoExt.entries {kvs : List (Value × Value)} (h : (Value.map kvs).NoExt) : ∀ v ∈ flatten kvs, v.NoExt := by
  cases h with
  | map h => exact h

theorem Value.NoExt.not_extension {v : Value} (h : v.NoExt) : ¬v.HasKind .extension := by
  cases h <;> simp [Value.HasKind]

/-! ### Numbers -/

theorem beVal_lt (bs : Bytes) : beVal bs < 256 ^ bs.length := by
  have hfold (acc : ℕ) (bs : Bytes) :
      bs.foldl (fun acc b => acc * 256 + b.toNat) acc < (acc + 1) * 256 ^ bs.length := by
    induction bs generalizing acc with
    | nil => simp
    | cons b bs ih =>
      have hb := b.toNat_lt
      rw [List.foldl_cons, List.length_cons, pow_succ']
      calc _ < (acc * 256 + b.toNat + 1) * 256 ^ bs.length := ih _
        _ ≤ (acc + 1) * 256 * 256 ^ bs.length := Nat.mul_le_mul_right _ (by omega)
        _ = (acc + 1) * (256 * 256 ^ bs.length) := Nat.mul_assoc ..
  simpa [beVal] using hfold 0 bs

theorem IntEncodes.range {z : ℤ} {b : Bytes} (h : IntEncodes z b) : -2 ^ 63 ≤ z ∧ z < 2 ^ 64 := by
  cases h <;> omega

theorem reads_nextType {F : Kind → Stream.M α} {k : Kind} {x : Except Fault α} (hk : ∀ tail, nextType (b ++ tail) = .ok k)
    (h : Reads (F k) b x) : Reads (Stream.nextType >>= F) b x := by
  intro r tail hr
  have hs := follows_nextType r (b ++ tail) (holds_zero hr)
  rw [ofRead_ok (by rw [hk])] at hs
  generalize hm : Stream.nextType r = y at hs
  cases hs with
  | ok hR =>
    rw [bind_of_ok hm]
    exact h _ tail hR.1

theorem nextType_of_spec {lead : UInt8} {spec : ByteSpec} (hs : sizes lead = some spec) (ht : spec.typ ≠ .extension)
    (rest : Bytes) : nextType (lead :: rest) = .ok spec.typ := by
  simp only [nextType, hs, ht, if_false]

theorem reads_signedInt {k : ℕ} {z : ℤ} (hlt : (z % 256 ^ k).toNat < 256 ^ k) (hs : signed k (z % 256 ^ k).toNat = z)
    (lead : UInt8) : Reads (Stream.signedInt k) (lead :: be k (z % 256 ^ k).toNat) (.ok z) := by
  refine Consumes.bind_last (reads_field hlt lead) ?_
  rw [hs]
  exact .pure z

theorem isnfixint_lead : ∀ n < 32, isfixint (UInt8.ofNat (0xe0 + n)) = false ∧ isnfixint (UInt8.ofNat (0xe0 + n)) = true ∧
    ((UInt8.ofNat (0xe0 + n)).toNat : ℤ) - 256 = (n : ℤ) - 32 := by decide

theorem IntEncodes.reads {z : ℤ} (h : IntEncodes z b) :
    ((∀ tail, nextType (b ++ tail) = .ok .int) ∧ Reads Stream.readInt64 b (.ok z)) ∨
      ∃ n : ℕ, z = n ∧ n < 256 ^ 8 ∧ (∀ tail, nextType (b ++ tail) = .ok .uint) ∧ Reads Stream.readUint64 b (.ok n) := by
  have hu {n : ℕ} (h : IntEncodes n b) : Reads Stream.readUint64 b (.ok n) := reads_of_follows follows_readUint64 h.readUint64
  cases h with
  | @fix n hn =>
    obtain ⟨hf,hl⟩ := isfixint_lead n hn
    refine Or.inl ⟨nextType_of_spec (sizes_fixint n hn) (by decide),reads_lead fun r tail hr hb => ?_⟩
    rw [if_pos hf, hl]
    exact yields_fix hr hb _
  | @negfix n hn =>
    obtain ⟨hf,hnf,hl⟩ := isnfixint_lead n hn
    refine Or.inl ⟨nextType_of_spec (sizes_negfix n hn) (by decide),reads_lead fun r tail hr hb => ?_⟩
    rw [if_neg (hf ▸ Bool.false_ne_true), if_pos hnf, hl]
    exact yields_fix hr hb _
  | uint8 hn => exact Or.inr ⟨_,rfl,by omega,fun _ => rfl,hu (.uint8 hn)⟩
  | uint16 hn => exact Or.inr ⟨_,rfl,by omega,fun _ => rfl,hu (.uint16 hn)⟩
  | uint32 hn => exact Or.inr ⟨_,rfl,by omega,fun _ => rfl,hu (.uint32 hn)⟩
  | uint64 hn => exact Or.inr ⟨_,rfl,hn,fun _ => rfl,hu (.uint64 hn)⟩
  | int8 hz =>
    exact Or.inl ⟨fun _ => rfl,reads_lead_of (reads_signedInt (by omega) (by unfold signed; split <;> omega) 0xd0)⟩
  | int16 hz =>
    exact Or.inl ⟨fun _ => rfl,reads_lead_of (reads_signedInt (by omega) (by unfold signed; split <;> omega) 0xd1)⟩
  | int32 hz =>
    exact Or.inl ⟨fun _ => rfl,reads_lead_of (reads_signedInt (by omega) (by unfold signed; split <;> omega) 0xd2)⟩
  | int64 hz =>
    exact Or.inl ⟨fun _ => rfl,reads_lead_of (reads_signedInt (by omega) (by unfold signed; split <;> omega) 0xd3)⟩

theorem reads_float (want : Kind) (mark : UInt8) {bits : Bytes} {k : ℕ} (h : bits.length = k) :
    Reads (Stream.readFloat want mark k) (mark :: bits) (.ok (beVal bits)) := by
  intro r tail hr
  have hlen : (mark :: bits).length = 1 + k := by
    rw [List.length_cons]
    omega
  obtain ⟨t,ht,hl,hb⟩ := Forward.Reader.peek_ok (r := r) (n := 1 + k) (by
    rw [hr, List.length_append]
    omega)
  rw [hr, ← hlen, List.take_left] at ht
  rw [← hlen] at hb
  have hskip : Stream.skipBytes (mark :: bits).length t = .ok () (t.drop (mark :: bits).length) := Stream.call_ok (if_pos hb)
  rw [Stream.readFloat, ← hlen, Stream.peek, bind_of_ok (Stream.call_ok ht), List.headD_cons, if_neg (not_not.mpr rfl),
    bind_of_ok hskip]
  refine .ok ?_
  rw [Forward.Reader.pending_drop hb, hl.pending, hr, List.drop_left]

/-- The bits of a number: of an integer as a 64-bit two's complement number, or of a float. -/
def Value.asNumber : Value → Except Fault ℕ
  | .int z => .ok (z % 256 ^ 8).toNat
  | .float32 bits => .ok (beVal bits)
  | .float64 bits => .ok (beVal bits)
  | _ => refused

theorem Number.bits_asInt (z : ℤ) : (asInt z).bits = (z % 256 ^ 8).toNat := by
  unfold asInt
  split
  · rename_i hz
    rw [hz]
    rfl
  · rfl

/-- Every number is taken, whatever its type; anything else is refused. -/
theorem Encodes.reads_number {v : Value} (h : Encodes v b) (hn : v.NoExt) :
    Reads (Number.bits <$> Number.decodeMsg) b v.asNumber := by
  have other (h : Encodes v b) (hk : ∀ k, v.HasKind k → k ≠ .float32 ∧ k ≠ .float64 ∧ k ≠ .int ∧ k ≠ .uint) :
      Reads (Number.bits <$> Number.decodeMsg) b refused := by
    obtain ⟨lead,tail,spec,rfl,hs,hkind⟩ := h.lead
    have hext : spec.typ ≠ .extension := fun he => hn.not_extension (he ▸ hkind)
    obtain ⟨h32,h64,hi,hu⟩ := hk spec.typ hkind
    refine Consumes.map Number.bits (x := refused) (reads_nextType (fun _ => nextType_of_spec hs hext _) ?_)
    split
    · contradiction
    · contradiction
    · contradiction
    · contradiction
    · exact fun _ _ _ => .error rfl
  cases v with
  | int z =>
    cases h with
    | int hi =>
      rcases hi.reads with ⟨hk,ht⟩ | ⟨n,rfl,hlt,hk,ht⟩
      · rw [Value.asNumber, ← Number.bits_asInt]
        exact Consumes.map Number.bits (x := .ok (Number.asInt z)) (reads_nextType hk (ht.map Number.asInt))
      · have hbits : ((n : ℤ) % 256 ^ 8).toNat = n := by omega
        rw [Value.asNumber, hbits]
        exact Consumes.map Number.bits (x := .ok (Number.asUint n)) (reads_nextType hk (ht.map Number.asUint))
  | float32 bits =>
    cases h with
    | float32 hlen =>
      exact Consumes.map Number.bits (x := .ok (Number.asFloat32 (beVal bits)))
        (reads_nextType (fun _ => rfl) ((reads_float .float32 0xca hlen).map Number.asFloat32))
  | float64 bits =>
    cases h with
    | float64 hlen =>
      exact Consumes.map Number.bits (x := .ok (Number.asFloat64 (beVal bits)))
        (reads_nextType (fun _ => rfl) ((reads_float .float64 0xcb hlen).map Number.asFloat64))
  | _ => exact other h (by simp [Value.HasKind])

def Value.asUint : Value → Except Fault ℕ
  | .int z => if 0 ≤ z then .ok z.toNat else .error (.belowZero [])
  | _ => refused

theorem uint_leads : ∀ lead : UInt8, (sizes lead).map ByteSpec.typ ≠ some .int → (sizes lead).map ByteSpec.typ ≠ some .uint →
    isfixint lead = false ∧ isnfixint lead = false ∧ lead ≠ 0xd0 ∧ lead ≠ 0xcc ∧ lead ≠ 0xd1 ∧ lead ≠ 0xcd ∧ lead ≠ 0xd2 ∧
      lead ≠ 0xce ∧ lead ≠ 0xd3 ∧ lead ≠ 0xcf := by
  decide +kernel

theorem readSignedField_negative {k : ℕ} {z : ℤ} (hlt : (z % 256 ^ k).toNat < 256 ^ k)
    (hs : signed k (z % 256 ^ k).toNat < 0) (lead : UInt8) (rest : Bytes) :
    ∃ e s, readSignedField k (lead :: be k (z % 256 ^ k).toNat ++ rest) = (.error e,s) ∧
      (StreamError.read e).fault = .belowZero [] := by
  refine ⟨.uintBelowZero (signed k (z % 256 ^ k).toNat),rest,?_,rfl⟩
  rw [readSignedField, List.cons_append, readField_field hlt]
  exact if_pos hs

theorem negfix_leads : ∀ n < 32, ∀ lead : UInt8, lead = UInt8.ofNat (0xe0 + n) → isfixint lead = false ∧ isnfixint lead = true ∧
    lead ≠ 0xd0 ∧ lead ≠ 0xcc ∧ lead ≠ 0xd1 ∧ lead ≠ 0xcd ∧ lead ≠ 0xd2 ∧ lead ≠ 0xce ∧ lead ≠ 0xd3 ∧ lead ≠ 0xcf := by
  decide +kernel

theorem readUint64_negfix {n : ℕ} (hn : n < 32) (rest : Bytes) :
    ∃ e s, readUint64 ([UInt8.ofNat (0xe0 + n)] ++ rest) = (.error e,s) ∧ (StreamError.read e).fault = .belowZero [] := by
  obtain ⟨hf,hnf,hne⟩ := negfix_leads n hn _ rfl
  generalize UInt8.ofNat (0xe0 + n) = lead at hf hnf hne
  refine ⟨.uintBelowZero ((lead.toNat : ℤ) - 256),lead :: rest,?_,rfl⟩
  simp only [readUint64, List.cons_append, List.nil_append, hf, hnf, Bool.false_eq_true, if_false, if_true]
  split <;> simp_all

theorem IntEncodes.readUint64_negative {z : ℤ} (h : IntEncodes z b) (hz : z < 0) (rest : Bytes) :
    ∃ e s, Msgpack.readUint64 (b ++ rest) = (.error e,s) ∧ (StreamError.read e).fault = .belowZero [] := by
  cases h with
  | fix | uint8 | uint16 | uint32 | uint64 => omega
  | @negfix n hn =>
    exact readUint64_negfix hn rest
  | int8 h => exact readSignedField_negative (k := 1) (by omega) (by unfold signed; split <;> omega) 0xd0 rest
  | int16 h => exact readSignedField_negative (k := 2) (by omega) (by unfold signed; split <;> omega) 0xd1 rest
  | int32 h => exact readSignedField_negative (k := 4) (by omega) (by unfold signed; split <;> omega) 0xd2 rest
  | int64 h => exact readSignedField_negative (k := 8) (by omega) (by unfold signed; split <;> omega) 0xd3 rest

theorem Encodes.reads_uint {v : Value} (h : Encodes v b) : Reads Stream.readUint64 b v.asUint := by
  have other (h : Encodes v b) (hi : ¬v.HasKind .int) (hu : ¬v.HasKind .uint) : Reads Stream.readUint64 b refused := by
    obtain ⟨lead,tail,spec,rfl,hspec,hk⟩ := h.lead
    obtain ⟨hf,hnf,hne⟩ := uint_leads lead (by rw [hspec]; exact fun he => hi (Option.some.inj he ▸ hk))
      (by rw [hspec]; exact fun he => hu (Option.some.inj he ▸ hk))
    refine reads_error follows_readUint64 fun rest => ⟨badPrefix .uint lead,lead :: tail ++ rest,?_,fault_badPrefix ..⟩
    simp only [readUint64, List.cons_append, hf, hnf, Bool.false_eq_true, if_false]
    split <;> simp_all
  cases v with
  | int z =>
    cases h with
    | int hi =>
      rw [Value.asUint]
      split
      · rename_i hz
        obtain ⟨n,rfl⟩ := Int.eq_ofNat_of_zero_le hz
        exact reads_of_follows follows_readUint64 hi.readUint64
      · rename_i hz
        exact reads_error follows_readUint64 (hi.readUint64_negative (by omega))
  | _ => exact other h (by simp [Value.HasKind]) (by simp [Value.HasKind])

/-! ### Skipping -/

theorem seekBytes_pending (n : ℕ) (r : Stream) : ∃ t, Stream.seekBytes n r = .ok () t ∧ t.pending = r.pending.drop n := by
  unfold Stream.seekBytes
  split
  · exact ⟨_,rfl,Forward.Reader.pending_drop ‹_›⟩
  · refine ⟨_,rfl,?_⟩
    have hbuf : r.buf.drop n = [] := List.drop_of_length_le (by omega)
    rw [Buffered.Reader.pending, Buffered.Reader.pending, List.drop_append, hbuf]

/-- `bs` splits into objects that are not extensions with a length of four bytes, `n` of them
not nested in another one. -/
inductive Narrow : ℕ → Bytes → Prop
  | nil : Narrow 0 []
  | item {o n : ℕ} {b bs : Bytes} (hb : 0 < b.length) (hlead : b.head? ≠ some 0xc9)
      (hs : ∀ rest, getNextSize (b ++ rest) = .ok (b.length,o)) (h : Narrow (o + n) bs) : Narrow (n + 1) (b ++ bs)

theorem head_append {h : Bytes} (hpos : 0 < h.length) (c : Bytes) : (h ++ c).head? = h.head? := by
  cases h with
  | nil => simp at hpos
  | cons x h => rfl

theorem Narrow.reads_seekObjects {n : ℕ} (h : Narrow n b) {fuel : ℕ} (hf : b.length ≤ fuel) :
    Reads (Stream.seekObjects fuel n) b (.ok ()) := by
  induction h generalizing fuel with
  | nil =>
    cases fuel <;> exact .pure ()
  | @item o n b bs hb hlead hs _ ih =>
    rw [List.length_append] at hf
    cases fuel with
    | zero => omega
    | succ fuel =>
      intro r tail hr
      rw [List.append_assoc] at hr
      have hsize := agrees_sizeToSkip (holds_zero hr) (by rw [head_append hb]; exact hlead)
      rw [ofRead_ok (by rw [hs])] at hsize
      generalize hm : Stream.sizeToSkip r = y at hsize
      cases hsize with
      | @ok _ t _ ht =>
        obtain ⟨u,hu,hup⟩ := seekBytes_pending b.length t
        rw [ht.1, List.drop_left] at hup
        have hobj : Stream.seekObject r = .ok o u := (bind_of_ok hm).trans (bind_of_ok hu)
        rw [Stream.seekObjects, bind_of_ok hobj]
        exact ih (by omega) u tail hup

theorem Encodes.head_narrow {v : Value} (h : Encodes v b) (hn : v.NoExt) : b.head? ≠ some 0xc9 := by
  obtain ⟨lead,tail,rfl,ht⟩ := h.lead_other hn.not_extension
  rintro hl
  obtain rfl : lead = 0xc9 := Option.some.inj hl
  exact ht rfl

theorem Narrow.leaf {v : Value} (h : Encodes v b) (hn : v.NoExt) (hs : ∀ rest, getNextSize (b ++ rest) = .ok (b.length,0))
    {m : ℕ} {bs : Bytes} (hb : Narrow m bs) : Narrow (m + 1) (b ++ bs) :=
  .item h.length_pos (h.head_narrow hn) hs (by simpa using hb)

mutual
theorem Encodes.narrow {v : Value} {b : Bytes} {m : ℕ} {bs : Bytes} (h : Encodes v b) (hs : Narrow m bs) :
    v.NoExt → Narrow (m + 1) (b ++ bs) := by
  cases h with
  | nil => exact fun hn => .leaf .nil hn (getNextSize_fixed rfl) hs
  | false => exact fun hn => .leaf .false hn (getNextSize_fixed rfl) hs
  | true => exact fun hn => .leaf .true hn (getNextSize_fixed rfl) hs
  | int h => exact fun hn => .leaf (.int h) hn h.getNextSize hs
  | float32 h =>
    intro hn
    refine .leaf (.float32 h) hn (fun rest => ?_) hs
    rw [List.length_cons, h]
    exact getNextSize_fixed rfl _
  | float64 h =>
    intro hn
    refine .leaf (.float64 h) hn (fun rest => ?_) hs
    rw [List.length_cons, h]
    exact getNextSize_fixed rfl _
  | str hh => exact fun hn => .leaf (.str hh) hn (fun rest => by rw [List.append_assoc, hh.getNextSize, List.length_append]) hs
  | bin hh => exact fun hn => .leaf (.bin hh) hn (fun rest => by rw [List.append_assoc, hh.getNextSize, List.length_append]) hs
  | ext hh => exact fun hn => nomatch hn
  | array hh hv =>
    intro hn
    have hlead := (Encodes.array hh hv).head_narrow hn
    rw [head_append hh.length_pos] at hlead
    rw [List.append_assoc]
    exact .item hh.length_pos hlead hh.getNextSize (EncodesAll.narrow hv hs hn.elements)
  | map hh hv =>
    intro hn
    have hlead := (Encodes.map hh hv).head_narrow hn
    rw [head_append hh.length_pos] at hlead
    rw [List.append_assoc]
    refine .item hh.length_pos hlead hh.getNextSize ?_
    simpa using EncodesAll.narrow hv hs hn.entries
termination_by (b.length,0)
decreasing_by
  all_goals
    have hp := hh.length_pos
    apply Prod.Lex.left
    rw [List.length_append]
    omega

theorem EncodesAll.narrow {vs : List Value} {b : Bytes} {m : ℕ} {bs : Bytes} (h : EncodesAll vs b) (hs : Narrow m bs) :
    (∀ v ∈ vs, v.NoExt) → Narrow (vs.length + m) (b ++ bs) := by
  cases h with
  | nil => exact fun _ => by simpa using hs
  | cons hv hvs =>
    intro hn
    rw [List.append_assoc, List.length_cons, Nat.add_right_comm]
    exact Encodes.narrow hv (EncodesAll.narrow hvs hs fun v h => hn v (List.mem_cons_of_mem _ h)) (hn _ List.mem_cons_self)
termination_by (b.length,1)
decreasing_by
  · have hp := hv.length_pos
    apply Prod.Lex.left
    rw [List.length_append]
    omega
  · rw [List.length_append]
    exact Prod.Lex.right' _ (Nat.le_add_right _ _) Nat.one_pos
end

/-- A value without extensions is skipped, however the stream is buffered. -/
theorem Encodes.reads_seek {v : Value} (h : Encodes v b) (hn : v.NoExt) : Reads Stream.seek b (.ok ()) := by
  have hnarrow : Narrow 1 (b ++ []) := h.narrow .nil hn
  rw [List.append_nil] at hnarrow
  intro r tail hr
  exact hnarrow.reads_seekObjects (by rw [hr, List.length_append]; omega) r tail hr

end Methods

end Stout.Msgpack
