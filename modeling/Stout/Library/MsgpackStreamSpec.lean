import Stout.Library.Following
import Stout.Library.MsgpackReaderSpec
import Stout.Library.MsgpackStream

/-! # The stream reader follows the byte reader

What a method does on a stream depends on the bytes still to come, and not on the pieces
they come in or on what is buffered. `Skip` is the exception.
-/
namespace Stout.Msgpack
open Forward (Err)

/-! ## Reads of one type

They do on a stream what they do on the list of the bytes to come. -/

def ofRead {α : Type} (f : Bytes → Read α) : EStateM ReadError Bytes α := fun r =>
  match f r with
  | (.ok a,rest) => .ok a rest
  | (.error e,rest) => .error e rest

/-- The stream has these bytes still to come, and a buffer of at least the size. -/
def Holds (size : ℕ) (r : Stream) (bs : Bytes) : Prop := r.pending = bs ∧ size ≤ r.cap

/-- Both readers fail with the same error and stay together. -/
def Fails (size : ℕ) (d : StreamError) (r : Stream) (e : ReadError) (bs : Bytes) : Prop := d = .read e ∧ Holds size r bs

section Following
variable {size : ℕ} {α : Type}

theorem Stream.call_ok {f : Stream → Except Err α × Stream} {r t : Stream} {a : α} (h : f r = (.ok a,t)) :
    Stream.call f r = .ok a t := by
  rw [Stream.call, h]

theorem Stream.call_error {f : Stream → Except Err α × Stream} {r t : Stream} {e : Err} (h : f r = (.error e,t)) :
    Stream.call f r = .error (.ofErr e) t := by
  rw [Stream.call, h]

theorem ofRead_ok {f : Bytes → Read α} {r s : Bytes} {a : α} (h : f r = (.ok a,s)) : ofRead f r = .ok a s := by
  rw [ofRead, h]

theorem ofRead_error {f : Bytes → Read α} {r s : Bytes} {e : ReadError} (h : f r = (.error e,s)) :
    ofRead f r = .error e s := by
  rw [ofRead, h]

theorem follows_lead {F : UInt8 → Stream.M α} {f : Bytes → Read α} (hnil : f [] = (.error .eof,[]))
    (hcons : ∀ (r : Stream) lead rest, Holds size r (lead :: rest) → 0 < r.buf.length →
      Agrees (Holds size) (Fails size) (F lead r) (ofRead f (lead :: rest))) :
    Follows (Holds size) (Fails size) (Stream.lead >>= F) (ofRead f) := by
  rintro r bs ⟨hp,hc⟩
  cases bs with
  | nil =>
    obtain ⟨t,ht,hl⟩ := Forward.Reader.peek_eof (r := r) (n := 1) (by simp [hp])
    have hrun : (Stream.lead >>= F) r = .error (.read .eof) t :=
      bind_of_error (bind_of_error (Stream.call_error ht))
    rw [hrun, ofRead_error hnil]
    exact .error ⟨rfl,hl.pending.trans hp,hc.trans hl.cap⟩
  | cons lead rest =>
    obtain ⟨t,ht,hl,hb⟩ := Forward.Reader.peek_ok (r := r) (n := 1) (by simp [hp])
    rw [hp, List.take_succ_cons, List.take_zero] at ht
    have hlead : Stream.lead r = .ok lead t := bind_of_ok (Stream.call_ok ht)
    rw [bind_of_ok hlead]
    exact hcons t lead rest ⟨hl.pending.trans hp,hc.trans hl.cap⟩ hb

theorem follows_field (k : ℕ) : Follows (Holds size) (Fails size) (Stream.field k) (ofRead (readField k)) := by
  rintro r bs ⟨rfl,hc⟩
  by_cases hk : 1 + k ≤ r.pending.length
  · obtain ⟨t,ht,hl⟩ := Forward.Reader.next_ok hk
    have hbytes : readField k r.pending = (.ok (beAt k r.pending),r.pending.drop (1 + k)) := if_pos hk
    rw [ofRead_ok hbytes, Stream.field, Stream.next, bind_of_ok (Stream.call_ok ht), List.drop_take, Nat.add_sub_cancel_left]
    exact .ok ⟨hl.pending,hc.trans hl.cap⟩
  · obtain ⟨t,ht,hl⟩ := Forward.Reader.next_eof (Nat.lt_of_not_le hk)
    have hbytes : readField k r.pending = (.error .unexpectedEOF,r.pending) := if_neg hk
    rw [ofRead_error hbytes, Stream.field, Stream.next, bind_of_error (Stream.call_error ht)]
    exact .error ⟨rfl,hl.pending,hc.trans hl.cap⟩

theorem skip_lead {r : Stream} {lead : UInt8} {rest : Bytes} (h : Holds size r (lead :: rest)) (hb : 0 < r.buf.length) :
    ∃ t, Stream.skipBytes 1 r = .ok () t ∧ Holds size t rest := by
  have hskip : Forward.Reader.skip 1 r = (.ok (),r.drop 1) := if_pos hb
  refine ⟨r.drop 1,Stream.call_ok hskip,?_,h.2⟩
  rw [Forward.Reader.pending_drop hb, h.1, List.drop_one, List.tail_cons]

theorem agrees_fix {r : Stream} {lead : UInt8} {rest : Bytes} (h : Holds size r (lead :: rest)) (hb : 0 < r.buf.length)
    (a : α) : Agrees (Holds size) (Fails size) ((do Stream.skipBytes 1; pure a : Stream.M α) r)
      (.ok a rest : EStateM.Result ReadError Bytes α) := by
  obtain ⟨t,ht,hl⟩ := skip_lead h hb
  rw [bind_of_ok ht]
  exact .ok hl

theorem agrees_error {f : Bytes → Read α} {r : Stream} {bs : Bytes} {e : ReadError} (h : Holds size r bs)
    (hf : f bs = (.error e,bs)) : Agrees (Holds size) (Fails size) ((throw (.read e) : Stream.M α) r) (ofRead f bs) := by
  rw [ofRead_error hf]
  exact .error ⟨rfl,h⟩

theorem follows_readArrayHeader : Follows (Holds size) (Fails size) Stream.readArrayHeader (ofRead readArrayHeader) := by
  refine follows_lead rfl fun r lead rest h hb => ?_
  split
  · rename_i hfix
    rw [ofRead_ok (if_pos hfix)]
    exact agrees_fix h hb _
  rename_i hfix
  split
  · exact follows_field 2 r _ h
  · exact follows_field 4 r _ h
  · exact agrees_error h (by simp only [readArrayHeader, hfix]; rfl)

theorem follows_readMapHeader : Follows (Holds size) (Fails size) Stream.readMapHeader (ofRead readMapHeader) := by
  refine follows_lead rfl fun r lead rest h hb => ?_
  split
  · rename_i hfix
    rw [ofRead_ok (if_pos hfix)]
    exact agrees_fix h hb _
  rename_i hfix
  split
  · exact follows_field 2 r _ h
  · exact follows_field 4 r _ h
  · exact agrees_error h (by simp only [readMapHeader, hfix]; rfl)

theorem follows_fill (n : ℕ) : Follows (Holds size) (Fails size) (Stream.fill n) (ofRead (fill n)) := by
  rintro r bs ⟨rfl,hc⟩
  unfold Stream.fill
  split
  · rename_i hn
    subst hn
    exact .ok ⟨rfl,hc⟩
  obtain ⟨t,ht,hl⟩ := r.readFull_spec n
  unfold Forward.full at ht
  split at ht
  · rename_i hle
    rw [ofRead_ok (if_pos hle), Stream.readFull, Stream.call_ok ht]
    exact .ok ⟨hl.pending,hc.trans hl.cap⟩
  · rename_i hlt
    rw [ofRead_error (if_neg hlt), Stream.readFull, Stream.call_error ht]
    refine .error ⟨rfl,?_,hc.trans hl.cap⟩
    rw [hl.pending, List.drop_of_length_le (by omega)]

theorem ofRead_readStringField (k : ℕ) :
    ofRead (readStringField k) = ofRead (readField k) >>= fun n => ofRead (fill n) := by
  funext r
  rcases hr : readField k r with ⟨e | n,rest⟩
  · have hs : readStringField k r = (.error e,rest) := by rw [readStringField, hr]
    rw [bind_of_error (ofRead_error hr), ofRead_error hs]
  · rw [bind_of_ok (ofRead_ok hr), ofRead, readStringField, hr]
    rfl

theorem follows_stringField (k : ℕ) : Follows (Holds size) (Fails size) (Stream.stringField k) (ofRead (readStringField k)) := by
  rw [ofRead_readStringField]
  exact (follows_field k).bind follows_fill

theorem follows_readString : Follows (Holds size) (Fails size) Stream.readString (ofRead readString) := by
  refine follows_lead rfl fun r lead rest h hb => ?_
  split
  · rename_i hfix
    obtain ⟨t,ht,hl⟩ := skip_lead h hb
    have hbytes : ofRead readString (lead :: rest) = ofRead (fill (last5 lead)) rest := by
      unfold ofRead readString
      dsimp only
      rw [if_pos hfix]
    rw [bind_of_ok ht, hbytes]
    exact follows_fill _ t rest hl
  rename_i hfix
  split
  · exact follows_stringField 1 r _ h
  · exact follows_stringField 2 r _ h
  · exact follows_stringField 4 r _ h
  · exact agrees_error h (by simp only [readString, hfix]; rfl)

theorem ofRead_readSignedField (k : ℕ) : ofRead (readSignedField k) = ofRead (readField k) >>= fun n =>
    if signed k n < 0 then throw (.uintBelowZero (signed k n)) else pure (signed k n).toNat := by
  funext r
  rcases hr : readField k r with ⟨e | n,rest⟩
  · have hs : readSignedField k r = (.error e,rest) := by rw [readSignedField, hr]
    rw [bind_of_error (ofRead_error hr), ofRead_error hs]
  · rw [bind_of_ok (ofRead_ok hr), ofRead, readSignedField, hr]
    dsimp only
    by_cases hneg : signed k n < 0
    · rw [if_pos hneg, if_pos hneg]
      rfl
    · rw [if_neg hneg, if_neg hneg]
      rfl

theorem follows_signedField (k : ℕ) : Follows (Holds size) (Fails size) (Stream.signedField k) (ofRead (readSignedField k)) := by
  rw [ofRead_readSignedField]
  exact (follows_field k).bind fun n => .ite (fun _ => .throw fun _ _ h => ⟨rfl,h⟩) fun _ => .pure _

theorem follows_readUint64 : Follows (Holds size) (Fails size) Stream.readUint64 (ofRead readUint64) := by
  refine follows_lead rfl fun r lead rest h hb => ?_
  split
  · rename_i hfix
    rw [ofRead_ok (if_pos hfix)]
    exact agrees_fix h hb _
  rename_i hfix
  split
  · exact follows_signedField 1 r _ h
  · exact follows_field 1 r _ h
  · exact follows_signedField 2 r _ h
  · exact follows_field 2 r _ h
  · exact follows_signedField 4 r _ h
  · exact follows_field 4 r _ h
  · exact follows_signedField 8 r _ h
  · exact follows_field 8 r _ h
  · split
    · rename_i hneg
      exact agrees_error h (by simp only [readUint64, hfix, hneg]; rfl)
    · rename_i hneg
      exact agrees_error h (by simp only [readUint64, hfix, hneg]; rfl)

/-! ## Looking ahead -/

def VarMode.width : VarMode → ℕ
  | .objects _ => 0
  | .extra8 => 1
  | .extra16 | .map16v | .array16v => 2
  | .extra32 | .map32v | .array32v => 4

theorem width_lt_size : ∀ lead : UInt8, ∀ spec ∈ sizes lead, spec.extra.width < spec.size := by decide +kernel

theorem size_le_five : ∀ lead : UInt8, lead ≠ 0xc9 → ∀ spec ∈ sizes lead, spec.extra.fixed = true ∨ spec.size ≤ 5 := by
  decide +kernel

theorem extension_sizes : ∀ lead : UInt8, ∀ spec ∈ sizes lead, spec.typ = .extension →
    (if spec.extra = .objects 0 then spec.extra.fixed = true else spec.extra.fixed = false ∧ 2 ≤ spec.size) := by
  decide +kernel

theorem beAt_take {k n : ℕ} (h : k < n) (r : Bytes) : beAt k (r.take n) = beAt k r := by
  rw [beAt, beAt, List.drop_take, List.take_take, Nat.min_eq_left (by omega)]

theorem resolve_take {mode : VarMode} {n : ℕ} (h : mode.width < n) (size : ℕ) (r : Bytes) :
    mode.resolve size (r.take n) = mode.resolve size r := by
  cases mode <;> simp only [VarMode.resolve, VarMode.width] at h ⊢ <;> rw [beAt_take h]

theorem resolve_fixed {mode : VarMode} (h : mode.fixed = true) (size : ℕ) (r s : Bytes) :
    mode.resolve size r = mode.resolve size s := by
  cases mode with
  | objects n => rfl
  | _ => cases h

theorem agrees_peek {F : Bytes → Stream.M α} {f : Bytes → Read α} {n : ℕ} {r : Stream} {bs : Bytes} (h : Holds size r bs)
    (hshort : bs.length < n → f bs = (.error .eof,bs))
    (hlong : n ≤ bs.length → ∀ t, Holds size t bs → Agrees (Holds size) (Fails size) (F (bs.take n) t) (ofRead f bs)) :
    Agrees (Holds size) (Fails size) ((Stream.peek n >>= F) r) (ofRead f bs) := by
  obtain ⟨rfl,hc⟩ := h
  by_cases hn : n ≤ r.pending.length
  · obtain ⟨t,ht,hl,-⟩ := Forward.Reader.peek_ok hn
    rw [Stream.peek, bind_of_ok (Stream.call_ok ht)]
    exact hlong hn t ⟨hl.pending,hc.trans hl.cap⟩
  · obtain ⟨t,ht,hl⟩ := Forward.Reader.peek_eof (Nat.lt_of_not_le hn)
    rw [Stream.peek, bind_of_error (Stream.call_error ht), ofRead_error (hshort (Nat.lt_of_not_le hn))]
    exact .error ⟨rfl,hl.pending,hc.trans hl.cap⟩

theorem follows_getNextSize :
    Follows (Holds size) (Fails size) Stream.getNextSize (ofRead fun r => (getNextSize r,r)) := by
  refine follows_lead rfl fun r lead rest h hb => ?_
  cases hs : sizes lead with
  | none => exact agrees_error h (by simp only [getNextSize, hs])
  | some spec =>
    have hw := width_lt_size lead spec hs
    dsimp only
    by_cases hf : spec.extra.fixed = true
    · have hbytes : getNextSize (lead :: rest) = .ok (spec.extra.resolve spec.size (lead :: rest)) := by
        simp only [getNextSize, hs, hf, Bool.true_or, if_true]
      rw [if_pos hf, ofRead_ok (by rw [hbytes]), resolve_fixed hf spec.size [] (lead :: rest)]
      exact .ok h
    · rw [if_neg hf]
      refine agrees_peek h (fun hlt => ?_) fun hle t ht => ?_
      · simp only [getNextSize, hs, hf, Bool.false_or, decide_eq_true_eq]
        rw [if_neg (Nat.not_le.mpr hlt)]
      · have hbytes : getNextSize (lead :: rest) = .ok (spec.extra.resolve spec.size (lead :: rest)) := by
          simp only [getNextSize, hs, hf, Bool.false_or, decide_eq_true_eq]
          rw [if_pos hle]
        rw [ofRead_ok (by rw [hbytes]), resolve_take hw]
        exact .ok ht

def typeAt (spec : ByteSpec) : ℕ := if spec.extra.fixed then 1 else spec.size - 1

theorem peekExtensionType_eq (spec : ByteSpec) (r : Bytes) :
    peekExtensionType spec r = r[typeAt spec]?.elim (.error .eof) .ok := by
  unfold peekExtensionType typeAt
  dsimp only
  cases r[if spec.extra.fixed then 1 else spec.size - 1]? <;> rfl

theorem nextType_extension {lead : UInt8} {rest : Bytes} {spec : ByteSpec} (hs : sizes lead = some spec)
    (ht : spec.typ = .extension) : nextType (lead :: rest) =
      (lead :: rest)[typeAt spec]?.elim (.error .eof) fun type => .ok (Stream.extensionKind type) := by
  simp only [nextType, hs, ht, if_true, peekExtensionType_eq]
  cases (lead :: rest)[typeAt spec]? with
  | none => rfl
  | some b =>
    by_cases h3 : b = 3
    · subst h3
      rfl
    by_cases h4 : b = 4
    · subst h4
      rfl
    by_cases h5 : b = 5
    · subst h5
      rfl
    simp [Stream.extensionKind]

theorem nextType_at {lead : UInt8} {rest : Bytes} {spec : ByteSpec} (hs : sizes lead = some spec)
    (ht : spec.typ = .extension) {p : Bytes} {n : ℕ} (hp : (lead :: rest).take n = p) (hn : n ≤ (lead :: rest).length)
    (hat : typeAt spec < n) : nextType (lead :: rest) = .ok (Stream.extensionKind (p.getD (typeAt spec) 0)) := by
  have hlt : typeAt spec < (lead :: rest).length := hat.trans_le hn
  rw [nextType_extension hs ht, ← hp, List.getD_eq_getElem?_getD, List.getElem?_take_of_lt hat,
    List.getElem?_eq_getElem hlt]
  rfl

theorem nextType_short {lead : UInt8} {rest : Bytes} {spec : ByteSpec} (hs : sizes lead = some spec)
    (ht : spec.typ = .extension) (hn : (lead :: rest).length ≤ typeAt spec) : nextType (lead :: rest) = .error .eof := by
  rw [nextType_extension hs ht, List.getElem?_eq_none hn]
  rfl

theorem follows_nextType : Follows (Holds size) (Fails size) Stream.nextType (ofRead fun r => (nextType r,r)) := by
  refine follows_lead rfl fun r lead rest h hb => ?_
  cases hs : sizes lead with
  | none => exact agrees_error h (by simp only [nextType, hs])
  | some spec =>
    dsimp only
    by_cases ht : spec.typ = .extension
    · have hsize := extension_sizes lead spec hs ht
      rw [if_pos ht, Stream.peekExtensionType, bind_assoc]
      refine agrees_peek h (fun hlt => ?_) fun hle t h' => ?_
      · have hat : 1 ≤ typeAt spec := by
          unfold typeAt
          split
          · exact le_rfl
          · split at hsize
            · contradiction
            · omega
        rw [nextType_short hs ht (by omega)]
      · rw [List.take_succ_cons, List.headD_cons, hs]
        dsimp only
        rw [if_neg (not_not.mpr ht)]
        split at hsize
        · rename_i hfix
          have hat : typeAt spec = 1 := if_pos hsize
          rw [if_pos hfix, ofRead_ok (by rw [nextType_at hs ht rfl hle (by omega)]), hat]
          exact .ok h'
        · rename_i hfix
          have hat : typeAt spec = spec.size - 1 := if_neg (by simp [hsize.1])
          rw [if_neg hfix, bind_assoc]
          refine agrees_peek h' (fun hlt => ?_) fun hle t h' => ?_
          · rw [nextType_short hs ht (by omega)]
          · rw [ofRead_ok (by rw [nextType_at hs ht rfl hle (by omega)]), hat]
            exact .ok h'
    · rw [if_neg ht, ofRead_ok (a := spec.typ) (s := lead :: rest) (by simp only [nextType, hs, ht, if_false])]
      exact .ok h

/-! ## Copying -/

/-- The reader is at the end, and the bytes begin with an object that is larger than the
buffer and not complete. -/
structure Lost (size : ℕ) (r : Stream) (bs : Bytes) : Prop where
  ended : Holds size r []
  large : ∃ v o, getNextSize bs = .ok (v,o) ∧ size < v ∧ bs.length < v

theorem Lost.skip {r : Stream} {bs : Bytes} (h : Lost size r bs) : (skip bs).2 = [] := by
  obtain ⟨v,o,hv,-,hlen⟩ := h.large
  cases bs with
  | nil => rfl
  | cons lead rest =>
    rw [Msgpack.skip, List.length_cons, skipN, hv]
    dsimp only
    rw [if_neg (Nat.not_le.mpr hlen)]

/-- A failed copy may have read to the end. -/
def CopyFails (size : ℕ) (_ : StreamError) (r : Stream) (_ : ReadError) (bs : Bytes) : Prop :=
  Holds size r bs ∨ Lost size r bs

theorem takeWhole_ok {v : ℕ} {r : Stream} {bs : Bytes} (h : Holds size r bs) (hv : v ≤ bs.length) :
    ∃ t, Stream.takeWhole v r = .ok (bs.take v) t ∧ Holds size t (bs.drop v) := by
  obtain ⟨rfl,hc⟩ := h
  obtain ⟨t,ht,hl⟩ := Forward.Reader.next_ok hv
  exact ⟨t,by rw [Stream.takeWhole, ht],hl.pending,hc.trans hl.cap⟩

theorem takeWhole_error {v : ℕ} {r : Stream} {bs : Bytes} (h : Holds size r bs) (hv : bs.length < v) :
    ∃ t, Stream.takeWhole v r = .error .shortBytes t ∧ Holds size t bs := by
  obtain ⟨rfl,hc⟩ := h
  obtain ⟨t,ht,hl⟩ := Forward.Reader.next_eof hv
  exact ⟨t,by rw [Stream.takeWhole, ht],hl.pending,hc.trans hl.cap⟩

theorem takePieces_ok {v : ℕ} {r : Stream} {bs : Bytes} (hpos : 0 < size) (h : Holds size r bs) (hv : v ≤ bs.length) :
    ∃ t, Stream.takePieces v r = .ok (bs.take v) t ∧ Holds size t (bs.drop v) := by
  obtain ⟨rfl,hc⟩ := h
  obtain ⟨h1,h2,hl⟩ := Forward.Reader.copyN_spec (hpos.trans_le hc) (by decide : 0 < Stream.copyChunk) v
  rcases hcopy : r.copyN Stream.copyChunk v with ⟨b,complete,t⟩
  rw [hcopy] at h1 h2 hl
  obtain rfl : complete = true := h2.trans (decide_eq_true hv)
  obtain rfl : b = r.pending.take v := h1
  exact ⟨t,by rw [Stream.takePieces, hcopy],hl.pending,hc.trans hl.cap⟩

theorem takePieces_error {v : ℕ} {r : Stream} {bs : Bytes} (hpos : 0 < size) (h : Holds size r bs) (hv : bs.length < v) :
    ∃ t, Stream.takePieces v r = .error (.read .eof) t ∧ Holds size t [] := by
  obtain ⟨rfl,hc⟩ := h
  obtain ⟨-,h2,hl⟩ := Forward.Reader.copyN_spec (hpos.trans_le hc) (by decide : 0 < Stream.copyChunk) v
  rcases hcopy : r.copyN Stream.copyChunk v with ⟨b,complete,t⟩
  rw [hcopy] at h2 hl
  obtain rfl : complete = false := h2.trans (decide_eq_false (Nat.not_le.mpr hv))
  exact ⟨t,by rw [Stream.takePieces, hcopy],hl.pending.trans (List.drop_of_length_le hv.le),hc.trans hl.cap⟩

theorem copyObject_cases (hpos : 0 < size) {r : Stream} {bs : Bytes} (h : Holds size r bs) :
    (∃ e d t, getNextSize bs = .error e ∧ Stream.copyObject r = .error d t ∧ Holds size t bs) ∨
    ∃ v o, getNextSize bs = .ok (v,o) ∧
      (v ≤ bs.length ∧ (∃ t, Stream.copyObject r = .ok (bs.take v,o) t ∧ Holds size t (bs.drop v)) ∨
        bs.length < v ∧ ∃ d t, Stream.copyObject r = .error d t ∧ (Holds size t bs ∨ Lost size t bs)) := by
  have hsize := follows_getNextSize r bs h
  cases hbs : getNextSize bs with
  | error e =>
    rw [ofRead_error (by rw [hbs])] at hsize
    generalize hr : Stream.getNextSize r = x at hsize
    cases hsize with
    | error hf => exact Or.inl ⟨e,_,_,rfl,bind_of_error hr,hf.2⟩
  | ok vo =>
    obtain ⟨v,o⟩ := vo
    rw [ofRead_ok (by rw [hbs])] at hsize
    generalize hr : Stream.getNextSize r = x at hsize
    cases hsize with
    | @ok _ t _ ht =>
      refine Or.inr ⟨v,o,rfl,?_⟩
      by_cases hv : v ≤ bs.length
      · refine Or.inl ⟨hv,?_⟩
        obtain ⟨u,hu,hl⟩ : ∃ u, Stream.takeObject v t = .ok (bs.take v) u ∧ Holds size u (bs.drop v) := by
          unfold Stream.takeObject
          split
          · exact takeWhole_ok ht hv
          · exact takePieces_ok hpos ht hv
        exact ⟨u,(bind_of_ok hr).trans (bind_of_ok hu),hl⟩
      · have hlt := Nat.lt_of_not_le hv
        refine Or.inr ⟨hlt,?_⟩
        obtain ⟨d,u,hu,hl⟩ : ∃ d u, Stream.takeObject v t = .error d u ∧ (Holds size u bs ∨ Lost size u bs) := by
          unfold Stream.takeObject
          split
          · obtain ⟨u,hu,hl⟩ := takeWhole_error ht hlt
            exact ⟨_,u,hu,Or.inl hl⟩
          · rename_i hcap
            obtain ⟨u,hu,hend⟩ := takePieces_error hpos ht hlt
            have hc := ht.2
            exact ⟨_,u,hu,Or.inr ⟨hend,v,o,hbs,by omega,hlt⟩⟩
        exact ⟨d,u,(bind_of_ok hr).trans (bind_of_error hu),hl⟩

theorem follows_copyObjects (hpos : 0 < size) (fuel n : ℕ) (acc : Bytes) :
    Follows (Holds size) (CopyFails size) (Stream.copyObjects fuel n acc) (ofRead (copyN fuel n acc)) := by
  induction fuel generalizing n acc with
  | zero =>
    cases n with
    | zero => exact fun r bs h => .ok h
    | succ n => exact fun r bs h => .error (Or.inl h)
  | succ fuel ih =>
    cases n with
    | zero => exact fun r bs h => .ok h
    | succ n =>
      intro r bs h
      rcases copyObject_cases hpos h with ⟨e,d,t,hbs,hr,hl⟩ | ⟨v,o,hbs,⟨hv,t,hr,hl⟩ | ⟨hv,d,t,hr,hl⟩⟩
      · have hbytes : copyN (fuel + 1) (n + 1) acc bs = (.error e,bs) := by simp only [copyN, hbs]
        rw [Stream.copyObjects, bind_of_error hr, ofRead_error hbytes]
        exact .error (Or.inl hl)
      · have hbytes : ofRead (copyN (fuel + 1) (n + 1) acc) bs = ofRead (copyN fuel (o + n) (acc ++ bs.take v)) (bs.drop v) := by
          simp only [ofRead, copyN, hbs, hv, if_true]
        rw [Stream.copyObjects, bind_of_ok hr, hbytes]
        exact ih (o + n) _ t _ hl
      · have hbytes : copyN (fuel + 1) (n + 1) acc bs = (.error .unexpectedEOF,bs) := by
          simp only [copyN, hbs, Nat.not_le.mpr hv, if_false]
        rw [Stream.copyObjects, bind_of_error hr, ofRead_error hbytes]
        exact .error hl

theorem follows_copyNext (hpos : 0 < size) : Follows (Holds size) (CopyFails size) Stream.copyNext (ofRead copyNext) := by
  intro r bs h
  have hlen : r.pending.length = bs.length := by rw [h.1]
  change Agrees _ _ (Stream.copyObjects r.pending.length 1 [] r) (ofRead (copyN bs.length 1 []) bs)
  rw [hlen]
  exact follows_copyObjects hpos _ _ _ r bs h

/-! ## Skipping -/

/-- No object that is stepped over is an extension with a length field of four bytes or
larger than the size. -/
def skipsPlain (size : ℕ) : ℕ → ℕ → Bytes → Bool
  | _, 0, _ => true
  | 0, _ + 1, _ => true
  | fuel + 1, n + 1, r =>
    decide (r.head? ≠ some 0xc9) &&
      match getNextSize r with
      | .error _ => true
      | .ok (v,o) => decide (v ≤ size) && (decide (r.length < v) || skipsPlain size fuel (o + n) (r.drop v))

/-- What `skip` steps over is plain. -/
def skipPlain (size : ℕ) (r : Bytes) : Bool := skipsPlain size r.length 1 r

def SkipFails (size : ℕ) (_ : StreamError) (r : Stream) (_ : ReadError) (bs : Bytes) : Prop := Holds size r bs

theorem getSize_take {lead : UInt8} {rest : Bytes} (hlead : lead ≠ 0xc9) (hlen : 5 ≤ (lead :: rest).length) :
    Stream.getSize ((lead :: rest).take 5) = (getNextSize (lead :: rest)).mapError .read := by
  rw [List.take_succ_cons]
  cases hs : sizes lead with
  | none => simp only [Stream.getSize, getNextSize, hs, Except.mapError]
  | some spec =>
    have hw := width_lt_size lead spec hs
    have htake : (lead :: rest.take 4).length = 5 := by
      rw [List.length_cons, List.length_take]
      rw [List.length_cons] at hlen
      omega
    have hcons : lead :: rest.take 4 = (lead :: rest).take 5 := rfl
    rcases size_le_five lead hlead spec hs with hf | h5
    · simp only [Stream.getSize, getNextSize, hs, hf, Bool.true_or, if_true, Except.mapError]
      rw [resolve_fixed hf]
    · have h5' : spec.size ≤ (lead :: rest).length := h5.trans hlen
      simp only [Stream.getSize, getNextSize, hs, htake, h5, h5', decide_true, Bool.or_true, if_true, Except.mapError]
      rw [hcons, resolve_take (by omega)]

theorem agrees_sizeToSkip {r : Stream} {bs : Bytes} (h : Holds size r bs) (hlead : bs.head? ≠ some 0xc9) :
    Agrees (Holds size) (SkipFails size) (Stream.sizeToSkip r) (ofRead (fun r => (getNextSize r,r)) bs) := by
  unfold Stream.sizeToSkip
  split
  · rename_i hbuf
    have hlen := r.pending_length
    rw [h.1] at hlen
    have hpeek : Stream.peek 5 r = .ok (bs.take 5) r := by
      rw [← h.1, ← Forward.Reader.take_buf hbuf]
      exact Stream.call_ok (Forward.Reader.peek_buffered hbuf)
    rw [bind_of_ok hpeek]
    cases bs with
    | nil =>
      rw [List.length_nil] at hlen
      omega
    | cons lead rest =>
      rw [getSize_take (fun he => hlead (congrArg some he)) (by omega)]
      cases hs : getNextSize (lead :: rest) with
      | error e =>
        rw [ofRead_error (by rw [hs])]
        exact .error h
      | ok vo =>
        rw [ofRead_ok (by rw [hs])]
        exact .ok h
  · exact follows_getNextSize.mono (fun _ _ _ _ hf => hf.2) r bs h

theorem agrees_skipObjects {fuel n : ℕ} {r : Stream} {bs : Bytes} (h : Holds size r bs)
    (hplain : skipsPlain size fuel n bs = true) :
    Agrees (Holds size) (SkipFails size) (Stream.skipObjects fuel n r) (ofRead (skipN fuel n) bs) := by
  induction fuel generalizing n r bs with
  | zero =>
    cases n with
    | zero => exact .ok h
    | succ n => exact .error h
  | succ fuel ih =>
    cases n with
    | zero => exact .ok h
    | succ n =>
      rw [skipsPlain, Bool.and_eq_true, decide_eq_true_eq] at hplain
      obtain ⟨hlead,hplain⟩ := hplain
      have hsize := agrees_sizeToSkip h hlead
      cases hbs : getNextSize bs with
      | error e =>
        rw [ofRead_error (by rw [hbs])] at hsize
        generalize hr : Stream.sizeToSkip r = x at hsize
        cases hsize with
        | error hf =>
          have hbytes : skipN (fuel + 1) (n + 1) bs = (.error e,bs) := by simp only [skipN, hbs]
          rw [Stream.skipObjects, Stream.skipObject, bind_of_error (bind_of_error hr), ofRead_error hbytes]
          exact .error hf
      | ok vo =>
        obtain ⟨v,o⟩ := vo
        rw [hbs] at hplain
        simp only [Bool.and_eq_true, decide_eq_true_eq, Bool.or_eq_true] at hplain
        obtain ⟨hv,hrest⟩ := hplain
        rw [ofRead_ok (by rw [hbs])] at hsize
        generalize hr : Stream.sizeToSkip r = x at hsize
        cases hsize with
        | @ok _ t _ ht =>
          obtain ⟨hp,hc⟩ := ht
          obtain ⟨u,hu,hl⟩ := Forward.Reader.skip_spec (r := t) (n := v) (by omega)
          rw [hp] at hu hl
          by_cases hle : v ≤ bs.length
          · have hbytes : ofRead (skipN (fuel + 1) (n + 1)) bs = ofRead (skipN fuel (o + n)) (bs.drop v) := by
              simp only [ofRead, skipN, hbs, hle, if_true]
            rw [if_pos hle] at hu
            have hobj : Stream.skipObject r = .ok o u :=
              (bind_of_ok hr).trans (bind_of_ok (Stream.call_ok hu))
            rw [Stream.skipObjects, bind_of_ok hobj, hbytes]
            exact ih ⟨hl.pending,hc.trans hl.cap⟩ (hrest.resolve_left (by omega))
          · have hbytes : skipN (fuel + 1) (n + 1) bs = (.error .unexpectedEOF,[]) := by
              simp only [skipN, hbs, hle, if_false]
            rw [if_neg hle] at hu
            have hobj : Stream.skipObject r = .error (.read .unexpectedEOF) u :=
              (bind_of_ok hr).trans (bind_of_error (Stream.call_error hu))
            rw [Stream.skipObjects, bind_of_error hobj, ofRead_error hbytes]
            exact .error ⟨hl.pending.trans (List.drop_of_length_le (by omega)),hc.trans hl.cap⟩

/-- Whatever the pieces, a plain object is skipped as it is on the list of bytes. -/
theorem agrees_skip {r : Stream} {bs : Bytes} (h : Holds size r bs) (hplain : skipPlain size bs = true) :
    Agrees (Holds size) (SkipFails size) (Stream.skip r) (ofRead skip bs) := by
  have hlen : r.pending.length = bs.length := by rw [h.1]
  change Agrees _ _ (Stream.skipObjects r.pending.length 1 r) (ofRead (skipN bs.length 1) bs)
  rw [hlen]
  exact agrees_skipObjects h hplain

end Following
end Stout.Msgpack
