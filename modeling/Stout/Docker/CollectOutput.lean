import Stout.Library.BufferedReader
import Stout.Library.MsgpackWire

/-! # The output of a Docker container

`collectOutput` of `docker/container.go`. The attached stream is a sequence of frames,
a header of eight bytes before each payload. The payload is copied with `io.CopyN`,
which asks again until all of it has come; the header is asked for once, and whatever
the read did not bring is what the array held before.
-/
namespace Stout.Docker
open Buffered Msgpack

def headerSize : ℕ := 8

/-- The buffer of a `bufio.Reader`, and the one of `io.Copy`. -/
def bufferSize : ℕ := 4096
def copySize : ℕ := 32 * 1024

/-- The loop, with the array `header` and what the writer has got; `OutputCollector`
takes whatever it is given. `none` if it has not returned after `fuel` turns. -/
def collect : ℕ → Bytes → Reader UInt8 → Bytes → Option Bytes
  | 0, _, _, _ => none
  | fuel + 1, header, r, written =>
    match r.read bufferSize headerSize with
    | none => some written
    | some (b,r') =>
      let header := b ++ header.drop b.length
      let size := beVal (header.drop 4)
      let (out,complete,r'') := r'.copyN bufferSize copySize size
      if complete then collect fuel header r'' (written ++ out) else some (written ++ out)

def collectOutput (hjResp : Except String (Reader UInt8)) : Option Bytes :=
  match hjResp with
  | .error _ => some []
  | .ok r => collect (r.pending.length + 1) (List.replicate headerSize 0) r []

/-! ## Frames -/

structure Frame where
  stream : Bytes
  payload : Bytes
  stream_length : stream.length = 4
  size_lt : payload.length < 2 ^ 32

def Frame.header (f : Frame) : Bytes := f.stream ++ be 4 f.payload.length

def Frame.encode (f : Frame) : Bytes := f.header ++ f.payload

theorem Frame.header_length (f : Frame) : f.header.length = headerSize := by
  rw [header, List.length_append, f.stream_length, be_length]
  rfl

theorem Frame.beVal_header (f : Frame) : beVal (f.header.drop 4) = f.payload.length := by
  rw [header, List.drop_append_of_le_length f.stream_length.ge, ← f.stream_length, List.drop_length, List.nil_append,
    f.stream_length, beVal_be]
  exact f.size_lt

def afterFrame (r : Reader UInt8) (n : ℕ) : Reader UInt8 :=
  (((r.read bufferSize headerSize).elim r Prod.snd).copyN bufferSize copySize n).2.2

/-- Each header is there as a whole when it is asked for. -/
def WholeHeaders : Reader UInt8 → List Frame → Prop
  | _, [] => True
  | r, f :: fs => headerSize ≤ r.ready bufferSize ∧ WholeHeaders (afterFrame r f.payload.length) fs

instance decidableWholeHeaders : (r : Reader UInt8) → (fs : List Frame) → Decidable (WholeHeaders r fs)
  | _, [] => .isTrue trivial
  | r, f :: fs =>
    have := decidableWholeHeaders (afterFrame r f.payload.length) fs
    inferInstanceAs (Decidable (_ ∧ _))

/-! ## Whole headers -/

theorem read_header {f : Frame} {rest : Bytes} {r : Reader UInt8} (hp : r.pending = f.header ++ rest)
    (h : headerSize ≤ r.ready bufferSize) :
    ∃ r', r.read bufferSize headerSize = some (f.header,r') ∧ r'.pending = rest := by
  cases hr : r.read bufferSize headerSize with
  | none =>
    rw [Reader.read_eq_none.mp hr] at hp
    have hl := congrArg List.length hp
    rw [List.length_append, f.header_length] at hl
    simp only [List.length_nil, headerSize] at hl
    omega
  | some p =>
    obtain ⟨b,r'⟩ := p
    obtain ⟨-,-,hb⟩ := Reader.read_some (by decide) (by decide) hr
    have hlen : b.length = f.header.length := by
      rw [Reader.read_length (by decide) hr, f.header_length]
      omega
    rw [hp] at hb
    obtain ⟨rfl,hrest⟩ := List.append_inj hb hlen
    exact ⟨r',rfl,hrest⟩

theorem collect_frame (fuel : ℕ) (written : Bytes) {f : Frame} {rest header : Bytes} {r : Reader UInt8}
    (hp : r.pending = f.encode ++ rest) (h : headerSize ≤ r.ready bufferSize) (hh : header.length = headerSize) :
    (afterFrame r f.payload.length).pending = rest ∧
      collect (fuel + 1) header r written =
        collect fuel f.header (afterFrame r f.payload.length) (written ++ f.payload) := by
  rw [Frame.encode, List.append_assoc] at hp
  obtain ⟨r',hr,hp'⟩ := read_header hp h
  obtain ⟨hout,hcomplete,hrest⟩ := Reader.copyN_eq (show 0 < bufferSize by decide) (show 0 < copySize by decide)
    f.payload.length r'
  rw [hp', List.take_left] at hout
  rw [hp', List.drop_left] at hrest
  rw [hp', List.length_append, decide_eq_true (Nat.le_add_right _ _)] at hcomplete
  have hafter : afterFrame r f.payload.length = (r'.copyN bufferSize copySize f.payload.length).2.2 := by
    rw [afterFrame, hr]
    rfl
  have hover : f.header ++ header.drop f.header.length = f.header := by
    rw [f.header_length, ← hh, List.drop_length, List.append_nil]
  refine ⟨by rw [hafter, hrest],?_⟩
  rw [collect, hr]
  dsimp only
  rw [hover, f.beVal_header, hcomplete, if_pos rfl, hout, hafter]

theorem collect_end {header written : Bytes} {r : Reader UInt8} {fuel : ℕ} (hp : r.pending = []) :
    collect (fuel + 1) header r written = some written := by
  rw [collect, Reader.read_eq_none.mpr hp]

theorem collect_frames {fs : List Frame} {header written : Bytes} {r : Reader UInt8} {fuel : ℕ}
    (hp : r.pending = fs.flatMap Frame.encode) (h : WholeHeaders r fs) (hh : header.length = headerSize)
    (hf : fs.length < fuel) : collect fuel header r written = some (written ++ fs.flatMap Frame.payload) := by
  induction fs generalizing header written r fuel with
  | nil =>
    obtain ⟨fuel,rfl⟩ := Nat.exists_eq_succ_of_ne_zero (by omega : fuel ≠ 0)
    rw [collect_end hp, List.flatMap_nil, List.append_nil]
  | cons f fs ih =>
    obtain ⟨fuel,rfl⟩ := Nat.exists_eq_succ_of_ne_zero (by omega : fuel ≠ 0)
    obtain ⟨hready,hrest⟩ := h
    rw [List.flatMap_cons] at hp
    obtain ⟨hp',hstep⟩ := collect_frame fuel written hp hready hh
    rw [List.length_cons] at hf
    rw [hstep, ih hp' hrest f.header_length (by omega), List.flatMap_cons, List.append_assoc]

/-! ## Split headers -/

/-- A read of at most four bytes does not get to the size in the array. -/
theorem size_of_short {b header : Bytes} (hb : b.length ≤ 4) (hz : header.drop 4 = List.replicate 4 0) :
    (b ++ header.drop b.length).drop 4 = List.replicate 4 0 := by
  rw [List.drop_append, List.drop_of_length_le hb, List.nil_append, List.drop_drop,
    Nat.add_sub_cancel' hb, hz]

/-- The connection delivers at most four bytes at a time. -/
structure Short (r : Reader UInt8) : Prop where
  buf : r.buf.length ≤ 4
  pieces : ∀ k ∈ r.src.pieces, k ≤ 4
  enough : r.src.rest.length ≤ r.src.pieces.length

theorem Short.read {r r' : Reader UInt8} {b : Bytes} (h : Short r) (hr : r.read bufferSize headerSize = some (b,r')) :
    b.length ≤ 4 ∧ Short r' := by
  obtain ⟨buf,⟨rest,pieces⟩⟩ := r
  obtain ⟨hb,hp,he⟩ := h
  cases buf with
  | cons x xs =>
    cases hr
    refine ⟨(List.length_take_le' _ _).trans hb,?_,hp,he⟩
    exact (List.length_drop.trans_le (Nat.sub_le _ _)).trans hb
  | nil =>
    cases rest with
    | nil => cases hr
    | cons y ys =>
      cases pieces with
      | nil => simp at he
      | cons k ks =>
        cases hr
        have hk : k ≤ 4 := hp k List.mem_cons_self
        have hpos : 1 ≤ min bufferSize (max 1 k) := by simp [bufferSize]
        have hread : ((y :: ys).take (min bufferSize (max 1 k))).length ≤ 4 := by
          rw [List.length_take]
          omega
        refine ⟨(List.length_take_le' _ _).trans hread,?_,?_,?_⟩
        · exact (List.length_drop.trans_le (Nat.sub_le _ _)).trans hread
        · exact fun j hj => hp j (List.mem_cons_of_mem k hj)
        · simp only [List.length_cons, List.length_drop, List.headD_cons, List.tail_cons] at he ⊢
          omega

/-- With reads of at most four bytes nothing is ever written, whatever the stream is. -/
theorem collect_short {header : Bytes} {r : Reader UInt8} {fuel : ℕ} (h : Short r)
    (hz : header.drop 4 = List.replicate 4 0) (hf : r.pending.length < fuel) : collect fuel header r [] = some [] := by
  induction fuel generalizing header r with
  | zero => omega
  | succ fuel ih =>
    rw [collect]
    split
    · rfl
    · rename_i b r' hr
      obtain ⟨hne,-,hp⟩ := Reader.read_some (by decide) (by decide) hr
      obtain ⟨hb,hs⟩ := h.read hr
      have hsize : beVal ((b ++ header.drop b.length).drop 4) = 0 := by
        rw [size_of_short hb hz]
        rfl
      have hlen : r'.pending.length < fuel := by
        have := congrArg List.length hp
        rw [List.length_append] at this
        have := List.length_pos_iff.mpr hne
        omega
      dsimp only
      rw [hsize]
      exact ih hs (size_of_short hb hz) hlen

theorem collect_returns {header written : Bytes} {r : Reader UInt8} {fuel : ℕ} (hf : r.pending.length < fuel) :
    ∃ out, collect fuel header r written = some out := by
  induction fuel generalizing header written r with
  | zero => omega
  | succ fuel ih =>
    rw [collect]
    split
    · exact ⟨written,rfl⟩
    · rename_i b r' hr
      obtain ⟨hne,-,hp⟩ := Reader.read_some (by decide) (by decide) hr
      have hpos := List.length_pos_iff.mpr hne
      have hlen := congrArg List.length hp
      rw [List.length_append] at hlen
      dsimp only
      split
      · refine ih ?_
        rw [(Reader.copyN_eq (show 0 < bufferSize by decide) (show 0 < copySize by decide) _ r').2.2, List.length_drop]
        omega
      · exact ⟨_,rfl⟩

theorem collectOutput_returns (hjResp : Except String (Reader UInt8)) : ∃ out, collectOutput hjResp = some out := by
  cases hjResp with
  | error e => exact ⟨[],rfl⟩
  | ok r => exact collect_returns (Nat.lt_succ_self _)

theorem length_le_encode (fs : List Frame) : fs.length ≤ (fs.flatMap Frame.encode).length := by
  induction fs with
  | nil => simp
  | cons f fs ih =>
    have hh := f.header_length
    simp only [List.flatMap_cons, List.length_append, List.length_cons, Frame.encode, headerSize] at ih hh ⊢
    omega

/-- The payloads are written, all of them and in order, when each header comes as a
whole; and no stream with output in it survives every way of splitting it. -/
theorem collectOutput_payloads (fs : List Frame) :
    (∀ r : Reader UInt8, r.pending = fs.flatMap Frame.encode → WholeHeaders r fs →
      collectOutput (.ok r) = some (fs.flatMap Frame.payload)) ∧
    ((∀ r : Reader UInt8, r.pending = fs.flatMap Frame.encode →
      collectOutput (.ok r) = some (fs.flatMap Frame.payload)) → fs.flatMap Frame.payload = []) := by
  constructor
  · intro r hp h
    have hlen := length_le_encode fs
    exact collect_frames hp h List.length_replicate (by rw [hp]; omega)
  · intro h
    let bytes := fs.flatMap Frame.encode
    let r : Reader UInt8 := ⟨[],bytes,List.replicate bytes.length 4⟩
    have hs : Short r := ⟨by simp [r],fun k hk => (List.eq_of_mem_replicate hk).le,by simp [r]⟩
    have hsilent : collectOutput (.ok r) = some [] := collect_short hs rfl (Nat.lt_succ_self _)
    rw [h r rfl] at hsilent
    exact Option.some.inj hsilent

/-- Two frames that come in one read. -/
theorem collectOutput_oneRead :
    let fs : List Frame := [⟨[1,0,0,0],[104,105],rfl,by decide⟩,⟨[2,0,0,0],[33],rfl,by decide⟩]
    collectOutput (.ok ⟨[],fs.flatMap Frame.encode,[]⟩) = some [104,105,33] := by
  intro fs
  exact (collectOutput_payloads fs).1 _ rfl (by decide)

/-- One byte of output, in reads of four bytes: nothing is written. -/
theorem collectOutput_splitHeader :
    let f : Frame := ⟨[1,0,0,0],[97],rfl,by decide⟩
    let r : Reader UInt8 := ⟨[],f.encode,List.replicate 9 4⟩
    r.pending = [f].flatMap Frame.encode ∧ collectOutput (.ok r) = some [] ∧
      collectOutput (.ok r) ≠ some ([f].flatMap Frame.payload) := by
  intro f r
  have hs : Short r := ⟨by decide,by decide,by decide⟩
  have hout : collectOutput (.ok r) = some [] := collect_short hs rfl (Nat.lt_succ_self _)
  refine ⟨rfl,hout,?_⟩
  rw [hout]
  decide

end Stout.Docker
