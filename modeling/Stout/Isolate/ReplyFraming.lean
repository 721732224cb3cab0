import Stout.Library.MsgpackAppend
import Stout.Library.MsgpackUnique
import Stout.Isolate.FrameSync

/-! # Reply framing

Any number of response streams write to one connection. A call hands its frame over in
one write, and the connection takes all of it or nothing, so what is on the connection
is a sequence of frames, and these bytes are no other sequence of values.
-/
namespace Stout.ResponseStream
open Msgpack
open Isolate (IsFrame next next_frame)

/-! ## Frames -/

def Call.num : Call → ℕ
  | .write num _ | .error num _ _ | .close num => num

def Call.payload : Call → Value
  | .write _ data => .array [.str data]
  | .error _ code msg => .array [.array [.int code.1,.int code.2],.str msg]
  | .close _ => .array []

def Call.frame (channel : ℕ) (c : Call) : Value := .array [.int channel,.int c.num,c.payload]

/-- The bytes that the call hands to the connection. -/
def Call.bytes (channel : ℕ) : Call → Bytes
  | .write num data => writeFrame channel num data
  | .error num code msg => errorFrame channel num code msg
  | .close num => closeFrame channel num

def IsInt (z : ℤ) : Prop := -2 ^ 63 ≤ z ∧ z < 2 ^ 63

/-- The arguments are within the types of the source, and the strings below `2 ^ 32` bytes. -/
def Call.Fits : Call → Prop
  | .write num data => num < 2 ^ 64 ∧ data.length < 2 ^ 32
  | .error num code msg => num < 2 ^ 64 ∧ (IsInt code.1 ∧ IsInt code.2) ∧ msg.length < 2 ^ 32
  | .close num => num < 2 ^ 64

theorem Call.Fits.num_lt {c : Call} (h : c.Fits) : c.num < 2 ^ 64 := by
  cases c with
  | write => exact h.1
  | error => exact h.1
  | close => exact h

theorem frameStart_spec {channel num : ℕ} (hc : channel < 2 ^ 64) (hn : num < 2 ^ 64) :
    ∃ h bc bn, ArrayHeader 3 h ∧ IntEncodes channel bc ∧ IntEncodes num bn ∧
      frameStart channel num = h ++ (bc ++ bn) := by
  unfold frameStart
  obtain ⟨h,hh,he⟩ := appendArrayHeader_spec [] 3 (by decide)
  obtain ⟨bc,hbc,hce⟩ := appendUint64_spec h hc
  obtain ⟨bn,hbn,hne⟩ := appendUint64_spec (h ++ bc) hn
  refine ⟨h,bc,bn,hh,hbc,hbn,?_⟩
  rw [he, List.nil_append, hce, hne, List.append_assoc]

theorem Call.bytes_spec (channel : ℕ) {c : Call} (h : c.Fits) :
    ∃ a, Encodes c.payload a ∧ c.bytes channel = frameStart channel c.num ++ a := by
  cases c with
  | write num data =>
    obtain ⟨h₁,hh₁,he₁⟩ := appendArrayHeader_spec (frameStart channel num) 1 (by decide)
    obtain ⟨d,hd,hde⟩ := appendStringFromBytes_spec (frameStart channel num ++ h₁) h.2
    refine ⟨h₁ ++ d,.array hh₁ (.single hd),?_⟩
    rw [Call.bytes, writeFrame, he₁, hde, List.append_assoc]
    rfl
  | error num code msg =>
    obtain ⟨-,⟨hcat,hcode⟩,hmsg⟩ := h
    obtain ⟨h₁,hh₁,he₁⟩ := appendArrayHeader_spec (frameStart channel num) 2 (by decide)
    obtain ⟨h₂,hh₂,he₂⟩ := appendArrayHeader_spec (frameStart channel num ++ h₁) 2 (by decide)
    obtain ⟨x,hx,hxe⟩ := appendInt_spec (frameStart channel num ++ h₁ ++ h₂) hcat.1 hcat.2
    obtain ⟨y,hy,hye⟩ := appendInt_spec (frameStart channel num ++ h₁ ++ h₂ ++ x) hcode.1 hcode.2
    obtain ⟨m,hm,hme⟩ := appendStringFromBytes_spec (frameStart channel num ++ h₁ ++ h₂ ++ x ++ y) hmsg
    have hpair : Encodes (.array [.int code.1,.int code.2]) (h₂ ++ (x ++ y)) :=
      .array hh₂ (.cons (.int hx) (.single (.int hy)))
    refine ⟨h₁ ++ (h₂ ++ (x ++ y) ++ m),.array hh₁ (.cons hpair (.single hm)),?_⟩
    rw [Call.bytes, errorFrame, he₁, he₂, hxe, hye, appendString, hme]
    simp only [List.append_assoc]
    rfl
  | close num =>
    obtain ⟨h₁,hh₁,he₁⟩ := appendArrayHeader_spec (frameStart channel num) 0 (by decide)
    refine ⟨h₁,?_,by rw [Call.bytes, closeFrame, he₁]; rfl⟩
    have hempty : Encodes (.array []) (h₁ ++ []) := .array hh₁ .nil
    rwa [List.append_nil] at hempty

theorem Call.isFrame {channel : ℕ} {c : Call} (hc : channel < 2 ^ 64) (h : c.Fits) :
    IsFrame channel c.num c.payload none (c.bytes channel) := by
  obtain ⟨hd,bc,bn,hh,hbc,hbn,hstart⟩ := frameStart_spec hc h.num_lt
  obtain ⟨a,ha,hbytes⟩ := c.bytes_spec channel h
  refine ⟨hd,bc,bn,a,[],?_,hh,hbc,hbn,ha,.nil⟩
  rw [hbytes, hstart]
  simp only [List.append_assoc, List.append_nil]

theorem Call.encodes {channel : ℕ} {c : Call} (hc : channel < 2 ^ 64) (h : c.Fits) :
    Encodes (c.frame channel) (c.bytes channel) := by
  obtain ⟨hd,bc,bn,a,bh,hbytes,hh,hbc,hbn,ha,hbh⟩ := (c.isFrame hc h).split
  cases hbh
  rw [hbytes]
  exact .array hh (.cons (.int hbc) (.cons (.int hbn) (.cons ha .nil)))

/-! ## One connection -/

/-- Streams that share a connection, with the bytes on it. -/
structure Shared (ι : Type) where
  streams : ι → Stream
  conn : Bytes

section Shared
variable {ι : Type} [DecidableEq ι]

def Shared.new (channel : ι → ℕ) (onClose : ι → Bool) : Shared ι :=
  ⟨fun i => newResponseStream (channel i) (onClose i),[]⟩

def Shared.perform (w : Shared ι) (i : ι) (o : Op) : Shared ι :=
  let s := (ResponseStream.perform (w.streams i) o.1 o.2).2
  ⟨Function.update w.streams i s,w.conn ++ (s.sent.drop (w.streams i).sent.length).flatten⟩

def Shared.run (w : Shared ι) (calls : List (ι × Op)) : Shared ι :=
  calls.foldl (fun w p => w.perform p.1 p.2) w

/-- The connection takes all of `p` or nothing of it. -/
def Atomic (p : Bytes) : WriteOutcome → Prop
  | none => True
  | some (n,_) => n = 0 ∨ p.length ≤ n

def written (p : Bytes) : WriteOutcome → Bool
  | none => true
  | some (n,_) => decide (p.length ≤ n)

/-- The calls whose frames have come to the connection. -/
def framesSent (channel : ι → ℕ) (calls : List (ι × Op)) : List (ι × Call) :=
  (calls.filter fun p => written (p.2.1.bytes (channel p.1)) p.2.2).map fun p => (p.1,p.2.1)

theorem emit_sent {p : Bytes} {w : WriteOutcome} (hw : Atomic p w) (s : Stream) :
    ((emit s p w).2.sent.drop s.sent.length).flatten = if written p w then p else [] := by
  rcases w with _ | ⟨n,e⟩
  · simp [emit, written]
  · rcases hw with rfl | hn
    · by_cases hp : p = []
      · simp [emit, written, hp]
      · simp [emit, written, hp]
    · simp [emit, written, hn, List.take_of_length_le hn]

theorem perform_open {s : Stream} (hs : s.closed = false) (c : Call) {w : WriteOutcome}
    (hw : Atomic (c.bytes s.channel) w) :
    (perform s c w).2.channel = s.channel ∧ (perform s c w).2.closed = false ∧
      ((perform s c w).2.sent.drop s.sent.length).flatten =
        if written (c.bytes s.channel) w then c.bytes s.channel else [] := by
  rw [← emit_sent hw s]
  cases c <;> simp [perform, terminalReply, Call.bytes, hs]

theorem run_conn {channel : ι → ℕ} {calls : List (ι × Op)} (hatomic : ∀ p ∈ calls, Atomic (p.2.1.bytes (channel p.1)) p.2.2)
    {w : Shared ι} (hw : ∀ i, (w.streams i).channel = channel i ∧ (w.streams i).closed = false) :
    (w.run calls).conn = w.conn ++ (framesSent channel calls).flatMap fun p => p.2.bytes (channel p.1) := by
  induction calls generalizing w with
  | nil => simp [Shared.run, framesSent]
  | cons p calls ih =>
    obtain ⟨i,c,out⟩ := p
    obtain ⟨hi,hopen⟩ := hw i
    have hat : Atomic (c.bytes (w.streams i).channel) out := hi ▸ hatomic (i,c,out) List.mem_cons_self
    obtain ⟨hch,hcl,hsent⟩ := perform_open hopen c hat
    have hstep : ∀ j, ((w.perform i (c,out)).streams j).channel = channel j ∧
        ((w.perform i (c,out)).streams j).closed = false := by
      intro j
      by_cases hj : j = i
      · subst hj
        simp only [Shared.perform, Function.update_self]
        exact ⟨hch.trans hi,hcl⟩
      · simp only [Shared.perform, Function.update_of_ne hj]
        exact hw j
    have hrest := ih (fun p hp => hatomic p (List.mem_cons_of_mem _ hp)) hstep
    have hconn : (w.perform i (c,out)).conn =
        w.conn ++ if written (c.bytes (channel i)) out then c.bytes (channel i) else [] := by
      rw [← hi, ← hsent]
      rfl
    change ((w.perform i (c,out)).run calls).conn = _
    rw [hrest, hconn, framesSent, framesSent, List.filter_cons]
    by_cases hwr : written (c.bytes (channel i)) out = true
    · simp [hwr]
    · simp [hwr]

/-- The bytes on the connection are the frames of the calls, in the order of the
writes, and nothing else; and `next` takes the head off each of them. -/
theorem replies_framed (channel : ι → ℕ) (onClose : ι → Bool) (calls : List (ι × Op))
    (hchannel : ∀ i, channel i < 2 ^ 64) (hfits : ∀ p ∈ calls, p.2.1.Fits)
    (hatomic : ∀ p ∈ calls, Atomic (p.2.1.bytes (channel p.1)) p.2.2) :
    ((Shared.new channel onClose).run calls).conn =
      ((framesSent channel calls).flatMap fun p => p.2.bytes (channel p.1)) ∧
    (∀ vs, EncodesAll vs ((Shared.new channel onClose).run calls).conn ↔
      vs = (framesSent channel calls).map fun p => p.2.frame (channel p.1)) ∧
    ∀ p ∈ framesSent channel calls, ∀ rest, ∃ a,
      next (p.2.bytes (channel p.1) ++ rest) = .ok (false,channel p.1,p.2.num) (a ++ rest) ∧
      Encodes p.2.payload a ∧ skip (a ++ rest) = (.ok (),rest) := by
  have hconn := run_conn hatomic (w := Shared.new channel onClose) fun i => ⟨rfl,rfl⟩
  have hsent : ∀ p ∈ framesSent channel calls, p.2.Fits := by
    intro p hp
    obtain ⟨q,hq,rfl⟩ := List.mem_map.mp hp
    exact hfits q (List.mem_of_mem_filter hq)
  have hall : EncodesAll ((framesSent channel calls).map fun p => p.2.frame (channel p.1))
      ((framesSent channel calls).flatMap fun p => p.2.bytes (channel p.1)) := by
    generalize framesSent channel calls = l at hsent
    induction l with
    | nil => exact .nil
    | cons p l ih =>
      exact .cons (p.2.encodes (hchannel p.1) (hsent p List.mem_cons_self))
        (ih fun q hq => hsent q (List.mem_cons_of_mem _ hq))
  refine ⟨hconn,?_,?_⟩
  · intro vs
    have hnew : (Shared.new channel onClose).conn = [] := rfl
    rw [hconn, hnew, List.nil_append]
    exact ⟨fun h => h.unique hall,fun h => h ▸ hall⟩
  · intro p hp rest
    obtain ⟨hd,bc,bn,a,bh,hbytes,hh,hbc,hbn,ha,hbh⟩ := (p.2.isFrame (hchannel p.1) (hsent p hp)).split
    cases hbh
    have hnext : next (hd ++ (bc ++ (bn ++ (a ++ rest)))) =
        .ok ((none : Option Value).isSome,channel p.1,p.2.num) (a ++ rest) := next_frame hh hbc hbn
    refine ⟨a,?_,ha,ha.skip rest⟩
    rw [hbytes]
    simpa only [List.append_assoc, List.append_nil, Option.isSome_none] using hnext

/-- Two streams: a reply on channel 1, an error with a negative code that is not
written, and the end of channel 300. -/
theorem replies_framed_two :
    EncodesAll [.array [.int 1,.int 0,.array [.str [0x68,0x69]]],.array [.int 300,.int 2,.array []]]
      [0x93,0x01,0x00,0x91,0xa2,0x68,0x69,0x93,0xcd,0x01,0x2c,0x02,0x90] := by
  let calls : List (Bool × Op) :=
    [(false,.write 0 [0x68,0x69],none),(true,.error 1 (42,-1) [],some (0,"broken pipe")),(true,.close 2,none)]
  have hframed := (replies_framed (fun i : Bool => if i then 300 else 1) (fun _ => true) calls
    (by decide) (by simp [calls, Call.Fits, IsInt]) (by simp [calls, Atomic])).2.1
    [.array [.int 1,.int 0,.array [.str [0x68,0x69]]],.array [.int 300,.int 2,.array []]]
  have hconn : ((Shared.new (fun i : Bool => if i then 300 else 1) fun _ => true).run calls).conn =
      [0x93,0x01,0x00,0x91,0xa2,0x68,0x69,0x93,0xcd,0x01,0x2c,0x02,0x90] := by decide
  rw [hconn] at hframed
  exact hframed.mpr rfl

end Shared

end Stout.ResponseStream
