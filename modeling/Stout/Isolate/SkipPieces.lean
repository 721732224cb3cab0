import Stout.Isolate.ConnectionStream
import Stout.Isolate.FrameSync
import Stout.Library.MsgpackStreamBuffer

/-! # Where the pieces matter

A message for a channel that has been detached is skipped. `Skip` fails on an extension
with a length of four bytes if five bytes are buffered, and on an object larger than the
buffer if the buffer is full. `HandleConn` does not look at its error and takes what is left
of the message for the next one.
-/
namespace Stout.Isolate
open Msgpack

/-- The head of a frame without headers: everything before the arguments. -/
structure IsHead (channel number : ℕ) (head : Bytes) : Prop where
  split : ∃ h bc bn, head = h ++ (bc ++ bn) ∧ ArrayHeader 3 h ∧ IntEncodes channel bc ∧ IntEncodes number bn

section Head
variable {channel number : ℕ} {head : Bytes}

theorem IsHead.next (h : IsHead channel number head) {r : Stream} {c : Bytes} (hbuf : r.buf = head ++ c) :
    ∃ t : Stream, Conn.next r = .ok (false,channel,number) t ∧ t.buf = c ∧ t.src = r.src ∧ t.cap = r.cap := by
  obtain ⟨hd,bc,bn,rfl,hh,hc,hn⟩ := h.split
  rw [List.append_assoc, List.append_assoc] at hbuf
  obtain ⟨s,hs,hsb,hss,hsc⟩ := fromBuffer_readArrayHeader r 3 (bc ++ (bn ++ c)) (by rw [hbuf, hh.readArrayHeader])
  obtain ⟨t,ht,htb,hts,htc⟩ := fromBuffer_readUint64 s channel (bn ++ c) (by rw [hsb, hc.readUint64])
  obtain ⟨u,hu,hub,hus,huc⟩ := fromBuffer_readUint64 t number c (by rw [htb, hn.readUint64])
  refine ⟨u,?_,hub,by rw [hus, hts, hss],by rw [huc, htc, hsc]⟩
  rw [Conn.next, bind_of_ok (by rw [Conn.reading, hs]), bind_of_ok (by rw [Conn.reading, ht]),
    bind_of_ok (by rw [Conn.reading, hu])]
  rfl

end Head

section Skips
variable {channel number : ℕ} {head : Bytes} (boxes : Bytes → Bool) (hd : Handler)

end Skips

end Stout.Isolate
