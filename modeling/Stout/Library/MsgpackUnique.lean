import Stout.Library.MsgpackReaderSpec

/-! # One reading only

No bytes encode two different values, whatever widths their headers were sent with,
and no encoding begins another one. That a reader steps over exactly one value already
settles where a value ends; what remains is that equal bytes are equal values.
-/
namespace Stout.Msgpack

/-! ## Headers -/

/-- Headers whose length is a matter of their lead byte cannot be confused. -/
theorem append_inj_of_lead {f : UInt8 → ℕ} {h k s t : Bytes}
    (hh : ∃ lead tail, h = lead :: tail ∧ h.length = f lead)
    (hk : ∃ lead tail, k = lead :: tail ∧ k.length = f lead) (he : h ++ s = k ++ t) : h = k ∧ s = t := by
  obtain ⟨a,as,rfl,ha⟩ := hh
  obtain ⟨b,bs,rfl,hb⟩ := hk
  obtain rfl : a = b := List.head_eq_of_cons_eq he
  exact List.append_inj he (ha.trans hb.symm)

def binHead (lead : UInt8) : ℕ :=
  match lead with
  | 0xc4 => 2
  | 0xc5 => 3
  | _ => 5

theorem BinHeader.lead {n : ℕ} {h : Bytes} (hh : BinHeader n h) :
    ∃ lead tail, h = lead :: tail ∧ h.length = binHead lead := by
  cases hh <;> exact ⟨_,_,rfl,by simp [binHead]⟩

def extHead (lead : UInt8) : ℕ :=
  match lead with
  | 0xc7 => 3
  | 0xc8 => 4
  | 0xc9 => 6
  | _ => 2

theorem ExtHeader.lead {type : UInt8} {n : ℕ} {h : Bytes} (hh : ExtHeader type n h) :
    ∃ lead tail, h = lead :: tail ∧ h.length = extHead lead := by
  cases hh <;> exact ⟨_,_,rfl,by simp [extHead]⟩

theorem ExtHeader.getLast {type : UInt8} {n : ℕ} {h : Bytes} (hh : ExtHeader type n h) : h.getLast? = some type := by
  cases hh with
  | fix1 | fix2 | fix4 | fix8 | fix16 => rfl
  | wide8 | wide16 | wide32 => rw [List.getLast?_cons, List.getLast?_concat, Option.getD_some]

/-! ## Integers -/

def intVal : Bytes → ℤ
  | [] => 0
  | lead :: tail =>
    match lead with
    | 0xcc | 0xcd | 0xce | 0xcf => beVal tail
    | 0xd0 | 0xd1 | 0xd2 | 0xd3 => signed tail.length (beVal tail)
    | _ => if lead.toNat < 128 then lead.toNat else (lead.toNat : ℤ) - 256

theorem intVal_fix : ∀ n < 128, intVal [UInt8.ofNat n] = n := by decide
theorem intVal_negfix : ∀ n < 32, intVal [UInt8.ofNat (0xe0 + n)] = (n : ℤ) - 32 := by decide

theorem intVal_signed {lead : UInt8} {k : ℕ} {z : ℤ} (hlead : ∀ tail, intVal (lead :: tail) = signed tail.length (beVal tail))
    (hlt : (z % 256 ^ k).toNat < 256 ^ k) (hs : signed k (z % 256 ^ k).toNat = z) :
    intVal (lead :: be k (z % 256 ^ k).toNat) = z := by
  rw [hlead, be_length, beVal_be hlt, hs]

theorem IntEncodes.intVal {z : ℤ} {b : Bytes} (h : IntEncodes z b) : intVal b = z := by
  cases h with
  | fix hn => exact intVal_fix _ hn
  | negfix hn => exact intVal_negfix _ hn
  | uint8 hn | uint16 hn | uint32 hn | uint64 hn => exact congrArg Nat.cast (beVal_be hn)
  | int8 hz => exact intVal_signed (fun _ => rfl) (by omega) (by unfold signed; split <;> omega)
  | int16 hz => exact intVal_signed (fun _ => rfl) (by omega) (by unfold signed; split <;> omega)
  | int32 hz => exact intVal_signed (fun _ => rfl) (by omega) (by unfold signed; split <;> omega)
  | int64 hz => exact intVal_signed (fun _ => rfl) (by omega) (by unfold signed; split <;> omega)

/-! ## Values -/

inductive Alike : Value → Value → Prop
  | nil : Alike .nil .nil
  | bool (x y : Bool) : Alike (.bool x) (.bool y)
  | int (y z : ℤ) : Alike (.int y) (.int z)
  | float32 (x y : Bytes) : Alike (.float32 x) (.float32 y)
  | float64 (x y : Bytes) : Alike (.float64 x) (.float64 y)
  | str (s t : Bytes) : Alike (.str s) (.str t)
  | bin (s t : Bytes) : Alike (.bin s) (.bin t)
  | ext (a b : UInt8) (s t : Bytes) : Alike (.ext a s) (.ext b t)
  | array (vs ws : List Value) : Alike (.array vs) (.array ws)
  | map (vs ws : List (Value × Value)) : Alike (.map vs) (.map ws)

theorem Value.HasKind.alike {v w : Value} {typ : Kind} (hv : v.HasKind typ) (hw : w.HasKind typ) : Alike v w := by
  cases v with
  | int y =>
    cases w with
    | int z => exact .int y z
    | _ => rcases hv with rfl | rfl <;> cases hw
  | _ =>
    obtain rfl := hv
    cases w <;> first | constructor | (cases hw; done) | (rcases hw with h | h <;> cases h)

theorem Encodes.alike {v w : Value} {b : Bytes} (h : Encodes v b) (k : Encodes w b) : Alike v w := by
  obtain ⟨lead,tail,spec,rfl,hs,hv⟩ := h.lead
  obtain ⟨lead',tail',spec',he,hs',hw⟩ := k.lead
  cases he
  rw [hs] at hs'
  cases hs'
  exact hv.alike hw

theorem flatten_injective : Function.Injective flatten := by
  intro kvs
  induction kvs with
  | nil =>
    rintro (_ | ⟨kv,ws⟩) h
    · rfl
    · cases h
  | cons kv kvs ih =>
    rintro (_ | ⟨kw,ws⟩) h
    · cases h
    · rcases kv with ⟨k,v⟩
      rcases kw with ⟨k',v'⟩
      rw [flatten_cons, flatten_cons] at h
      injection h with hk h
      injection h with hv h
      rw [hk, hv, ih h]

/-- Where an encoding ends is a matter of its bytes alone. -/
theorem Encodes.append_inj {v w : Value} {b c s t : Bytes} (h : Encodes v b) (k : Encodes w c)
    (he : b ++ s = c ++ t) : b = c ∧ s = t := by
  have hst : s = t := by
    have hskip := h.skip s
    rw [he, k.skip t] at hskip
    exact (congrArg Prod.snd hskip).symm
  subst hst
  exact ⟨List.append_cancel_right he,rfl⟩

theorem Encodes.bool_bytes {x : Bool} {b : Bytes} (h : Encodes (.bool x) b) : b = [if x then 0xc3 else 0xc2] := by
  cases h <;> rfl

theorem Encodes.unique_of_nested {v w : Value} {b : Bytes}
    (ih : ∀ vs ws c, c.length < b.length → EncodesAll vs c → EncodesAll ws c → vs = ws)
    (h : Encodes v b) (k : Encodes w b) : v = w := by
  cases h.alike k with
  | nil => rfl
  | bool x y =>
    have hxy := h.bool_bytes.symm.trans k.bool_bytes
    revert hxy
    cases x <;> cases y <;> simp
  | int y z =>
    cases h with
    | int hy =>
      cases k with
      | int hz => rw [← hy.intVal, hz.intVal]
  | float32 x y =>
    cases h
    cases k
    rfl
  | float64 x y =>
    cases h
    cases k
    rfl
  | str s t =>
    cases h with
    | @str _ hd hh =>
      generalize hb : hd ++ s = b at k
      cases k with
      | @str _ hd' hh' =>
        have hs := hh.readString []
        have ht := hh'.readString []
        rw [List.append_nil] at hs ht
        rw [hb, ht] at hs
        cases hs
        rfl
  | bin s t =>
    cases h with
    | @bin _ hd hh =>
      generalize hb : hd ++ s = b at k
      cases k with
      | bin hh' => rw [(append_inj_of_lead hh.lead hh'.lead hb).2]
  | ext x y s t =>
    cases h with
    | @ext _ _ hd hh =>
      generalize hb : hd ++ s = b at k
      cases k with
      | ext hh' =>
        obtain ⟨rfl,rfl⟩ := append_inj_of_lead hh.lead hh'.lead hb
        have hxy := hh.getLast.symm.trans hh'.getLast
        cases hxy
        rfl
  | array vs ws =>
    cases h with
    | @array _ hd bs hh hs =>
      have hlt : bs.length < (hd ++ bs).length := by simp [hh.length_pos]
      generalize hb : hd ++ bs = b at k
      cases k with
      | array hh' hs' =>
        have hr := hh.readArrayHeader bs
        rw [hb, hh'.readArrayHeader] at hr
        obtain rfl := congrArg Prod.snd hr
        rw [ih _ _ _ hlt hs hs']
  | map vs ws =>
    cases h with
    | @map _ hd bs hh hs =>
      have hlt : bs.length < (hd ++ bs).length := by simp [hh.length_pos]
      generalize hb : hd ++ bs = b at k
      cases k with
      | map hh' hs' =>
        have hr := hh.readMapHeader bs
        rw [hb, hh'.readMapHeader] at hr
        obtain rfl := congrArg Prod.snd hr
        rw [flatten_injective (ih _ _ _ hlt hs hs')]

/-- The bytes on a wire are the values of one list only. -/
theorem EncodesAll.unique {vs ws : List Value} {b : Bytes} (h : EncodesAll vs b) (k : EncodesAll ws b) : vs = ws := by
  induction hn : b.length using Nat.strong_induction_on generalizing vs ws b with
  | _ n ih =>
    subst hn
    cases h with
    | nil =>
      generalize hb : ([] : Bytes) = b at k
      cases k with
      | nil => rfl
      | cons hw _ =>
        have hpos := hw.length_pos
        rw [(List.append_eq_nil_iff.mp hb.symm).1] at hpos
        cases hpos
    | @cons v vs c cs hv hs =>
      generalize hb : c ++ cs = b at k ih
      cases k with
      | nil =>
        have hpos := hv.length_pos
        rw [(List.append_eq_nil_iff.mp hb).1] at hpos
        cases hpos
      | cons hw hs' =>
        obtain ⟨rfl,rfl⟩ := hv.append_inj hw hb
        have hpos := hv.length_pos
        have hvw := hv.unique_of_nested (fun vs ws d hd h k => ih _ (by rw [List.length_append]; omega) h k rfl) hw
        rw [hvw, ih _ (by rw [List.length_append]; omega) hs hs' rfl]

end Stout.Msgpack
