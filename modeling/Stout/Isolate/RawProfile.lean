import Stout.Library.MsgpackFields

/-! # The profile of a request

`profile.go`: the bytes that were copied from the request are decoded once, into the
profile of the box.
-/
namespace Stout.Isolate
open Msgpack

/-- A `cocaineProfile`; its buffer is given away when it is decoded. -/
structure RawProfile where
  buff : Option Bytes
deriving DecidableEq, Repr

inductive DecodeError where
  | twiceDecodedTo
  | msgp (err : Located)
deriving DecidableEq, Repr

def DecodeError.text : DecodeError → String
  | .twiceDecodedTo => "DecodeTo is called twice"
  | .msgp err => err.text

/-- `DecodeTo`, into a value of any type. -/
def RawProfile.decodeTo {σ : Type} (p : RawProfile) (c : Codec σ) (z : σ) : Except DecodeError σ × RawProfile :=
  match p.buff with
  | none => (.error .twiceDecodedTo,p)
  | some b =>
    match c.decode z (ofBytes b) with
    | .ok z _ => (.ok z,⟨none⟩)
    | .error e _ => (.error (.msgp e),⟨none⟩)

theorem RawProfile.decodeTo_of_value {σ : Type} {v : Value} {b : Bytes} (h : Encodes v b) (hn : v.NoExt) (c : Codec σ) (z : σ) :
    (∃ z', c.meaning v z = .ok z' ∧ (RawProfile.mk (some b)).decodeTo c z = (.ok z',⟨none⟩)) ∨
      ∃ f e, c.meaning v z = .error f ∧ (RawProfile.mk (some b)).decodeTo c z = (.error (.msgp e),⟨none⟩) ∧ e.fault = f := by
  have hrun := c.decodes h hn z (ofBytes b) [] (List.append_nil b).symm
  unfold decodeTo
  dsimp only
  generalize c.decode z (ofBytes b) = y at hrun ⊢
  generalize c.meaning v z = x at hrun ⊢
  cases hrun with
  | ok _ => exact Or.inl ⟨_,rfl,rfl⟩
  | error he => exact Or.inr ⟨_,_,rfl,rfl,he⟩

/-! ## Texts -/

/-- The string that is sent last under a key, as a text. -/
def textOf (key : String) (kvs : List (Value × Value)) (start : String) : String :=
  lastOf (fun v => v.asStr.map byteText) (sent (Json.ofAscii key) kvs) start

def textMap (m : StrMap) : Std.ExtTreeMap String String compare :=
  m.toList.foldl (fun acc p => acc.insert (byteText p.1) (byteText p.2)) ∅

/-- Strings with the same text are the same, so none of the pairs is lost. -/
theorem getElem?_textMap (m : StrMap) (k : Bytes) : (textMap m)[byteText k]? = m[k]?.map byteText := by
  have hfold (l : List (Bytes × Bytes)) (hl : (l.map Prod.fst).Nodup) (acc : Std.ExtTreeMap String String compare) (y : String) :
      (l.foldl (fun acc p => acc.insert (byteText p.1) (byteText p.2)) acc)[byteText k]? = some y ↔
        (∃ b, (k,b) ∈ l ∧ byteText b = y) ∨ (k ∉ l.map Prod.fst ∧ acc[byteText k]? = some y) := by
    induction l generalizing acc with
    | nil => simp
    | cons p l ih =>
      obtain ⟨a,b⟩ := p
      obtain ⟨ha,hl⟩ := List.nodup_cons.mp hl
      rw [List.foldl_cons, ih hl, Std.ExtTreeMap.getElem?_insert]
      by_cases hk : a = k
      · subst hk
        have hnot : ∀ c, (a,c) ∉ l := fun c hc => ha (List.mem_map.mpr ⟨_,hc,rfl⟩)
        simp [hnot, ha]
      · have hne : byteText a ≠ byteText k := fun h => hk (byteText_injective h)
        simp [hne, Ne.symm hk]
  have hkeys : (m.toList.map Prod.fst).Nodup := by
    rw [Std.ExtTreeMap.map_fst_toList_eq_keys]
    exact Std.ExtTreeMap.nodup_keys
  refine Option.ext fun y => ?_
  rw [textMap, hfold _ hkeys, Option.map_eq_some_iff]
  simp [Std.ExtTreeMap.mem_toList_iff_getElem?_eq_some]

def textMapOf (key : String) (kvs : List (Value × Value)) : Std.ExtTreeMap String String compare :=
  textMap (lastOf (strMapMeaning none) (sent (Json.ofAscii key) kvs) ∅)

def textsOf (key : String) (kvs : List (Value × Value)) : List String :=
  (lastOf (fun v => .ok (elemsOf Value.asStr v)) (sent (Json.ofAscii key) kvs) []).map byteText

theorem byteText_lastOf (key : String) (kvs : List (Value × Value)) (start : Bytes) :
    byteText (lastOf Value.asStr (sent (Json.ofAscii key) kvs) start) = textOf key kvs (byteText start) := by
  unfold textOf lastOf
  cases (sent (Json.ofAscii key) kvs).getLast? with
  | none => rfl
  | some v =>
    simp only [Option.bind_some]
    cases v.asStr <;> rfl

section Fields
variable {σ : Type} {ctx ctx' : Context} {fields : List (Bytes × Codec σ)} {key : String} {kvs : List (Value × Value)} {z z' : σ}

theorem textOf_field (get : σ → Bytes) {set : σ → Bytes → σ}
    (hown : fields.lookup (Json.ofAscii key) = some (.focus get set (.string ctx'))) (hset : ∀ z a, get (set z a) = a)
    (hothers : ∀ kc ∈ fields, kc.1 = Json.ofAscii key ∨ kc.2.Keeps get) (h : fieldsMeaning ctx fields kvs z = .ok z') :
    byteText (get z') = textOf key kvs (byteText (get z)) := by
  rw [Codec.field_last get hown hset hothers Codec.ok_of_fresh h, byteText_lastOf]

theorem textMapOf_field (get : σ → StrMap) {set : σ → StrMap → σ}
    (hown : fields.lookup (Json.ofAscii key) = some (.focus get set (.strMap ctx'))) (hset : ∀ z a, get (set z a) = a)
    (hothers : ∀ kc ∈ fields, kc.1 = Json.ofAscii key ∨ kc.2.Keeps get) (hz : get z = ∅)
    (h : fieldsMeaning ctx fields kvs z = .ok z') : textMap (get z') = textMapOf key kvs := by
  rw [Codec.field_last get hown hset hothers Codec.ok_of_strMap h, hz, textMapOf]

theorem textsOf_field (get : σ → Slice Bytes) {set : σ → Slice Bytes → σ} {c : Context}
    (hown : fields.lookup (Json.ofAscii key) = some (.focus get set (.slice ctx' (.string c) [])))
    (hset : ∀ z a, get (set z a) = a) (hothers : ∀ kc ∈ fields, kc.1 = Json.ofAscii key ∨ kc.2.Keeps get)
    (hz : (get z).elems = []) (h : fieldsMeaning ctx fields kvs z = .ok z') :
    (get z').elems.map byteText = textsOf key kvs := by
  have hlast := Codec.after_last Slice.elems (Codec.ok_of_slice Codec.ok_of_fresh)
    (Codec.fieldsMeaning_get get hown hset hothers h)
  rw [hlast, hz, textsOf]

end Fields

end Stout.Isolate
