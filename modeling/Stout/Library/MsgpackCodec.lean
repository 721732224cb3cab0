import Stout.Library.JsonText
import Stout.Library.MsgpackMethods

/-! # Decoding into a value that is there

A decoder changes a value field by field as the pairs of a map come, and what is not sent
stays as it was. A `Codec` is such a decoder together with what it makes of a value on the
wire, whatever widths the value is encoded with, and which values it accepts.
-/
namespace Stout.Msgpack

/-! ## Errors with a path -/

/-- An error with the contexts it was wrapped with, the first one first. -/
structure Located where
  err : StreamError
  contexts : List Path
deriving DecidableEq, Repr

def Located.path (e : Located) : Path := e.contexts.reverse.flatten

def Located.fault (e : Located) : Fault :=
  match e.err with
  | .shortBytes => .short
  | .read (.uintBelowZero _) => .belowZero e.path
  | _ => .located e.path

/-- `WrapError`, which leaves `ErrShortBytes` as it is; of `UintBelowZero` the path is
replaced. -/
def Located.wrap (p : Path) (e : Located) : Located :=
  match e.err with
  | .shortBytes => e
  | .read (.uintBelowZero _) => ⟨e.err,[p]⟩
  | _ => ⟨e.err,e.contexts ++ [p]⟩

def Fault.wrap (p : Path) : Fault → Fault
  | .short => .short
  | .belowZero _ => .belowZero p
  | .located q => .located (p ++ q)

theorem Located.fault_wrap (p : Path) (e : Located) : (e.wrap p).fault = e.fault.wrap p := by
  rcases e with ⟨err,contexts⟩
  cases err with
  | read e => cases e <;> simp [wrap, fault, path, Fault.wrap]
  | _ => simp [wrap, fault, path, Fault.wrap]

def Kind.text : Kind → String
  | .str => "str"
  | .bin => "bin"
  | .map => "map"
  | .array => "array"
  | .float64 => "float64"
  | .float32 => "float32"
  | .bool => "bool"
  | .uint => "uint"
  | .int => "int"
  | .extension => "ext"
  | .nil => "nil"
  | _ => "<invalid>"

def StreamError.text : StreamError → String
  | .read .eof => "EOF"
  | .read .unexpectedEOF => "unexpected EOF"
  | .read (.typeError method encoded) =>
    "msgp: attempted to decode type \"" ++ encoded.text ++ "\" with method for \"" ++ method.text ++ "\""
  | .read (.invalidPrefix lead) => "msgp: unrecognized type prefix 0x" ++ String.ofList (Nat.toDigits 16 lead.toNat)
  | .read (.uintBelowZero value) => "msgp: attempted to cast int " ++ toString value ++ " to unsigned"
  | .shortBytes => "msgp: too few bytes left to read object"
  | .noProgress => "multiple Read calls return no data or error"
  | .uintOverflow value => "msgp: " ++ toString value ++ " overflows uint64"

/-- A string of bytes as a text of as many characters: no two strings have the same text. -/
def byteText (s : Bytes) : String := String.ofList (s.map fun b => Char.ofNat b.toNat)

theorem ofAscii_byteText (s : Bytes) : Json.ofAscii (byteText s) = s := by
  have hbyte : ∀ b : UInt8, (Char.ofNat b.toNat).toNat.toUInt8 = b := by decide +kernel
  rw [Json.ofAscii, byteText, String.toList_ofList, List.map_map]
  exact (List.map_congr_left fun b _ => hbyte b).trans (List.map_id s)

theorem byteText_injective : Function.Injective byteText := Function.LeftInverse.injective ofAscii_byteText

def Step.text : Step → String
  | .field name => name
  | .index i => toString i
  | .key k => byteText k

def ctxString (ctx : Path) : String := "/".intercalate (ctx.map Step.text)

def addCtx (ctx add : String) : String := if ctx ≠ "" then add ++ "/" ++ ctx else add

/-- A text with the context it has been given, if any. -/
def atContext (text ctx : String) : String := if ctx ≠ "" then text ++ " at " ++ ctx else text

/-- `Error`. The errors of `msgp` have one context that grows; any other error is wrapped anew
each time. -/
def Located.text (e : Located) : String :=
  match e.err with
  | .shortBytes => e.err.text
  | .read (.typeError _ _) | .read (.uintBelowZero _) | .uintOverflow _ =>
    atContext e.err.text (e.contexts.foldl (fun ctx p => addCtx ctx (ctxString p)) "")
  | .read .eof | .read .unexpectedEOF | .read (.invalidPrefix _) | .noProgress =>
    e.contexts.foldl (fun text p => atContext text (ctxString p)) e.err.text

abbrev Decoder (α : Type) := EStateM Located Stream α

def reading {α : Type} (m : Stream.M α) : Decoder α := fun r =>
  match m r with
  | .ok a t => .ok a t
  | .error e t => .error ⟨e,[]⟩ t

/-- The path that errors are wrapped with. Some generated code hands them on as they are. -/
abbrev Context := Option Path

def within {α : Type} (ctx : Context) (steps : Path) (m : Decoder α) : Decoder α :=
  match ctx with
  | none => m
  | some p => fun r =>
    match m r with
    | .ok a t => .ok a t
    | .error e t => .error (e.wrap (p ++ steps)) t

abbrev Decodes {α : Type} (m : Decoder α) (b : Bytes) (x : Except Fault α) : Prop := Consumes Located.fault m b x

def inside {α : Type} (ctx : Context) (steps : Path) (x : Except Fault α) : Except Fault α :=
  match ctx with
  | none => x
  | some p => x.mapError (Fault.wrap (p ++ steps))

section Rules
variable {α : Type} {b : Bytes} {x : Except Fault α}

theorem decodes_reading {m : Stream.M α} (h : Reads m b x) : Decodes (reading m) b x := by
  intro r tail hr
  have hy := h r tail hr
  unfold reading
  generalize m r = y at hy
  cases hy with
  | ok ht => exact .ok ht
  | @error e _ _ he =>
    refine .error ?_
    rw [← he]
    cases e with
    | read e => cases e <;> rfl
    | _ => rfl

theorem decodes_within {m : Decoder α} (ctx : Context) (steps : Path) (h : Decodes m b x) :
    Decodes (within ctx steps m) b (inside ctx steps x) := by
  cases ctx with
  | none => exact h
  | some p =>
    intro r tail hr
    have hy := h r tail hr
    simp only [within, inside]
    generalize m r = y at hy
    cases hy with
    | ok ht => exact .ok ht
    | error he =>
      refine .error ?_
      rw [Located.fault_wrap, he]

theorem inside_ok (ctx : Context) (steps : Path) (a : α) : inside ctx steps (.ok a) = .ok a := by
  cases ctx <;> rfl

theorem decodes_header {m : Stream.M α} {a : α} (ctx : Context) (h : Reads m b (.ok a)) :
    Decodes (within ctx [] (reading m)) b (.ok a) := by
  have hheader := decodes_within ctx [] (decodes_reading h)
  rwa [inside_ok] at hheader

theorem decodes_refused {β : Type} {m : Stream.M α} {f : α → Decoder β} (ctx : Context) (h : Reads m b refused) :
    Decodes (within ctx [] (reading m) >>= f) b (inside ctx [] refused) := by
  have hheader := decodes_within ctx [] (decodes_reading h)
  cases ctx <;> exact hheader.bind_error

theorem isOk_inside (ctx : Context) (steps : Path) (x : Except Fault α) : (inside ctx steps x).isOk = x.isOk := by
  cases ctx <;> cases x <;> rfl

theorem ok_of_inside {ctx : Context} {steps : Path} {a : α} (h : inside ctx steps x = .ok a) : x = .ok a := by
  cases ctx with
  | none => exact h
  | some p =>
    cases x with
    | error e => cases h
    | ok a' => exact h

theorem isOk_bind {β : Type} {f : α → Except Fault β} {c : Bool} (h : ∀ a, (f a).isOk = c) :
    (x >>= f).isOk = (x.isOk && c) := by
  cases x with
  | error e => rfl
  | ok a => exact h a

theorem isOk_map {β : Type} (f : α → β) (x : Except Fault α) : (x.map f).isOk = x.isOk := by
  cases x <;> rfl

theorem EncodesAll.cons_inv {v : Value} {vs : List Value} (h : EncodesAll (v :: vs) b) :
    ∃ c d, b = c ++ d ∧ Encodes v c ∧ EncodesAll vs d := by
  cases h with
  | cons hv hs => exact ⟨_,_,rfl,hv,hs⟩

end Rules

theorem ok_of_map {α β : Type} {f : α → β} {x : Except Fault α} {b : β} (h : x.map f = .ok b) : ∃ a, x = .ok a ∧ f a = b := by
  cases x with
  | error e => cases h
  | ok a => exact ⟨a,rfl,Except.ok.inj h⟩

theorem ok_of_bind {α β : Type} {f : α → Except Fault β} {x : Except Fault α} {b : β} (h : x >>= f = .ok b) :
    ∃ a, x = .ok a ∧ f a = .ok b := by
  cases x with
  | error e => cases h
  | ok a => exact ⟨a,rfl,h⟩

/-! ## Codecs -/

structure Codec (α : Type) where
  decode : α → Decoder α
  meaning : Value → α → Except Fault α
  fits : Value → Bool
  decodes : ∀ {v : Value} {b : Bytes}, Encodes v b → v.NoExt → ∀ a, Decodes (decode a) b (meaning v a)
  isOk_meaning : ∀ v a, (meaning v a).isOk = fits v

namespace Codec
variable {α σ : Type}

/-- A value that does not depend on the one that is there. -/
def fresh (ctx : Context) (m : Stream.M α) (f : Value → Except Fault α)
    (h : ∀ {v : Value} {b : Bytes}, Encodes v b → v.NoExt → Reads m b (f v)) : Codec α where
  decode _ := within ctx [] (reading m)
  meaning v _ := inside ctx [] (f v)
  fits v := (f v).isOk
  decodes hv hn _ := decodes_within ctx [] (decodes_reading (h hv hn))
  isOk_meaning _ _ := isOk_inside ..

def string (ctx : Context) : Codec Bytes := fresh ctx Stream.readString Value.asStr fun h _ => h.reads_str
def uint (ctx : Context) : Codec ℕ := fresh ctx Stream.readUint64 Value.asUint fun h _ => h.reads_uint

def number (ctx : Context) : Codec ℕ :=
  fresh ctx (Number.bits <$> Number.decodeMsg) Value.asNumber fun h hn => h.reads_number hn

def focus (get : σ → α) (set : σ → α → σ) (c : Codec α) : Codec σ where
  decode z := set z <$> c.decode (get z)
  meaning v z := (c.meaning v (get z)).map (set z)
  fits := c.fits
  decodes hv hn z := (c.decodes hv hn (get z)).map (set z)
  isOk_meaning v z := by rw [isOk_map, c.isOk_meaning]

end Codec

/-! ### Maps of strings -/

abbrev StrMap := Std.ExtTreeMap Bytes Bytes compare

section Pairs
variable (ctx : Context)

def decodePairs : ℕ → StrMap → Decoder StrMap
  | 0, m => pure m
  | n + 1, m => do
    let k ← within ctx [] (reading Stream.readString)
    let v ← within ctx [.key k] (reading Stream.readString)
    decodePairs n (m.insert k v)

/-- The map that is there is emptied first. -/
def decodeStrMap : Decoder StrMap := do
  let n ← within ctx [] (reading Stream.readMapHeader)
  decodePairs ctx n ∅

def pairsMeaning : List (Value × Value) → StrMap → Except Fault StrMap
  | [], m => .ok m
  | (k,v) :: kvs, m => do
    let k ← inside ctx [] k.asStr
    let v ← inside ctx [.key k] v.asStr
    pairsMeaning kvs (m.insert k v)

def strMapMeaning : Value → Except Fault StrMap
  | .map kvs => pairsMeaning ctx kvs ∅
  | _ => inside ctx [] refused

theorem decodePairs_decodes {kvs : List (Value × Value)} {b : Bytes} (h : EncodesAll (flatten kvs) b) (m : StrMap) :
    Decodes (decodePairs ctx kvs.length m) b (pairsMeaning ctx kvs m) := by
  induction kvs generalizing b m with
  | nil =>
    cases h with
    | nil => exact .pure m
  | cons kv kvs ih =>
    obtain ⟨k,v⟩ := kv
    obtain ⟨bk,rest,rfl,hk,hrest⟩ := EncodesAll.cons_inv h
    obtain ⟨bv,bs,rfl,hv,hs⟩ := hrest.cons_inv
    have hkey := decodes_within ctx [] (decodes_reading hk.reads_str)
    rw [List.length_cons, decodePairs, pairsMeaning]
    generalize inside ctx [] k.asStr = x at hkey
    cases x with
    | error e => exact (hkey.bind_error).append _
    | ok s =>
      refine hkey.bind ?_
      have hval := decodes_within ctx [.key s] (decodes_reading hv.reads_str)
      change Decodes _ _ (do
        let v ← inside ctx [.key s] v.asStr
        pairsMeaning ctx kvs (m.insert s v))
      generalize inside ctx [.key s] v.asStr = y at hval
      cases y with
      | error e => exact (hval.bind_error).append _
      | ok t => exact hval.bind (ih hs _)

def strMapFits : Value → Bool
  | .map kvs => kvs.all fun kv => kv.1.asStr.isOk && kv.2.asStr.isOk
  | _ => false

theorem isOk_pairsMeaning (kvs : List (Value × Value)) (m : StrMap) :
    (pairsMeaning ctx kvs m).isOk = kvs.all fun kv => kv.1.asStr.isOk && kv.2.asStr.isOk := by
  induction kvs generalizing m with
  | nil => rfl
  | cons kv kvs ih =>
    obtain ⟨k,v⟩ := kv
    have hval (s : Bytes) : (inside ctx [.key s] v.asStr >>= fun t => pairsMeaning ctx kvs (m.insert s t)).isOk =
        (v.asStr.isOk && kvs.all fun kv => kv.1.asStr.isOk && kv.2.asStr.isOk) := by
      rw [isOk_bind fun t => ih (m.insert s t), isOk_inside]
    rw [pairsMeaning, isOk_bind hval, isOk_inside, List.all_cons, Bool.and_assoc]

def Codec.strMap : Codec StrMap where
  decode _ := decodeStrMap ctx
  meaning v _ := strMapMeaning ctx v
  fits := strMapFits
  decodes := by
    intro v b hv _ _
    by_cases hk : v.HasKind .map
    · obtain ⟨kvs,rfl⟩ := Value.hasKind_map.mp hk
      cases hv with
      | map hh hs => exact (decodes_header ctx hh.reads).bind (decodePairs_decodes ctx hs ∅)
    · have hm : strMapMeaning ctx v = inside ctx [] refused := by
        cases v with
        | map kvs => exact absurd rfl hk
        | _ => rfl
      rw [hm]
      exact decodes_refused ctx (hv.reads_map_other hk)
  isOk_meaning v _ := by
    cases v with
    | map kvs => exact isOk_pairsMeaning ctx kvs ∅
    | _ => exact isOk_inside ..

variable {ctx}

theorem pairsMeaning_ok {kvs : List (Value × Value)} {m m' : StrMap} (h : pairsMeaning ctx kvs m = .ok m') :
    pairsMeaning none kvs m = .ok m' := by
  induction kvs generalizing m with
  | nil => exact h
  | cons kv kvs ih =>
    obtain ⟨k,v⟩ := kv
    obtain ⟨s,hk,h⟩ := ok_of_bind h
    obtain ⟨t,hv,h⟩ := ok_of_bind h
    rw [pairsMeaning, inside, ok_of_inside hk]
    change (v.asStr >>= fun t => pairsMeaning none kvs (m.insert s t)) = _
    rw [ok_of_inside hv]
    exact ih h

theorem Codec.ok_of_strMap (v : Value) (m m' : StrMap) (h : (Codec.strMap ctx).meaning v m = .ok m') :
    strMapMeaning none v = .ok m' := by
  cases v with
  | map kvs => exact pairsMeaning_ok h
  | _ => cases ok_of_inside h

end Pairs

/-! ### Slices -/

/-- The elements of a slice and those of the array behind it. -/
structure Slice (α : Type) where
  elems : List α
  spare : List α
deriving DecidableEq, Repr

/-- Room for that many elements: as long as the capacity lasts, what is in the array is
kept. -/
def Slice.resize {α : Type} (zero : α) (n : ℕ) (s : Slice α) : Slice α :=
  if n ≤ (s.elems ++ s.spare).length then ⟨(s.elems ++ s.spare).take n,(s.elems ++ s.spare).drop n⟩
  else ⟨List.replicate n zero,[]⟩

theorem Slice.length_resize {α : Type} (zero : α) (n : ℕ) (s : Slice α) : (s.resize zero n).elems.length = n := by
  unfold resize
  split
  · exact List.length_take_of_le ‹_›
  · exact List.length_replicate

section Elements
variable {α : Type} (ctx : Context) (c : Codec α)

def decodeElems : ℕ → List α → Decoder (List α)
  | _, [] => pure []
  | i, a :: as => do
    let a ← within ctx [.index i] (c.decode a)
    let as ← decodeElems (i + 1) as
    pure (a :: as)

def decodeSlice (zero : α) (s : Slice α) : Decoder (Slice α) := do
  let n ← within ctx [] (reading Stream.readArrayHeader)
  let s := s.resize zero n
  let elems ← decodeElems ctx c 0 s.elems
  pure ⟨elems,s.spare⟩

def elemsMeaning : ℕ → List Value → List α → Except Fault (List α)
  | i, v :: vs, a :: as => do
    let a ← inside ctx [.index i] (c.meaning v a)
    let as ← elemsMeaning (i + 1) vs as
    pure (a :: as)
  | _, _, _ => .ok []

def sliceMeaning (zero : α) : Value → Slice α → Except Fault (Slice α)
  | .array vs, s =>
    let s := s.resize zero vs.length
    (elemsMeaning ctx c 0 vs s.elems).map fun elems => ⟨elems,s.spare⟩
  | _, _ => inside ctx [] refused

theorem decodeElems_decodes {vs : List Value} {b : Bytes} (h : EncodesAll vs b) (hn : ∀ v ∈ vs, v.NoExt) (i : ℕ) {as : List α}
    (hl : as.length = vs.length) : Decodes (decodeElems ctx c i as) b (elemsMeaning ctx c i vs as) := by
  induction vs generalizing b i as with
  | nil =>
    obtain rfl := List.length_eq_zero_iff.mp hl
    cases h with
    | nil => exact .pure []
  | cons v vs ih =>
    cases as with
    | nil => simp at hl
    | cons a as =>
      obtain ⟨bv,bs,rfl,hv,hs⟩ := h.cons_inv
      have hval := decodes_within ctx [.index i] (c.decodes hv (hn v List.mem_cons_self) a)
      have hrest := ih hs (fun w hw => hn w (List.mem_cons_of_mem _ hw)) (i + 1) (Nat.succ.inj hl)
      rw [decodeElems, elemsMeaning]
      generalize inside ctx [.index i] (c.meaning v a) = x at hval
      generalize elemsMeaning ctx c (i + 1) vs as = y at hrest
      cases x with
      | error e => exact (hval.bind_error).append _
      | ok a' =>
        refine hval.bind ?_
        cases y with
        | error e => exact hrest.bind_error
        | ok as' => exact hrest.bind_last (.pure _)

theorem isOk_elemsMeaning (vs : List Value) (i : ℕ) {as : List α} (hl : as.length = vs.length) :
    (elemsMeaning ctx c i vs as).isOk = vs.all c.fits := by
  induction vs generalizing i as with
  | nil => rfl
  | cons v vs ih =>
    cases as with
    | nil => simp at hl
    | cons a as =>
      have hrest (a' : α) : (elemsMeaning ctx c (i + 1) vs as >>= fun as => pure (a' :: as)).isOk = vs.all c.fits := by
        rw [isOk_bind (c := true) fun _ => rfl, ih (i + 1) (Nat.succ.inj hl), Bool.and_true]
      rw [elemsMeaning, isOk_bind hrest, isOk_inside, c.isOk_meaning, List.all_cons]

theorem elems_of_meaning {vs : List Value} {i : ℕ} {as as' : List α} (hl : as.length = vs.length)
    (h : elemsMeaning ctx c i vs as = .ok as') :
    as'.length = vs.length ∧ ∀ (j : ℕ) v a, vs[j]? = some v → as[j]? = some a → ∃ a', as'[j]? = some a' ∧ c.meaning v a = .ok a' := by
  induction vs generalizing i as as' with
  | nil =>
    obtain rfl := Except.ok.inj h
    exact ⟨rfl,by simp⟩
  | cons v vs ih =>
    cases as with
    | nil => simp at hl
    | cons a as =>
      obtain ⟨a₁,ha,h⟩ := ok_of_bind h
      obtain ⟨as₁,has,h⟩ := ok_of_bind h
      obtain rfl := Except.ok.inj h
      obtain ⟨hlen,hrest⟩ := ih (Nat.succ.inj hl) has
      refine ⟨by rw [List.length_cons, List.length_cons, hlen],?_⟩
      intro j w x hw hx
      cases j with
      | zero =>
        obtain rfl : v = w := Option.some.inj hw
        obtain rfl : a = x := Option.some.inj hx
        exact ⟨a₁,rfl,ok_of_inside ha⟩
      | succ j => exact hrest j w x hw hx

def Codec.slice (zero : α) : Codec (Slice α) where
  decode := decodeSlice ctx c zero
  meaning := sliceMeaning ctx c zero
  fits v :=
    match v with
    | .array vs => vs.all c.fits
    | _ => false
  decodes := by
    intro v b hv hn s
    by_cases hk : v.HasKind .array
    · obtain ⟨vs,rfl⟩ := Value.hasKind_array.mp hk
      cases hv with
      | array hh hs =>
        refine (decodes_header ctx hh.reads).bind ?_
        have helems := decodeElems_decodes ctx c hs hn.elements 0 (s.length_resize zero vs.length)
        rw [sliceMeaning]
        generalize elemsMeaning ctx c 0 vs (s.resize zero vs.length).elems = x at helems
        cases x with
        | error e => exact helems.bind_error
        | ok as => exact helems.bind_last (.pure _)
    · have hm : sliceMeaning ctx c zero v s = inside ctx [] refused := by
        cases v with
        | array vs => exact absurd rfl hk
        | _ => rfl
      rw [hm]
      exact decodes_refused ctx (hv.reads_array_other hk)
  isOk_meaning v s := by
    cases v with
    | array vs =>
      rw [sliceMeaning, isOk_map]
      exact isOk_elemsMeaning ctx c vs 0 (s.length_resize zero vs.length)
    | _ => exact isOk_inside ..

end Elements

/-! ### Structures -/

section Structures
variable {σ : Type} (ctx : Context) (fields : List (Bytes × Codec σ))

/-- One key and its value: a key that is not in the table is skipped. -/
def decodeField (key : Bytes) (z : σ) : Decoder σ :=
  match fields.lookup key with
  | some c => c.decode z
  | none => do
    within ctx [] (reading Stream.seek)
    pure z

def decodeFields : ℕ → σ → Decoder σ
  | 0, z => pure z
  | n + 1, z => do
    let key ← within ctx [] (reading Stream.readMapKeyPtr)
    let z ← decodeField ctx fields key z
    decodeFields n z

def decodeStruct (z : σ) : Decoder σ := do
  let n ← within ctx [] (reading Stream.readMapHeader)
  decodeFields ctx fields n z

def fieldMeaning (key : Bytes) (v : Value) (z : σ) : Except Fault σ :=
  match fields.lookup key with
  | some c => c.meaning v z
  | none => .ok z

def fieldsMeaning : List (Value × Value) → σ → Except Fault σ
  | [], z => .ok z
  | (k,v) :: kvs, z => do
    let key ← inside ctx [] k.asKey
    let z ← fieldMeaning fields key v z
    fieldsMeaning kvs z

def structMeaning : Value → σ → Except Fault σ
  | .map kvs, z => fieldsMeaning ctx fields kvs z
  | _, _ => inside ctx [] refused

def fieldFits (key : Bytes) (v : Value) : Bool :=
  match fields.lookup key with
  | some c => c.fits v
  | none => true

/-- The key is one and its value fits the field, if there is one. -/
def pairFits (kv : Value × Value) : Bool :=
  match kv.1.asKey with
  | .ok key => fieldFits fields key kv.2
  | .error _ => false

theorem decodeField_decodes {v : Value} {b : Bytes} (hv : Encodes v b) (hn : v.NoExt) (key : Bytes) (z : σ) :
    Decodes (decodeField ctx fields key z) b (fieldMeaning fields key v z) := by
  unfold decodeField fieldMeaning
  cases fields.lookup key with
  | some c => exact c.decodes hv hn z
  | none => exact (decodes_header ctx (hv.reads_seek hn)).bind_last (.pure z)

theorem decodeFields_decodes {kvs : List (Value × Value)} {b : Bytes} (h : EncodesAll (flatten kvs) b)
    (hn : ∀ v ∈ flatten kvs, v.NoExt) (z : σ) : Decodes (decodeFields ctx fields kvs.length z) b (fieldsMeaning ctx fields kvs z) := by
  induction kvs generalizing b z with
  | nil =>
    cases h with
    | nil => exact .pure z
  | cons kv kvs ih =>
    obtain ⟨k,v⟩ := kv
    obtain ⟨bk,rest,rfl,hk,hrest⟩ := EncodesAll.cons_inv h
    obtain ⟨bv,bs,rfl,hv,hs⟩ := hrest.cons_inv
    simp only [flatten_cons, List.mem_cons, forall_eq_or_imp] at hn
    have hkey := decodes_within ctx [] (decodes_reading hk.reads_key)
    rw [List.length_cons, decodeFields, fieldsMeaning]
    generalize inside ctx [] k.asKey = x at hkey
    cases x with
    | error e => exact (hkey.bind_error).append _
    | ok key =>
      refine hkey.bind ?_
      have hfield := decodeField_decodes ctx fields hv hn.2.1 key z
      change Decodes _ _ (do
        let z ← fieldMeaning fields key v z
        fieldsMeaning ctx fields kvs z)
      generalize fieldMeaning fields key v z = y at hfield
      cases y with
      | error e => exact (hfield.bind_error).append _
      | ok z' => exact hfield.bind (ih hs hn.2.2 z')

theorem fieldsMeaning_append (kvs kws : List (Value × Value)) (z : σ) :
    fieldsMeaning ctx fields (kvs ++ kws) z = fieldsMeaning ctx fields kvs z >>= fieldsMeaning ctx fields kws := by
  induction kvs generalizing z with
  | nil => rfl
  | cons kv kvs ih =>
    obtain ⟨k,v⟩ := kv
    rw [List.cons_append, fieldsMeaning, fieldsMeaning]
    cases inside ctx [] k.asKey with
    | error e => rfl
    | ok key =>
      change (fieldMeaning fields key v z >>= _) = ((fieldMeaning fields key v z >>= _) >>= _)
      cases fieldMeaning fields key v z with
      | error e => rfl
      | ok z' => exact ih z'

theorem isOk_fieldMeaning (key : Bytes) (v : Value) (z : σ) : (fieldMeaning fields key v z).isOk = fieldFits fields key v := by
  unfold fieldMeaning fieldFits
  cases fields.lookup key with
  | some c => exact c.isOk_meaning v z
  | none => rfl

theorem isOk_fieldsMeaning (kvs : List (Value × Value)) (z : σ) :
    (fieldsMeaning ctx fields kvs z).isOk = kvs.all (pairFits fields) := by
  induction kvs generalizing z with
  | nil => rfl
  | cons kv kvs ih =>
    obtain ⟨k,v⟩ := kv
    rw [fieldsMeaning, List.all_cons, pairFits]
    have hfield (key : Bytes) : (fieldMeaning fields key v z >>= fieldsMeaning ctx fields kvs).isOk =
        (fieldFits fields key v && kvs.all (pairFits fields)) := by
      rw [isOk_bind ih, isOk_fieldMeaning]
    cases k.asKey with
    | error e => cases ctx <;> rfl
    | ok key =>
      rw [inside_ok]
      exact hfield key

def Codec.struct : Codec σ where
  decode := decodeStruct ctx fields
  meaning := structMeaning ctx fields
  fits v :=
    match v with
    | .map kvs => kvs.all (pairFits fields)
    | _ => false
  decodes := by
    intro v b hv hn z
    by_cases hk : v.HasKind .map
    · obtain ⟨kvs,rfl⟩ := Value.hasKind_map.mp hk
      cases hv with
      | map hh hs => exact (decodes_header ctx hh.reads).bind (decodeFields_decodes ctx fields hs hn.entries z)
    · have hm : structMeaning ctx fields v z = inside ctx [] refused := by
        cases v with
        | map kvs => exact absurd rfl hk
        | _ => rfl
      rw [hm]
      exact decodes_refused ctx (hv.reads_map_other hk)
  isOk_meaning v z := by
    cases v with
    | map kvs => exact isOk_fieldsMeaning ctx fields kvs z
    | _ => exact isOk_inside ..

end Structures

end Stout.Msgpack
