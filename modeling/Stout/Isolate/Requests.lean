import Stout.Library.MsgpackReaderSpec
import Stout.Isolate.Dispatch

/-! # Requests

What `initialDispatch.Handle` makes of a well-formed request, byte for byte: the
arguments are read back whatever widths their headers were sent with, the profile is
copied as it is, and the reader is left at whatever follows.
-/
namespace Stout.Isolate
open Msgpack

/-! ## Reads that succeed -/

section Reading
variable {α β : Type}

theorem bind_ok {m : EStateM HandleError Bytes α} {f : α → EStateM HandleError Bytes β} {r s : Bytes} {a : α}
    (h : m r = .ok a s) : (m >>= f) r = f a s := by
  change EStateM.bind m f r = f a s
  rw [EStateM.bind, h]

theorem bind_error {m : EStateM HandleError Bytes α} {f : α → EStateM HandleError Bytes β} {r s : Bytes}
    {e : HandleError} (h : m r = .error e s) : (m >>= f) r = .error e s := by
  change EStateM.bind m f r = .error e s
  rw [EStateM.bind, h]

theorem reading_ok {f : Bytes → Read α} {r s : Bytes} {a : α} (h : f r = (.ok a,s)) : reading f r = .ok a s := by
  rw [reading, h]

theorem reading_error {f : Bytes → Read α} {r s : Bytes} {e : ReadError} (h : f r = (.error e,s)) :
    reading f r = .error (.read e) s := by
  rw [reading, h]

end Reading

theorem readString_ok {s b : Bytes} (h : Encodes (.str s) b) (tail : Bytes) :
    reading readString (b ++ tail) = .ok s tail := by
  cases h with
  | str hh =>
    rw [List.append_assoc]
    exact reading_ok (hh.readString tail)

theorem readProfile_ok {kvs : List (Value × Value)} {b : Bytes} (h : Encodes (.map kvs) b) (tail : Bytes) :
    readProfile (b ++ tail) = .ok b tail := by
  have ht : reading (fun r => (nextType r,r)) (b ++ tail) = .ok .map (b ++ tail) :=
    reading_ok (by rw [h.nextType_map tail])
  rw [readProfile, bind_ok ht]
  exact reading_ok (h.copyNext tail)

def strPairs (l : List (Bytes × Bytes)) : List (Value × Value) := l.map fun kv => (.str kv.1,.str kv.2)

theorem readPairs_ok {l : List (Bytes × Bytes)} {b : Bytes} (h : EncodesAll (flatten (strPairs l)) b)
    (mp : List (Bytes × Bytes)) (tail : Bytes) : readPairs l.length mp (b ++ tail) = .ok (mp ++ l) tail := by
  induction l generalizing b mp with
  | nil =>
    cases h
    rw [List.append_nil]
    rfl
  | cons kv l ih =>
    cases h with
    | cons hk h =>
      cases h with
      | cons hv hs =>
        rw [List.append_assoc, List.append_assoc, List.length_cons, readPairs, bind_ok (readString_ok hk _),
          bind_ok (readString_ok hv _), ih hs, List.append_assoc]
        rfl

theorem readMapStrStr_ok {l : List (Bytes × Bytes)} {b : Bytes} (h : Encodes (.map (strPairs l)) b) (tail : Bytes) :
    readMapStrStr (b ++ tail) = .ok l tail := by
  cases h with
  | map hh hs =>
    have hlen : (strPairs l).length = l.length := List.length_map ..
    rw [hlen] at hh
    rw [List.append_assoc, readMapStrStr, bind_ok (reading_ok (hh.readMapHeader _)), readPairs_ok hs]
    rfl

theorem checkSize_ok {num : ℕ} {h : Bytes} (hh : ArrayHeader num h) (tail : Bytes) :
    checkSize num (h ++ tail) = .ok () tail := by
  rw [checkSize, bind_ok (reading_ok (hh.readArrayHeader _)), if_neg (not_not.mpr rfl)]
  rfl

theorem checkSize_error {num n : ℕ} {h : Bytes} (hh : ArrayHeader n h) (hn : n ≠ num) (tail : Bytes) :
    checkSize num (h ++ tail) = .error .errInvalidArgsNum tail := by
  rw [checkSize, bind_ok (reading_ok (hh.readArrayHeader _)), if_pos hn]
  rfl

/-! ## Requests as a whole -/

section Request
variable {profile : List (Value × Value)} {name executable : Bytes} {args env : List (Bytes × Bytes)} {b : Bytes}

theorem readSpool_ok (h : Encodes (.array [.map profile,.str name]) b) (rest : Bytes) :
    ∃ hd p tail, b = hd ++ (p ++ tail) ∧ ArrayHeader 2 hd ∧ Encodes (.map profile) p ∧
      readSpool (b ++ rest) = .ok (p,name) rest := by
  cases h with
  | @array _ hd _ hh hs =>
    match hs with
    | .cons (b := p) hp (.cons (b := n) hn .nil) =>
      refine ⟨hd,p,n ++ [],rfl,hh,hp,?_⟩
      simp only [List.append_assoc, List.nil_append]
      have hcheck : checkSize onSpoolArgsNum (hd ++ (p ++ (n ++ rest))) = .ok () (p ++ (n ++ rest)) := checkSize_ok hh _
      rw [readSpool, bind_ok hcheck, bind_ok (readProfile_ok hp _), bind_ok (readString_ok hn _)]
      rfl

theorem readSpawn_ok
    (h : Encodes (.array [.map profile,.str name,.str executable,.map (strPairs args),.map (strPairs env)]) b)
    (rest : Bytes) :
    ∃ hd p tail, b = hd ++ (p ++ tail) ∧ ArrayHeader 5 hd ∧ Encodes (.map profile) p ∧
      readSpawn (b ++ rest) = .ok (p,name,executable,args,env) rest := by
  cases h with
  | @array _ hd _ hh hs =>
    match hs with
    | .cons (b := p) hp (.cons (b := n) hn (.cons (b := x) hx (.cons (b := a) ha (.cons (b := e) he .nil)))) =>
      refine ⟨hd,p,n ++ (x ++ (a ++ (e ++ []))),rfl,hh,hp,?_⟩
      simp only [List.append_assoc, List.nil_append]
      have hcheck : checkSize onSpawnArgsNum (hd ++ (p ++ (n ++ (x ++ (a ++ (e ++ rest)))))) =
          .ok () (p ++ (n ++ (x ++ (a ++ (e ++ rest))))) := checkSize_ok hh _
      rw [readSpawn, bind_ok hcheck, bind_ok (readProfile_ok hp _), bind_ok (readString_ok hn _),
        bind_ok (readString_ok hx _), bind_ok (readMapStrStr_ok ha _), bind_ok (readMapStrStr_ok he _)]
      rfl

end Request

theorem onProfile_reader (boxes : Bytes → Bool) (opts : Bytes) (go : Effect) (d : Dispatcher) (r : Bytes) :
    (onProfile boxes opts go d r).reader = r := by
  unfold onProfile
  split
  · rfl
  · split <;> rfl

/-- The map that is left by `mp[key] = val` for each of the pairs in turn. -/
def assigned (l : List (Bytes × Bytes)) : Bytes → Option Bytes :=
  l.foldl (fun mp kv => Function.update mp kv.1 (some kv.2)) fun _ => none

def lastValue (l : List (Bytes × Bytes)) (key : Bytes) : Option Bytes := l.reverse.lookup key

theorem assigned_eq_lastValue (l : List (Bytes × Bytes)) : assigned l = lastValue l := by
  funext key
  induction l using List.reverseRecOn with
  | nil => rfl
  | append_singleton l kv ih =>
    obtain ⟨k,v⟩ := kv
    unfold assigned lastValue at ih ⊢
    rw [List.foldl_append, List.reverse_append]
    by_cases hk : key = k
    · simp [hk]
    · simp [List.lookup_cons, hk, ih, beq_false_of_ne hk]

/-- A request that is what its sender encoded is handed on as it was meant, with the
trailing bytes left alone; one with another number of arguments goes no further. -/
theorem handle_request (boxes : Bytes → Bool) (stream : ℕ) (rest : Bytes) :
    (∀ profile name executable args env b,
      Encodes (.array [.map profile,.str name,.str executable,.map (strPairs args),.map (strPairs env)]) b →
      ∃ hd p tail mpArgs mpEnv, b = hd ++ (p ++ tail) ∧ ArrayHeader 5 hd ∧ Encodes (.map profile) p ∧
        (Dispatcher.initialDispatch stream).handle boxes 1 (b ++ rest) =
          onSpawn boxes stream p name executable mpArgs mpEnv rest ∧
        assigned mpArgs = lastValue args ∧ assigned mpEnv = lastValue env ∧
        ((Dispatcher.initialDispatch stream).handle boxes 1 (b ++ rest)).reader = rest) ∧
    (∀ profile name b, Encodes (.array [.map profile,.str name]) b →
      ∃ hd p tail, b = hd ++ (p ++ tail) ∧ ArrayHeader 2 hd ∧ Encodes (.map profile) p ∧
        (Dispatcher.initialDispatch stream).handle boxes 0 (b ++ rest) = onSpool boxes stream p name rest ∧
        ((Dispatcher.initialDispatch stream).handle boxes 0 (b ++ rest)).reader = rest) ∧
    ∀ vs b, Encodes (.array vs) b →
      (vs.length ≠ 5 → ∃ r, (Dispatcher.initialDispatch stream).handle boxes 1 (b ++ rest) =
        ⟨.error .errInvalidArgsNum,r,[]⟩) ∧
      (vs.length ≠ 2 → ∃ r, (Dispatcher.initialDispatch stream).handle boxes 0 (b ++ rest) =
        ⟨.error .errInvalidArgsNum,r,[]⟩) := by
  refine ⟨?_,?_,?_⟩
  · intro profile name executable args env b h
    obtain ⟨hd,p,tail,hb,hhd,hp,hread⟩ := readSpawn_ok h rest
    have hcall : (Dispatcher.initialDispatch stream).handle boxes 1 (b ++ rest) =
        onSpawn boxes stream p name executable args env rest := by
      rw [Dispatcher.handle, hread]
    refine ⟨hd,p,tail,args,env,hb,hhd,hp,hcall,assigned_eq_lastValue args,assigned_eq_lastValue env,?_⟩
    rw [hcall]
    exact onProfile_reader _ _ _ _ _
  · intro profile name b h
    obtain ⟨hd,p,tail,hb,hhd,hp,hread⟩ := readSpool_ok h rest
    have hcall : (Dispatcher.initialDispatch stream).handle boxes 0 (b ++ rest) = onSpool boxes stream p name rest := by
      rw [Dispatcher.handle, hread]
    refine ⟨hd,p,tail,hb,hhd,hp,hcall,?_⟩
    rw [hcall]
    exact onProfile_reader _ _ _ _ _
  · intro vs b h
    cases h with
    | @array _ hd bs hh hs =>
      rw [List.append_assoc]
      constructor
      · intro hne
        have hread : readSpawn (hd ++ (bs ++ rest)) = .error .errInvalidArgsNum (bs ++ rest) :=
          bind_error (checkSize_error hh hne _)
        exact ⟨bs ++ rest,by rw [Dispatcher.handle, hread]⟩
      · intro hne
        have hread : readSpool (hd ++ (bs ++ rest)) = .error .errInvalidArgsNum (bs ++ rest) :=
          bind_error (checkSize_error hh hne _)
        exact ⟨bs ++ rest,by rw [Dispatcher.handle, hread]⟩

def portoType : Bytes := [0x70,0x6f,0x72,0x74,0x6f]

def portoProfile : Bytes := [0x81,0xa4,0x74,0x79,0x70,0x65,0xa5] ++ portoType

/-- The name `a` with a length of 32 bits, the executable `b` and the key `k` sent twice. -/
def repeatedKey : Bytes :=
  [0xdb,0,0,0,1,0x61] ++ ([0xa1,0x62] ++ ([0x82,0xa1,0x6b,0xa1,0x76,0xa1,0x6b,0xa1,0x77] ++ [0x80]))

/-- This request and one byte of the next frame: the worker is spawned by the box of the
profile. -/
theorem handle_request_repeatedKey :
    ∃ hd p tail mpArgs mpEnv, 0x95 :: (portoProfile ++ repeatedKey) = hd ++ (p ++ tail) ∧ ArrayHeader 5 hd ∧
      Encodes (.map [(.str [0x74,0x79,0x70,0x65],.str portoType)]) p ∧
      (Dispatcher.initialDispatch 1).handle (· = portoType) 1 (0x95 :: (portoProfile ++ repeatedKey) ++ [0x93]) =
        onSpawn (· = portoType) 1 p [0x61] [0x62] mpArgs mpEnv [0x93] ∧
      assigned mpArgs = lastValue [([0x6b],[0x76]),([0x6b],[0x77])] ∧ assigned mpEnv = lastValue [] ∧
      ((Dispatcher.initialDispatch 1).handle (· = portoType) 1 (0x95 :: (portoProfile ++ repeatedKey) ++ [0x93])).reader =
        [0x93] ∧
      (Dispatcher.initialDispatch 1).handle (· = portoType) 1 (0x95 :: (portoProfile ++ repeatedKey) ++ [0x93]) =
        ⟨.ok (some (.spawnDispatch 1)),[0x93],
          [.goSpawn portoProfile [0x61] [0x62] [([0x6b],[0x76]),([0x6b],[0x77])] []]⟩ := by
  have hempty : Encodes (.map []) [0x80] := .map (h := [0x80]) (.fix (by decide)) .nil
  have hname : Encodes (.str [0x61]) [0xdb,0,0,0,1,0x61] := .str (h := [0xdb,0,0,0,1]) (.wide32 (by decide))
  have hshort : ∀ b : UInt8, Encodes (.str [b]) [0xa1,b] := fun b =>
    .str (s := [b]) (h := [0xa1]) (.fix (by simp))
  have hargs : Encodes (.map (strPairs [([0x6b],[0x76]),([0x6b],[0x77])]))
      [0x82,0xa1,0x6b,0xa1,0x76,0xa1,0x6b,0xa1,0x77] :=
    .map (h := [0x82]) (.fix (by decide)) (.cons (hshort _) (.cons (hshort _) (.cons (hshort _) (.cons (hshort _) .nil))))
  have hprofile : Encodes (.map [(.str [0x74,0x79,0x70,0x65],.str portoType)]) portoProfile :=
    .map (h := [0x81]) (.fix (by decide)) (.cons (.str (h := [0xa4]) (.fix (by decide)))
      (.cons (.str (h := [0xa5]) (.fix (by decide))) .nil))
  obtain ⟨hd,p,tail,mpArgs,mpEnv,hb,hhd,hp,hcall,hassigned,henv,hreader⟩ :=
    (handle_request (· = portoType) 1 [0x93]).1 _ [0x61] [0x62] [([0x6b],[0x76]),([0x6b],[0x77])] [] _
      (.array (h := [0x95]) (.fix (by decide))
        (.cons hprofile (.cons hname (.cons (hshort _) (.cons hargs (.cons hempty .nil))))))
  exact ⟨hd,p,tail,mpArgs,mpEnv,hb,hhd,hp,hcall,hassigned,henv,hreader,by decide +kernel⟩

end Stout.Isolate
