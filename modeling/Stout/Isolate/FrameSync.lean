import Stout.Isolate.Requests
import Stout.Isolate.ConnectionHandler

/-! # Frame synchronisation

When a turn of the connection loop leaves the reader at the start of the next frame.
A frame is synchronised when its dispatcher either reads all of the arguments or
gives up on the connection; every other refusal returns in the middle of the
arguments, and the loop goes on from there.
-/
namespace Stout.Isolate
open Msgpack

/-! ## Frames -/

/-- The bytes of `[channel, number, args]` or `[channel, number, args, headers]`. -/
structure IsFrame (channel number : ℕ) (args : Value) (headers : Option Value) (bs : Bytes) : Prop where
  split : ∃ h bc bn ba bh, bs = h ++ (bc ++ (bn ++ (ba ++ bh))) ∧ ArrayHeader (3 + headers.isSome.toNat) h ∧
    IntEncodes channel bc ∧ IntEncodes number bn ∧ Encodes args ba ∧ EncodesAll headers.toList bh

def StrStr (kvs : List (Value × Value)) : Prop := ∀ kv ∈ kvs, ∃ k v, kv = (.str k,.str v)

def SpoolArgs (vs : List Value) : Prop := ∃ profile name, vs = [.map profile,.str name]

def SpawnArgs (vs : List Value) : Prop :=
  ∃ profile name executable args env,
    vs = [.map profile,.str name,.str executable,.map args,.map env] ∧ StrStr args ∧ StrStr env

/-- The messages after which the reader is where it should be: those the dispatcher
knows, with arguments of the right types or of the wrong number. -/
def Understood (d : Dispatcher) (number : ℕ) (args : Value) : Prop :=
  match d with
  | .initialDispatch _ =>
    number = 0 ∧ (∃ vs, args = .array vs ∧ (vs.length = 2 → SpoolArgs vs)) ∨
    number = 1 ∧ (∃ vs, args = .array vs ∧ (vs.length = 5 → SpawnArgs vs))
  | _ => number = 0

/-- After the turn the connection is closed or the reader is at `rest`. -/
def InSync (o : Option (Handler × Bytes)) (rest : Bytes) : Prop := ∀ h r, o = some (h,r) → r = rest

/-! ## Reading values in turn -/

section Reading
variable {α β : Type}

/-- Before `tail` there is at least one whole value left. -/
def Stuck (tail r : Bytes) : Prop := ∃ v b more, Encodes v b ∧ r = b ++ (more ++ tail)

theorem Stuck.append {b tail r : Bytes} (h : Stuck (b ++ tail) r) : Stuck tail r := by
  obtain ⟨v,c,more,hc,rfl⟩ := h
  exact ⟨v,c,more ++ b,hc,by rw [List.append_assoc]⟩

/-- From `b` the call reads exactly `b` when `good` holds; otherwise it gives an error
that does not close the connection and leaves a value unread. -/
structure Reads (m : EStateM HandleError Bytes α) (b tail : Bytes) (good : Prop) : Prop where
  accepts : good → ∃ a, m (b ++ tail) = .ok a tail
  rejects : ¬good → ∃ e r, m (b ++ tail) = .error e r ∧ e ≠ .errInvalidArgsNum ∧ Stuck tail r

theorem Reads.pure (a : α) (tail : Bytes) : Reads (Pure.pure a) [] tail True :=
  ⟨fun _ => ⟨a,rfl⟩,fun h => (h trivial).elim⟩

theorem Reads.bind {m : EStateM HandleError Bytes α} {f : α → EStateM HandleError Bytes β} {b c tail : Bytes}
    {p q : Prop} (hm : Reads m b (c ++ tail) p) (hf : ∀ a, Reads (f a) c tail q) :
    Reads (m >>= f) (b ++ c) tail (p ∧ q) := by
  constructor
  · rintro ⟨hp,hq⟩
    obtain ⟨a,ha⟩ := hm.accepts hp
    obtain ⟨d,hd⟩ := (hf a).accepts hq
    refine ⟨d,?_⟩
    rw [List.append_assoc, bind_ok ha, hd]
  · intro hpq
    rw [List.append_assoc]
    by_cases hp : p
    · obtain ⟨a,ha⟩ := hm.accepts hp
      rw [bind_ok ha]
      exact (hf a).rejects fun hq => hpq ⟨hp,hq⟩
    · obtain ⟨e,r,he,hne,hs⟩ := hm.rejects hp
      exact ⟨e,r,bind_error he,hne,hs.append⟩

theorem Reads.congr {m : EStateM HandleError Bytes α} {b tail : Bytes} {p q : Prop} (h : Reads m b tail p)
    (hpq : p ↔ q) : Reads m b tail q :=
  propext hpq ▸ h

theorem Reads.of_other {f : Bytes → Read α} {v : Value} {b tail : Bytes} {good : Prop} (hv : Encodes v b)
    (hg : ¬good) (h : ∃ e, f (b ++ tail) = (.error e,b ++ tail)) : Reads (reading f) b tail good := by
  obtain ⟨e,he⟩ := h
  exact ⟨fun h => (hg h).elim,fun _ => ⟨.read e,_,reading_error he,nofun,v,b,[],hv,rfl⟩⟩

end Reading

theorem reads_readString {v : Value} {b : Bytes} (h : Encodes v b) (tail : Bytes) :
    Reads (reading readString) b tail (∃ s, v = .str s) := by
  by_cases hk : ∃ s, v = .str s
  · obtain ⟨s,rfl⟩ := hk
    exact ⟨fun _ => ⟨s,readString_ok h tail⟩,fun hn => (hn ⟨s,rfl⟩).elim⟩
  · exact .of_other h hk (h.readString_other (mt Value.hasKind_str.mp hk) tail)

theorem reads_readProfile {v : Value} {b : Bytes} (h : Encodes v b) (tail : Bytes) :
    Reads readProfile b tail (∃ kvs, v = .map kvs) := by
  by_cases hk : ∃ kvs, v = .map kvs
  · obtain ⟨kvs,rfl⟩ := hk
    exact ⟨fun _ => ⟨b,readProfile_ok h tail⟩,fun hn => (hn ⟨kvs,rfl⟩).elim⟩
  · refine ⟨fun hg => (hk hg).elim,fun _ => ?_⟩
    have hne := h.nextType_other (mt Value.hasKind_map.mp hk) tail
    have hstuck : Stuck tail (b ++ tail) := ⟨v,b,[],h,rfl⟩
    cases hnt : nextType (b ++ tail) with
    | error e =>
      have ht : reading (fun r => (nextType r,r)) (b ++ tail) = .error (.read e) (b ++ tail) :=
        reading_error (by rw [hnt])
      exact ⟨_,_,bind_error ht,nofun,hstuck⟩
    | ok nt =>
      have ht : reading (fun r => (nextType r,r)) (b ++ tail) = .ok nt (b ++ tail) :=
        reading_ok (by rw [hnt])
      refine ⟨.profileMustBe nt,b ++ tail,?_,nofun,hstuck⟩
      rw [readProfile, bind_ok ht, if_pos]
      · rfl
      · rintro rfl
        exact hne hnt

theorem reads_readPairs {kvs : List (Value × Value)} {b : Bytes} (h : EncodesAll (flatten kvs) b)
    (mp : List (Bytes × Bytes)) (tail : Bytes) : Reads (readPairs kvs.length mp) b tail (StrStr kvs) := by
  induction kvs generalizing b mp with
  | nil =>
    cases h
    exact (Reads.pure mp tail).congr ⟨fun _ => nofun,fun _ => trivial⟩
  | cons kv kvs ih =>
    rcases kv with ⟨k,v⟩
    rw [flatten_cons] at h
    cases h with
    | cons hk h =>
      cases h with
      | cons hv hs =>
        refine Reads.congr ((reads_readString hk _).bind fun key => (reads_readString hv _).bind fun val =>
          ih hs (mp ++ [(key,val)])) ?_
        constructor
        · rintro ⟨⟨a,rfl⟩,⟨c,rfl⟩,hall⟩ kv hkv
          rcases List.mem_cons.mp hkv with rfl | hkv
          · exact ⟨a,c,rfl⟩
          · exact hall kv hkv
        · intro hall
          obtain ⟨a,c,he⟩ := hall (k,v) List.mem_cons_self
          cases he
          exact ⟨⟨a,rfl⟩,⟨c,rfl⟩,fun kv hkv => hall kv (List.mem_cons_of_mem _ hkv)⟩

theorem reads_readMapStrStr {v : Value} {b : Bytes} (h : Encodes v b) (tail : Bytes) :
    Reads readMapStrStr b tail (∃ kvs, v = .map kvs ∧ StrStr kvs) := by
  by_cases hk : ∃ kvs, v = .map kvs
  · obtain ⟨kvs,rfl⟩ := hk
    cases h with
    | @map _ hd bs hh hs =>
      have hp := reads_readPairs hs [] tail
      have hrun : readMapStrStr ((hd ++ bs) ++ tail) = readPairs kvs.length [] (bs ++ tail) := by
        rw [List.append_assoc, readMapStrStr, bind_ok (reading_ok (hh.readMapHeader _))]
      constructor
      · rintro ⟨kvs',he,hall⟩
        cases he
        rw [hrun]
        exact hp.accepts hall
      · intro hn
        rw [hrun]
        exact hp.rejects fun hall => hn ⟨kvs,rfl,hall⟩
  · have hno : ¬∃ kvs, v = .map kvs ∧ StrStr kvs := by
      rintro ⟨kvs,he,-⟩
      exact hk ⟨kvs,he⟩
    have ho : Reads (reading readMapHeader) b tail (∃ kvs, v = .map kvs ∧ StrStr kvs) :=
      .of_other h hno (h.readMapHeader_other (mt Value.hasKind_map.mp hk) tail)
    refine ⟨fun hmap => (hno hmap).elim,fun hn => ?_⟩
    obtain ⟨e,r,he,hne,hs⟩ := ho.rejects hn
    exact ⟨e,r,bind_error he,hne,hs⟩

/-! ## Arguments as a whole -/

/-- An argument list of the right number is read by `body`; another number closes the
connection, and arguments that are not a list are left where they are. -/
theorem args_cases {α : Type} {body : EStateM HandleError Bytes α} {num : ℕ} {Good : List Value → Prop}
    (hbody : ∀ vs bs tail, EncodesAll vs bs → vs.length = num → Reads body bs tail (Good vs))
    {v : Value} {b : Bytes} (h : Encodes v b) (tail : Bytes) :
    ((∃ vs, v = .array vs ∧ (vs.length = num → Good vs)) →
      (∃ r, (checkSize num >>= fun _ => body) (b ++ tail) = .error .errInvalidArgsNum r) ∨
      ∃ a, (checkSize num >>= fun _ => body) (b ++ tail) = .ok a tail) ∧
    (¬(∃ vs, v = .array vs ∧ (vs.length = num → Good vs)) →
      ∃ e r, (checkSize num >>= fun _ => body) (b ++ tail) = .error e r ∧ e ≠ .errInvalidArgsNum ∧
        Stuck tail r) := by
  by_cases hk : ∃ vs, v = .array vs
  · obtain ⟨vs,rfl⟩ := hk
    cases h with
    | @array _ hd bs hh hs =>
      by_cases hl : vs.length = num
      · have hc : checkSize num ((hd ++ bs) ++ tail) = .ok () (bs ++ tail) := by
          rw [hl] at hh
          rw [List.append_assoc]
          exact checkSize_ok hh _
        have hb := hbody vs bs tail hs hl
        rw [bind_ok hc]
        constructor
        · rintro ⟨vs',he,hg⟩
          cases he
          exact Or.inr (hb.accepts (hg hl))
        · intro hn
          exact hb.rejects fun hg => hn ⟨vs,rfl,fun _ => hg⟩
      · have hc : checkSize num ((hd ++ bs) ++ tail) = .error .errInvalidArgsNum (bs ++ tail) := by
          rw [List.append_assoc]
          exact checkSize_error hh hl _
        exact ⟨fun _ => Or.inl ⟨_,bind_error hc⟩,fun hn => (hn ⟨vs,rfl,fun he => (hl he).elim⟩).elim⟩
  · obtain ⟨e,he⟩ := h.readArrayHeader_other (mt Value.hasKind_array.mp hk) tail
    have hc : checkSize num (b ++ tail) = .error (.read e) (b ++ tail) := bind_error (reading_error he)
    exact ⟨fun ⟨vs,hv,_⟩ => (hk ⟨vs,hv⟩).elim,fun _ => ⟨_,_,bind_error hc,nofun,v,b,[],h,rfl⟩⟩

theorem reads_spool (vs : List Value) (bs tail : Bytes) (h : EncodesAll vs bs) (hl : vs.length = onSpoolArgsNum) :
    Reads (do let rawProfile ← readProfile; let name ← reading readString; pure (rawProfile,name))
      bs tail (SpoolArgs vs) := by
  match vs, h, hl with
  | [v,w], .cons hv (.cons hw .nil), _ =>
    refine Reads.congr ((reads_readProfile hv _).bind fun p => (reads_readString hw _).bind fun n =>
      Reads.pure (p,n) tail) ?_
    constructor
    · rintro ⟨⟨profile,rfl⟩,⟨name,rfl⟩,-⟩
      exact ⟨profile,name,rfl⟩
    · rintro ⟨profile,name,he⟩
      cases he
      exact ⟨⟨profile,rfl⟩,⟨name,rfl⟩,trivial⟩

theorem reads_spawn (vs : List Value) (bs tail : Bytes) (h : EncodesAll vs bs) (hl : vs.length = onSpawnArgsNum) :
    Reads (do
        let rawProfile ← readProfile
        let name ← reading readString
        let executable ← reading readString
        let args ← readMapStrStr
        let env ← readMapStrStr
        pure (rawProfile,name,executable,args,env)) bs tail (SpawnArgs vs) := by
  match vs, h, hl with
  | [v,w,x,y,z], .cons hv (.cons hw (.cons hx (.cons hy (.cons hz .nil)))), _ =>
    refine Reads.congr ((reads_readProfile hv _).bind fun p => (reads_readString hw _).bind fun n =>
      (reads_readString hx _).bind fun e => (reads_readMapStrStr hy _).bind fun a =>
      (reads_readMapStrStr hz _).bind fun env => Reads.pure (p,n,e,a,env) tail) ?_
    constructor
    · rintro ⟨⟨profile,rfl⟩,⟨name,rfl⟩,⟨executable,rfl⟩,⟨args,rfl,ha⟩,⟨env,rfl,he⟩,-⟩
      exact ⟨profile,name,executable,args,env,rfl,ha,he⟩
    · rintro ⟨profile,name,executable,args,env,he,ha,hee⟩
      cases he
      exact ⟨⟨profile,rfl⟩,⟨name,rfl⟩,⟨executable,rfl⟩,⟨args,rfl,ha⟩,⟨env,rfl,hee⟩,trivial⟩

/-! ## Handling -/

variable (boxes : Bytes → Bool)

/-- An understood message is read to the end of its arguments or closes the connection. -/
theorem handle_understood {d : Dispatcher} {number : ℕ} {args : Value} {b : Bytes} (h : Encodes args b)
    (hu : Understood d number args) (tail : Bytes) :
    (d.handle boxes number (b ++ tail)).result = .error .errInvalidArgsNum ∨
      (d.handle boxes number (b ++ tail)).reader = tail := by
  cases d with
  | initialDispatch stream =>
    rcases hu with ⟨rfl,hargs⟩ | ⟨rfl,hargs⟩
    · rcases (args_cases reads_spool h tail).1 hargs with ⟨r,hr⟩ | ⟨a,ha⟩
      · left
        change readSpool (b ++ tail) = _ at hr
        rw [Dispatcher.handle, hr]
      · right
        change readSpool (b ++ tail) = _ at ha
        rw [Dispatcher.handle, ha]
        exact onProfile_reader _ _ _ _ _
    · rcases (args_cases reads_spawn h tail).1 hargs with ⟨r,hr⟩ | ⟨a,ha⟩
      · left
        change readSpawn (b ++ tail) = _ at hr
        rw [Dispatcher.handle, hr]
      · right
        change readSpawn (b ++ tail) = _ at ha
        rw [Dispatcher.handle, ha]
        exact onProfile_reader _ _ _ _ _
  | spoolCancelationDispatch _ =>
    obtain rfl : number = 0 := hu
    right
    rw [Dispatcher.handle, h.skip tail]
  | spawnDispatch _ =>
    obtain rfl : number = 0 := hu
    right
    rw [Dispatcher.handle, h.skip tail]

/-- Any other message is refused in front of a value of its arguments, and the
refusal does not close the connection. -/
theorem handle_refused {d : Dispatcher} {number : ℕ} {args : Value} {b : Bytes} (h : Encodes args b)
    (hu : ¬Understood d number args) (tail : Bytes) :
    ∃ e r, d.handle boxes number (b ++ tail) = ⟨.error e,r,[]⟩ ∧ e ≠ .errInvalidArgsNum ∧ Stuck tail r := by
  have hstuck : Stuck tail (b ++ tail) := ⟨args,b,[],h,rfl⟩
  have hunknown (id : ℕ) : HandleError.unknownTransition id ≠ .errInvalidArgsNum := by simp
  cases d with
  | initialDispatch stream =>
    rcases number with _ | _ | id
    · obtain ⟨e,r,he,hne,hs⟩ := (args_cases reads_spool h tail).2 fun hargs => hu (Or.inl ⟨rfl,hargs⟩)
      change readSpool (b ++ tail) = _ at he
      refine ⟨e,r,?_,hne,hs⟩
      rw [Dispatcher.handle, he]
    · obtain ⟨e,r,he,hne,hs⟩ := (args_cases reads_spawn h tail).2 fun hargs => hu (Or.inr ⟨rfl,hargs⟩)
      change readSpawn (b ++ tail) = _ at he
      refine ⟨e,r,?_,hne,hs⟩
      rw [Dispatcher.handle, he]
    · exact ⟨_,_,rfl,hunknown _,hstuck⟩
  | spoolCancelationDispatch _ | spawnDispatch _ =>
    cases number with
    | zero => exact (hu rfl).elim
    | succ id => exact ⟨_,_,rfl,hunknown _,hstuck⟩

/-! ## Turns -/

theorem next_frame {channel number : ℕ} {h bc bn r : Bytes} {headers : Option Value}
    (hh : ArrayHeader (3 + headers.isSome.toNat) h) (hc : IntEncodes channel bc) (hn : IntEncodes number bn) :
    next (h ++ (bc ++ (bn ++ r))) = .ok (headers.isSome,channel,number) r := by
  rw [next, bind_ok (reading_ok (hh.readArrayHeader _)), bind_ok (reading_ok (hc.readUint64 _)),
    bind_ok (reading_ok (hn.readUint64 _))]
  cases headers <;> rfl

theorem skipHeaders_headers {headers : Option Value} {bh : Bytes} (h : EncodesAll headers.toList bh) (rest : Bytes) :
    skipHeaders headers.isSome (bh ++ rest) = rest := by
  cases headers with
  | none =>
    cases h
    rfl
  | some v =>
    cases h with
    | cons hv hs =>
      cases hs
      rw [List.append_nil]
      exact congrArg Prod.snd (hv.skip rest)

theorem skipHeaders_stuck {headers : Option Value} {bh : Bytes} (h : EncodesAll headers.toList bh) {rest r : Bytes}
    (hs : Stuck (bh ++ rest) r) : skipHeaders headers.isSome r ≠ rest := by
  obtain ⟨v,b,more,hb,rfl⟩ := hs
  have hpos := hb.length_pos
  intro he
  cases headers with
  | none =>
    have hlen := congrArg List.length he
    rw [skipHeaders, Option.isSome_none, if_neg Bool.false_ne_true, List.length_append, List.length_append,
      List.length_append] at hlen
    omega
  | some w =>
    cases h with
    | @cons _ _ c cs hw _ =>
      have hcpos := hw.length_pos
      rw [skipHeaders, Option.isSome_some, if_pos rfl, hb.skip] at he
      have hlen := congrArg List.length he
      simp only [List.length_append] at hlen
      omega

/-- A turn on a well-formed frame ends at the next frame, or with the connection
closed, exactly when the channel is detached or its dispatcher understands the message. -/
theorem turn_inSync_iff (h : Handler) {channel number : ℕ} {args : Value}
    {headers : Option Value} {bs : Bytes} (hf : IsFrame channel number args headers bs) (rest : Bytes) :
    InSync (turn boxes h (bs ++ rest)) rest ↔
      ∀ d h', h.dispatcher channel = some (d,h') → Understood d number args := by
  obtain ⟨hd,bc,bn,ba,bh,rfl,hh,hc,hn,ha,hbh⟩ := hf.split
  have hnext : next ((hd ++ (bc ++ (bn ++ (ba ++ bh)))) ++ rest) =
      .ok (headers.isSome,channel,number) (ba ++ (bh ++ rest)) := by
    simp only [List.append_assoc]
    exact next_frame hh hc hn
  unfold turn
  rw [hnext]
  dsimp only
  cases hdis : h.dispatcher channel with
  | none =>
    refine ⟨fun _ => nofun,fun _ => ?_⟩
    rintro h' r he
    cases he
    rw [ha.skip]
    exact skipHeaders_headers hbh rest
  | some p =>
    rcases p with ⟨d,h₁⟩
    constructor
    · intro hs d' h' he
      cases he
      dsimp only at hs
      by_contra hu
      obtain ⟨e,r,hr,hne,hst⟩ := handle_refused boxes ha hu (bh ++ rest)
      rw [hr] at hs
      refine skipHeaders_stuck hbh hst (hs (h₁.detach channel) _ ?_)
      cases e <;> first | rfl | exact (hne rfl).elim
    · intro hu h' r he
      obtain ⟨h₂,hset,hp⟩ := Option.map_eq_some_iff.mp he
      cases hp
      rcases handle_understood boxes ha (hu d h₁ rfl) (bh ++ rest) with hr | hr
      · rw [hr] at hset
        cases hset
      · rw [hr]
        exact skipHeaders_headers hbh rest

/-- A spool of the application `a` with an empty profile, on a new channel. -/
theorem turn_inSync_spool :
    InSync (turn (fun _ => true) ⟨fun _ => none,0⟩ ([0x93,1,0,0x92,0x80,0xa1,0x61] ++ [0x93])) [0x93] := by
  have hmap : Encodes (.map []) [0x80] := .map (h := [0x80]) (.fix (by decide)) .nil
  have hname : Encodes (.str [0x61]) [0xa1,0x61] := .str (s := [0x61]) (h := [0xa1]) (.fix (by decide))
  have hargs : Encodes (.array [.map [],.str [0x61]]) [0x92,0x80,0xa1,0x61] :=
    .array (h := [0x92]) (.fix (by decide)) (.cons hmap (.cons hname .nil))
  have hframe : IsFrame 1 0 (.array [.map [],.str [0x61]]) none [0x93,1,0,0x92,0x80,0xa1,0x61] :=
    ⟨[0x93],[1],[0],_,[],rfl,.fix (by decide),.fix (by decide),.fix (by decide),hargs,.nil⟩
  refine (turn_inSync_iff (fun _ => true) ⟨fun _ => none,0⟩ hframe [0x93]).mpr ?_
  intro d h' he
  cases he
  exact Or.inl ⟨rfl,_,rfl,fun _ => ⟨[],[0x61],rfl⟩⟩

/-- A message number that the dispatcher of a new channel does not know: its empty
argument list is left to be read as the head of the next frame. -/
theorem unknown_number_not_inSync :
    IsFrame 1 7 (.array []) none [0x93,1,7,0x90] ∧
      ¬InSync (turn (fun _ => true) ⟨fun _ => none,0⟩ ([0x93,1,7,0x90] ++ [0x93])) [0x93] := by
  refine ⟨⟨[0x93],[1],[7],[0x90],[],rfl,.fix (by decide),.fix (by decide),.fix (by decide),
    .array (.fix (by decide)) .nil,.nil⟩,?_⟩
  intro hs
  have hr := hs _ [0x90,0x93] rfl
  cases hr

end Stout.Isolate
