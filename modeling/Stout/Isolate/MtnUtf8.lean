import Stout.Library.MsgpackCodec
import Stout.Isolate.MtnRuns

/-! # The pool over bytes

A Go string is any bytes, and `json.Marshal` puts the replacement character in the place of
every byte that is no part of a rune. The id of a network comes from the wire as it is, so
that a record may be stored with another network than that of its bucket. As long as the
texts are UTF-8 the pool does what it does over `texts`.
-/
namespace Stout.Mtn
open Std (ExtTreeMap)
open Prog
open Msgpack (byteText)

/-- What `encoding/json` gives back of a Go string. -/
def coerce (t : String) : String := byteText (Json.coerceFrom 0 (Json.ofAscii t))

def Allocation.coerce (a : Allocation) : Allocation :=
  ⟨Mtn.coerce a.net,Mtn.coerce a.hostname,Mtn.coerce a.ip,Mtn.coerce a.id,Mtn.coerce a.netId,Mtn.coerce a.box,a.used⟩

/-- A value stands for the allocation that is read off it. -/
def encodingJson : Codec Allocation := ⟨Allocation.coerce,.ok,true⟩

/-! ## UTF-8 -/

def Utf8 (t : String) : Prop := ∃ s, t = byteText s ∧ Json.wellFormedFrom 0 s = true

theorem utf8_iff {t : String} : Utf8 t ↔ coerce t = t := by
  constructor
  · rintro ⟨s,rfl,hs⟩
    rw [coerce, Msgpack.ofAscii_byteText, Json.coerceFrom_wellFormed hs]
  · intro h
    exact ⟨_,h.symm,Json.wellFormed_coerceFrom 0 _⟩

instance (t : String) : Decidable (Utf8 t) := decidable_of_iff _ utf8_iff.symm

structure Allocation.Legible (a : Allocation) : Prop where
  net : Utf8 a.net
  hostname : Utf8 a.hostname
  ip : Utf8 a.ip
  id : Utf8 a.id
  netId : Utf8 a.netId
  box : Utf8 a.box

structure RawAlloc.Legible (raw : RawAlloc) : Prop where
  id : Utf8 raw.id
  hostname : Utf8 raw.porto.hostname
  ip : Utf8 raw.porto.ip
  net : Utf8 raw.porto.net
  network : Utf8 raw.network

/-- What the allocator sent has been decoded from JSON. -/
structure Env.Legible (env : Env) : Prop where
  replies : ∀ r raw, .response r ∈ env.replies → r.decoded = .ok raw → raw.Legible
  listing : ∀ r raws, env.listing = .response r → r.decoded = .ok raws → ∀ raw ∈ raws, raw.Legible

def LegibleDb (db : Db) : Prop := ∀ n k a, record db n k = some a → a.Legible

structure Legible (s : Store) : Prop where
  stored : LegibleDb s.db
  env : s.env.Legible

/-- The names a container brings into the database are UTF-8. -/
def Op.Legible : Op → Prop
  | .bindAllocs netId => Utf8 netId
  | .useAlloc netId box => Utf8 netId ∧ Utf8 box
  | _ => True

theorem Allocation.Legible.encode {a : Allocation} (h : a.Legible) : encodingJson.encode a = a := by
  change a.coerce = a
  rw [Allocation.coerce, utf8_iff.mp h.net, utf8_iff.mp h.hostname, utf8_iff.mp h.ip, utf8_iff.mp h.id,
    utf8_iff.mp h.netId, utf8_iff.mp h.box]

theorem utf8_empty : Utf8 "" := ⟨[],rfl,rfl⟩

theorem RawAlloc.Legible.replied {raw : RawAlloc} (h : raw.Legible) {netid : String} (hn : Utf8 netid) :
    (replied netid raw).Legible :=
  ⟨h.net,h.hostname,h.ip,h.id,hn,utf8_empty⟩

theorem RawAlloc.Legible.listed {raw : RawAlloc} (h : raw.Legible) : (listed raw).Legible :=
  ⟨h.net,h.hostname,h.ip,h.id,h.network,utf8_empty⟩

theorem Allocation.Legible.taken {a : Allocation} (h : a.Legible) {box : String} (hb : Utf8 box) :
    (taken a box).Legible :=
  ⟨h.net,h.hostname,h.ip,h.id,h.netId,hb⟩

theorem Allocation.Legible.fresh {a : Allocation} (h : a.Legible) {netId : String} (hn : Utf8 netId) :
    (fresh netId a).Legible :=
  ⟨h.net,h.hostname,h.ip,h.id,hn,utf8_empty⟩

/-! ## Calls that store nothing -/

/-- The database is the same, and nothing new has been sent. -/
structure Spends (s t : Store) : Prop where
  db : t.db = s.db
  replies : t.env.replies ⊆ s.env.replies
  listing : t.env.listing = s.env.listing

instance : IsPreorder Store Spends where
  refl _ := ⟨rfl,List.Subset.refl _,rfl⟩
  trans _ _ _ h k := ⟨k.db.trans h.db,fun _ hx => h.replies (k.replies hx),k.listing.trans h.listing⟩

theorem Spends.legible {s t : Store} (h : Spends s t) (hs : Legible s) : Legible t where
  stored n k a ha := hs.stored n k a (by rw [← h.db]; exact ha)
  env := ⟨fun r raw hr => hs.env.replies r raw (h.replies hr),fun r raws hl => hs.env.listing r raws (by rw [← h.listing]; exact hl)⟩

variable {α : Type} {Q : α → Prop}

theorem agrees_of_spends {m : Call α} (hm : Moves Spends m) (hQ : ∀ s a t, Legible s → m s = (.ok a,t) → Q a) :
    AgreesOn Legible Q m m :=
  .of_moves hm (fun _ _ h => h.legible) hQ

theorem external_spends : Moves Spends external := by
  intro s
  unfold external
  split <;> exact ⟨rfl,List.Subset.refl _,rfl⟩

theorem external_agrees : AgreesOn Legible (fun _ => True) external external :=
  agrees_of_spends external_spends fun _ _ _ _ _ => trivial

theorem range_agrees {β : Type} (l : List β) : AgreesOn Legible (fun l' => l'.Perm l) (range l) (range l) :=
  agrees_of_spends (fun _ => ⟨rfl,List.Subset.refl _,rfl⟩) fun _ _ _ _ h => (range_ok h).1

theorem requestAlloc_spends (c : MtnCfg) (netid : String) : Moves Spends (requestAlloc c netid) := by
  intro s
  unfold requestAlloc
  dsimp only
  split
  · exact ⟨rfl,List.tail_subset _,rfl⟩
  · rename_i h
    exact ⟨rfl,by rw [h]; exact List.subset_cons_self _ _,rfl⟩
  · exact ⟨rfl,List.tail_subset _,rfl⟩
  · exact ⟨rfl,List.tail_subset _,rfl⟩
  · split <;> exact ⟨rfl,List.tail_subset _,rfl⟩

theorem requestLoop_spends (c : MtnCfg) (netid : String) (i : ℕ) (r : Bucket) :
    Moves Spends (requestLoop c netid i r) := by
  induction i generalizing r with
  | zero => exact .pure r
  | succ i ih => exact (requestAlloc_spends c netid).bind fun raw => ih _

def Sent (m : Bucket) : Prop := ∀ (id : String) (a : Allocation), m[id]? = some a → a.Legible

theorem requestAllocs_agrees (c : MtnCfg) {netid : String} (hn : Utf8 netid) :
    AgreesOn Legible Sent (requestAllocs c netid) (requestAllocs c netid) := by
  refine agrees_of_spends (external_spends.bind fun _ => requestLoop_spends c netid _ ∅) ?_
  intro s m t hs h id a ha
  obtain ⟨r,raw,hr,hd,-,rfl⟩ := received_replied (requestAllocs_ok h).1 ha
  exact (hs.env.replies r raw hr hd).replied hn

def Listed (m : ExtTreeMap String (List Allocation) compare) : Prop :=
  ∀ (n : String) (allocs : List Allocation), m[n]? = some allocs → ∀ a ∈ allocs, a.Legible ∧ a.netId = n

theorem listed_group {raws : List RawAlloc} (h : ∀ raw ∈ raws, raw.Legible) : Listed (group raws) := by
  intro n allocs hn a ha
  have hg := group_getD raws n
  rw [ExtTreeMap.getD_eq_getD_getElem?, hn, Option.getD_some] at hg
  rw [hg] at ha
  obtain ⟨raw,hraw,rfl⟩ := List.mem_map.mp ha
  obtain ⟨hmem,hnet⟩ := List.mem_filter.mp hraw
  exact ⟨(h raw hmem).listed,of_decide_eq_true hnet⟩

theorem getAllocations_agrees (c : MtnCfg) : AgreesOn Legible Listed (getAllocations c) (getAllocations c) := by
  refine agrees_of_spends ?_ ?_
  · intro s
    unfold getAllocations
    dsimp only
    split
    · exact refl_of Spends s
    · exact ⟨rfl,List.Subset.refl _,rfl⟩
    · split <;> exact ⟨rfl,List.Subset.refl _,rfl⟩
    · split <;> exact ⟨rfl,List.Subset.refl _,rfl⟩
  · intro s m t hs h
    unfold getAllocations at h
    dsimp only at h
    split at h
    · cases h
    · cases h
    · split at h <;> cases h
    · rename_i r hl
      split at h
      · cases h
      · rename_i raws hd
        cases h
        exact listed_group (hs.env.listing r raws hl hd)

/-! ## Reading and writing -/

section Values
variable {v : Allocation} (hv : v.Legible)
include hv

theorem unmarshal_agrees : AgreesOn Legible Allocation.Legible (encodingJson.unmarshal v) (texts.unmarshal v) := by
  have hmoves : Moves Spends (texts.unmarshal v) := external_spends.bind fun _ => .pure v
  refine agrees_of_spends hmoves ?_
  intro s a t _ h
  have hread : texts.unmarshal v s = (.ok a,t) := h
  cases (unmarshal_ok hread).1
  exact hv

theorem dbAllocIsFree_agrees : AgreesOn Legible (fun _ => True) (encodingJson.dbAllocIsFree v) (texts.dbAllocIsFree v) := by
  refine (unmarshal_agrees hv).attempt.bind fun r _ => ?_
  cases r <;> exact .pure trivial

theorem marshal_agrees : AgreesOn Legible Allocation.Legible (encodingJson.marshal v) (texts.marshal v) := by
  rw [Codec.marshal, hv.encode]
  exact external_agrees.bind fun _ _ => .pure hv

theorem put_agrees (netId id : String) : AgreesOn Legible (fun _ => True) (put netId id v) (put netId id v) := by
  refine external_agrees.bind fun _ _ => ?_
  split
  · exact .throw _
  split
  · exact .throw _
  intro s hs
  refine ⟨rfl,⟨?_,hs.env⟩,fun _ _ => trivial⟩
  intro n k a ha
  have hrec : record (putRecord s.db netId id v) n k = some a := ha
  rw [record_putRecord] at hrec
  split at hrec
  · cases hrec
    exact hv
  · exact hs.stored n k a hrec

theorem store_agrees (netId id : String) :
    AgreesOn Legible (fun _ => True) (do let value ← encodingJson.marshal v; put netId id value)
      (do let value ← texts.marshal v; put netId id value) :=
  (marshal_agrees hv).bind fun _ hw => put_agrees hw netId id

end Values

theorem createBucketIfNotExists_agrees (netId : String) :
    AgreesOn Legible (fun _ => True) (createBucketIfNotExists netId) (createBucketIfNotExists netId) := by
  refine external_agrees.bind fun _ _ => ?_
  split
  · exact .throw _
  intro s hs
  refine ⟨rfl,⟨?_,hs.env⟩,fun _ _ => trivial⟩
  intro n k a ha
  have hrec : Buckets.value (Buckets.addBucket s.db netId) n k = some a := ha
  rw [Buckets.value_addBucket] at hrec
  exact hs.stored n k a hrec

theorem transaction_agrees {m m' : Call α} (hm : AgreesOn Legible Q m m') (beginErr commitErr : Err → Err) :
    AgreesOn Legible Q (transaction m beginErr commitErr) (transaction m' beginErr commitErr) := by
  have hall : AgreesOn Legible Q (do external.mapError beginErr; let a ← m; external.mapError commitErr; pure a)
      (do external.mapError beginErr; let a ← m'; external.mapError commitErr; pure a) := by
    refine (external_agrees.mapError beginErr).bind fun _ _ => hm.bind fun a ha => ?_
    exact (external_agrees.mapError commitErr).bind fun _ _ => .pure ha
  intro s hs
  obtain ⟨he,hP,hQ⟩ := hall s hs
  rcases h : (do external.mapError beginErr; let a ← m'; external.mapError commitErr; pure a : Call α) s with ⟨o,t⟩
  rw [h] at he hP hQ
  unfold transaction
  rw [he, h]
  cases o with
  | ok a => exact ⟨rfl,hP,hQ⟩
  | error e => exact ⟨rfl,⟨hs.stored,hP.env⟩,nofun⟩
  | panic p => exact ⟨rfl,⟨hs.stored,hP.env⟩,nofun⟩

/-! ## Loops -/

section Loops
variable {l : List (String × Allocation)} (hl : ∀ p ∈ l, p.2.Legible)
include hl

theorem countFree_agrees (counter : ℤ) :
    AgreesOn Legible (fun _ => True) (encodingJson.countFree l counter) (texts.countFree l counter) := by
  induction l generalizing counter with
  | nil => exact .pure trivial
  | cons p l ih =>
    obtain ⟨hp,hl⟩ := List.forall_mem_cons.mp hl
    refine (dbAllocIsFree_agrees hp).bind fun b _ => ?_
    cases b <;> exact ih hl _

theorem takeFree_agrees (netId : String) {box : String} (hb : Utf8 box) :
    AgreesOn Legible (fun _ => True) (encodingJson.takeFree netId box l) (texts.takeFree netId box l) := by
  induction l with
  | nil => exact .pure trivial
  | cons p l ih =>
    obtain ⟨hp,hl⟩ := List.forall_mem_cons.mp hl
    refine (dbAllocIsFree_agrees hp).bind fun b _ => ?_
    cases b with
    | true =>
      refine (unmarshal_agrees hp).bind fun a ha => ?_
      refine (marshal_agrees (ha.taken hb)).bind fun w hw => ?_
      exact (put_agrees hw netId a.id).bind fun _ _ => .pure trivial
    | false => exact ih hl

theorem storeTaking_agrees (netId : String) {box : String} (hb : Utf8 box) (gotcha : Option Allocation) :
    AgreesOn Legible (fun _ => True) (encodingJson.storeTaking netId box gotcha l)
      (texts.storeTaking netId box gotcha l) := by
  induction l generalizing gotcha with
  | nil => cases gotcha <;> exact .pure trivial
  | cons p l ih =>
    obtain ⟨hp,hl⟩ := List.forall_mem_cons.mp hl
    cases gotcha with
    | none =>
      refine (marshal_agrees (hp.taken hb)).bind fun w hw => ?_
      exact (put_agrees hw netId p.1).bind fun _ _ => ih hl _
    | some a =>
      refine (marshal_agrees hp).bind fun w hw => ?_
      exact (put_agrees hw netId p.1).bind fun _ _ => ih hl _

theorem storeAll_agrees (netId : String) :
    AgreesOn Legible (fun _ => True) (encodingJson.storeAll netId l) (texts.storeAll netId l) :=
  .forM_mem fun p hp => store_agrees (hl p hp) netId p.1

theorem collectUsed_agrees (r : List Allocation × AllocsStat) :
    AgreesOn Legible (fun _ => True) (encodingJson.collectUsed l r) (texts.collectUsed l r) := by
  induction l generalizing r with
  | nil => exact .pure trivial
  | cons p l ih =>
    obtain ⟨hp,hl⟩ := List.forall_mem_cons.mp hl
    refine (dbAllocIsFree_agrees hp).bind fun b _ => ?_
    cases b with
    | true => exact ih hl _
    | false => exact (unmarshal_agrees hp).bind fun a _ => ih hl _

end Loops

theorem Sent.entries {m : Bucket} (h : Sent m) {l : List (String × Allocation)} (hl : l.Perm m.toList) :
    ∀ p ∈ l, p.2.Legible :=
  fun p hp => h p.1 p.2 (ExtTreeMap.mem_toList_iff_getElem?_eq_some.mp (hl.subset hp))

/-! ## The operations -/

theorem countFreeAllocs_agrees (netId : String) :
    AgreesOn Legible (fun _ => True) (encodingJson.countFreeAllocs netId) (texts.countFreeAllocs netId) := by
  refine (createBucketIfNotExists_agrees netId).bind fun _ _ => .read_bind fun s hs => ?_
  exact countFree_agrees (fun p hp => hs.stored netId p.1 p.2 (Buckets.mem_toList_iff.mp hp)) 0

theorem useAlloc_agrees (c : MtnCfg) {netId box : String} (hn : Utf8 netId) (hb : Utf8 box) :
    AgreesOn Legible (fun _ => True) (encodingJson.useAlloc c netId box) (texts.useAlloc c netId box) := by
  refine transaction_agrees (.read_bind fun s hs => ?_) id id
  cases hbk : s.db[netId]? with
  | none => exact .throw _
  | some b =>
  have hentries : ∀ p ∈ b.toList, p.2.Legible := by
    intro p hp
    refine hs.stored netId p.1 p.2 ?_
    rw [record, Buckets.value, hbk]
    exact ExtTreeMap.mem_toList_iff_getElem?_eq_some.mp hp
  refine (takeFree_agrees hentries netId hb).bind fun r _ => ?_
  cases r with
  | some a => exact .pure trivial
  | none =>
  refine (countFreeAllocs_agrees netId).attempt.bind fun _ _ => ?_
  refine (requestAllocs_agrees c hn).bind fun m hm => ?_
  refine (createBucketIfNotExists_agrees netId).bind fun _ _ => ?_
  refine (range_agrees m.toList).bind fun l hl => ?_
  refine (storeTaking_agrees (hm.entries hl) netId hb none).bind fun r _ => ?_
  cases r with
  | none => exact .throw _
  | some a => exact .pure trivial

theorem freeDbAlloc_agrees (netId id : String) :
    AgreesOn Legible (fun _ => True) (encodingJson.freeDbAlloc netId id) (texts.freeDbAlloc netId id) := by
  refine transaction_agrees (.read_bind fun s hs => ?_) (fun e => e) (fun e => e)
  cases hbk : s.db[netId]? with
  | none => exact .throw _
  | some b =>
  dsimp only
  cases hv : b[id]? with
  | none => exact .throw _
  | some v =>
  have hleg : v.Legible := by
    refine hs.stored netId id v ?_
    rw [record, Buckets.value, hbk]
    exact hv
  refine (unmarshal_agrees hleg).bind fun a ha => ?_
  have hfreed : { a with used := false }.Legible := ⟨ha.net,ha.hostname,ha.ip,ha.id,ha.netId,ha.box⟩
  exact store_agrees hfreed netId id

theorem bindAllocs_agrees (c : MtnCfg) {netId : String} (hn : Utf8 netId) :
    AgreesOn Legible (fun _ => True) (encodingJson.bindAllocs c netId) (texts.bindAllocs c netId) := by
  unfold Codec.bindAllocs
  split
  · exact .throw _
  refine transaction_agrees ((countFreeAllocs_agrees netId).bind fun fCount _ => ?_) id id
  split
  · refine (requestAllocs_agrees c hn).bind fun m hm => ?_
    refine (createBucketIfNotExists_agrees netId).bind fun _ _ => ?_
    exact (range_agrees m.toList).bind fun l hl => storeAll_agrees (hm.entries hl) netId
  · exact .pure trivial

theorem initAlloc_agrees {netId : String} (hn : Utf8 netId) {alloc : Allocation} (ha : alloc.Legible) :
    AgreesOn Legible (fun _ => True) (encodingJson.initAlloc netId alloc) (texts.initAlloc netId alloc) := by
  refine (createBucketIfNotExists_agrees netId).bind fun _ _ => .read_bind fun s _ => ?_
  split
  · exact store_agrees (ha.fresh hn) netId alloc.id
  · exact .pure trivial

theorem poolInit_agrees (c : MtnCfg) :
    AgreesOn Legible (fun _ => True) (encodingJson.poolInit c) (texts.poolInit c) := by
  unfold Codec.poolInit
  split
  · exact .pure trivial
  refine ((getAllocations_agrees c).mapError _).bind fun m hm => transaction_agrees ?_ _ _
  refine (range_agrees m.toList).bind fun nets hnets => .forM_mem fun p hp => .forM_mem fun alloc halloc => ?_
  have hp : m[p.1]? = some p.2 := ExtTreeMap.mem_toList_iff_getElem?_eq_some.mp (hnets.subset hp)
  obtain ⟨hleg,hnet⟩ := hm p.1 p.2 hp alloc halloc
  exact (initAlloc_agrees (hnet ▸ hleg.netId) hleg).mapError _

theorem usedAllocations_agrees (c : MtnCfg) :
    AgreesOn Legible (fun _ => True) (encodingJson.usedAllocations c) (texts.usedAllocations c) := by
  unfold Codec.usedAllocations
  split
  · exact .pure trivial
  refine transaction_agrees (.read_bind fun s hs => collectUsed_agrees ?_ _) id id
  intro q hq
  obtain ⟨p,hp,hpq⟩ := List.mem_flatMap.mp hq
  exact hs.stored p.1 q.1 q.2 (record_of_mem_toList hp hpq)

theorem perform_agrees (c : MtnCfg) {op : Op} (h : op.Legible) :
    AgreesOn Legible (fun _ => True) (encodingJson.perform c op) (texts.perform c op) := by
  cases op with
  | poolInit => exact (poolInit_agrees c).bind fun _ _ => .pure trivial
  | bindAllocs netId => exact (bindAllocs_agrees c h).bind fun _ _ => .pure trivial
  | useAlloc netId box => exact (useAlloc_agrees c h.1 h.2).bind fun _ _ => .pure trivial
  | freeDbAlloc netId id => exact (freeDbAlloc_agrees netId id).bind fun _ _ => .pure trivial
  | unuseAlloc netId id => exact (freeDbAlloc_agrees netId id).attempt.bind fun _ _ => .pure trivial
  | usedAllocations => exact (usedAllocations_agrees c).bind fun _ _ => .pure trivial

/-! ## Runs -/

def LegibleCall (_ : Db) (a : Op × Env) : Prop := a.1.Legible ∧ a.2.Legible

theorem step_agrees (c : MtnCfg) (db : Db) (a : Op × Env) (hdb : LegibleDb db) (ha : LegibleCall db a) :
    encodingJson.step c db a = texts.step c db a ∧ ∀ db', encodingJson.step c db a = some db' → LegibleDb db' := by
  obtain ⟨he,hP,-⟩ := perform_agrees c ha.1 ⟨db,a.2⟩ ⟨hdb,ha.2⟩
  have hstep : encodingJson.step c db a = texts.step c db a := by rw [Codec.step, he, Codec.step]
  refine ⟨hstep,?_⟩
  intro db' h
  rw [hstep] at h
  cases h
  exact hP.stored

theorem event_agrees (c : MtnCfg) (db : Db) (a : Op × Env) (hdb : LegibleDb db) (ha : LegibleCall db a) :
    encodingJson.event c db a = texts.event c db a := by
  rw [Codec.event, (perform_agrees c ha.1 ⟨db,a.2⟩ ⟨hdb,ha.2⟩).1, Codec.event]

/-- Along every run from a well-keyed database whose allocator sends only new ids and whose
calls are given names that are UTF-8: the database stays well keyed; the next successful
`UseAlloc` hands out an allocation that was free or absent and touches no other record; the
next failing call changes nothing, whatever it is given; and an allocation handed out twice
was freed in between. What is stored and what the allocator sends is UTF-8 in any case, as
it is read from JSON. -/
theorem exclusive_use (c : MtnCfg) {db db' : Db} {ops : List (Op × Env)} (hdb : WellKeyed db) (hleg : LegibleDb db)
    (h : Runs (encodingJson.step c) db ops db') (hf : Meets (encodingJson.step c) FreshReplies db ops)
    (hops : ∀ a ∈ ops, a.1.Legible ∧ a.2.Legible) :
    WellKeyed db' ∧
    (∀ netId box env a t, Utf8 netId → Utf8 box → env.Legible → FreshReplies db' (.useAlloc netId box,env) →
      encodingJson.useAlloc c netId box ⟨db',env⟩ = (.ok a,t) → Handed db' netId box a t.db) ∧
    (∀ op env, Failed (encodingJson.perform c op ⟨db',env⟩).1 → encodingJson.step c db' (op,env) = some db') ∧
    ∀ key pre mid post,
      trace (encodingJson.step c) (encodingJson.event c) db ops = pre ++ .acquire key :: (mid ++ .acquire key :: post) →
      .release key ∈ mid := by
  have hcalls : Meets (encodingJson.step c) LegibleCall db ops := .of_forall (fun a ha _ => hops a ha) db
  have hruns := h.congr_of_meets (step_agrees c) hcalls hleg
  have hfresh := hf.congr_of_meets (step_agrees c) hcalls hleg
  have hleg' : LegibleDb db' :=
    h.invariant_of_meets (fun s a t hs hg he => (step_agrees c s a hs hg).2 t he) hcalls hleg
  obtain ⟨hkeyed,hbetween⟩ := texts_exclusive c hdb hruns hfresh
  refine ⟨hkeyed,?_,?_,?_⟩
  · intro netId box env a t hn hb henv hfr hu
    rw [(useAlloc_agrees c hn hb ⟨db',env⟩ ⟨hleg',henv⟩).1] at hu
    exact useAlloc_handed hkeyed hfr hu
  · intro op env hfail
    exact congrArg some (failed_same hfail)
  · intro key pre mid post htr
    rw [trace_congr_of_meets (step_agrees c) (event_agrees c) hcalls hleg] at htr
    exact hbetween key pre mid post htr

def sendingOne : Env :=
  { silent with replies := [.response ⟨200,"",.ok ⟨"a1",⟨"host","::1","eth0"⟩,"lan"⟩,⟨⟨[],⟨[]⟩⟩,none⟩⟩] }

/-- One address for one network: bound, used, released and used again. -/
def refillThenUse : List (Op × Env) :=
  [(.bindAllocs "lan",sendingOne),(.useAlloc "lan" "box",silent),(.unuseAlloc "lan" "a1",silent),
    (.useAlloc "lan" "other",silent)]

theorem silent_legible : silent.Legible := ⟨nofun,nofun⟩

theorem sendingOne_legible : sendingOne.Legible := by
  refine ⟨?_,nofun⟩
  intro r raw hr hd
  cases List.mem_singleton.mp hr
  cases hd
  exact ⟨by decide +kernel,by decide +kernel,by decide +kernel,by decide +kernel,by decide +kernel⟩

theorem exclusive_use_refillThenUse :
    ∃ db', Runs (encodingJson.step lanCfg) ∅ refillThenUse db' ∧
      trace (encodingJson.step lanCfg) (encodingJson.event lanCfg) ∅ refillThenUse =
        [.quiet,.acquire ("lan","a1"),.release ("lan","a1"),.acquire ("lan","a1")] ∧
      WellKeyed db' := by
  have hruns : Runs (encodingJson.step lanCfg) ∅ refillThenUse _ := Runs.of_run rfl
  have hf : Meets (encodingJson.step lanCfg) FreshReplies ∅ refillThenUse := by decide +kernel
  have hlan : Utf8 "lan" := by decide +kernel
  have hbox : Utf8 "box" := by decide +kernel
  have hother : Utf8 "other" := by decide +kernel
  have hops : ∀ a ∈ refillThenUse, a.1.Legible ∧ a.2.Legible := by
    simp only [refillThenUse, List.forall_mem_cons, List.not_mem_nil, IsEmpty.forall_iff, implies_true, and_true]
    exact ⟨⟨hlan,sendingOne_legible⟩,⟨⟨hlan,hbox⟩,silent_legible⟩,⟨trivial,silent_legible⟩,⟨⟨hlan,hother⟩,silent_legible⟩⟩
  exact ⟨_,hruns,by decide +kernel,(exclusive_use lanCfg wellKeyed_empty nofun hruns hf hops).1⟩

/-- Two networks whose ids are no UTF-8, with an address for each. -/
def rawNetworks : List (Op × Env) :=
  [(.bindAllocs (byteText [0xff]),sendingOne),(.bindAllocs (byteText [0xfe]),sendingOne),
    (.useAlloc (byteText [0xff]) "box",silent),(.useAlloc (byteText [0xfe]) "other",silent)]

/-- Both ids are stored as the replacement character: a record has another network than its
bucket, and two containers get the same network and id. -/
theorem rawNetworks_shared :
    ∃ db', Runs (encodingJson.step lanCfg) ∅ rawNetworks db' ∧
      Meets (encodingJson.step lanCfg) FreshReplies ∅ rawNetworks ∧
      record db' (byteText [0xff]) "a1" =
        some ⟨"eth0","host","::1","a1",byteText [0xef,0xbf,0xbd],"box",true⟩ ∧
      ¬WellKeyed db' ∧
      trace (encodingJson.step lanCfg) (encodingJson.event lanCfg) ∅ rawNetworks =
        [.quiet,.quiet,.acquire (byteText [0xef,0xbf,0xbd],"a1"),.acquire (byteText [0xef,0xbf,0xbd],"a1")] := by
  have hrun : (run (encodingJson.step lanCfg) ∅ rawNetworks).map (fun db => record db (byteText [0xff]) "a1") =
      some (some ⟨"eth0","host","::1","a1",byteText [0xef,0xbf,0xbd],"box",true⟩) := by decide +kernel
  obtain ⟨db',hdb,hrec⟩ := Option.map_eq_some_iff.mp hrun
  refine ⟨db',.of_run hdb,by decide +kernel,hrec,?_,by decide +kernel⟩
  intro hkeyed
  exact absurd (hkeyed _ _ _ hrec).2 (by decide +kernel)

end Stout.Mtn
