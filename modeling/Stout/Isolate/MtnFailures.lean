import Stout.Isolate.MtnSpec

/-! # Failures of the allocator

`GetAllocations` and `RequestAllocs` read the body of the response before they look at
the error of `Do`, and a failed `Do` has no response. Short of that their failures are
errors, the database stays as it was, and `daemon.New` can go on with what is stored.
-/
namespace Stout.Mtn
open Prog

/-- A listing that `GetAllocations` gets through. With an error there must be a
response, and one that reports a bad request must name a message and a cause. -/
def Exchange.listable : Exchange (List RawAlloc) → Bool
  | .doError _ none => false
  | .doError _ (some r) => !(r.statusCode == 400 && r.allocError.2.isSome &&
      (r.allocError.1.message.isEmpty || r.allocError.1.cause.message.isEmpty))
  | _ => true

/-- The first of the requests that is not answered with an allocation, if one of the
`i` is, has a response. An allocator that answers no more has none. -/
def answered : ℕ → List (Exchange RawAlloc) → Bool
  | 0, _ => true
  | _ + 1, [] => false
  | _ + 1, .doError _ none :: _ => false
  | _ + 1, .doError _ (some _) :: _ => true
  | _ + 1, .newRequestError _ :: _ => true
  | i + 1, .response r :: rest => r.decoded.toOption.isNone || answered i rest

/-- All of the `i` requests are answered with allocations. -/
def delivered : ℕ → List (Exchange RawAlloc) → Bool
  | 0, _ => true
  | i + 1, .response r :: rest => r.decoded.toOption.isSome && delivered i rest
  | _ + 1, _ => false

/-- `New` of `daemon/daemon.go` as far as the pool goes: `cfgInited` is what `CfgInit`
returned, `now` and `configuration` what the messages print of the time and of the
configuration. -/
def newDaemon (now configuration : String) (c : MtnCfg) (cfgInited allowLocalState : Bool) : Call Unit :=
  if cfgInited = false then
    Prog.throw (.text (now ++ " ERROR: Cant do cfgInit() inside daemon.New() for MTN with configuration: " ++
      configuration))
  else do
    match ← Prog.attempt (poolInit c) with
    | .ok () => pure ()
    | .error (.mtnError err errno) =>
      if errno = .ErrIpbr ∧ allowLocalState = true then pure ()
      else Prog.throw (.text (now ++ " ERROR: Cant do poolInit() inside daemon.New() for MTN: " ++ err))
    -- the type assertion on the error
    | .error (.text _) => Prog.crash "interface conversion: error is not *isolate.MtnError"

/-! ## One exchange -/

variable {V α β : Type} {codec : Codec V}

theorem getAllocations_panics_iff (c : MtnCfg) (s : StoreOf V) :
    (∃ p, (getAllocations c s).1 = .panic p) ↔ s.env.listing.listable = false := by
  unfold getAllocations
  dsimp only
  split
  · rename_i h
    simp [h, Exchange.listable]
  · rename_i h
    simp [h, Exchange.listable]
  · rename_i e r h
    rw [h]
    unfold doErrorText Exchange.listable
    by_cases h400 : r.statusCode = 400
    · rcases ha : r.allocError with ⟨⟨message,cause⟩,err⟩
      cases err with
      | none => simp [h400, ha]
      | some e =>
        rcases hm : message with _ | ⟨m,ms⟩ <;> rcases hc : cause.message with _ | ⟨x,xs⟩ <;> simp [h400, ha, hm, hc]
    · simp [h400]
  · rename_i r h
    rw [h]
    cases hd : r.decoded with
    | error e => simp [Exchange.listable]
    | ok l => simp [Exchange.listable]

theorem requestLoop_panics_iff (c : MtnCfg) (netid : String) (i : ℕ) (r : Bucket) (s : StoreOf V) :
    (∃ p, (requestLoop c netid i r s).1 = .panic p) ↔ answered i s.env.replies = false := by
  induction i generalizing r s with
  | zero => simp [requestLoop, pure_apply, answered]
  | succ i ih =>
    rw [requestLoop]
    match hr : s.env.replies with
    | [] =>
      have hq : (requestAlloc c netid s).1 = .panic nilDereference := by simp [requestAlloc, hr]
      rw [bind_panic (Prod.ext hq rfl)]
      simp [answered]
    | .newRequestError e :: rest =>
      have hq : (requestAlloc c netid s).1 = .error (.text e) := by simp [requestAlloc, hr]
      rw [bind_error (Prod.ext hq rfl)]
      simp [answered]
    | .doError e none :: rest =>
      have hq : (requestAlloc c netid s).1 = .panic nilDereference := by simp [requestAlloc, hr]
      rw [bind_panic (Prod.ext hq rfl)]
      simp [answered]
    | .doError e (some x) :: rest =>
      have hq : (requestAlloc c netid s).1 = .error (.text e) := by simp [requestAlloc, hr]
      rw [bind_error (Prod.ext hq rfl)]
      simp [answered]
    | .response x :: rest =>
      cases hd : x.decoded with
      | error e =>
        have hq : (requestAlloc c netid s).1 = .error (.text e) := by simp [requestAlloc, hr, hd]
        rw [bind_error (Prod.ext hq rfl)]
        simp [answered, hd, Except.toOption]
      | ok raw =>
        have hq : (requestAlloc c netid s).1 = .ok raw := by simp [requestAlloc, hr, hd]
        have hs : (requestAlloc c netid s).2.env.replies = rest := by simp [requestAlloc, hr, hd]
        rw [bind_ok (Prod.ext hq rfl), ih, hs]
        simp [answered, hd, Except.toOption]

theorem delivered_of_received {netid : String} {i : ℕ} {r m : Bucket} {replies : List (Exchange RawAlloc)}
    (h : received netid i r replies = some m) : delivered i replies = true := by
  induction i generalizing r replies with
  | zero => rfl
  | succ i ih =>
    obtain ⟨x,raw,rest,rfl,hd,hrec⟩ := received_cases h
    simpa [delivered, hd, Except.toOption] using ih hrec

/-! ## Calls that do not ask -/

structure Local (m : CallOf V α) : Prop where
  safe : Safe (fun _ => True) m
  unasked : Moves Unasked m

theorem Local.of_calm {m : CallOf V α} (hm : Safe (fun _ => True) m) (h : Moves Calm m) : Local m :=
  ⟨hm,fun s => (h s).unasked⟩

theorem Local.pure (a : α) : Local (Pure.pure a : CallOf V α) := ⟨.pure a,.pure a⟩

theorem Local.throw (e : Err) : Local (Prog.throw e : CallOf V α) := ⟨.throw e,.throw e⟩

theorem Local.read : Local (Prog.read : CallOf V (StoreOf V)) := ⟨.read,.read⟩

theorem Local.attempt {m : CallOf V α} (hm : Local m) : Local (Prog.attempt m : CallOf V (Except Err α)) :=
  ⟨hm.safe.attempt,hm.unasked.attempt⟩

theorem Local.bind {m : CallOf V α} {f : α → CallOf V β} (hm : Local m) (hf : ∀ a, Local (f a)) : Local (m >>= f) :=
  ⟨hm.safe.seq fun a => (hf a).safe,hm.unasked.bind fun a => (hf a).unasked⟩

theorem Local.forM {l : List β} {f : β → CallOf V PUnit} (hf : ∀ x, Local (f x)) : Local (l.forM f) :=
  ⟨.forM fun x => (hf x).safe,.forM fun x => (hf x).unasked⟩

theorem external_local : Local (external : CallOf V Unit) := by
  refine .of_calm ?_ external_calm
  intro s _ p
  unfold external
  split <;> exact nofun

theorem unmarshal_local (v : V) : Local (codec.unmarshal v) := by
  refine Local.bind ?_ fun _ => ?_
  · split
    · exact external_local
    · exact .pure _
  · split
    · exact .throw _
    · exact .pure _

theorem marshal_local (a : Allocation) : Local (codec.marshal a) := external_local.bind fun _ => .pure _

theorem dbAllocIsFree_local (v : V) : Local (codec.dbAllocIsFree v) := by
  apply (unmarshal_local v).attempt.bind
  intro r
  cases r <;> exact .pure _

theorem createBucketIfNotExists_local (netId : String) : Local (createBucketIfNotExists netId : CallOf V Unit) := by
  apply external_local.bind
  intro _
  split
  · exact .throw _
  · exact ⟨.modify _,.modify fun _ => ⟨rfl,rfl⟩⟩

theorem put_local (netId id : String) (v : V) : Local (put netId id v) := by
  apply external_local.bind
  intro _
  split
  · exact .throw _
  · split
    · exact .throw _
    · exact ⟨.modify _,.modify fun _ => ⟨rfl,rfl⟩⟩

theorem range_local (entries : List β) : Local (range entries : CallOf V (List β)) :=
  ⟨fun _ _ _ => nofun,fun _ => ⟨rfl,rfl⟩⟩

theorem countFree_local (l : List (String × V)) (counter : ℤ) : Local (codec.countFree l counter) := by
  induction l generalizing counter with
  | nil => exact .pure _
  | cons p l ih =>
    apply (dbAllocIsFree_local p.2).bind
    intro b
    cases b <;> exact ih _

theorem countFreeAllocs_local (netId : String) : Local (codec.countFreeAllocs netId) := by
  apply (createBucketIfNotExists_local netId).bind
  intro _
  exact Local.read.bind fun s => countFree_local _ _

theorem takeFree_local (netId box : String) (l : List (String × V)) : Local (codec.takeFree netId box l) := by
  induction l with
  | nil => exact .pure _
  | cons p l ih =>
    apply (dbAllocIsFree_local p.2).bind
    intro b
    cases b with
    | true =>
      apply (unmarshal_local p.2).bind
      intro a
      apply (marshal_local _).bind
      intro v
      exact (put_local _ _ v).bind fun _ => .pure _
    | false => exact ih

theorem store_local (netId id : String) (a : Allocation) :
    Local (do let value ← codec.marshal a; put netId id value : CallOf V Unit) :=
  (marshal_local a).bind fun v => put_local netId id v

theorem storeTaking_local (netId box : String) (gotcha : Option Allocation) (l : List (String × Allocation)) :
    Local (codec.storeTaking netId box gotcha l) := by
  induction l generalizing gotcha with
  | nil => cases gotcha <;> exact .pure _
  | cons p l ih =>
    cases gotcha with
    | none =>
      apply (marshal_local _).bind
      intro v
      exact (put_local _ _ v).bind fun _ => ih _
    | some a =>
      apply (marshal_local _).bind
      intro v
      exact (put_local _ _ v).bind fun _ => ih _

theorem storeAll_local (netId : String) (entries : List (String × Allocation)) : Local (codec.storeAll netId entries) :=
  .forM fun p => store_local netId p.1 p.2

theorem initAlloc_local (netId : String) (alloc : Allocation) : Local (codec.initAlloc netId alloc) := by
  apply (createBucketIfNotExists_local netId).bind
  intro _
  apply Local.read.bind
  intro s
  split
  · exact store_local _ _ _
  · exact .pure _

/-! ## Calls that may ask -/

/-- What an allocator answers keeps the calls from panicking. -/
def Answers (c : MtnCfg) (s : StoreOf V) : Prop := answered c.allocbuffer.toNat s.env.replies = true

theorem Answers.of_unasked {c : MtnCfg} {s t : StoreOf V} (h : Unasked s t) (hs : Answers c s) : Answers c t := by
  unfold Answers
  rw [h.replies]
  exact hs

theorem Local.then {c : MtnCfg} {m : CallOf V α} {f : α → CallOf V β} (hm : Local m) (hf : ∀ a, Safe (Answers c) (f a)) :
    Safe (Answers c) (m >>= f) :=
  (hm.safe.mono fun _ _ => trivial).after hm.unasked (fun _ _ => Answers.of_unasked) hf

theorem requestAllocs_safe (c : MtnCfg) (netid : String) :
    Safe (Answers c) (requestAllocs c netid : CallOf V Bucket) := by
  apply external_local.then
  intro _ s hs p hp
  have hn := (requestLoop_panics_iff c netid _ ∅ s).mp ⟨p,hp⟩
  rw [show answered _ _ = true from hs] at hn
  cases hn

theorem transaction_safe {P : StoreOf V → Prop} {body : CallOf V α} {beginErr commitErr : Err → Err} (hb : Safe P body)
    (hP : ∀ s t, Unasked s t → s.env.listing = t.env.listing → P s → P t) :
    Safe P (transaction body beginErr commitErr) := by
  have hext (g : Err → Err) : Safe (fun _ => True) (external.mapError g : CallOf V Unit) := external_local.safe.mapError g
  have hall : Safe P (do external.mapError beginErr; let a ← body; external.mapError commitErr; pure a : CallOf V α) := by
    apply ((hext beginErr).mono fun _ _ => trivial).bind
    · intro s u t hs h
      have he := of_mapError_ok h
      apply hP s t (external_calm.of_eq he).unasked ?_ hs
      unfold external at he
      split at he <;> cases he <;> rfl
    · intro _
      apply hb.seq
      intro a
      exact (hext commitErr).seq fun _ => .pure a
  intro s hs p
  unfold transaction
  split
  · exact nofun
  · rename_i o t h
    have := hall s hs p
    rw [h] at this
    exact this

theorem freeDbAlloc_safe (netId id : String) : Safe (fun _ => True) (codec.freeDbAlloc netId id) := by
  apply transaction_safe ?_ fun _ _ _ _ _ => trivial
  apply Safe.read.seq
  intro s
  split
  · exact .throw _
  split
  · exact .throw _
  · exact (unmarshal_local _).safe.seq fun a => (store_local netId id _).safe

theorem bindAllocs_safe (c : MtnCfg) (netId : String) : Safe (Answers c) (codec.bindAllocs c netId) := by
  unfold Codec.bindAllocs
  split
  · exact .throw _
  apply transaction_safe ?_ fun _ _ h _ => Answers.of_unasked h
  apply (countFreeAllocs_local netId).then
  intro fCount
  split
  · apply (requestAllocs_safe c netId).seq
    intro m
    apply (createBucketIfNotExists_local netId).safe.seq
    intro _
    exact (range_local m.toList).safe.seq fun l => (storeAll_local netId l).safe
  · exact .pure _

theorem getDbAlloc_safe (c : MtnCfg) (netId box : String) : Safe (Answers c) (codec.getDbAlloc c netId box) := by
  apply Local.read.then
  intro s
  split
  · exact .throw _
  apply (takeFree_local netId box _).then
  intro r
  split
  · exact .pure _
  apply (countFreeAllocs_local netId).attempt.then
  intro _
  apply (requestAllocs_safe c netId).seq
  intro m
  apply (createBucketIfNotExists_local netId).safe.seq
  intro _
  apply (range_local m.toList).safe.seq
  intro l
  apply (storeTaking_local netId box none l).safe.seq
  intro r
  cases r with
  | none => exact .throw _
  | some a => exact .pure a

theorem useAlloc_safe (c : MtnCfg) (netId box : String) : Safe (Answers c) (codec.useAlloc c netId box) :=
  transaction_safe (getDbAlloc_safe c netId box) fun _ _ h _ => Answers.of_unasked h

theorem getAllocations_safe (c : MtnCfg) :
    Safe (fun s : StoreOf V => s.env.listing.listable = true) (getAllocations c) := by
  intro s hs p hp
  have hn := (getAllocations_panics_iff c s).mp ⟨p,hp⟩
  rw [hs] at hn
  cases hn

theorem poolInit_safe (c : MtnCfg) : Safe (fun s => s.env.listing.listable = true) (codec.poolInit c) := by
  unfold Codec.poolInit
  split
  · exact .pure _
  apply ((getAllocations_safe c).mapError _).seq
  intro m
  refine transaction_safe ?_ fun _ _ _ _ _ => trivial
  apply (range_local m.toList).safe.seq
  intro nets
  apply Safe.forM
  intro p
  apply Safe.forM
  intro alloc
  exact (initAlloc_local p.1 alloc).safe.mapError _

def Err.isMtnError : Err → Bool
  | .mtnError .. => true
  | .text _ => false

theorem transaction_throws {E : Err → Prop} {body : CallOf V α} {beginErr commitErr : Err → Err} (hb : Throws E body)
    (hbegin : ∀ e, E (beginErr e)) (hcommit : ∀ e, E (commitErr e)) : Throws E (transaction body beginErr commitErr) := by
  have hall : Throws E (do external.mapError beginErr; let a ← body; external.mapError commitErr; pure a : CallOf V α) := by
    apply (Throws.mapError hbegin external).bind
    intro _
    apply hb.bind
    intro a
    exact (Throws.mapError hcommit external).bind fun _ => .pure a
  intro s e he
  unfold transaction at he
  split at he
  · cases he
  · rename_i h
    exact hall s e (by rw [h]; exact he)

theorem poolInit_throws (c : MtnCfg) : Throws (fun e => e.isMtnError = true) (codec.poolInit c) := by
  unfold Codec.poolInit
  split
  · exact .pure _
  refine Throws.bind (Throws.mapError ?_ _) fun m => transaction_throws ?_ (fun _ => rfl) fun _ => rfl
  · exact fun _ => rfl
  have hr : Throws (fun e => e.isMtnError = true) (range m.toList : CallOf V _) := fun _ _ => nofun
  apply hr.bind
  intro nets
  apply Throws.forM
  intro p
  apply Throws.forM
  intro alloc
  apply Throws.mapError
  exact fun _ => rfl

theorem newDaemon_safe (now configuration : String) (c : MtnCfg) (cfgInited allowLocalState : Bool) :
    Safe (fun s => s.env.listing.listable = true) (newDaemon now configuration c cfgInited allowLocalState) := by
  unfold newDaemon
  split
  · exact .throw _
  intro s hs
  rcases hp : poolInit c s with ⟨o,t⟩
  cases o with
  | ok u =>
    rw [bind_ok (attempt_ok hp)]
    exact fun _ => nofun
  | error e =>
    rw [bind_ok (attempt_error hp)]
    cases e with
    | mtnError err errno =>
      dsimp only
      split
      · exact fun _ => nofun
      · exact fun _ => nofun
    | text err =>
      have herr : (poolInit c s).1 = .error (.text err) := by rw [hp]
      cases poolInit_throws c s (.text err) herr
  | panic p =>
    have hn : (poolInit c s).1 = .panic p := by rw [hp]
    exact (poolInit_safe c s hs p hn).elim

theorem poolInit_panics {c : MtnCfg} {s : Store} (hc : c.enable = true) (hl : s.env.listing.listable = false) :
    ∃ p t, poolInit c s = (.panic p,t) := by
  obtain ⟨p,hp⟩ := (getAllocations_panics_iff c s).mpr hl
  rcases hg : getAllocations c s with ⟨r,t⟩
  rw [hg] at hp
  dsimp only at hp
  subst hp
  refine ⟨p,t,?_⟩
  rw [poolInit, Codec.poolInit, if_neg (by simp [hc])]
  exact bind_panic (mapError_panic hg) _

theorem newDaemon_of_disabled {c : MtnCfg} (h : c.enable = false) (now configuration : String) (allowLocalState : Bool) (s : Store) :
    newDaemon now configuration c true allowLocalState s = (.ok (),s) := by
  have hpool : poolInit c s = (.ok (),s) := by
    rw [poolInit, Codec.poolInit, if_pos h]
    rfl
  rw [newDaemon, if_neg (by simp), bind_ok (attempt_ok hpool)]
  rfl

theorem newDaemon_panics_iff (now configuration : String) (c : MtnCfg) (cfgInited allowLocalState : Bool) (s : Store) :
    (∃ p, (newDaemon now configuration c cfgInited allowLocalState s).1 = .panic p) ↔
      cfgInited = true ∧ c.enable = true ∧ s.env.listing.listable = false := by
  constructor
  · rintro ⟨p,hp⟩
    have hl : s.env.listing.listable = false := by
      by_contra hl
      exact newDaemon_safe now configuration c cfgInited allowLocalState s (by simpa using hl) p hp
    cases cfgInited with
    | false => cases hp
    | true =>
      refine ⟨rfl,?_,hl⟩
      by_contra hc
      rw [newDaemon_of_disabled (by simpa using hc)] at hp
      cases hp
  · rintro ⟨rfl,hc,hl⟩
    obtain ⟨p,t,hp⟩ := poolInit_panics hc hl
    refine ⟨p,?_⟩
    rw [newDaemon, if_neg (by simp), bind_panic (attempt_panic hp)]

/-! ## What a failed request amounts to -/

theorem bindAllocs_delivered {c : MtnCfg} {netId : String} {s t : StoreOf V} {u : Unit}
    (h : codec.bindAllocs c netId s = (.ok u,t)) : Unasked s t ∨ delivered c.allocbuffer.toNat s.env.replies = true := by
  cases (bindAllocs_ok h).2 with
  | enough _ _ hun => exact Or.inl hun
  | refilled _ hrec _ _ _ _ => exact Or.inr (delivered_of_received hrec)

theorem useAlloc_delivered {c : MtnCfg} {netId box : String} {a : Allocation} {s t : StoreOf V}
    (h : codec.useAlloc c netId box s = (.ok a,t)) : Unasked s t ∨ delivered c.allocbuffer.toNat s.env.replies = true := by
  cases (useAlloc_ok h).2 with
  | stored _ _ _ _ _ hun => exact Or.inl hun
  | requested _ _ hrec _ _ _ _ => exact Or.inr (delivered_of_received hrec)

theorem poolInit_unlisted {c : MtnCfg} {e : Err} {s t : Store} (hc : c.enable = true)
    (h : getAllocations c s = (.error e,t)) :
    poolInit c s = (.error (.mtnError (sprint "Cant init pool inside PoolInit(), err: %s" e) .ErrIpbr),t) := by
  rw [poolInit, Codec.poolInit, if_neg (by simp [hc]), bind_error (mapError_error h)]

/-- Every failure of the allocator comes back as an error, with the database as it was;
from `PoolInit` as one that lets `daemon.New` go on. -/
structure ErrorsOnly (c : MtnCfg) (netId box : String) (s : Store) : Prop where
  getAllocations : ∀ p, (getAllocations c s).1 ≠ .panic p
  requestAllocs : ∀ p, (requestAllocs c netId s).1 ≠ .panic p
  poolInit : ∀ p, (poolInit c s).1 ≠ .panic p
  bindAllocs : ∀ p, (bindAllocs c netId s).1 ≠ .panic p
  useAlloc : ∀ p, (useAlloc c netId box s).1 ≠ .panic p
  unlisted : ∀ e t, c.enable = true → Mtn.getAllocations c s = (.error e,t) →
    ∃ err, Mtn.poolInit c s = (.error (.mtnError err .ErrIpbr),t) ∧ t.db = s.db ∧
      ∀ now configuration, newDaemon now configuration c true true s = (.ok (),t)
  newDaemon : ∀ now configuration cfgInited allowLocalState p,
    (newDaemon now configuration c cfgInited allowLocalState s).1 ≠ .panic p
  bound : ∀ o t, Mtn.bindAllocs c netId s = (o,t) →
    (o = .ok () ∧ (Unasked s t ∨ delivered c.allocbuffer.toNat s.env.replies = true)) ∨
    ∃ e, o = .error e ∧ t.db = s.db
  used : ∀ o t, Mtn.useAlloc c netId box s = (o,t) →
    (∃ a, o = .ok a ∧ (Unasked s t ∨ delivered c.allocbuffer.toNat s.env.replies = true)) ∨
    ∃ e, o = .error e ∧ t.db = s.db

theorem errorsOnly_of_answers {c : MtnCfg} {netId box : String} {s : Store} (hl : s.env.listing.listable = true)
    (ha : Answers c s) : ErrorsOnly c netId box s where
  getAllocations := getAllocations_safe c s hl
  requestAllocs := requestAllocs_safe c netId s ha
  poolInit := poolInit_safe c s hl
  bindAllocs := bindAllocs_safe c netId s ha
  useAlloc := useAlloc_safe c netId box s ha
  unlisted e t hc h := by
    have hp := poolInit_unlisted hc h
    refine ⟨_,hp,(getAllocations_sameDb c).of_eq h,?_⟩
    intro now configuration
    unfold newDaemon
    rw [if_neg (by simp), bind_ok (attempt_error hp)]
    simp [pure_apply]
  newDaemon now configuration cfgInited allowLocalState := newDaemon_safe now configuration c cfgInited allowLocalState s hl
  bound o t h := by
    cases o with
    | ok u => exact Or.inl ⟨rfl,bindAllocs_delivered h⟩
    | error e => exact Or.inr ⟨e,rfl,bindAllocs_fails c netId s _ t h nofun⟩
    | panic p =>
      have hp : (Mtn.bindAllocs c netId s).1 = .panic p := by rw [h]
      exact (bindAllocs_safe c netId s ha p hp).elim
  used o t h := by
    cases o with
    | ok a => exact Or.inl ⟨a,rfl,useAlloc_delivered h⟩
    | error e => exact Or.inr ⟨e,rfl,transaction_fails s _ t h nofun⟩
    | panic p =>
      have hp : (Mtn.useAlloc c netId box s).1 = .panic p := by rw [h]
      exact (useAlloc_safe c netId box s ha p hp).elim

/-- Whatever the database and the calls of bolt do: the failures of the allocator are
errors exactly if every request that is made has a response. -/
theorem errorsOnly_iff_answered (c : MtnCfg) (netId box : String) (listing : Exchange (List RawAlloc))
    (replies : List (Exchange RawAlloc)) :
    (∀ s : Store, s.env.listing = listing → s.env.replies = replies → ErrorsOnly c netId box s) ↔
      listing.listable = true ∧ answered c.allocbuffer.toNat replies = true := by
  constructor
  · intro h
    have he := h ⟨∅,⟨[],listing,replies,[],[]⟩⟩ rfl rfl
    refine ⟨?_,?_⟩
    · by_contra hn
      obtain ⟨p,hp⟩ := (getAllocations_panics_iff c ⟨∅,⟨[],listing,replies,[],[]⟩⟩).mpr
        (Bool.eq_false_of_not_eq_true hn)
      exact he.getAllocations p hp
    · by_contra hn
      obtain ⟨p,hp⟩ := (requestLoop_panics_iff c netId _ ∅ ⟨∅,⟨[],listing,replies,[],[]⟩⟩).mpr
        (Bool.eq_false_of_not_eq_true hn)
      exact he.requestAllocs p hp
  · rintro ⟨hl,ha⟩ s rfl rfl
    exact errorsOnly_of_answers hl ha

/-- The allocator cannot be reached when the pool is set up. -/
theorem getAllocations_unreachable :
    (getAllocations ⟨true,1,"http://ipbroker","host","host",[]⟩
      (⟨∅,⟨[],.doError "dial tcp: connection refused" none,[],[],[]⟩⟩ : Store)).1 = .panic nilDereference ∧
    ¬∀ s : Store, s.env.listing = .doError "dial tcp: connection refused" none → s.env.replies = [] →
      ErrorsOnly ⟨true,1,"http://ipbroker","host","host",[]⟩ "lan" "porto" s := by
  refine ⟨rfl,?_⟩
  intro h
  exact (h ⟨∅,⟨[],.doError "dial tcp: connection refused" none,[],[],[]⟩⟩ rfl rfl).getAllocations nilDereference rfl

end Stout.Mtn
