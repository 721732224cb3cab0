import Stout.Isolate.Sessions

/-! # Channels of a connection

The loop of `HandleConn` over arbitrary dispatchers. The streams are numbered in the
order in which `newDispatcher` was called, each session in the table is kept with the
number of its stream, and the callback of a stream may run at any time and any number
of times, whatever the loop is doing.
-/
namespace Stout.Isolate.Channels
variable {δ : Type}

/-- What `Handle` returns: the next dispatcher, nil, `ErrInvalidArgsNum` or another
error. -/
inductive Result (δ : Type) where
  | next (dispatcher : δ)
  | nil
  | errInvalidArgsNum
  | error
deriving DecidableEq, Repr

structure Session (δ : Type) where
  stream : ℕ
  dispatcher : δ
deriving DecidableEq, Repr

inductive Loop (δ : Type) where
  | head
  | received (channel : ℕ)
  | dispatching (channel : ℕ) (session : Session δ)
  | settling (channel stream : ℕ) (result : Result δ)
  | returned
deriving DecidableEq, Repr

def Loop.channel : Loop δ → Option ℕ
  | .received c | .dispatching c _ | .settling c _ _ => some c
  | .head | .returned => none

structure State (δ : Type) where
  session : ℕ → Option (Session δ)
  highestChannel : ℕ
  /-- the channels `newDispatcher` was called for, in order -/
  opened : List ℕ
  loop : Loop δ

def initial : State δ := ⟨fun _ => none,0,[],.head⟩

inductive Label (δ : Type) where
  | frame (channel : ℕ)
  | readError
  | get
  | handled (result : Result δ)
  | settle
  | close (stream : ℕ)
deriving DecidableEq, Repr

def State.attach (s : State δ) (channel : ℕ) (e : Session δ) : State δ :=
  { s with session := Function.update s.session channel (some e) }

def State.detach (s : State δ) (channel : ℕ) : State δ :=
  { s with session := Function.update s.session channel none }

/-- `Get`; a channel above all before it gets a stream and a dispatcher. -/
def State.get (newDispatcher : ℕ → δ) (s : State δ) (channel : ℕ) : State δ :=
  match s.session channel with
  | some e => { s with loop := .dispatching channel e }
  | none =>
    if channel ≤ s.highestChannel then { s with loop := .head }
    else { s with
      highestChannel := channel
      opened := s.opened ++ [channel]
      loop := .dispatching channel ⟨s.opened.length,newDispatcher channel⟩ }

def State.settle (s : State δ) (channel stream : ℕ) : Result δ → State δ
  | .errInvalidArgsNum => { s with loop := .returned }
  | .error | .nil => { s.detach channel with loop := .head }
  | .next d => { s.attach channel ⟨stream,d⟩ with loop := .head }

def step (newDispatcher : ℕ → δ) (s : State δ) : Label δ → Option (State δ)
  | .frame c =>
    match s.loop with
    | .head => some { s with loop := .received c }
    | _ => none
  | .readError =>
    match s.loop with
    | .head => some { s with loop := .returned }
    | _ => none
  | .get =>
    match s.loop with
    | .received c => some (s.get newDispatcher c)
    | _ => none
  | .handled r =>
    match s.loop with
    | .dispatching c e => some { s with loop := .settling c e.stream r }
    | _ => none
  | .settle =>
    match s.loop with
    | .settling c k r => some (s.settle c k r)
    | _ => none
  -- `rs.OnClose` has captured the channel its stream was made for
  | .close k => (s.opened[k]?).map s.detach

/-! ## What a step can do -/

/-- The moves of the loop, one for each branch of its body, and the callback. -/
inductive Moves (newDispatcher : ℕ → δ) (s : State δ) : Label δ → State δ → Prop
  | frame (c : ℕ) : s.loop = .head → Moves newDispatcher s (.frame c) { s with loop := .received c }
  | readError : s.loop = .head → Moves newDispatcher s .readError { s with loop := .returned }
  | found {c : ℕ} {e : Session δ} : s.loop = .received c → s.session c = some e →
      Moves newDispatcher s .get { s with loop := .dispatching c e }
  | detached {c : ℕ} : s.loop = .received c → s.session c = none → c ≤ s.highestChannel →
      Moves newDispatcher s .get { s with loop := .head }
  | opened {c : ℕ} : s.loop = .received c → s.session c = none → s.highestChannel < c →
      Moves newDispatcher s .get { s with
        highestChannel := c
        opened := s.opened ++ [c]
        loop := .dispatching c ⟨s.opened.length,newDispatcher c⟩ }
  | handled {c : ℕ} {e : Session δ} (r : Result δ) : s.loop = .dispatching c e →
      Moves newDispatcher s (.handled r) { s with loop := .settling c e.stream r }
  | returned {c k : ℕ} : s.loop = .settling c k .errInvalidArgsNum →
      Moves newDispatcher s .settle { s with loop := .returned }
  | dropped {c k : ℕ} {r : Result δ} : s.loop = .settling c k r → r = .error ∨ r = .nil →
      Moves newDispatcher s .settle { s.detach c with loop := .head }
  | attached {c k : ℕ} {d : δ} : s.loop = .settling c k (.next d) →
      Moves newDispatcher s .settle { s.attach c ⟨k,d⟩ with loop := .head }
  | close {c k : ℕ} : s.opened[k]? = some c → Moves newDispatcher s (.close k) (s.detach c)

theorem moves_of_step {newDispatcher : ℕ → δ} {s t : State δ} {l : Label δ} (h : step newDispatcher s l = some t) :
    Moves newDispatcher s l t := by
  cases l with
  | frame c =>
    cases hl : s.loop <;> simp only [step, hl, reduceCtorEq] at h
    cases h
    exact .frame c hl
  | readError =>
    cases hl : s.loop <;> simp only [step, hl, reduceCtorEq] at h
    cases h
    exact .readError hl
  | get =>
    cases hl : s.loop <;> simp only [step, hl, reduceCtorEq] at h
    rename_i c
    cases h
    cases hs : s.session c with
    | some e => simpa only [State.get, hs] using Moves.found hl hs
    | none =>
      by_cases hc : c ≤ s.highestChannel
      · simpa only [State.get, hs, if_pos hc] using Moves.detached hl hs hc
      · simpa only [State.get, hs, if_neg hc] using Moves.opened hl hs (by omega)
  | handled r =>
    cases hl : s.loop <;> simp only [step, hl, reduceCtorEq] at h
    cases h
    exact .handled r hl
  | settle =>
    cases hl : s.loop <;> simp only [step, hl, reduceCtorEq] at h
    rename_i c k r
    cases h
    cases r with
    | next d => exact .attached hl
    | nil => exact .dropped hl (.inr rfl)
    | errInvalidArgsNum => exact .returned hl
    | error => exact .dropped hl (.inl rfl)
  | close k =>
    obtain ⟨c,hc,rfl⟩ := Option.map_eq_some_iff.mp h
    exact .close hc

/-! ## The table along a run -/

def LoopOpened (s : State δ) : Prop :=
  match s.loop with
  | .dispatching c e => s.opened[e.stream]? = some c
  | .settling c k _ => s.opened[k]? = some c
  | _ => True

structure Inv (s : State δ) : Prop where
  increasing : s.opened.Pairwise (· < ·)
  bounded : ∀ c ∈ s.opened, c ≤ s.highestChannel
  attached : ∀ c e, s.session c = some e → s.opened[e.stream]? = some c
  loop : LoopOpened s

theorem inv_initial : Inv (initial : State δ) := ⟨.nil,nofun,nofun,trivial⟩

theorem Inv.detach {s : State δ} (hs : Inv s) (c : ℕ) : Inv (s.detach c) := by
  refine ⟨hs.increasing,hs.bounded,?_,hs.loop⟩
  intro c' e he
  by_cases hc : c' = c
  · subst hc
    simp [State.detach] at he
  · apply hs.attached c' e
    simpa [State.detach, Function.update_of_ne hc] using he

theorem Inv.attach {s : State δ} (hs : Inv s) {c k : ℕ} (hk : s.opened[k]? = some c) (d : δ) :
    Inv (s.attach c ⟨k,d⟩) := by
  refine ⟨hs.increasing,hs.bounded,?_,hs.loop⟩
  intro c' e he
  by_cases hc : c' = c
  · subst hc
    have hd : (⟨k,d⟩ : Session δ) = e := by simpa [State.attach] using he
    rw [← hd]
    exact hk
  · apply hs.attached c' e
    simpa [State.attach, Function.update_of_ne hc] using he

theorem Inv.opened {s : State δ} (hs : Inv s) {c : ℕ} (hc : s.highestChannel < c) (d : δ) :
    Inv { s with
      highestChannel := c
      opened := s.opened ++ [c]
      loop := .dispatching c ⟨s.opened.length,d⟩ } := by
  have hlow : ∀ c' ∈ s.opened, c' < c := fun c' hc' => (hs.bounded c' hc').trans_lt hc
  refine ⟨?_,?_,?_,?_⟩
  · refine List.pairwise_append.mpr ⟨hs.increasing,List.pairwise_singleton _ c,?_⟩
    intro c' hc' c'' hc''
    rw [List.mem_singleton.mp hc'']
    exact hlow c' hc'
  · intro c' hc'
    rcases List.mem_append.mp hc' with hc' | hc'
    · exact (hlow c' hc').le
    · exact (List.mem_singleton.mp hc').le
  · intro c' e he
    have ha := hs.attached c' e he
    exact (List.getElem?_append_left (List.getElem?_eq_some_iff.mp ha).1).trans ha
  · exact List.getElem?_concat_length

theorem step_inv {newDispatcher : ℕ → δ} (s : State δ) (l : Label δ) (t : State δ) (hs : Inv s)
    (h : step newDispatcher s l = some t) : Inv t := by
  have hloop := hs.loop
  unfold LoopOpened at hloop
  cases moves_of_step h with
  | frame c hl => exact ⟨hs.increasing,hs.bounded,hs.attached,trivial⟩
  | readError hl => exact ⟨hs.increasing,hs.bounded,hs.attached,trivial⟩
  | found hl he => exact ⟨hs.increasing,hs.bounded,hs.attached,hs.attached _ _ he⟩
  | detached hl hn hc => exact ⟨hs.increasing,hs.bounded,hs.attached,trivial⟩
  | opened hl hn hc => exact hs.opened hc _
  | handled r hl =>
    rw [hl] at hloop
    exact ⟨hs.increasing,hs.bounded,hs.attached,hloop⟩
  | returned hl => exact ⟨hs.increasing,hs.bounded,hs.attached,trivial⟩
  | @dropped c k r hl hr =>
    have hd := hs.detach c
    exact ⟨hd.increasing,hd.bounded,hd.attached,trivial⟩
  | @attached c k d hl =>
    rw [hl] at hloop
    have ha := hs.attach hloop d
    exact ⟨ha.increasing,ha.bounded,ha.attached,trivial⟩
  | close hc => exact hs.detach _

theorem runs_inv {newDispatcher : ℕ → δ} {ls : List (Label δ)} {s : State δ} (h : Runs (step newDispatcher) initial ls s) :
    Inv s := h.invariant step_inv inv_initial

/-- Two streams never share a channel. -/
theorem Inv.stream_unique {s : State δ} (hs : Inv s) {c k k' : ℕ} (hk : s.opened[k]? = some c)
    (hk' : s.opened[k']? = some c) : k = k' := by
  have hn : s.opened.Nodup := hs.increasing.imp (fun h => h.ne)
  exact (List.getElem?_inj (List.getElem?_eq_some_iff.mp hk).1 hn).mp (hk.trans hk'.symm)

theorem detach_session_ne (s : State δ) {c c' : ℕ} (hc : c' ≠ c) : (s.detach c).session c' = s.session c' :=
  Function.update_of_ne hc _ _

theorem attach_session_ne (s : State δ) {c c' : ℕ} (hc : c' ≠ c) (e : Session δ) :
    (s.attach c e).session c' = s.session c' :=
  Function.update_of_ne hc _ _

theorem step_highestChannel {newDispatcher : ℕ → δ} {s t : State δ} {l : Label δ}
    (h : step newDispatcher s l = some t) : s.highestChannel ≤ t.highestChannel := by
  cases moves_of_step h with
  | opened hl hn hc => exact hc.le
  | _ => exact le_rfl

/-- A step of the loop changes the entry of the channel it is at, or none. -/
theorem step_session {newDispatcher : ℕ → δ} {s t : State δ} {l : Label δ} (h : step newDispatcher s l = some t)
    {c : ℕ} (hc : s.loop.channel ≠ some c) (hl : ∀ k, l ≠ .close k) : t.session c = s.session c := by
  cases moves_of_step h with
  | dropped hloop hr =>
    rw [hloop] at hc
    exact detach_session_ne s (fun h => hc (congrArg some h.symm))
  | attached hloop =>
    rw [hloop] at hc
    exact attach_session_ne s (fun h => hc (congrArg some h.symm)) _
  | @close c k hk => exact absurd rfl (hl k)
  | _ => rfl

/-- A callback changes nothing but the entry of its own stream, which it removes. -/
theorem close_session {newDispatcher : ℕ → δ} {s t : State δ} {k : ℕ} (hs : Inv s)
    (h : step newDispatcher s (.close k) = some t) (c : ℕ) :
    t.session c = s.session c ∨ t.session c = none ∧ ∃ e, s.session c = some e ∧ e.stream = k := by
  obtain ⟨c',hc',rfl⟩ := Option.map_eq_some_iff.mp h
  by_cases hc : c = c'
  · subst hc
    have hd : (s.detach c).session c = none := by simp [State.detach]
    cases he : s.session c with
    | none => exact .inl hd
    | some e => exact .inr ⟨hd,e,rfl,hs.stream_unique (hs.attached c e he) hc'⟩
  · exact .inl (detach_session_ne s hc)

/-- In every state a connection reaches, the channels `newDispatcher` was called for
increase strictly, and every session in the table belongs to such a call, for its own
channel, and lies at or below `highestChannel`. Every step from there keeps
`highestChannel` or raises it; a frame touches the entry of its own channel only, and a
callback removes at most the session of its own stream. -/
theorem channels_opened_in_order {newDispatcher : ℕ → δ} {ls : List (Label δ)} {s : State δ}
    (h : Runs (step newDispatcher) initial ls s) :
    s.opened.Pairwise (· < ·) ∧
    (∀ c e, s.session c = some e → c ≤ s.highestChannel ∧ s.opened[e.stream]? = some c) ∧
    ∀ l t, step newDispatcher s l = some t →
      s.highestChannel ≤ t.highestChannel ∧
      (∀ c, s.loop.channel ≠ some c → (∀ k, l ≠ .close k) → t.session c = s.session c) ∧
      ∀ k, l = .close k → ∀ c, t.session c = s.session c ∨
        t.session c = none ∧ ∃ e, s.session c = some e ∧ e.stream = k := by
  have hs := runs_inv h
  refine ⟨hs.increasing,?_,?_⟩
  · intro c e he
    have ho := hs.attached c e he
    exact ⟨hs.bounded c (List.mem_of_getElem? ho),ho⟩
  · intro l t ht
    refine ⟨step_highestChannel ht,fun c hc hl => step_session ht hc hl,?_⟩
    rintro k rfl c
    exact close_session hs ht c

/-- Channel 5 is opened, ends and is written to again, and channel 7 is opened; then
the callback of channel 5 runs a second time. -/
def lateClose : List (Label Unit) :=
  [.frame 5,.get,.handled (.next ()),.settle,.close 0,.frame 5,.get,.frame 7,.get,.handled (.next ()),.settle,.close 0]

theorem channels_lateClose :
    ∃ s, Runs (step (fun _ => ())) initial lateClose s ∧ s.opened = [5,7] ∧ s.session 7 = some ⟨1,()⟩ ∧
      s.opened.Pairwise (· < ·) ∧ (∀ c e, s.session c = some e → c ≤ s.highestChannel ∧ s.opened[e.stream]? = some c) := by
  have hr : (run (step (fun _ => ())) (initial : State Unit) lateClose).map (fun s => (s.opened,s.session 7)) =
      some ([5,7],some ⟨1,()⟩) := by decide +kernel
  obtain ⟨s,hs,ho⟩ := Option.map_eq_some_iff.mp hr
  have hruns := Runs.of_run hs
  have hall := channels_opened_in_order hruns
  exact ⟨s,hruns,congrArg Prod.fst ho,congrArg Prod.snd ho,hall.1,hall.2.1⟩

/-! ## The handler of the repository

`Sessions` is the same loop with the dispatchers of `isolate/initialdispatch.go` and the
goroutines they start. Each of its steps is a run here: a terminal reply, of `Handle`
itself or of a goroutine, is a callback.
-/
section Sessions
open Msgpack
variable {boxes : Bytes → Bool}

def resultOf : Except HandleError (Option Dispatcher) → Result Dispatcher
  | .error .errInvalidArgsNum => .errInvalidArgsNum
  | .error _ => .error
  | .ok none => .nil
  | .ok (some d) => .next d

/-- The places of the two loops agree, on the same channel and with a dispatcher for
that channel. -/
inductive SameLoop : Sessions.Loop → Loop Dispatcher → Prop
  | head : SameLoop .head .head
  | received (hasHeaders : Bool) (channel number : ℕ) : SameLoop (.received hasHeaders channel number) (.received channel)
  | dispatching (hasHeaders : Bool) (number stream : ℕ) (d : Dispatcher) :
      SameLoop (.dispatching hasHeaders d.stream number d) (.dispatching d.stream ⟨stream,d⟩)
  | settling (channel stream : ℕ) (result : Except HandleError (Option Dispatcher)) :
      (∀ d, result = .ok (some d) → d.stream = channel) →
      SameLoop (.settling channel result) (.settling channel stream (resultOf result))
  | returned : SameLoop .returned .returned

def State.handler (s : State Dispatcher) : Handler :=
  ⟨fun c => (s.session c).map Session.dispatcher,s.highestChannel⟩

structure Simulates (s : Sessions.State) (a : State Dispatcher) : Prop where
  handler : s.handler = a.handler
  loop : SameLoop s.loop a.loop
  stream : ∀ c e, a.session c = some e → e.dispatcher.stream = c
  goroutines : ∀ g ∈ s.goroutines, g.stream ∈ a.opened

theorem handler_detach (a : State Dispatcher) (c : ℕ) : (a.detach c).handler = a.handler.detach c := by
  unfold State.handler State.detach Handler.detach
  congr 1
  funext c'
  by_cases hc : c' = c
  · subst hc
    simp
  · simp [Function.update_of_ne hc]

theorem handler_attach (a : State Dispatcher) (c k : ℕ) (d : Dispatcher) :
    (a.attach c ⟨k,d⟩).handler = a.handler.attach c d := by
  unfold State.handler State.attach Handler.attach
  congr 1
  funext c'
  by_cases hc : c' = c
  · subst hc
    simp
  · simp [Function.update_of_ne hc]

theorem stream_detach {a : State Dispatcher} (h : ∀ c e, a.session c = some e → e.dispatcher.stream = c) (c : ℕ) :
    ∀ c' e, (a.detach c).session c' = some e → e.dispatcher.stream = c' := by
  intro c' e he
  by_cases hc : c' = c
  · subst hc
    simp [State.detach] at he
  · exact h c' e ((detach_session_ne a hc).symm.trans he)

theorem runs_replied {a : State Dispatcher} {c k : ℕ} (hk : a.opened[k]? = some c)
    (hst : ∀ c e, a.session c = some e → e.dispatcher.stream = c) (effects : List Effect) :
    ∃ ls b, Runs (step Dispatcher.initialDispatch) a ls b ∧ b.handler = a.handler.replied c effects ∧
      b.opened = a.opened ∧ b.loop = a.loop ∧ ∀ c e, b.session c = some e → e.dispatcher.stream = c := by
  induction effects generalizing a with
  | nil => exact ⟨[],a,.refl a,rfl,rfl,rfl,hst⟩
  | cons e effects ih =>
    by_cases ht : Sessions.repliedBy c e = []
    · obtain ⟨ls,b,hr,hh,hrest⟩ := ih hk hst
      refine ⟨ls,b,hr,hh.trans ?_,hrest⟩
      cases e with
      | reply call =>
        have hf : call.terminal = false := by
          by_contra hc
          rw [Bool.not_eq_false] at hc
          simp [Sessions.repliedBy, hc] at ht
        simp [Handler.replied, hf]
      | _ => rfl
    · have hone : a.handler.replied c (e :: effects) = (a.detach c).handler.replied c effects := by
        rw [handler_detach]
        cases e with
        | reply call =>
          have hc : call.terminal = true := by
            by_contra hc
            simp [Sessions.repliedBy, hc] at ht
          simp [Handler.replied, hc]
        | _ => exact absurd rfl ht
      have hclose : step Dispatcher.initialDispatch a (.close k) = some (a.detach c) := by
        simp only [step, hk, Option.map_some]
      obtain ⟨ls,b,hr,hh,hrest⟩ := ih (a := a.detach c) hk (stream_detach hst c)
      exact ⟨.close k :: ls,b,.step hclose hr,hh.trans hone.symm,hrest⟩

theorem Simulates.read {s t : Sessions.State} {a : State Dispatcher} (h : Simulates s a) (hr : s.read = some t) :
    ∃ ls b, Runs (step Dispatcher.initialDispatch) a ls b ∧ Simulates t b := by
  have hl := h.loop
  unfold Sessions.State.read at hr
  split at hr
  · rename_i hhead
    rw [hhead] at hl
    generalize hal : a.loop = al at hl
    cases hl
    cases hn : next s.input with
    | error e r =>
      simp only [hn] at hr
      cases hr
      have hstep : step Dispatcher.initialDispatch a .readError = some { a with loop := .returned } := by
        simp only [step, hal]
      exact ⟨[.readError],_,.single hstep,h.handler,.returned,h.stream,h.goroutines⟩
    | ok p r =>
      obtain ⟨hasHeaders,channel,number⟩ := p
      simp only [hn] at hr
      cases hr
      have hstep : step Dispatcher.initialDispatch a (.frame channel) = some { a with loop := .received channel } := by
        simp only [step, hal]
      exact ⟨[.frame channel],_,.single hstep,h.handler,.received _ _ _,h.stream,h.goroutines⟩
  · cases hr

theorem Simulates.get {s t : Sessions.State} {a : State Dispatcher} (h : Simulates s a) (hg : s.get = some t) :
    ∃ ls b, Runs (step Dispatcher.initialDispatch) a ls b ∧ Simulates t b := by
  have hl := h.loop
  unfold Sessions.State.get at hg
  split at hg
  · rename_i hasHeaders channel number hloop
    rw [hloop] at hl
    generalize hal : a.loop = al at hl
    cases hl
    have hstep : step Dispatcher.initialDispatch a .get = some (a.get Dispatcher.initialDispatch channel) := by
      simp only [step, hal]
    refine ⟨[.get],_,.single hstep,?_⟩
    rw [h.handler] at hg
    cases he : a.session channel with
    | some e =>
      obtain ⟨k,d⟩ := e
      have hst : d.stream = channel := h.stream channel _ he
      subst hst
      have hd : a.handler.dispatcher d.stream = some (d,a.handler) := by
        simp [Handler.dispatcher, State.handler, he]
      simp only [hd] at hg
      cases hg
      simp only [State.get, he]
      exact ⟨rfl,.dispatching _ _ _ _,h.stream,h.goroutines⟩
    | none =>
      by_cases hc : channel ≤ a.highestChannel
      · have hd : a.handler.dispatcher channel = none := by
          simp [Handler.dispatcher, State.handler, he, hc]
        simp only [hd] at hg
        cases hg
        simp only [State.get, he, if_pos hc]
        exact ⟨rfl,.head,h.stream,h.goroutines⟩
      · have hd : a.handler.dispatcher channel =
            some (.initialDispatch channel,{ a.handler with highestChannel := channel }) := by
          simp [Handler.dispatcher, State.handler, he, hc]
        simp only [hd] at hg
        cases hg
        simp only [State.get, he, if_neg hc]
        refine ⟨rfl,.dispatching _ _ _ (.initialDispatch channel),h.stream,?_⟩
        intro g hg
        exact List.mem_append_left _ (h.goroutines g hg)
  · cases hg

theorem Simulates.handle {s t : Sessions.State} {a : State Dispatcher} (h : Simulates s a) (ha : Inv a)
    (hh : s.handle boxes = some t) :
    ∃ ls b, Runs (step Dispatcher.initialDispatch) a ls b ∧ Simulates t b := by
  have hl := h.loop
  have ho := ha.loop
  unfold Sessions.State.handle at hh
  split at hh
  · rename_i hasHeaders channel number d hloop
    cases hh
    rw [hloop] at hl
    generalize hal : a.loop = al at hl
    cases hl with
    | dispatching _ _ stream _ =>
      unfold LoopOpened at ho
      rw [hal] at ho
      obtain ⟨ls,b,hr,hb,hopened,hbl,hst⟩ := runs_replied ho h.stream (d.handle boxes number s.input).effects
      have hstep : step Dispatcher.initialDispatch b (.handled (resultOf (d.handle boxes number s.input).result)) =
          some { b with loop := .settling d.stream stream (resultOf (d.handle boxes number s.input).result) } := by
        simp only [step, hbl, hal]
      refine ⟨ls ++ [_],_,hr.append (.single hstep),?_,.settling _ _ _ ?_,hst,?_⟩
      · dsimp only
        rw [h.handler]
        exact hb.symm
      · intro d' hd'
        exact (Sessions.handle_some hd').2.1
      · intro g hg
        dsimp only
        rw [hopened]
        rcases List.mem_append.mp hg with hg | hg
        · exact h.goroutines g hg
        · rw [Sessions.started_stream hg]
          exact List.mem_of_getElem? ho
  · cases hh

theorem Simulates.settle {s t : Sessions.State} {a : State Dispatcher} (h : Simulates s a) (hs : s.settle = some t) :
    ∃ ls b, Runs (step Dispatcher.initialDispatch) a ls b ∧ Simulates t b := by
  have hl := h.loop
  unfold Sessions.State.settle at hs
  split at hs
  · rename_i channel result hloop
    rw [hloop] at hl
    generalize hal : a.loop = al at hl
    cases hl with
    | settling _ stream _ hres =>
      have hstep : step Dispatcher.initialDispatch a .settle = some (a.settle channel stream (resultOf result)) := by
        simp only [step, hal]
      refine ⟨[.settle],_,.single hstep,?_⟩
      rw [h.handler] at hs
      have hdetach : Simulates { s with loop := .head, handler := a.handler.detach channel }
          { a.detach channel with loop := .head } :=
        ⟨(handler_detach a channel).symm,.head,stream_detach h.stream channel,h.goroutines⟩
      cases result with
      | error e =>
        cases e with
        | errInvalidArgsNum =>
          cases hs
          exact ⟨rfl,.returned,h.stream,h.goroutines⟩
        | _ =>
          cases hs
          exact hdetach
      | ok next =>
        cases next with
        | none =>
          cases hs
          exact hdetach
        | some d =>
          cases hs
          refine ⟨(handler_attach a channel stream d).symm,.head,?_,h.goroutines⟩
          intro c e he
          by_cases hc : c = channel
          · subst hc
            have hd : (⟨stream,d⟩ : Session Dispatcher) = e := by
              simpa [State.settle, resultOf, State.attach] using he
            rw [← hd]
            exact hres d rfl
          · exact h.stream c e ((attach_session_ne a hc _).symm.trans he)
  · cases hs

theorem Simulates.callback {s t : Sessions.State} {a : State Dispatcher} {i : ℕ} (h : Simulates s a)
    (hc : s.callback i = some t) : ∃ ls b, Runs (step Dispatcher.initialDispatch) a ls b ∧ Simulates t b := by
  unfold Sessions.State.callback at hc
  split at hc
  · rename_i c hi
    cases hc
    obtain ⟨k,hk⟩ := List.mem_iff_getElem?.mp (h.goroutines _ (List.mem_of_getElem? hi))
    have hstep : step Dispatcher.initialDispatch a (.close k) = some (a.detach c) := by
      simp only [step, hk, Option.map_some]
    refine ⟨[.close k],_,.single hstep,?_,h.loop,stream_detach h.stream c,?_⟩
    · dsimp only
      rw [h.handler, handler_detach]
    · intro g hg
      obtain ⟨g',hg',hst⟩ := Sessions.mem_set_stream hi hg
      rw [← hst]
      exact h.goroutines g' hg'
  · cases hc

theorem Simulates.write {s t : Sessions.State} {a : State Dispatcher} {i : ℕ} (h : Simulates s a)
    (hw : s.write i = some t) : Simulates t a := by
  unfold Sessions.State.write at hw
  split at hw
  · rename_i c hi
    cases hw
    refine ⟨h.handler,h.loop,h.stream,?_⟩
    intro g hg
    obtain ⟨g',hg',hst⟩ := Sessions.mem_set_stream hi hg
    rw [← hst]
    exact h.goroutines g' hg'
  · cases hw

theorem simulates_step {s t : Sessions.State} {l : Sessions.Label} {a : State Dispatcher} (h : Simulates s a)
    (ha : Inv a) (hs : Sessions.step boxes s l = some t) :
    ∃ ls b, Runs (step Dispatcher.initialDispatch) a ls b ∧ Simulates t b := by
  cases l with
  | read => exact h.read hs
  | get => exact h.get hs
  | handle => exact h.handle ha hs
  | settle => exact h.settle hs
  | write i => exact ⟨[],a,.refl a,h.write hs⟩
  | callback i => exact h.callback hs

theorem sessions_simulated {input : Bytes} {ls : List Sessions.Label} {s : Sessions.State}
    (h : Runs (Sessions.step boxes) (Sessions.initial input) ls s) :
    ∃ ls a, Runs (step Dispatcher.initialDispatch) initial ls a ∧ Simulates s a := by
  have hinit : Simulates (Sessions.initial input) initial := ⟨rfl,.head,nofun,nofun⟩
  apply h.invariant (I := fun s => ∃ ls a, Runs (step Dispatcher.initialDispatch) initial ls a ∧ Simulates s a)
  · rintro s l t ⟨ls,a,hr,hsim⟩ ht
    obtain ⟨ls',b,hr',hb⟩ := simulates_step hsim (runs_inv hr) ht
    exact ⟨ls ++ ls',b,hr.append hr',hb⟩
  · exact ⟨[],initial,.refl _,hinit⟩

/-- The table of the repository's handler holds channels at or below `highestChannel`,
each with a dispatcher that answers on that channel. -/
theorem sessions_bounded {input : Bytes} {ls : List Sessions.Label} {s : Sessions.State}
    (h : Runs (Sessions.step boxes) (Sessions.initial input) ls s) {c : ℕ} {d : Dispatcher}
    (hd : s.handler.session c = some d) : c ≤ s.handler.highestChannel ∧ d.stream = c := by
  obtain ⟨ls,a,hr,hsim⟩ := sessions_simulated h
  have ha := runs_inv hr
  rw [hsim.handler] at hd ⊢
  obtain ⟨e,he,rfl⟩ := Option.map_eq_some_iff.mp hd
  exact ⟨ha.bounded c (List.mem_of_getElem? (ha.attached c e he)),hsim.stream c e he⟩

end Sessions

end Stout.Isolate.Channels
