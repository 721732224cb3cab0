import Stout.Library.Runs
import Stout.Isolate.ConnectionHandler

/-! # Sessions and the streams they belong to

The loop of `HandleConn` beside the goroutines that its `Handle` calls started. A
goroutine may reply on its stream at any time; a terminal reply is a write followed by
the callback that detaches the channel, with the loop free to move in between. The
mutex of the stream only removes interleavings and is left out.
-/
namespace Stout.Isolate.Sessions
open Msgpack

/-- Where the loop is: waiting for a frame, between the frame and the lookup of its
channel, between the lookup and `Handle`, between `Handle` and what is done with its
result, or out of the loop. -/
inductive Loop where
  | head
  | received (hasHeaders : Bool) (channel number : ℕ)
  | dispatching (hasHeaders : Bool) (channel number : ℕ) (d : Dispatcher)
  | settling (channel : ℕ) (result : Except HandleError (Option Dispatcher))
  | returned
deriving DecidableEq, Repr

/-- A goroutine with the channel of its stream, and whether it stands between the
write of a terminal reply and the callback. -/
structure Goroutine where
  stream : ℕ
  wrote : Bool
deriving DecidableEq, Repr

structure State where
  handler : Handler
  loop : Loop
  input : Bytes
  goroutines : List Goroutine
  /-- the channels on whose stream a terminal reply has run, callback included -/
  replied : List ℕ

def initial (input : Bytes) : State := ⟨⟨fun _ => none,0⟩,.head,input,[],[]⟩

inductive Label where
  | read
  | get
  | handle
  | settle
  | write (i : ℕ)
  | callback (i : ℕ)
deriving DecidableEq, Repr

def started (stream : ℕ) : Effect → List Goroutine
  | .goSpool .. | .goSpawn .. | .goAsyncKill => [⟨stream,false⟩]
  | _ => []

def repliedBy (stream : ℕ) : Effect → List ℕ
  | .reply c => if c.terminal then [stream] else []
  | _ => []

/-- `next`. -/
def State.read (s : State) : Option State :=
  match s.loop with
  | .head =>
    match next s.input with
    | .error _ r => some { s with loop := .returned, input := r }
    | .ok (hasHeaders,channel,c) r => some { s with loop := .received hasHeaders channel c, input := r }
  | _ => none

/-- `Get`, and `newDispatcher` for a new channel. -/
def State.get (s : State) : Option State :=
  match s.loop with
  | .received hasHeaders channel c =>
    match s.handler.dispatcher channel with
    | none => some { s with loop := .head, input := skipHeaders hasHeaders (skip s.input).2 }
    | some (d,h) => some { s with loop := .dispatching hasHeaders channel c d, handler := h }
  | _ => none

def State.handle (boxes : Bytes → Bool) (s : State) : Option State :=
  match s.loop with
  | .dispatching hasHeaders channel c d =>
    let handled := d.handle boxes c s.input
    some { s with
      loop := .settling channel handled.result
      input := skipHeaders hasHeaders handled.reader
      handler := s.handler.replied d.stream handled.effects
      goroutines := s.goroutines ++ handled.effects.flatMap (started d.stream)
      replied := s.replied ++ handled.effects.flatMap (repliedBy d.stream) }
  | _ => none

/-- `Attach` or `Detach`. -/
def State.settle (s : State) : Option State :=
  match s.loop with
  | .settling channel result =>
    match s.handler.settle channel result with
    | none => some { s with loop := .returned }
    | some h => some { s with loop := .head, handler := h }
  | _ => none

/-- The write of a terminal reply. -/
def State.write (s : State) (i : ℕ) : Option State :=
  match s.goroutines[i]? with
  | some ⟨c,false⟩ => some { s with goroutines := s.goroutines.set i ⟨c,true⟩ }
  | _ => none

/-- The callback after it. -/
def State.callback (s : State) (i : ℕ) : Option State :=
  match s.goroutines[i]? with
  | some ⟨c,true⟩ => some { s with
      goroutines := s.goroutines.set i ⟨c,false⟩
      handler := s.handler.detach c
      replied := s.replied ++ [c] }
  | _ => none

def step (boxes : Bytes → Bool) (s : State) : Label → Option State
  | .read => s.read
  | .get => s.get
  | .handle => s.handle boxes
  | .settle => s.settle
  | .write i => s.write i
  | .callback i => s.callback i

/-- The callback of a stream does not run while the loop is about to attach the
dispatcher of its channel. -/
def AfterAttach (s : State) : Label → Prop
  | .callback i => ∀ c d, s.goroutines[i]? = some ⟨c,true⟩ → s.loop ≠ .settling c (.ok (some d))
  | _ => True

/-- No channel with a terminal reply has a session; a message on it finds the channel
detached. -/
def NoneOutlives (s : State) : Prop := ∀ c ∈ s.replied, s.handler.session c = none ∧ s.handler.dispatcher c = none

/-! ## The table -/

structure Shrinks (h h' : Handler) : Prop where
  highest : h'.highestChannel = h.highestChannel
  session : ∀ c d, h'.session c = some d → h.session c = some d

theorem Shrinks.none {h h' : Handler} (hs : Shrinks h h') {c : ℕ} (hn : h.session c = none) :
    h'.session c = none := by
  cases hc : h'.session c with
  | none => rfl
  | some d =>
    have hd := hs.session c d hc
    rw [hn] at hd
    cases hd

theorem Shrinks.trans {h h' h'' : Handler} (hs : Shrinks h h') (hs' : Shrinks h' h'') : Shrinks h h'' :=
  ⟨hs'.highest.trans hs.highest,fun c d hd => hs.session c d (hs'.session c d hd)⟩

theorem detach_shrinks (h : Handler) (c : ℕ) : Shrinks h (h.detach c) := by
  refine ⟨rfl,?_⟩
  intro c' d hd
  by_cases hc : c' = c
  · subst hc
    simp [Handler.detach] at hd
  · simpa [Handler.detach, Function.update_of_ne hc] using hd

theorem detach_session (h : Handler) (c : ℕ) : (h.detach c).session c = none := by
  simp [Handler.detach]

theorem replied_shrinks (h : Handler) (stream : ℕ) (effects : List Effect) : Shrinks h (h.replied stream effects) := by
  induction effects generalizing h with
  | nil => exact ⟨rfl,fun _ _ hd => hd⟩
  | cons e effects ih =>
    have hrest := ih (h.replied stream [e])
    have hone : Shrinks h (h.replied stream [e]) := by
      unfold Handler.replied
      simp only [List.foldl_cons, List.foldl_nil]
      split
      · split
        · exact detach_shrinks h stream
        · exact ⟨rfl,fun _ _ hd => hd⟩
      · exact ⟨rfl,fun _ _ hd => hd⟩
    exact hone.trans hrest

theorem replied_session {h : Handler} {stream c : ℕ} {effects : List Effect}
    (hc : c ∈ effects.flatMap (repliedBy stream)) : c = stream ∧ (h.replied stream effects).session c = none := by
  induction effects generalizing h with
  | nil => simp at hc
  | cons e effects ih =>
    rw [List.flatMap_cons, List.mem_append] at hc
    rcases hc with hc | hc
    · cases e with
      | reply call =>
        have ht : call.terminal = true ∧ c = stream := by
          cases ht : call.terminal with
          | true => simpa [repliedBy, ht] using hc
          | false => simp [repliedBy, ht] at hc
        obtain ⟨ht,rfl⟩ := ht
        have hrest := replied_shrinks (h.detach c) c effects
        refine ⟨rfl,?_⟩
        simp only [Handler.replied, List.foldl_cons, ht, if_true]
        exact hrest.none (detach_session h c)
      | _ => simp [repliedBy] at hc
    · exact ih hc

/-! ## What `Handle` returns -/

def Dispatcher.isInitial : Dispatcher → Bool
  | .initialDispatch _ => true
  | _ => false

theorem onProfile_some {boxes : Bytes → Bool} {opts r : Bytes} {go : Effect} {d d' : Dispatcher}
    (h : (onProfile boxes opts go d r).result = .ok (some d')) : d' = d ∧ (onProfile boxes opts go d r).effects = [go] := by
  unfold onProfile at h ⊢
  split at h
  · cases h
  · split at h
    · rename_i hb
      cases h
      exact ⟨rfl,by rw [if_pos hb]⟩
    · cases h

/-- Only a first message gets a dispatcher, for the same stream, and then `Handle` has
not replied. -/
theorem handle_some {boxes : Bytes → Bool} {d d' : Dispatcher} {number : ℕ} {r : Bytes}
    (h : (d.handle boxes number r).result = .ok (some d')) :
    d = .initialDispatch d.stream ∧ d'.stream = d.stream ∧ Dispatcher.isInitial d' = false ∧
      (d.handle boxes number r).effects.flatMap (repliedBy d.stream) = [] := by
  cases d with
  | initialDispatch stream =>
    match number with
    | 0 =>
      cases hr : readSpool r with
      | ok p r' =>
        rw [Dispatcher.handle, hr] at h ⊢
        obtain ⟨rfl,he⟩ := onProfile_some h
        refine ⟨rfl,rfl,rfl,?_⟩
        simp only [onSpool, he]
        rfl
      | error e r' =>
        rw [Dispatcher.handle, hr] at h
        cases h
    | 1 =>
      cases hr : readSpawn r with
      | ok p r' =>
        rw [Dispatcher.handle, hr] at h ⊢
        obtain ⟨rfl,he⟩ := onProfile_some h
        refine ⟨rfl,rfl,rfl,?_⟩
        simp only [onSpawn, he]
        rfl
      | error e r' =>
        rw [Dispatcher.handle, hr] at h
        cases h
    | id + 2 => cases h
  | spoolCancelationDispatch stream =>
    match number with
    | 0 => cases h
    | id + 1 => cases h
  | spawnDispatch stream =>
    match number with
    | 0 => cases h
    | id + 1 => cases h

theorem started_stream {stream : ℕ} {effects : List Effect} {g : Goroutine}
    (hg : g ∈ effects.flatMap (started stream)) : g.stream = stream := by
  obtain ⟨e,-,he⟩ := List.mem_flatMap.mp hg
  cases e <;> simp [started] at he <;> rw [he]

/-! ## The invariant -/

/-- What the loop is about to do is sound: a first message is dispatched on a channel
that no goroutine knows, and a dispatcher is attached only for a stream that has not
ended. -/
def LoopInv (s : State) : Prop :=
  match s.loop with
  | .dispatching _ c _ d => d.stream = c ∧ c ≤ s.handler.highestChannel ∧
      (Dispatcher.isInitial d = true → c ∉ s.replied ∧ ∀ g ∈ s.goroutines, g.stream ≠ c)
  | .settling c r => c ≤ s.handler.highestChannel ∧
      ∀ d, r = .ok (some d) → c ∉ s.replied ∧ d.stream = c ∧ Dispatcher.isInitial d = false
  | _ => True

structure Inv (s : State) : Prop where
  attached : ∀ c d, s.handler.session c = some d →
    c ≤ s.handler.highestChannel ∧ d.stream = c ∧ Dispatcher.isInitial d = false
  known : ∀ g ∈ s.goroutines, g.stream ≤ s.handler.highestChannel
  ended : ∀ c ∈ s.replied, s.handler.session c = none ∧ c ≤ s.handler.highestChannel
  loop : LoopInv s

theorem inv_initial (input : Bytes) : Inv (initial input) :=
  ⟨nofun,nofun,nofun,trivial⟩

theorem Inv.shrink {s t : State} (hs : Inv s) (hh : Shrinks s.handler t.handler)
    (hg : ∀ g ∈ t.goroutines, g.stream ≤ s.handler.highestChannel)
    (hr : ∀ c ∈ t.replied, t.handler.session c = none ∧ c ≤ s.handler.highestChannel) (hl : LoopInv t) : Inv t := by
  refine ⟨?_,?_,?_,hl⟩
  · intro c d hd
    rw [hh.highest]
    exact hs.attached c d (hh.session c d hd)
  · intro g hgt
    rw [hh.highest]
    exact hg g hgt
  · intro c hc
    rw [hh.highest]
    exact hr c hc

theorem Inv.read {s t : State} (hs : Inv s) (h : s.read = some t) : Inv t := by
  unfold State.read at h
  split at h
  · split at h
    · cases h
      exact ⟨hs.attached,hs.known,hs.ended,trivial⟩
    · cases h
      exact ⟨hs.attached,hs.known,hs.ended,trivial⟩
  · cases h

theorem Inv.get {s t : State} (hs : Inv s) (h : s.get = some t) : Inv t := by
  unfold State.get at h
  split at h
  · rename_i hasHeaders channel number hloop
    cases hd : s.handler.dispatcher channel with
    | none =>
      simp only [hd] at h
      cases h
      exact ⟨hs.attached,hs.known,hs.ended,trivial⟩
    | some p =>
      rcases p with ⟨d,h'⟩
      simp only [hd] at h
      cases h
      unfold Handler.dispatcher at hd
      cases hse : s.handler.session channel with
      | some d' =>
        rw [hse] at hd
        cases hd
        obtain ⟨hle,hst,hni⟩ := hs.attached channel d hse
        refine ⟨hs.attached,hs.known,hs.ended,hst,hle,?_⟩
        intro hi
        rw [hni] at hi
        cases hi
      | none =>
        rw [hse] at hd
        dsimp only at hd
        split at hd
        · cases hd
        · rename_i hlt
          cases hd
          have hgt : s.handler.highestChannel < channel := by omega
          refine ⟨?_,?_,?_,rfl,le_refl _,?_⟩
          · intro c d hc
            have ha := hs.attached c d hc
            exact ⟨by dsimp only; omega,ha.2⟩
          · intro g hg
            have hk := hs.known g hg
            dsimp only
            omega
          · intro c hc
            have he := hs.ended c hc
            exact ⟨he.1,by dsimp only; omega⟩
          · intro _
            refine ⟨?_,?_⟩
            · intro hc
              have he := hs.ended channel hc
              omega
            · intro g hg hc
              have hk := hs.known g hg
              omega
  · cases h

theorem Inv.handle {boxes : Bytes → Bool} {s t : State} (hs : Inv s) (h : s.handle boxes = some t) : Inv t := by
  unfold State.handle at h
  split at h
  · rename_i hasHeaders channel number d hloop
    cases h
    have hl := hs.loop
    unfold LoopInv at hl
    rw [hloop] at hl
    obtain ⟨rfl,hle,hini⟩ := hl
    have hsh := replied_shrinks s.handler d.stream (d.handle boxes number s.input).effects
    refine hs.shrink hsh ?_ ?_ ⟨?_,?_⟩
    · intro g hg
      rcases List.mem_append.mp hg with hg | hg
      · exact hs.known g hg
      · rw [started_stream hg]
        exact hle
    · intro c hc
      rcases List.mem_append.mp hc with hc | hc
      · have he := hs.ended c hc
        exact ⟨hsh.none he.1,he.2⟩
      · obtain ⟨rfl,hn⟩ := replied_session (h := s.handler) hc
        exact ⟨hn,hle⟩
    · rw [hsh.highest]
      exact hle
    · intro d' hd'
      obtain ⟨hd,hst,hni,hno⟩ := handle_some hd'
      have hi : Dispatcher.isInitial d = true := by
        rw [hd]
        rfl
      refine ⟨?_,hst,hni⟩
      rw [hno, List.append_nil]
      exact (hini hi).1
  · cases h

theorem settle_cases {h h' : Handler} {channel : ℕ} {result : Except HandleError (Option Dispatcher)}
    (hset : h.settle channel result = some h') :
    h' = h.detach channel ∨ ∃ d, result = .ok (some d) ∧ h' = h.attach channel d := by
  unfold Handler.settle at hset
  split at hset
  · cases hset
  · exact Or.inl (Option.some.inj hset).symm
  · exact Or.inl (Option.some.inj hset).symm
  · exact Or.inr ⟨_,rfl,(Option.some.inj hset).symm⟩

theorem Inv.settle {s t : State} (hs : Inv s) (h : s.settle = some t) : Inv t := by
  unfold State.settle at h
  split at h
  · rename_i channel result hloop
    have hl := hs.loop
    unfold LoopInv at hl
    rw [hloop] at hl
    obtain ⟨hle,hok⟩ := hl
    cases hset : s.handler.settle channel result with
    | none =>
      simp only [hset] at h
      cases h
      exact ⟨hs.attached,hs.known,hs.ended,trivial⟩
    | some h' =>
      simp only [hset] at h
      cases h
      rcases settle_cases hset with rfl | ⟨d,rfl,rfl⟩
      · have hsh := detach_shrinks s.handler channel
        refine hs.shrink hsh hs.known ?_ trivial
        intro c hc
        have he := hs.ended c hc
        exact ⟨hsh.none he.1,he.2⟩
      · obtain ⟨hnot,hst,hni⟩ := hok d rfl
        refine ⟨?_,hs.known,?_,trivial⟩
        · intro c d' hd'
          by_cases hc : c = channel
          · subst hc
            have hdd : d = d' := by simpa [Handler.attach] using hd'
            subst hdd
            exact ⟨hle,hst,hni⟩
          · have hd : s.handler.session c = some d' := by
              simpa [Handler.attach, Function.update_of_ne hc] using hd'
            exact hs.attached c d' hd
        · intro c hc
          have he := hs.ended c hc
          have hne : c ≠ channel := by
            rintro rfl
            exact hnot hc
          refine ⟨?_,he.2⟩
          simpa [Handler.attach, Function.update_of_ne hne] using he.1
  · cases h

theorem mem_set_stream {gs : List Goroutine} {i c : ℕ} {w w' : Bool} (hi : gs[i]? = some ⟨c,w⟩) {g : Goroutine}
    (hg : g ∈ gs.set i ⟨c,w'⟩) : ∃ g' ∈ gs, g'.stream = g.stream := by
  rcases List.mem_or_eq_of_mem_set hg with hg | rfl
  · exact ⟨g,hg,rfl⟩
  · exact ⟨⟨c,w⟩,List.mem_of_getElem? hi,rfl⟩

theorem Inv.write {s t : State} {i : ℕ} (hs : Inv s) (h : s.write i = some t) : Inv t := by
  unfold State.write at h
  split at h
  · rename_i c hi
    cases h
    refine ⟨hs.attached,?_,hs.ended,?_⟩
    · intro g hg
      obtain ⟨g',hg',hst⟩ := mem_set_stream hi hg
      rw [← hst]
      exact hs.known g' hg'
    · have hl := hs.loop
      unfold LoopInv at hl ⊢
      cases hloop : s.loop with
      | dispatching hasHeaders c' number d =>
        rw [hloop] at hl
        refine ⟨hl.1,hl.2.1,?_⟩
        intro hini
        refine ⟨(hl.2.2 hini).1,?_⟩
        intro g hg
        obtain ⟨g',hg',hst⟩ := mem_set_stream hi hg
        rw [← hst]
        exact (hl.2.2 hini).2 g' hg'
      | settling c' r =>
        rw [hloop] at hl
        exact hl
      | head => trivial
      | received _ _ _ => trivial
      | returned => trivial
  · cases h

theorem Inv.callback {s t : State} {i : ℕ} (hs : Inv s) (ha : AfterAttach s (.callback i))
    (h : s.callback i = some t) : Inv t := by
  unfold State.callback at h
  split at h
  · rename_i c hi
    cases h
    have hsh := detach_shrinks s.handler c
    have hc : c ≤ s.handler.highestChannel := hs.known ⟨c,true⟩ (List.mem_of_getElem? hi)
    refine hs.shrink hsh ?_ ?_ ?_
    · intro g hg
      obtain ⟨g',hg',hst⟩ := mem_set_stream hi hg
      rw [← hst]
      exact hs.known g' hg'
    · intro c' hc'
      rcases List.mem_append.mp hc' with hc' | hc'
      · have he := hs.ended c' hc'
        exact ⟨hsh.none he.1,he.2⟩
      · rw [List.mem_singleton.mp hc']
        exact ⟨detach_session _ _,hc⟩
    · have hl := hs.loop
      unfold LoopInv at hl ⊢
      cases hloop : s.loop with
      | dispatching hasHeaders c' number d =>
        rw [hloop] at hl
        refine ⟨hl.1,hl.2.1,?_⟩
        intro hini
        have hnew := (hl.2.2 hini).2 ⟨c,true⟩ (List.mem_of_getElem? hi)
        refine ⟨?_,?_⟩
        · intro hc'
          rcases List.mem_append.mp hc' with hc' | hc'
          · exact (hl.2.2 hini).1 hc'
          · exact hnew (List.mem_singleton.mp hc').symm
        · intro g hg
          obtain ⟨g',hg',hst⟩ := mem_set_stream hi hg
          rw [← hst]
          exact (hl.2.2 hini).2 g' hg'
      | settling c' r =>
        rw [hloop] at hl
        refine ⟨hl.1,?_⟩
        intro d hd
        obtain ⟨hnot,hst,hni⟩ := hl.2 d hd
        refine ⟨?_,hst,hni⟩
        intro hc'
        rcases List.mem_append.mp hc' with hc' | hc'
        · exact hnot hc'
        · rw [List.mem_singleton.mp hc', hd] at hloop
          exact ha c d hi hloop
      | head => trivial
      | received _ _ _ => trivial
      | returned => trivial
  · cases h

theorem step_inv {boxes : Bytes → Bool} (s : State) (l : Label) (t : State) (hs : Inv s) (ha : AfterAttach s l)
    (h : step boxes s l = some t) : Inv t := by
  cases l with
  | read => exact hs.read h
  | get => exact hs.get h
  | handle => exact hs.handle h
  | settle => exact hs.settle h
  | write i => exact hs.write h
  | callback i => exact hs.callback ha h

theorem Inv.noneOutlives {s : State} (hs : Inv s) : NoneOutlives s := by
  intro c hc
  obtain ⟨hn,hle⟩ := hs.ended c hc
  refine ⟨hn,?_⟩
  unfold Handler.dispatcher
  rw [hn]
  exact if_pos hle

/-- Along every run in which no callback comes between a `Handle` and its `Attach`, no
session outlives its stream, at the head of the loop as everywhere else. -/
theorem runs_noneOutlives {boxes : Bytes → Bool} {input : Bytes} {ls : List Label} {s : State}
    (h : Runs (step boxes) (initial input) ls s) (ha : Meets (step boxes) AfterAttach (initial input) ls) :
    NoneOutlives s :=
  (h.invariant_of_meets step_inv ha (inv_initial input)).noneOutlives

/-- A spool of the application `a` with the profile `type: t`, on channel 1. -/
def spoolFrame : Bytes := [0x93,1,0,0x92,0x81,0xa4,0x74,0x79,0x70,0x65,0xa1,0x74,0xa1,0x61]

/-- The loop goes on before the spool ends. -/
def slowSpool : List Label := [.read,.get,.handle,.settle,.write 0]

/-- The spool ends while the loop stands between `Handle` and `Attach`. -/
def fastSpool : List Label := [.read,.get,.handle,.write 0,.callback 0,.settle]

theorem noneOutlives_slowSpool :
    ∃ s, Runs (step (fun _ => true)) (initial spoolFrame) (slowSpool ++ [.callback 0]) s ∧ s.loop = .head ∧
      s.replied = [1] ∧ NoneOutlives s := by
  let written : State :=
    ⟨Handler.attach ⟨fun _ => none,1⟩ 1 (.spoolCancelationDispatch 1),.head,[],[⟨1,true⟩],[]⟩
  have hr : Runs (step (fun _ => true)) (initial spoolFrame) slowSpool written :=
    Runs.of_run (by with_unfolding_all rfl)
  have hc : Runs (step (fun _ => true)) (initial spoolFrame) (slowSpool ++ [.callback 0])
      ⟨written.handler.detach 1,.head,[],[⟨1,false⟩],[1]⟩ := hr.append (.single rfl)
  have hm : Meets (step (fun _ => true)) AfterAttach (initial spoolFrame) slowSpool :=
    Meets.of_forall (by simp [slowSpool, AfterAttach]) _
  refine ⟨_,hc,rfl,rfl,runs_noneOutlives hc (hm.snoc ?_)⟩
  intro t ht c d _ hl
  rw [ht.functional hr] at hl
  cases hl

/-- The detached channel is attached again, and the next message on it is answered a
second time. -/
theorem outlives_fastSpool :
    ∃ s, Runs (step (fun _ => true)) (initial spoolFrame) fastSpool s ∧ s.loop = .head ∧ s.replied = [1] ∧
      s.handler.session 1 = some (.spoolCancelationDispatch 1) ∧ ¬NoneOutlives s := by
  have hr : run (step (fun _ => true)) (initial spoolFrame) fastSpool = some
      ⟨(Handler.detach ⟨fun _ => none,1⟩ 1).attach 1 (.spoolCancelationDispatch 1),.head,[],[⟨1,false⟩],[1]⟩ := by with_unfolding_all rfl
  refine ⟨_,Runs.of_run hr,rfl,rfl,rfl,?_⟩
  intro hn
  have h1 := (hn 1 (by simp)).1
  cases h1

end Stout.Isolate.Sessions
