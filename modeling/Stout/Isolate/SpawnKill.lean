import Stout.Library.Runs
import Stout.Isolate.Dispatch

/-! # Handing a process from the spawner to the killer

The goroutine of `onSpawn` and `asyncKill`, with the unbuffered channel `prCh`
between them, the connection's context, the spawn's context below it, and the flag
both compare and swap before they kill. A `select` takes any of its ready cases; the
spawner can be in front of its `select`, where nothing can be received from it yet,
or parked in it.
-/
namespace Stout.Isolate.SpawnKill
open Msgpack ResponseStream

def systemCategory : ℤ := 1
def errSpawnEAGAIN : ℤ × ℤ := (systemCategory,11)
def errSpawningFailed : ℤ × ℤ := (isolateErrCategory,16)
def errKillError : ℤ × ℤ := (isolateErrCategory,18)

inductive SpawnError where
  | errSpawningCancelled
  | contextCanceled
  | EAGAIN
  | other (err : Bytes)
deriving DecidableEq, Repr

/-- The reply to a failed spawn; a cancelled one has none. -/
def SpawnError.reply : SpawnError → Option Call
  | .errSpawningCancelled | .contextCanceled => none
  | .EAGAIN => some (.error 1 errSpawnEAGAIN (text "resource temporarily unavailable"))
  | .other err => some (.error 1 errSpawningFailed err)

def killReply : Option Bytes → Call
  | none => .close 2
  | some err => .error 1 errKillError err

/-- The goroutine of `onSpawn`. -/
inductive Spawner where
  | idle
  | rejected
  | spawning
  | failed (e : SpawnError)
  | selecting
  | parked
  | swapping
  | killing
  | killed (err : Option Bytes)
  | returning
  | finished
deriving DecidableEq, Repr

/-- `asyncKill`. -/
inductive Killer where
  | idle
  | selecting
  | cancelling
  | swapping
  | killing
  | killed (err : Option Bytes)
  | finished
deriving DecidableEq, Repr

structure State where
  spawner : Spawner
  killer : Killer
  prClosed : Bool
  flagKilled : Bool
  connDone : Bool
  spawnDone : Bool
  spawned : Bool
  kills : ℕ
  replies : List Call
deriving DecidableEq, Repr

def initial : State := ⟨.idle,.idle,false,false,false,false,false,0,[]⟩

inductive Label where
  | accept
  | reject (code : ℤ × ℤ) (err : Bytes)
  | spawnReturns (e : Option SpawnError)
  | spawnFailed
  | select
  | wake
  | swap
  | killReturns (err : Option Bytes)
  | reply
  | closeChannel
  | killMessage
  | receive
  | receiveClosed
  | ctxDone
  | default
  | cancelSpawn
  | killerSwap
  | killerKillReturns (err : Option Bytes)
  | killerReply
  | connClose
  | propagate
deriving DecidableEq, Repr

/-- Moves of the two goroutines and of the contexts; the others are made by the
client, by the box and by the process. -/
def Label.internal : Label → Bool
  | .accept | .reject .. | .spawnReturns _ | .killReturns _ | .killMessage | .killerKillReturns _ | .connClose => false
  | _ => true

def enabled (s : State) : Label → Bool
  | .accept | .reject .. => s.spawner = .idle
  | .spawnReturns _ => s.spawner = .spawning
  | .spawnFailed => (s.spawner matches .failed _)
  | .select => s.spawner = .selecting
  | .wake => s.spawner = .parked ∧ s.spawnDone
  | .swap => s.spawner = .swapping
  | .killReturns _ => s.spawner = .killing
  | .reply => (s.spawner matches .killed _)
  | .closeChannel => s.spawner = .returning
  | .killMessage => s.spawner ≠ .idle ∧ s.spawner ≠ .rejected ∧ s.killer = .idle
  | .receive => s.killer = .selecting ∧ s.spawner = .parked
  | .receiveClosed => s.killer = .selecting ∧ s.prClosed
  | .ctxDone => s.killer = .selecting ∧ s.connDone
  | .default => s.killer = .selecting ∧ s.spawner ≠ .parked ∧ ¬s.prClosed ∧ ¬s.connDone
  | .cancelSpawn => s.killer = .cancelling
  | .killerSwap => s.killer = .swapping
  | .killerKillReturns _ => s.killer = .killing
  | .killerReply => (s.killer matches .killed _)
  | .connClose => true
  | .propagate => s.connDone ∧ ¬s.spawnDone

def apply (s : State) : Label → State
  | .accept => { s with spawner := .spawning }
  | .reject code err => { s with spawner := .rejected, replies := s.replies ++ [.error 1 code err] }
  | .spawnReturns none => { s with spawner := .selecting, spawned := true }
  | .spawnReturns (some e) => { s with spawner := .failed e }
  | .spawnFailed =>
    match s.spawner with
    | .failed e => { s with spawner := .returning, replies := s.replies ++ e.reply.toList }
    | _ => s
  | .select => { s with spawner := if s.spawnDone then .swapping else .parked }
  | .wake => { s with spawner := .swapping }
  | .swap =>
    if s.flagKilled then { s with spawner := .returning }
    else { s with spawner := .killing, flagKilled := true, kills := s.kills + 1 }
  | .killReturns err => { s with spawner := .killed err }
  | .reply =>
    match s.spawner with
    | .killed err => { s with spawner := .returning, replies := s.replies ++ [killReply err] }
    | _ => s
  | .closeChannel => { s with spawner := .finished, prClosed := true }
  | .killMessage => { s with killer := .selecting }
  | .receive => { s with killer := .swapping, spawner := .returning }
  | .receiveClosed => { s with killer := .finished }
  | .ctxDone => { s with killer := .finished }
  | .default => { s with killer := .cancelling }
  | .cancelSpawn => { s with killer := .finished, spawnDone := true }
  | .killerSwap =>
    if s.flagKilled then { s with killer := .finished }
    else { s with killer := .killing, flagKilled := true, kills := s.kills + 1 }
  | .killerKillReturns err => { s with killer := .killed err }
  | .killerReply =>
    match s.killer with
    | .killed err => { s with killer := .finished, replies := s.replies ++ [killReply err] }
    | _ => s
  | .connClose => { s with connDone := true }
  | .propagate => { s with spawnDone := true }

def step (s : State) (l : Label) : Option State := if enabled s l then some (apply s l) else none

/-- Both goroutines have finished or are blocked for ever, in a `select` or in a call
that does not return. -/
def Final (s : State) : Prop := ∀ l, l.internal = true → step s l = none

/-! ## Who holds the process -/

/-- What a goroutine has to do with the process: nothing yet, it holds it, it kills
it, nothing any more. -/
inductive Stage where
  | early | holding | killing | gone
deriving DecidableEq, Repr

def Spawner.stage : Spawner → Stage
  | .idle | .rejected | .spawning | .failed _ => .early
  | .selecting | .parked | .swapping => .holding
  | .killing | .killed _ => .killing
  | .returning | .finished => .gone

def Killer.stage : Killer → Stage
  | .idle | .selecting | .cancelling => .early
  | .swapping => .holding
  | .killing | .killed _ => .killing
  | .finished => .gone

def Stage.empty (g : Stage) : Prop := g = .early ∨ g = .gone

/-- Replies that may still come from where the goroutine is. -/
def Spawner.owes : Spawner → ℕ
  | .idle | .spawning => 1
  | .failed e => e.reply.toList.length
  | .killing | .killed _ => 1
  | _ => 0

def Killer.owes : Killer → ℕ
  | .killing | .killed _ => 1
  | _ => 0

/-- Where the process is: nowhere, with the spawner, with the killer, or killed by
one of them. -/
inductive Phase (s : State) : Prop
  | unspawned : s.spawned = false → s.flagKilled = false → s.spawner.stage.empty → s.killer.stage.empty →
      s.replies.length + s.spawner.owes ≤ 1 → Phase s
  | spawner : s.spawned = true → s.flagKilled = false → s.spawner.stage = .holding → s.killer.stage.empty →
      s.replies = [] → Phase s
  | killer : s.spawned = true → s.flagKilled = false → s.spawner.stage = .gone → s.killer.stage = .holding →
      s.replies = [] → Phase s
  | killedBySpawner : s.spawned = true → s.flagKilled = true → s.spawner.stage = .killing ∨ s.spawner.stage = .gone →
      s.killer.stage.empty → s.replies.length + s.spawner.owes = 1 → Phase s
  | killedByKiller : s.spawned = true → s.flagKilled = true → s.spawner.stage = .gone →
      s.killer.stage = .killing ∨ s.killer.stage = .gone → s.replies.length + s.killer.owes = 1 → Phase s

section Elimination
variable {s : State} (h : Phase s)
include h

theorem Phase.of_early (he : s.spawner.stage = .early) :
    s.spawned = false ∧ s.flagKilled = false ∧ s.killer.stage.empty ∧ s.replies.length + s.spawner.owes ≤ 1 := by
  cases h <;> simp_all

theorem Phase.of_holding (he : s.spawner.stage = .holding) :
    s.spawned = true ∧ s.flagKilled = false ∧ s.killer.stage.empty ∧ s.replies = [] := by
  cases h <;> simp_all [Stage.empty]

theorem Phase.of_killing (he : s.spawner.stage = .killing) :
    s.spawned = true ∧ s.flagKilled = true ∧ s.killer.stage.empty ∧ s.replies.length + s.spawner.owes = 1 := by
  cases h <;> simp_all [Stage.empty]

theorem Phase.of_killer_holding (he : s.killer.stage = .holding) :
    s.spawned = true ∧ s.flagKilled = false ∧ s.spawner.stage = .gone ∧ s.replies = [] := by
  cases h <;> simp_all [Stage.empty]

theorem Phase.of_killer_killing (he : s.killer.stage = .killing) :
    s.spawned = true ∧ s.flagKilled = true ∧ s.spawner.stage = .gone ∧ s.replies.length + s.killer.owes = 1 := by
  cases h <;> simp_all [Stage.empty]

theorem Phase.close (he : s.spawner = .returning) : Phase (apply s .closeChannel) := by
  cases h with
  | unspawned hs hf hg hk ho =>
    exact .unspawned hs hf (Or.inr rfl) hk (by simpa [apply, he, Spawner.owes] using ho)
  | spawner _ _ hg _ _ => rw [he] at hg; cases hg
  | killer hs hf hg hk hn => exact .killer hs hf rfl hk hn
  | killedBySpawner hs hf hg hk ho =>
    exact .killedBySpawner hs hf (Or.inr rfl) hk (by simpa [apply, he, Spawner.owes] using ho)
  | killedByKiller hs hf hg hk ho => exact .killedByKiller hs hf rfl hk ho

theorem Phase.quiet {t : State} (h₁ : t.spawned = s.spawned) (h₂ : t.flagKilled = s.flagKilled)
    (h₃ : t.spawner = s.spawner) (h₄ : t.replies = s.replies)
    (h₅ : t.killer = s.killer ∨ s.killer.stage = .early ∧ t.killer.stage.empty) : Phase t := by
  have hkeep (hk : s.killer.stage.empty) : t.killer.stage.empty := by
    rcases h₅ with h₅ | h₅
    · exact h₅ ▸ hk
    · exact h₅.2
  have hbusy (hk : s.killer.stage ≠ .early) : t.killer = s.killer := h₅.resolve_right fun h => hk h.1
  cases h with
  | unspawned hs hf hg hk ho => exact .unspawned (h₁ ▸ hs) (h₂ ▸ hf) (h₃ ▸ hg) (hkeep hk) (by rw [h₃, h₄]; exact ho)
  | spawner hs hf hg hk hn => exact .spawner (h₁ ▸ hs) (h₂ ▸ hf) (h₃ ▸ hg) (hkeep hk) (h₄ ▸ hn)
  | killer hs hf hg hk hn =>
    have he := hbusy (by simp [hk])
    exact .killer (h₁ ▸ hs) (h₂ ▸ hf) (h₃ ▸ hg) (he ▸ hk) (h₄ ▸ hn)
  | killedBySpawner hs hf hg hk ho =>
    exact .killedBySpawner (h₁ ▸ hs) (h₂ ▸ hf) (h₃ ▸ hg) (hkeep hk) (by rw [h₃, h₄]; exact ho)
  | killedByKiller hs hf hg hk ho =>
    have he := hbusy (by rcases hk with hk | hk <;> simp [hk])
    exact .killedByKiller (h₁ ▸ hs) (h₂ ▸ hf) (h₃ ▸ hg) (he ▸ hk) (by rw [he, h₄]; exact ho)

end Elimination

theorem reply_length (e : SpawnError) : e.reply.toList.length ≤ 1 := by
  cases e <;> simp [SpawnError.reply]

theorem enabled_of_step {s t : State} {l : Label} (h : step s l = some t) : enabled s l = true ∧ t = apply s l := by
  unfold step at h
  split at h
  · exact ⟨by assumption,(Option.some.inj h).symm⟩
  · cases h

theorem step_phase (s : State) (l : Label) (t : State) (hs : Phase s) (h : step s l = some t) : Phase t := by
  obtain ⟨he,rfl⟩ := enabled_of_step h
  cases l with
  | accept =>
    have hp : s.spawner = .idle := of_decide_eq_true he
    obtain ⟨h1,h2,h3,h4⟩ := hs.of_early (by rw [hp]; rfl)
    rw [hp] at h4
    exact .unspawned h1 h2 (Or.inl rfl) h3 h4
  | reject code err =>
    have hp : s.spawner = .idle := of_decide_eq_true he
    obtain ⟨h1,h2,h3,h4⟩ := hs.of_early (by rw [hp]; rfl)
    refine .unspawned h1 h2 (Or.inl rfl) h3 ?_
    simpa [hp, apply, Spawner.owes] using h4
  | spawnReturns e =>
    have hp : s.spawner = .spawning := of_decide_eq_true he
    obtain ⟨h1,h2,h3,h4⟩ := hs.of_early (by rw [hp]; rfl)
    have hn : s.replies = [] := by simpa [hp, Spawner.owes] using h4
    cases e with
    | none => exact .spawner rfl h2 rfl h3 hn
    | some e =>
      refine .unspawned h1 h2 (Or.inl rfl) h3 ?_
      simpa only [apply, hn, Spawner.owes, List.length_nil, Nat.zero_add] using reply_length e
  | spawnFailed =>
    cases hp : s.spawner with
    | failed e =>
      obtain ⟨h1,h2,h3,h4⟩ := hs.of_early (by rw [hp]; rfl)
      rw [apply, hp]
      refine .unspawned h1 h2 (Or.inr rfl) h3 ?_
      simpa [hp, Spawner.owes] using h4
    | _ => simp [enabled, hp] at he
  | select =>
    have hp : s.spawner = .selecting := of_decide_eq_true he
    obtain ⟨h1,h2,h3,h4⟩ := hs.of_holding (by rw [hp]; rfl)
    refine .spawner h1 h2 ?_ h3 h4
    rw [apply]
    cases s.spawnDone <;> rfl
  | wake =>
    obtain ⟨hp,-⟩ : s.spawner = .parked ∧ s.spawnDone = true := of_decide_eq_true he
    obtain ⟨h1,h2,h3,h4⟩ := hs.of_holding (by rw [hp]; rfl)
    exact .spawner h1 h2 rfl h3 h4
  | swap =>
    have hp : s.spawner = .swapping := of_decide_eq_true he
    obtain ⟨h1,h2,h3,h4⟩ := hs.of_holding (by rw [hp]; rfl)
    rw [apply, h2]
    exact .killedBySpawner h1 rfl (Or.inl rfl) h3 (by rw [h4]; rfl)
  | killReturns err =>
    have hp : s.spawner = .killing := of_decide_eq_true he
    obtain ⟨h1,h2,h3,h4⟩ := hs.of_killing (by rw [hp]; rfl)
    rw [hp] at h4
    exact .killedBySpawner h1 h2 (Or.inl rfl) h3 h4
  | reply =>
    cases hp : s.spawner with
    | killed err =>
      obtain ⟨h1,h2,h3,h4⟩ := hs.of_killing (by rw [hp]; rfl)
      rw [apply, hp]
      refine .killedBySpawner h1 h2 (Or.inr rfl) h3 ?_
      simpa [hp, Spawner.owes] using h4
    | _ => simp [enabled, hp] at he
  | closeChannel => exact hs.close (of_decide_eq_true he)
  | killMessage =>
    obtain ⟨-,-,hk⟩ : s.spawner ≠ .idle ∧ s.spawner ≠ .rejected ∧ s.killer = .idle := of_decide_eq_true he
    exact hs.quiet rfl rfl rfl rfl (Or.inr ⟨by rw [hk]; rfl,Or.inl rfl⟩)
  | receive =>
    obtain ⟨-,hp⟩ : s.killer = .selecting ∧ s.spawner = .parked := of_decide_eq_true he
    obtain ⟨h1,h2,-,h4⟩ := hs.of_holding (by rw [hp]; rfl)
    exact .killer h1 h2 rfl rfl h4
  | receiveClosed =>
    obtain ⟨hk,-⟩ : s.killer = .selecting ∧ s.prClosed = true := of_decide_eq_true he
    exact hs.quiet rfl rfl rfl rfl (Or.inr ⟨by rw [hk]; rfl,Or.inr rfl⟩)
  | ctxDone =>
    obtain ⟨hk,-⟩ : s.killer = .selecting ∧ s.connDone = true := of_decide_eq_true he
    exact hs.quiet rfl rfl rfl rfl (Or.inr ⟨by rw [hk]; rfl,Or.inr rfl⟩)
  | default =>
    have hk : s.killer = .selecting := (of_decide_eq_true he).1
    exact hs.quiet rfl rfl rfl rfl (Or.inr ⟨by rw [hk]; rfl,Or.inl rfl⟩)
  | cancelSpawn =>
    have hk : s.killer = .cancelling := of_decide_eq_true he
    exact hs.quiet rfl rfl rfl rfl (Or.inr ⟨by rw [hk]; rfl,Or.inr rfl⟩)
  | killerSwap =>
    have hk : s.killer = .swapping := of_decide_eq_true he
    obtain ⟨h1,h2,h3,h4⟩ := hs.of_killer_holding (by rw [hk]; rfl)
    rw [apply, h2]
    exact .killedByKiller h1 rfl h3 (Or.inl rfl) (by rw [h4]; rfl)
  | killerKillReturns err =>
    have hk : s.killer = .killing := of_decide_eq_true he
    obtain ⟨h1,h2,h3,h4⟩ := hs.of_killer_killing (by rw [hk]; rfl)
    rw [hk] at h4
    exact .killedByKiller h1 h2 h3 (Or.inl rfl) h4
  | killerReply =>
    cases hk : s.killer with
    | killed err =>
      obtain ⟨h1,h2,h3,h4⟩ := hs.of_killer_killing (by rw [hk]; rfl)
      rw [apply, hk]
      refine .killedByKiller h1 h2 h3 (Or.inr rfl) ?_
      simpa [hk, Killer.owes] using h4
    | _ => simp [enabled, hk] at he
  | connClose => exact hs.quiet rfl rfl rfl rfl (Or.inl rfl)
  | propagate => exact hs.quiet rfl rfl rfl rfl (Or.inl rfl)

theorem step_kills (s : State) (l : Label) (t : State) (hs : s.kills = s.flagKilled.toNat)
    (h : step s l = some t) : t.kills = t.flagKilled.toNat := by
  obtain ⟨-,rfl⟩ := enabled_of_step h
  unfold apply
  split
  any_goals exact hs
  · split <;> exact hs
  · split
    · exact hs
    · rename_i hf
      rw [Bool.not_eq_true] at hf
      simp [hs, hf]
  · split <;> exact hs
  · split
    · exact hs
    · rename_i hf
      rw [Bool.not_eq_true] at hf
      simp [hs, hf]
  · split <;> exact hs

theorem apply_finished {s : State} {l : Label} (hp : s.spawner = .finished) (he : enabled s l = true) :
    (apply s l).spawner = .finished := by
  unfold apply
  split <;> simp [enabled, hp] at he <;> first | exact hp | skip
  · split <;> exact hp
  · split <;> exact hp

theorem apply_prClosed {s : State} {l : Label} (h : (apply s l).prClosed = true) :
    s.prClosed = true ∨ l = .closeChannel := by
  unfold apply at h
  split at h <;> first | exact Or.inl h | skip
  · split at h <;> exact Or.inl h
  · split at h <;> exact Or.inl h
  · split at h <;> exact Or.inl h
  · exact Or.inr rfl
  · split at h <;> exact Or.inl h
  · split at h <;> exact Or.inl h

theorem step_closed (s : State) (l : Label) (t : State) (hs : s.prClosed = true → s.spawner = .finished)
    (h : step s l = some t) (hc : t.prClosed = true) : t.spawner = .finished := by
  obtain ⟨he,rfl⟩ := enabled_of_step h
  rcases apply_prClosed hc with hc | rfl
  · exact apply_finished (hs hc) he
  · rfl

/-- Something that `asyncKill` leaves the process to, or the end of the process. -/
def Settled (s : State) : Prop :=
  s.spawnDone = true ∨ s.connDone = true ∨ s.prClosed = true ∨ s.flagKilled = true

theorem apply_settled {s : State} (l : Label) (h : Settled s) : Settled (apply s l) := by
  unfold Settled at h ⊢
  unfold apply
  split
  any_goals exact h
  · split <;> exact h
  · split
    · exact h
    · exact Or.inr (Or.inr (Or.inr rfl))
  · split <;> exact h
  · exact Or.inr (Or.inr (Or.inl rfl))
  · exact Or.inl rfl
  · split
    · exact h
    · exact Or.inr (Or.inr (Or.inr rfl))
  · split <;> exact h
  · exact Or.inr (Or.inl rfl)
  · exact Or.inl rfl

theorem apply_killer_finished {s : State} {l : Label} (hs : Phase s) (he : enabled s l = true)
    (hk : (apply s l).killer = .finished) : s.killer = .finished ∨ Settled (apply s l) := by
  cases l with
  | receiveClosed => exact Or.inr (Or.inr (Or.inr (Or.inl (of_decide_eq_true he).2)))
  | ctxDone => exact Or.inr (Or.inr (Or.inl (of_decide_eq_true he).2))
  | cancelSpawn => exact Or.inr (Or.inl rfl)
  | killerSwap =>
    have hw : s.killer = .swapping := of_decide_eq_true he
    have hf := (hs.of_killer_holding (by rw [hw]; rfl)).2.1
    rw [apply, hf] at hk
    cases hk
  | killerReply =>
    cases hw : s.killer with
    | killed err =>
      have hf := (hs.of_killer_killing (by rw [hw]; rfl)).2.1
      exact Or.inr (apply_settled _ (Or.inr (Or.inr (Or.inr hf))))
    | _ => simp [enabled, hw] at he
  | spawnReturns e => cases e <;> exact Or.inl hk
  | spawnFailed =>
    rw [apply] at hk
    split at hk <;> exact Or.inl hk
  | swap =>
    rw [apply] at hk
    split at hk <;> exact Or.inl hk
  | reply =>
    rw [apply] at hk
    split at hk <;> exact Or.inl hk
  | killMessage => cases hk
  | receive => cases hk
  | default => cases hk
  | killerKillReturns _ => cases hk
  | accept | reject _ _ | select | wake | killReturns _ | closeChannel | connClose | propagate => exact Or.inl hk

structure Inv (s : State) : Prop where
  phase : Phase s
  kills : s.kills = s.flagKilled.toNat
  closed : s.prClosed = true → s.spawner = .finished
  settled : s.killer = .finished → Settled s

theorem inv_initial : Inv initial :=
  ⟨.unspawned rfl rfl (Or.inl rfl) (Or.inl rfl) (by decide),rfl,nofun,nofun⟩

theorem step_inv (s : State) (l : Label) (t : State) (hs : Inv s) (h : step s l = some t) : Inv t := by
  refine ⟨step_phase s l t hs.phase h,step_kills s l t hs.kills h,step_closed s l t hs.closed h,?_⟩
  obtain ⟨he,rfl⟩ := enabled_of_step h
  intro hk
  rcases apply_killer_finished hs.phase he hk with hk | ht
  · exact apply_settled l (hs.settled hk)
  · exact ht

theorem runs_inv {ls : List Label} {s : State} (h : Runs step initial ls s) : Inv s :=
  h.invariant step_inv inv_initial

theorem Inv.replies_le {s : State} (h : Inv s) : s.replies.length ≤ 1 := by
  cases h.phase with
  | unspawned _ _ _ _ ho => omega
  | spawner _ _ _ _ hn => simp [hn]
  | killer _ _ _ _ hn => simp [hn]
  | killedBySpawner _ _ _ _ ho => omega
  | killedByKiller _ _ _ _ ho => omega

theorem Final.not_enabled {s : State} (h : Final s) {l : Label} (hl : l.internal = true) : enabled s l = false := by
  have hn := h l hl
  unfold step at hn
  split at hn
  · cases hn
  · rename_i he
    exact Bool.eq_false_iff.mpr he

/-- A process that nobody has killed is parked in the spawner's `select`, and nothing
is there to wake it. -/
theorem Inv.flag_of_final {s : State} (h : Inv s) (hf : Final s) (hs : s.spawned = true)
    (hk : s.killer ≠ .idle ∨ s.connDone = true) : s.flagKilled = true := by
  have hoff {l : Label} (hl : l.internal = true) : ¬enabled s l = true := by
    rw [hf.not_enabled hl]
    exact Bool.false_ne_true
  cases h.phase with
  | unspawned hn _ _ _ _ => rw [hs] at hn; cases hn
  | killedBySpawner _ hfl _ _ _ => exact hfl
  | killedByKiller _ hfl _ _ _ => exact hfl
  | killer _ _ _ hst _ =>
    cases hw : s.killer with
    | swapping => exact (hoff (l := .killerSwap) rfl (decide_eq_true hw)).elim
    | _ => rw [hw] at hst; cases hst
  | spawner _ hfl hst hke _ =>
    exfalso
    have hparked : s.spawner = .parked := by
      cases hw : s.spawner with
      | parked => rfl
      | selecting => exact (hoff (l := .select) rfl (decide_eq_true hw)).elim
      | swapping => exact (hoff (l := .swap) rfl (decide_eq_true hw)).elim
      | _ => rw [hw] at hst; cases hst
    have hspawn : s.spawnDone = false := by
      rw [← Bool.not_eq_true]
      intro hd
      exact hoff (l := .wake) rfl (decide_eq_true ⟨hparked,hd⟩)
    have hconn : s.connDone = false := by
      rw [← Bool.not_eq_true]
      intro hd
      exact hoff (l := .propagate) rfl (decide_eq_true ⟨hd,by simp [hspawn]⟩)
    have hopen : s.prClosed = false := by
      rw [← Bool.not_eq_true]
      intro hd
      rw [h.closed hd] at hparked
      cases hparked
    rcases hk with hk | hk
    · cases hw : s.killer with
      | idle => exact hk hw
      | selecting => exact hoff (l := .receive) rfl (decide_eq_true ⟨hw,hparked⟩)
      | cancelling => exact hoff (l := .cancelSpawn) rfl (decide_eq_true hw)
      | finished =>
        have := h.settled hw
        unfold Settled at this
        simp [hspawn, hconn, hopen, hfl] at this
      | _ => rw [hw] at hke; rcases hke with hke | hke <;> cases hke
    · rw [hconn] at hk
      cases hk

/-- In every reachable state there is at most one kill and one terminal reply, and in
every final one a process that was spawned, and then asked to be killed or left by its
connection, has been killed once. -/
theorem killed_once {ls : List Label} {s : State} (h : Runs step initial ls s) :
    s.kills ≤ 1 ∧ s.replies.length ≤ 1 ∧
      (Final s → s.spawned = true → s.killer ≠ .idle ∨ s.connDone = true → s.kills = 1) := by
  have hi := runs_inv h
  refine ⟨?_,hi.replies_le,?_⟩
  · rw [hi.kills]
    exact Bool.toNat_le _
  · intro hf hs hk
    rw [hi.kills, hi.flag_of_final hf hs hk]
    rfl

/-- A kill message that finds the spawner parked. -/
def killParked : List Label :=
  [.accept,.spawnReturns none,.select,.killMessage,.receive,.killerSwap,.closeChannel,.killerKillReturns none,.killerReply]

theorem killed_once_killParked :
    ∃ s, Runs step initial killParked s ∧ Final s ∧ s.replies = [.close 2] ∧ s.kills = 1 := by
  have hr : Runs step initial killParked ⟨.finished,.finished,true,true,false,false,true,1,[.close 2]⟩ :=
    Runs.of_run (by decide)
  have hf : Final ⟨.finished,.finished,true,true,false,false,true,1,[.close 2]⟩ := by
    intro l hl
    cases l <;> first | rfl | cases hl
  exact ⟨_,hr,hf,rfl,(killed_once hr).2.2 hf rfl (Or.inl (by decide))⟩

end Stout.Isolate.SpawnKill
