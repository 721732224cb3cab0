import Stout.Library.Runs
import Stout.Library.Threads

/-! # Removing a Docker container after its death

One process object of `docker/container.go` and its container: any number of calls of
`Kill`, the death of the container and `watchEvents` of `docker/box.go` working on its
die event. `Spawn` has put the object into `containers` before the container ran. Docker
removes a container that is not running and refuses to remove one that is.
-/
namespace Stout.Docker.Removal
open Threads

inductive Container where
  | running
  | dead
  | gone
deriving DecidableEq, Repr

/-- A call of `ContainerRemove`: whether it went through the process object, and how it
found the container. -/
structure Issued where
  byProcess : Bool
  found : Container
deriving DecidableEq, Repr

/-- The next operation of a call of `Kill`; the deferred ones keep the answer of
`ContainerKill`. -/
inductive KillPc where
  | containerKill
  | remove (ok : Bool)
  | containerRemove (ok : Bool)
  | cancellation (ok : Bool)
  | returned (ok : Bool)
deriving DecidableEq, Repr

/-- Where `watchEvents` is with a die event of the container. -/
inductive WatchPc where
  | decoding
  | remove
  | containerRemove
  | unknown
deriving DecidableEq, Repr

structure State where
  container : Container
  issued : List Issued
  removed : Bool
  tracked : Bool
  handled : Bool
  watch : WatchPc
  kills : List KillPc
deriving DecidableEq, Repr

def initial : State := ⟨.running,[],false,true,false,.decoding,[]⟩

inductive KillEvent where
  | containerKill (ok : Bool)
  | remove
  | containerRemove
  | cancellation
deriving DecidableEq, Repr

inductive Label where
  | die
  | kill
  | killing (call : ℕ) (e : KillEvent)
  | dieEvent
  | watchRemove
  | watchContainerRemove
deriving DecidableEq, Repr

def Container.remove : Container → Container
  | .dead => .gone
  | c => c

def State.containerRemove (s : State) (byProcess : Bool) : State :=
  { s with container := s.container.remove, issued := s.issued ++ [⟨byProcess,s.container⟩] }

/-- One operation of `Kill`. `remove` goes on to `ContainerRemove` if it is the one that
sets the flag. -/
def State.killing (s : State) (i : ℕ) : KillPc → KillEvent → Option State
  | .containerKill, .containerKill ok => some { s with kills := s.kills.set i (.remove ok) }
  | .remove ok, .remove =>
    if s.removed then some { s with kills := s.kills.set i (.cancellation ok) }
    else some { s with removed := true, kills := s.kills.set i (.containerRemove ok) }
  | .containerRemove ok, .containerRemove =>
    some { s.containerRemove true with kills := s.kills.set i (.cancellation ok) }
  | .cancellation ok, .cancellation => some { s with kills := s.kills.set i (.returned ok) }
  | _, _ => none

/-- The die event can be read once the container is dead, and again when `watchEvents`
has connected anew. -/
def step (s : State) : Label → Option State
  | .die => if s.container = .running then some { s with container := .dead } else none
  | .kill => some { s with kills := s.kills ++ [.containerKill] }
  | .killing i e => (s.kills[i]?).bind fun pc => s.killing i pc e
  | .dieEvent =>
    if s.container ≠ .running ∧ s.watch = .decoding then
      some { s with tracked := false, watch := if s.tracked then .remove else .unknown }
    else none
  | .watchRemove =>
    if s.watch ≠ .remove then none
    else if s.removed then some { s with watch := .decoding, handled := true }
    else some { s with removed := true, watch := .containerRemove }
  | .watchContainerRemove =>
    match s.watch with
    | .containerRemove => some { s.containerRemove true with watch := .decoding, handled := true }
    | .unknown => some { s.containerRemove false with watch := .decoding, handled := true }
    | _ => none

def KillPc.isReturned : KillPc → Bool
  | .returned _ => true
  | _ => false

/-- Once the container is dead, its die event is dealt with and no `Kill` is on its way,
a removal has been issued after the death and the container is gone; the process object
issues one removal at most. -/
structure Removed (s : State) : Prop where
  gone : s.container ≠ .running → s.handled = true → (∀ k ∈ s.kills, k.isReturned = true) →
    s.container = .gone ∧ ∃ r ∈ s.issued, r.found ≠ .running
  once : s.issued.countP Issued.byProcess ≤ 1

/-- `Kill` does not get to `ContainerRemove` while the container runs. -/
def AfterDeath (s : State) : Label → Prop
  | .killing _ .containerRemove => s.container ≠ .running
  | _ => True

instance (s : State) (l : Label) : Decidable (AfterDeath s l) :=
  match l with
  | .killing _ .containerRemove => inferInstanceAs (Decidable (s.container ≠ .running))
  | .killing _ (.containerKill _) | .killing _ .remove | .killing _ .cancellation => .isTrue trivial
  | .die | .kill | .dieEvent | .watchRemove | .watchContainerRemove => .isTrue trivial

/-! ## The flag -/

def KillPc.removing : KillPc → Bool
  | .containerRemove _ => true
  | _ => false

def WatchPc.removing : WatchPc → Bool
  | .containerRemove => true
  | _ => false

section Steps
variable {s t : State} {l : Label} {i : ℕ} {pc : KillPc} {e : KillEvent}

/-- What an operation of `Kill` can do: move on, win the flag, or issue the removal. -/
theorem killing_cases (h : s.killing i pc e = some t) : ∃ pc',
    (pc.removing = pc'.removing ∧ t = { s with kills := s.kills.set i pc' }) ∨
    (s.removed = false ∧ pc.removing = false ∧ pc'.removing = true ∧
      t = { s with removed := true, kills := s.kills.set i pc' }) ∨
    (e = .containerRemove ∧ pc.removing = true ∧ pc'.removing = false ∧
      t = { s.containerRemove true with kills := s.kills.set i pc' }) := by
  unfold State.killing at h
  split at h
  case h_1 ok => exact ⟨.remove ok,Or.inl ⟨rfl,(Option.some.inj h).symm⟩⟩
  case h_2 ok =>
    split at h
    · exact ⟨.cancellation ok,Or.inl ⟨rfl,(Option.some.inj h).symm⟩⟩
    · rename_i hr
      exact ⟨.containerRemove ok,Or.inr (Or.inl ⟨by simpa using hr,rfl,rfl,(Option.some.inj h).symm⟩)⟩
  case h_3 ok => exact ⟨.cancellation ok,Or.inr (Or.inr ⟨rfl,rfl,rfl,(Option.some.inj h).symm⟩)⟩
  case h_4 ok => exact ⟨.returned ok,Or.inl ⟨rfl,(Option.some.inj h).symm⟩⟩
  case h_5 => cases h

/-- The flag counts the one removal of the process object, to come or issued. Nothing is
issued before the death, so a removal that is issued succeeds. -/
structure Inv (s : State) : Prop where
  latched : s.kills.countP KillPc.removing + s.watch.removing.toNat + s.issued.countP Issued.byProcess =
    s.removed.toNat
  reading : s.watch ≠ .decoding → s.container ≠ .running ∧ s.tracked = false
  tracked : s.tracked = false → s.removed = true ∨ s.watch = .remove
  handled : s.handled = true → s.tracked = false ∧ s.watch ≠ .remove ∧ s.watch ≠ .containerRemove
  after : ∀ r ∈ s.issued, r.found ≠ .running
  gone : s.issued ≠ [] → s.container = .gone

theorem inv_initial : Inv initial :=
  ⟨rfl,nofun,nofun,nofun,nofun,nofun⟩

theorem Container.remove_of_ne_running {c : Container} (h : c ≠ .running) : c.remove = .gone := by
  cases c with
  | running => exact absurd rfl h
  | dead => rfl
  | gone => rfl

theorem Inv.issue (hs : Inv s) (hc : s.container ≠ .running) (b : Bool) :
    (s.containerRemove b).container = .gone ∧ (∀ r ∈ (s.containerRemove b).issued, r.found ≠ .running) ∧
      (s.containerRemove b).issued.countP Issued.byProcess = s.issued.countP Issued.byProcess + b.toNat := by
  refine ⟨Container.remove_of_ne_running hc,?_,?_⟩
  · intro r hr
    rcases List.mem_append.mp hr with hr | hr
    · exact hs.after r hr
    · rw [List.mem_singleton.mp hr]
      exact hc
  · cases b <;> simp [State.containerRemove, List.countP_append]

theorem killing_inv (hs : Inv s) (hpc : s.kills[i]? = some pc) (hg : AfterDeath s (.killing i e))
    (h : s.killing i pc e = some t) : Inv t := by
  obtain ⟨pc',⟨hpp,rfl⟩ | ⟨hr,hp,hp',rfl⟩ | ⟨rfl,hp,hp',rfl⟩⟩ := killing_cases h
  all_goals have hc := countP_set_add hpc pc' KillPc.removing
  · refine ⟨?_,hs.reading,hs.tracked,hs.handled,hs.after,hs.gone⟩
    have hl := hs.latched
    rw [hpp] at hc
    dsimp only
    omega
  · refine ⟨?_,hs.reading,fun _ => Or.inl rfl,hs.handled,hs.after,hs.gone⟩
    have hl := hs.latched
    rw [hp, hp'] at hc
    rw [hr] at hl
    simp only [Bool.toNat_true, Bool.toNat_false] at hc hl ⊢
    omega
  · obtain ⟨hgone,hafter,hcount⟩ := hs.issue hg true
    refine ⟨?_,fun hw => ⟨?_,(hs.reading hw).2⟩,hs.tracked,hs.handled,hafter,fun _ => hgone⟩
    · have hl := hs.latched
      rw [hp, hp'] at hc
      simp only [Bool.toNat_true, Bool.toNat_false] at hc hcount
      change (s.kills.set i pc').countP _ + s.watch.removing.toNat + _ = s.removed.toNat
      rw [hcount]
      omega
    · rw [hgone]
      nofun

theorem Inv.watched (hs : Inv s) {b : Bool} (hb : s.watch.removing = b) (hd : s.watch ≠ .decoding)
    (hr : s.watch ≠ .remove) : Inv { s.containerRemove b with watch := .decoding, handled := true } := by
  obtain ⟨hc,htr⟩ := hs.reading hd
  obtain ⟨hgone,hafter,hcount⟩ := hs.issue hc b
  refine ⟨?_,nofun,fun _ => Or.inl ((hs.tracked htr).resolve_right hr),fun _ => ⟨htr,nofun,nofun⟩,hafter,fun _ => hgone⟩
  have hl := hs.latched
  rw [hb] at hl
  change s.kills.countP _ + Bool.toNat false + _ = s.removed.toNat
  rw [hcount, Bool.toNat_false]
  omega

theorem Inv.dieEvent (hs : Inv s) (h : step s .dieEvent = some t) : Inv t := by
  obtain ⟨⟨hc,hw⟩,ht⟩ := Option.ite_none_right_eq_some.mp h
  cases ht
  have hl := hs.latched
  rw [hw] at hl
  cases htr : s.tracked with
  | true =>
    refine ⟨hl,fun _ => ⟨hc,rfl⟩,fun _ => Or.inr rfl,?_,hs.after,hs.gone⟩
    intro hh
    rw [(hs.handled hh).1] at htr
    cases htr
  | false =>
    refine ⟨hl,fun _ => ⟨hc,rfl⟩,?_,fun _ => ⟨rfl,nofun,nofun⟩,hs.after,hs.gone⟩
    intro _
    have ht := hs.tracked htr
    rw [hw] at ht
    exact Or.inl (ht.resolve_right nofun)

theorem Inv.watchRemove (hs : Inv s) (h : step s .watchRemove = some t) : Inv t := by
  obtain ⟨hw,ht⟩ := Option.ite_none_left_eq_some.mp h
  have hw := not_not.mp hw
  have hl := hs.latched
  rw [hw] at hl
  have hread := hs.reading (by rw [hw]; nofun)
  split at ht
  case isTrue hr =>
    cases ht
    exact ⟨hl,nofun,fun _ => Or.inl hr,fun _ => ⟨hread.2,nofun,nofun⟩,hs.after,hs.gone⟩
  case isFalse hr =>
    cases ht
    have hr : s.removed = false := by simpa using hr
    rw [hr] at hl
    refine ⟨?_,fun _ => hread,fun _ => Or.inl rfl,?_,hs.after,hs.gone⟩
    · simp only [WatchPc.removing, Bool.toNat_false, Bool.toNat_true] at hl ⊢
      omega
    · intro hh
      exact absurd hw (hs.handled hh).2.1

theorem step_inv (s : State) (l : Label) (t : State) (hs : Inv s) (hg : AfterDeath s l) (h : step s l = some t) :
    Inv t := by
  cases l with
  | die =>
    obtain ⟨hc,ht⟩ := Option.ite_none_right_eq_some.mp h
    cases ht
    refine ⟨hs.latched,fun hw => ⟨nofun,(hs.reading hw).2⟩,hs.tracked,hs.handled,hs.after,?_⟩
    intro hi
    rw [hs.gone hi] at hc
    cases hc
  | kill =>
    cases h
    refine ⟨?_,hs.reading,hs.tracked,hs.handled,hs.after,hs.gone⟩
    have hl := hs.latched
    simpa [List.countP_append, KillPc.removing] using hl
  | killing i e =>
    obtain ⟨pc,hpc,hk⟩ := Option.bind_eq_some_iff.mp h
    exact killing_inv hs hpc hg hk
  | dieEvent => exact hs.dieEvent h
  | watchRemove => exact hs.watchRemove h
  | watchContainerRemove =>
    simp only [step] at h
    split at h
    case h_1 hw =>
      cases h
      exact hs.watched (by rw [hw]; rfl) (by rw [hw]; nofun) (by rw [hw]; nofun)
    case h_2 hw =>
      cases h
      exact hs.watched (by rw [hw]; rfl) (by rw [hw]; nofun) (by rw [hw]; nofun)
    case h_3 => cases h

theorem Inv.removed (hs : Inv s) : Removed s := by
  have hl := hs.latched
  refine ⟨?_,?_⟩
  · intro _ hh hk
    obtain ⟨htr,hw,hw'⟩ := hs.handled hh
    have hr : s.removed = true := (hs.tracked htr).resolve_right hw
    have hkills : s.kills.countP KillPc.removing = 0 := by
      rw [List.countP_eq_zero]
      intro k hmem hrem
      have hret := hk k hmem
      cases k <;> simp [KillPc.isReturned, KillPc.removing] at hret hrem
    have hwatch : s.watch.removing = false := by
      cases hcase : s.watch <;> simp_all [WatchPc.removing]
    rw [hkills, hwatch, hr, Bool.toNat_false, Bool.toNat_true] at hl
    obtain ⟨r,hmem,-⟩ := List.countP_pos_iff.mp (by omega : 0 < s.issued.countP Issued.byProcess)
    exact ⟨hs.gone (List.ne_nil_of_mem hmem),r,hmem,hs.after r hmem⟩
  · have := Bool.toNat_le s.removed
    omega

/-- Along every run in which `Kill` does not issue its removal while the container runs,
the container is removed after its death, and once. -/
theorem removed_of_afterDeath (as : List Label) (h : Runs step initial as t) (hg : Meets step AfterDeath initial as) :
    Removed t :=
  (h.invariant_of_meets step_inv hg inv_initial).removed

end Steps

/-- `Kill` ends the container, waits for the event and finds its removal done. -/
theorem removed_of_afterDeath_event :
    let as : List Label := [.kill,.killing 0 (.containerKill true),.die,.dieEvent,.watchRemove,.killing 0 .remove,
      .killing 0 .cancellation,.watchContainerRemove]
    ∃ t, run step initial as = some t ∧ Meets step AfterDeath initial as ∧ Removed t := by
  intro as
  exact ⟨_,rfl,by decide,removed_of_afterDeath as (.of_run rfl) (by decide)⟩

/-- `ContainerKill` fails, the removal of `Kill` finds the container running and uses up
the flag: nothing removes the container when it dies. -/
theorem kill_spends_flag : ∃ t, run step initial
    [.kill,.killing 0 (.containerKill false),.killing 0 .remove,.killing 0 .containerRemove,.killing 0 .cancellation,
      .die,.dieEvent,.watchRemove] = some t ∧
    t.container = .dead ∧ t.handled = true ∧ t.kills = [.returned false] ∧ ¬Removed t := by
  refine ⟨_,rfl,rfl,rfl,rfl,?_⟩
  intro h
  exact absurd (h.gone (by decide) rfl (by decide)).1 (by decide)

end Stout.Docker.Removal
