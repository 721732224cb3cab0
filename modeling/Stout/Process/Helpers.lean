import Stout.Process.Box

/-! # The download helper of the porto box beside the process box

`getLayersViaDownloadHelper` of `porto/box.go` starts a command and waits for it by its
number. In a daemon that has a process box as well the child is one of those that
`Wait4(-1)` of `Box.wait` may be handed.
-/
namespace Stout.Process
open ChildTable

inductive DaemonLabel where
  | box (l : Label)
  | start (pid : ℕ)
  | wait (i : ℕ)
deriving DecidableEq, Repr

/-- The second half of `CombinedOutput`: a wait for the number of the child. -/
def State.helperWait (s : State) (i : ℕ) : Option State :=
  match s.procs[i]? with
  | some ⟨pid,_,_,.helper none⟩ =>
    match unreapedAt s.procs pid with
    | none => some { s with procs := update s.procs i fun _ => .helper (some .errNoChild) }
    | some j => (reap s.procs j).map fun r =>
        { s with procs := update r.2.2 i fun _ => .helper (some (.exited r.2.1)) }
  | _ => none

def daemonStep (s : State) : DaemonLabel → Option State
  | .box l => step s l
  | .start pid => if Fresh s.procs pid then some { s with procs := fork s.procs pid (.helper none) } else none
  | .wait i => s.helperWait i

/-- The status of a helper went to its own wait, and what that gave is the status. -/
def Own (p : Child) : Prop := ∀ r, p.info = .helper r →
  (∀ status, p.life = .reaped status → r = some (.exited status)) ∧
    ∀ x, r = some x → ∃ status, p.life = .reaped status ∧ x = .exited status

def OwnWait (s : State) : Prop := ∀ p ∈ s.procs, Own p

def Handler.awaits : Handler → ℕ → Bool
  | .waiting pid _, n => pid == n
  | _, _ => false

/-- No helper is a zombie when `Box.wait` is handed a child, and none with the number when
it waits for a command. -/
def NoHelper (s : State) : DaemonLabel → Prop
  | .box (.handler (.wait4 (.child _))) => ∀ p ∈ s.procs, p.life.isZombie = true → p.info.isWorker = true
  | .box (.handler .cmdWait) =>
    ∀ p ∈ s.procs, p.life.isZombie = true → s.handler.awaits p.pid = true → p.info.isWorker = true
  | _ => True

instance (s : State) (l : DaemonLabel) : Decidable (NoHelper s l) :=
  match l with
  | .box (.handler (.wait4 (.child _))) =>
    inferInstanceAs (Decidable (∀ p ∈ s.procs, p.life.isZombie = true → p.info.isWorker = true))
  | .box (.handler .cmdWait) => inferInstanceAs
      (Decidable (∀ p ∈ s.procs, p.life.isZombie = true → s.handler.awaits p.pid = true → p.info.isWorker = true))
  | .box (.handler .notify) | .box (.handler .receive) | .box (.handler .done) | .box (.handler .lock)
  | .box (.handler (.wait4 .nothing)) | .box (.handler (.wait4 .eintr)) | .box (.handler .lookup)
  | .box (.handler .killPg) | .box (.handler .unlock) | .box (.spawn _ _) | .box (.kill _) | .box (.exit _ _)
  | .box (.disband _) | .box .raise | .box .deliver | .start _ | .wait _ => .isTrue trivial

section Own
variable {s t : State} {ps : List Child} {i pid status : ℕ} {p q : Child} {op : HandlerOp}

theorem own_of_worker (h : p.info.isWorker = true) : Own p := by
  intro r hr
  rw [hr] at h
  cases h

theorem own_set (h : ∀ p ∈ ps, Own p) (hq : Own q) : ∀ p ∈ ps.set i q, Own p := by
  intro p hp
  rcases List.mem_or_eq_of_mem_set hp with hp | rfl
  · exact h p hp
  · exact hq

theorem own_fork (h : ∀ p ∈ ps, Own p) {x : Role} (hx : Own ⟨pid,.running,true,x⟩) : ∀ p ∈ fork ps pid x, Own p := by
  intro p hp
  rcases List.mem_append.mp hp with hp | hp
  · exact h p hp
  · rw [List.mem_singleton.mp hp]
    exact hx

theorem own_update (h : ∀ p ∈ ps, Own p) {f : Role → Role} (hf : ∀ r, f (.helper r) = .helper r)
    (hw : ∀ d w, (f (.worker d w)).isWorker = true) : ∀ p ∈ update ps i f, Own p := by
  intro p hp
  rcases mem_update hp with ⟨j,-,hj⟩ | ⟨q,hq,rfl⟩
  · exact h p (List.mem_of_getElem? hj)
  · have hown := h q (List.mem_of_getElem? hq)
    obtain ⟨qpid,life,g,x⟩ := q
    cases x with
    | worker d w => exact own_of_worker (hw d w)
    | helper r =>
      simp only [hf]
      exact hown

theorem own_reap (h : ∀ p ∈ ps, Own p) (hw : p.info.isWorker = true) :
    ∀ q ∈ ps.set i { p with life := .reaped status }, Own q :=
  own_set h (own_of_worker hw)

theorem SpawnStep.own (h : SpawnStep s pid t) (hs : OwnWait s) : OwnWait t := by
  cases h with
  | fork => exact own_fork hs (own_of_worker rfl)
  | _ => exact hs

theorem isZombie_of_eq (hz : p.life = .zombie status) : p.life.isZombie = true := by rw [hz]; rfl

theorem HandlerStep.own (h : HandlerStep s op t) (hs : OwnWait s) (hg : NoHelper s (.box (.handler op))) : OwnWait t := by
  cases h with
  | child hh i p status hp hz => exact own_reap hs (hg p (List.mem_of_getElem? hp) (isZombie_of_eq hz))
  | known => exact own_update hs (fun _ => rfl) (fun _ _ => rfl)
  | gone => exact own_update hs (fun _ => rfl) (fun _ _ => rfl)
  | other pid cmd hh i hu p status hp hz =>
    have hpid : s.handler.awaits p.pid = true := by
      rw [hh]
      obtain ⟨hlen,hc,-⟩ := List.findIdx?_eq_some_iff_getElem.mp hu
      obtain ⟨-,rfl⟩ := List.getElem?_eq_some_iff.mp hp
      simp only [Bool.and_eq_true, beq_iff_eq] at hc
      simp [Handler.awaits, hc.1]
    have hw := hg p (List.mem_of_getElem? hp) (isZombie_of_eq hz) hpid
    exact own_update (own_reap hs hw) (fun _ => rfl) (fun _ _ => rfl)
  | _ => exact hs

theorem step_own {l : Label} (hs : OwnWait s) (hg : NoHelper s (.box l)) (h : step s l = some t) : OwnWait t := by
  cases step_cases h with
  | spawn pid e t hst => exact hst.own hs
  | handler op t hst => exact hst.own hs hg
  | exit i status p hp hr =>
    refine own_set hs ?_
    intro r hinfo
    refine ⟨nofun,?_⟩
    intro x hx
    obtain ⟨st,hst,-⟩ := (hs p (List.mem_of_getElem? hp) r hinfo).2 x hx
    rw [hr] at hst
    cases hst
  | disband i p hp hu => exact own_set hs (hs p (List.mem_of_getElem? hp))
  | _ => exact hs

theorem helperWait_cases (hn : Numbered s.procs) (hs : OwnWait s) (h : s.helperWait i = some t) :
    ∃ p status, s.procs[i]? = some p ∧ p.life = .zombie status ∧ t = { s with
      procs := update (s.procs.set i { p with life := .reaped status }) i fun _ => .helper (some (.exited status)) } := by
  unfold State.helperWait at h
  split at h
  case h_1 pid life g hp =>
    have hu : life.unreaped = true := by
      cases life with
      | reaped status => cases (hs _ (List.mem_of_getElem? hp) none rfl).1 status rfl
      | _ => rfl
    rw [hn.unreapedAt_eq hp hu] at h
    obtain ⟨⟨pid',status,qs⟩,hr,rfl⟩ := Option.map_eq_some_iff.mp h
    obtain ⟨p,hp',-,hz,rfl⟩ := reap_cases hr
    cases hp.symm.trans hp'
    exact ⟨_,status,hp,hz,rfl⟩
  case h_2 => cases h

end Own

structure HelperInv (s : State) : Prop where
  numbered : Numbered s.procs
  own : OwnWait s

theorem daemonStep_inv (s : State) (l : DaemonLabel) (t : State) (hs : HelperInv s) (hg : NoHelper s l)
    (h : daemonStep s l = some t) : HelperInv t := by
  cases l with
  | box l => exact ⟨step_numbered s l t hs.numbered h,step_own hs.own hg h⟩
  | start pid =>
    obtain ⟨hf,ht⟩ := Option.ite_none_right_eq_some.mp h
    cases ht
    refine ⟨hs.numbered.fork hf,own_fork hs.own ?_⟩
    intro r hr
    cases hr
    exact ⟨nofun,nofun⟩
  | wait i =>
    obtain ⟨p,status,hp,hz,rfl⟩ := helperWait_cases hs.numbered hs.own h
    have hlen := (List.getElem?_eq_some_iff.mp hp).1
    have hn : Numbered (s.procs.set i { p with life := .reaped status }) := numbered_reap hs.numbered hp
    refine ⟨hn.update (f := fun _ => .helper (some (.exited status))),?_⟩
    intro q hq
    dsimp only at hq
    rcases mem_update hq with ⟨j,he,hj⟩ | ⟨r,hr,rfl⟩
    · rw [List.getElem?_set_ne he] at hj
      exact hs.own q (List.mem_of_getElem? hj)
    · rw [List.getElem?_set_self hlen] at hr
      cases hr
      intro r hr
      cases hr
      refine ⟨?_,?_⟩
      · rintro st ⟨⟩
        rfl
      · rintro x ⟨⟩
        exact ⟨status,rfl,rfl⟩

/-- A poll of `Box.wait` can take any zombie; if it is a helper, the helper never gets its
status. -/
theorem poll_takes_helper {s : State} {i : ℕ} {p : Child} (hh : s.handler = .polling) (hp : s.procs[i]? = some p)
    (hinfo : p.info = .helper none) (hz : p.life.isZombie = true) :
    ∃ t, daemonStep s (.box (.handler (.wait4 (.child i)))) = some t ∧ ¬OwnWait t := by
  cases hl : p.life with
  | zombie status =>
    refine ⟨{ s with procs := s.procs.set i { p with life := .reaped status }, handler := .found p.pid },?_,?_⟩
    · simp [daemonStep, step, State.handle, hh, reap_of_zombie hp hl]
    · intro ho
      have hlen := (List.getElem?_eq_some_iff.mp hp).1
      have hown := ho _ (List.mem_of_getElem? (List.getElem?_set_self hlen)) none hinfo
      cases hown.1 status rfl
  | _ => rw [hl] at hz; cases hz

/-- Along every run in which `Box.wait` meets no helper that is a zombie, the status of each
helper goes to its own wait. And wherever `Box.wait` polls while a helper is a zombie, the
poll can take its status. -/
theorem ownWait_of_noHelper (as : List DaemonLabel) (t : State) (h : Runs daemonStep initial as t) :
    (Meets daemonStep NoHelper initial as → OwnWait t) ∧
    ∀ (i : ℕ) (p : Child), t.handler = .polling → t.procs[i]? = some p → p.info = .helper none →
      p.life.isZombie = true → ∃ u, daemonStep t (.box (.handler (.wait4 (.child i)))) = some u ∧ ¬OwnWait u := by
  constructor
  · intro hg
    exact (h.invariant_of_meets daemonStep_inv hg ⟨.nil,nofun⟩).own
  · intro i p hh hp hinfo hz
    exact poll_takes_helper hh hp hinfo hz

/-- A helper exits while a worker runs and its own wait comes first. -/
theorem ownWait_of_noHelper_first :
    let as : List DaemonLabel := .box (.handler .notify) :: (launch 7 0).map .box ++
      ([.start 9,.box (.exit 1 0),.box .deliver,.wait 1,.box (.handler .receive),.box (.handler .lock),
        .box (.handler (.wait4 .nothing))] : List DaemonLabel)
    ∃ t, run daemonStep initial as = some t ∧ Meets daemonStep NoHelper initial as ∧ OwnWait t := by
  intro as
  exact ⟨_,rfl,by decide,(ownWait_of_noHelper as _ (.of_run rfl)).1 (by decide)⟩

/-- A helper exits with status nought, `Box.wait` takes it, and the helper is told that it
has no child. -/
theorem helper_taken : ∃ t, run daemonStep initial
    [.box (.handler .notify),.start 9,.box (.exit 0 0),.box .deliver,.box (.handler .receive),.box (.handler .lock),
      .box (.handler (.wait4 (.child 0))),.box (.handler .lookup),.wait 0] = some t ∧
    t.procs = [⟨9,.reaped 0,true,.helper (some .errNoChild)⟩] ∧ ¬OwnWait t := by
  refine ⟨_,rfl,rfl,?_⟩
  intro h
  cases (h _ (List.mem_singleton_self _) _ rfl).1 0 rfl

end Stout.Process
