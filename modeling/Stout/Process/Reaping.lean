import Stout.Process.Box

/-! # Reaping workers

Every worker that exits is reaped by `sigchldHandler`, its entry deleted and its `Cmd`
waited for, once each. The argument has two halves: what the box keeps about its workers
whatever the signals do, and that a zombie is always about to be heard of. The second
half needs that no SIGCHLD for a worker comes before `signal.Notify`, which
`sigchldHandler` calls in a goroutine that `NewBox` does not wait for.
-/
namespace Stout.Process
open ChildTable Threads
open Std (ExtTreeMap)

/-! ## What the box keeps about its workers -/

/-- The number whose status the handler has taken and is not done with. -/
def Handler.taken : Handler → Option ℕ
  | .found pid | .killing pid _ | .waiting pid _ => some pid
  | _ => none

/-- The command whose entry is deleted and that is not waited for yet. -/
def Handler.dropping : Handler → Option ℕ
  | .killing _ cmd | .waiting _ cmd => some cmd
  | _ => none

/-- Each worker is in the table, about to be put there, being dropped or dropped. -/
structure Kept (s : State) : Prop where
  numbered : Numbered s.procs
  locked : s.handler.locked = true → s.spawning = none
  entry : ∀ pid cmd, s.children[pid]? = some cmd → ∃ p, s.procs[cmd]? = some p ∧ p.pid = pid ∧
    p.info = .worker 0 0 ∧ (p.life.unreaped = true ∨ s.handler = .found pid)
  inserting : ∀ cmd, s.spawning = some (.insert cmd) → ∃ p, s.procs[cmd]? = some p ∧ p.info = .worker 0 0 ∧
    p.life.unreaped = true ∧ s.children[p.pid]? = none
  stage : ∀ (i : ℕ) (p : Child), s.procs[i]? = some p → s.children[p.pid]? = some i ∨ s.spawning = some (.insert i) ∨
    s.handler.dropping = some i ∨ (p.info = .worker 1 1 ∧ p.life.unreaped = false)
  found : ∀ pid, s.handler = .found pid → ∃ cmd p, s.children[pid]? = some cmd ∧ s.procs[cmd]? = some p ∧
    p.life.unreaped = false
  taken : ∀ pid, s.handler.taken = some pid → unreapedAt s.procs pid = none
  dropping : ∀ cmd, s.handler.dropping = some cmd → ∃ p, s.procs[cmd]? = some p ∧ p.info = .worker 1 0 ∧
    p.life.unreaped = false

section Kept
variable {s t : State} {i pid : ℕ} {p q : Child} {op : HandlerOp}

theorem kept_initial : Kept initial := by
  refine ⟨.nil,nofun,?_,nofun,?_,nofun,nofun,nofun⟩
  · intro pid cmd h
    simp [initial] at h
  · intro i p h
    simp [initial] at h

theorem Kept.set (h : Kept s) (hp : s.procs[i]? = some p) (ha : Alike p q) (hn : Numbered (s.procs.set i q)) :
    Kept { s with procs := s.procs.set i q } := by
  refine ⟨hn,h.locked,?_,?_,?_,?_,?_,?_⟩
  · intro pid cmd hc
    obtain ⟨r,hr,hpid,hinfo,hu⟩ := h.entry pid cmd hc
    obtain ⟨t,ht,h1,h2,h3⟩ := getElem?_set_alike hp ha hr
    exact ⟨t,ht,by rw [h1, hpid],by rw [h2, hinfo],by rw [h3]; exact hu⟩
  · intro cmd hc
    obtain ⟨r,hr,hinfo,hu,hch⟩ := h.inserting cmd hc
    obtain ⟨t,ht,h1,h2,h3⟩ := getElem?_set_alike hp ha hr
    exact ⟨t,ht,by rw [h2, hinfo],by rw [h3, hu],by rw [h1]; exact hch⟩
  · intro j r hr
    obtain ⟨t,ht,h1,h2,h3⟩ := getElem?_of_set_alike hp ha hr
    have hs := h.stage j t ht
    rw [← h1, ← h2, ← h3] at hs
    exact hs
  · intro pid hf
    obtain ⟨cmd,r,hc,hr,hu⟩ := h.found pid hf
    obtain ⟨t,ht,-,-,h3⟩ := getElem?_set_alike hp ha hr
    exact ⟨cmd,t,hc,ht,by rw [h3, hu]⟩
  · intro pid hf
    have hno := unreapedAt_eq_none.mp (h.taken pid hf)
    refine unreapedAt_eq_none.mpr ?_
    intro r hr hpid
    obtain ⟨j,hj⟩ := List.getElem?_of_mem hr
    obtain ⟨t,ht,h1,-,h3⟩ := getElem?_of_set_alike hp ha hj
    rw [h3]
    exact hno t (List.mem_of_getElem? ht) (by rw [← h1, hpid])
  · intro cmd hc
    obtain ⟨r,hr,hinfo,hu⟩ := h.dropping cmd hc
    obtain ⟨t,ht,-,h2,h3⟩ := getElem?_set_alike hp ha hr
    exact ⟨t,ht,by rw [h2, hinfo],by rw [h3, hu]⟩

theorem Kept.move (h : Kept s) {x : Handler} (hb : s.handler.taken = none) (ha : x.taken = none)
    (hl : x.locked = true → s.spawning = none) : Kept { s with handler := x } := by
  have hnf : ∀ pid, s.handler ≠ .found pid := by
    intro pid he
    rw [he] at hb
    cases hb
  have hnd : s.handler.dropping = none := by
    cases hh : s.handler <;> rw [hh] at hb <;> first | rfl | cases hb
  have hxf : ∀ pid, x ≠ .found pid := by
    intro pid he
    rw [he] at ha
    cases ha
  have hxd : x.dropping = none := by
    cases x <;> first | rfl | cases ha
  refine ⟨h.numbered,hl,?_,h.inserting,?_,?_,?_,?_⟩
  · intro pid cmd hc
    obtain ⟨r,hr,hpid,hinfo,hu⟩ := h.entry pid cmd hc
    exact ⟨r,hr,hpid,hinfo,Or.inl (hu.resolve_right (hnf pid))⟩
  · intro j r hr
    have hs := h.stage j r hr
    rw [hnd] at hs
    rw [hxd]
    exact hs
  · intro pid he
    exact absurd he (hxf pid)
  · intro pid he
    rw [ha] at he
    cases he
  · intro cmd he
    rw [hxd] at he
    cases he

theorem Kept.spawning (h : Kept s) {x : Option Place} (hb : ∀ cmd, s.spawning ≠ some (.insert cmd))
    (ha : ∀ cmd, x ≠ some (.insert cmd)) (hl : s.handler.locked = true → x = none) : Kept { s with spawning := x } := by
  refine ⟨h.numbered,hl,h.entry,?_,?_,h.found,h.taken,h.dropping⟩
  · intro cmd hc
    exact absurd hc (ha cmd)
  · intro j r hr
    rcases h.stage j r hr with hs | hs | hs
    · exact Or.inl hs
    · exact absurd hs (hb j)
    · exact Or.inr (Or.inr hs)

theorem Kept.not_locked (h : Kept s) {pl : Place} (hs : s.spawning = some pl) : s.handler.locked = false := by
  cases hl : s.handler.locked with
  | false => rfl
  | true =>
    rw [h.locked hl] at hs
    cases hs

theorem Kept.taken_of_spawning (h : Kept s) {pl : Place} (hs : s.spawning = some pl) :
    s.handler.taken = none ∧ s.handler.dropping = none ∧ ∀ pid, s.handler ≠ .found pid := by
  have hl := h.not_locked hs
  cases hh : s.handler <;> rw [hh] at hl <;> first | exact ⟨rfl,rfl,nofun⟩ | cases hl

theorem Kept.fresh (h : Kept s) {pl : Place} (hs : s.spawning = some pl) (hf : Fresh s.procs pid) :
    s.children[pid]? = none := by
  cases hc : s.children[pid]? with
  | none => rfl
  | some cmd =>
    obtain ⟨p,hp,hpid,-,hu⟩ := h.entry pid cmd hc
    have hg := h.numbered.group cmd p hp (hu.resolve_right ((h.taken_of_spawning hs).2.2 pid))
    exact absurd hpid (hf.2 p (List.mem_of_getElem? hp) hg)

theorem Kept.fork (h : Kept s) (hs : s.spawning = some .newProcess) (hf : Fresh s.procs pid) :
    Kept { s with procs := fork s.procs pid (.worker 0 0), spawning := some (.insert s.procs.length) } := by
  obtain ⟨htk,hdr,hnf⟩ := h.taken_of_spawning hs
  have hold : ∀ {j : ℕ} {r : Child}, s.procs[j]? = some r → (ChildTable.fork s.procs pid (.worker 0 0))[j]? = some r := by
    intro j r hr
    have hlt := (List.getElem?_eq_some_iff.mp hr).1
    rw [getElem?_fork, if_neg (by omega), hr]
  refine ⟨h.numbered.fork hf,?_,?_,?_,?_,?_,?_,?_⟩
  · intro hl
    rw [h.locked hl] at hs
    cases hs
  · intro q cmd hc
    obtain ⟨r,hr,hrest⟩ := h.entry q cmd hc
    exact ⟨r,hold hr,hrest⟩
  · rintro cmd hc
    cases hc
    exact ⟨⟨pid,.running,true,.worker 0 0⟩,by rw [getElem?_fork, if_pos rfl],rfl,rfl,h.fresh hs hf⟩
  · intro j r hr
    rw [getElem?_fork] at hr
    split at hr
    case isTrue hj => exact Or.inr (Or.inl (by rw [hj]))
    case isFalse =>
      rcases h.stage j r hr with hst | hst | hst
      · exact Or.inl hst
      · rw [hs] at hst
        cases hst
      · exact Or.inr (Or.inr hst)
  · intro q he
    exact absurd he (hnf q)
  · intro q he
    rw [htk] at he
    cases he
  · intro cmd he
    rw [hdr] at he
    cases he

theorem Kept.insert (h : Kept s) {cmd : ℕ} (hs : s.spawning = some (.insert cmd)) (hp : s.procs[cmd]? = some p) :
    Kept { s with children := s.children.insert p.pid cmd, spawning := some (.unlock (.spawned cmd)) } := by
  obtain ⟨htk,hdr,hnf⟩ := h.taken_of_spawning hs
  obtain ⟨r,hr,hinfo,hu,hch⟩ := h.inserting cmd hs
  cases hp.symm.trans hr
  refine ⟨h.numbered,?_,?_,nofun,?_,?_,?_,?_⟩
  · intro hl
    rw [h.locked hl] at hs
    cases hs
  · intro pid c hc
    rw [ExtTreeMap.getElem?_insert] at hc
    split at hc
    case isTrue he =>
      cases hc
      exact ⟨p,hp,compare_eq_iff_eq.mp he,hinfo,Or.inl hu⟩
    case isFalse => exact h.entry pid c hc
  · intro j r hr
    rcases h.stage j r hr with hst | hst | hst
    · refine Or.inl ?_
      dsimp only
      rw [ExtTreeMap.getElem?_insert]
      split
      case isTrue he =>
        rw [← compare_eq_iff_eq.mp he, hch] at hst
        cases hst
      case isFalse => exact hst
    · rw [hs] at hst
      cases hst
      cases hp.symm.trans hr
      exact Or.inl (by simp)
    · exact Or.inr (Or.inr hst)
  · intro pid he
    exact absurd he (hnf pid)
  · intro pid he
    rw [htk] at he
    cases he
  · intro c he
    rw [hdr] at he
    cases he

theorem Kept.child (h : Kept s) (hh : s.handler = .polling) (hp : s.procs[i]? = some p) {status : ℕ}
    (hz : p.life = .zombie status) :
    Kept { s with procs := s.procs.set i { p with life := .reaped status }, handler := .found p.pid } := by
  have hlen := (List.getElem?_eq_some_iff.mp hp).1
  have hsp : s.spawning = none := h.locked (by rw [hh]; rfl)
  have hpu : p.life.unreaped = true := by rw [hz]; rfl
  have hch : s.children[p.pid]? = some i := by
    rcases h.stage i p hp with hst | hst | hst | ⟨-,hu⟩
    · exact hst
    · rw [hsp] at hst
      cases hst
    · rw [hh] at hst
      cases hst
    · rw [hpu] at hu
      cases hu
  refine ⟨numbered_reap h.numbered hp,fun _ => hsp,?_,?_,?_,?_,?_,nofun⟩
  · intro pid cmd hc
    obtain ⟨r,hr,hpid,hinfo,hu⟩ := h.entry pid cmd hc
    by_cases he : i = cmd
    · subst he
      cases hp.symm.trans hr
      exact ⟨_,List.getElem?_set_self hlen,hpid,hinfo,Or.inr (by rw [hpid])⟩
    · exact ⟨r,by rw [List.getElem?_set_ne he, hr],hpid,hinfo,Or.inl (hu.resolve_right (by rw [hh]; nofun))⟩
  · intro cmd hc
    rw [hsp] at hc
    cases hc
  · intro j r hr
    rcases of_getElem?_set hr with ⟨rfl,rfl⟩ | ⟨he,hr⟩
    · exact Or.inl hch
    · have hst := h.stage j r hr
      rw [hh] at hst
      exact hst.imp_right (Or.imp_right (Or.imp_left nofun))
  · intro pid he
    cases he
    exact ⟨i,_,hch,List.getElem?_set_self hlen,rfl⟩
  · intro pid he
    cases he
    refine unreapedAt_eq_none.mpr ?_
    intro r hr hpid
    obtain ⟨j,hj⟩ := List.getElem?_of_mem hr
    rcases of_getElem?_set hj with ⟨-,rfl⟩ | ⟨he,hj⟩
    · rfl
    · cases hu : r.life.unreaped with
      | false => rfl
      | true =>
        have hg := h.numbered.group
        exact absurd (h.numbered.unique hp hj hpid.symm (hg i p hp hpu) (hg j r hj hu)) he

theorem Kept.known (h : Kept s) {cmd : ℕ} (hh : s.handler = .found pid) (hc : s.children[pid]? = some cmd) :
    Kept { s with
      procs := update s.procs cmd Role.delete
      children := s.children.erase pid
      handler := .killing pid cmd } := by
  have hsp : s.spawning = none := h.locked (by rw [hh]; rfl)
  obtain ⟨cmd',p,hc',hp,hu⟩ := h.found pid hh
  cases hc.symm.trans hc'
  obtain ⟨r,hr,hpid,hinfo,-⟩ := h.entry pid cmd hc
  cases hp.symm.trans hr
  refine ⟨h.numbered.update,fun _ => hsp,?_,?_,?_,nofun,?_,?_⟩
  · intro q c hq
    rw [ExtTreeMap.getElem?_erase] at hq
    split at hq
    case isTrue => cases hq
    case isFalse hne =>
      obtain ⟨r,hr,hrp,hri,hru⟩ := h.entry q c hq
      have hcc : cmd ≠ c := by
        rintro rfl
        cases hp.symm.trans hr
        exact hne (compare_eq_iff_eq.mpr (hpid.symm.trans hrp))
      refine ⟨r,by rw [getElem?_update_ne hcc, hr],hrp,hri,Or.inl (hru.resolve_right ?_)⟩
      rw [hh]
      rintro ⟨⟩
      exact hne (compare_eq_iff_eq.mpr rfl)
  · intro c hc
    rw [hsp] at hc
    cases hc
  · intro j r hr
    by_cases he : cmd = j
    · exact Or.inr (Or.inr (Or.inl (congrArg some he)))
    · rw [getElem?_update_ne he] at hr
      rcases h.stage j r hr with hst | hst | hst | hst
      · refine Or.inl ?_
        dsimp only
        rw [ExtTreeMap.getElem?_erase]
        split
        case isTrue heq =>
          rw [← compare_eq_iff_eq.mp heq, hc] at hst
          exact absurd (Option.some.inj hst) he
        case isFalse => exact hst
      · rw [hsp] at hst
        cases hst
      · rw [hh] at hst
        cases hst
      · exact Or.inr (Or.inr (Or.inr hst))
  · rintro q ⟨⟩
    exact unreapedAt_update (h.taken pid (by rw [hh]; rfl))
  · rintro c ⟨⟩
    exact ⟨_,getElem?_update_self hp,by rw [hinfo]; rfl,hu⟩

theorem Kept.gone (h : Kept s) {cmd : ℕ} (hh : s.handler = .waiting pid cmd) :
    Kept { s with procs := update s.procs cmd Role.wait, handler := .polling } := by
  have hsp : s.spawning = none := h.locked (by rw [hh]; rfl)
  obtain ⟨p,hp,hinfo,hu⟩ := h.dropping cmd (by rw [hh]; rfl)
  refine ⟨h.numbered.update,fun _ => hsp,?_,?_,?_,nofun,nofun,nofun⟩
  · intro q c hq
    obtain ⟨r,hr,hrp,hri,hru⟩ := h.entry q c hq
    have hcc : cmd ≠ c := by
      rintro rfl
      cases hp.symm.trans hr
      rw [hinfo] at hri
      cases hri
    exact ⟨r,by rw [getElem?_update_ne hcc, hr],hrp,hri,Or.inl (hru.resolve_right (by rw [hh]; nofun))⟩
  · intro c hc
    rw [hsp] at hc
    cases hc
  · intro j r hr
    by_cases he : cmd = j
    · subst he
      rw [getElem?_update_self hp] at hr
      cases hr
      exact Or.inr (Or.inr (Or.inr ⟨by rw [hinfo]; rfl,hu⟩))
    · rw [getElem?_update_ne he] at hr
      rcases h.stage j r hr with hst | hst | hst | hst
      · exact Or.inl hst
      · exact Or.inr (Or.inl hst)
      · rw [hh] at hst
        exact absurd (Option.some.inj hst) he
      · exact Or.inr (Or.inr (Or.inr hst))

theorem Kept.signals (h : Kept s) {c d : Bool} : Kept { s with sigchld := c, pending := d } :=
  ⟨h.numbered,h.locked,h.entry,h.inserting,h.stage,h.found,h.taken,h.dropping⟩

theorem Kept.killPg (h : Kept s) {cmd : ℕ} (hh : s.handler = .killing pid cmd) :
    Kept { s with handler := .waiting pid cmd } := by
  have htk := h.taken
  have hst := h.stage
  have hdr := h.dropping
  have hen := h.entry
  rw [hh] at htk hdr
  simp only [hh] at hst hen
  refine ⟨h.numbered,fun _ => h.locked (by rw [hh]; rfl),?_,h.inserting,hst,nofun,htk,hdr⟩
  intro q c hq
  obtain ⟨r,hr,hrp,hri,hru⟩ := hen q c hq
  exact ⟨r,hr,hrp,hri,Or.inl (hru.resolve_right nofun)⟩

theorem HandlerStep.kept (h : HandlerStep s op t) (hs : Kept s) : Kept t := by
  cases h with
  | notify hh => exact hs.move (by rw [hh]; rfl) rfl nofun
  | receive hh => exact (hs.move (x := .locking) (by rw [hh]; rfl) rfl nofun).signals
  | done hh => exact hs.move (by rw [hh]; rfl) rfl nofun
  | lock hh hsp => exact hs.move (by rw [hh]; rfl) rfl (fun _ => hsp)
  | child hh i p status hp hz => exact hs.child hh hp hz
  | nothing hh => exact hs.move (by rw [hh]; rfl) rfl (fun _ => hs.locked (by rw [hh]; rfl))
  | eintr => exact hs
  | known pid cmd hh hc => exact hs.known hh hc
  | unknown pid hh hc =>
    obtain ⟨cmd,p,hc',-⟩ := hs.found pid hh
    rw [hc] at hc'
    cases hc'
  | killPg pid cmd hh => exact hs.killPg hh
  | gone pid cmd hh => exact hs.gone hh
  | other pid cmd hh i hu =>
    rw [hs.taken pid (by rw [hh]; rfl)] at hu
    cases hu
  | unlock hh => exact hs.move (by rw [hh]; rfl) rfl nofun

theorem SpawnStep.kept (h : SpawnStep s pid t) (hs : Kept s) : Kept t := by
  cases h with
  | lock hsp hl =>
    refine hs.spawning ?_ nofun ?_
    · intro cmd he
      rw [hsp] at he
      cases he
    · intro hl'
      rw [hl] at hl'
      cases hl'
  | move pl hsp hpl next hn =>
    refine hs.spawning ?_ hn ?_
    · intro cmd he
      rw [hsp] at he
      exact hpl cmd (Option.some.inj he)
    · intro hl
      rw [hs.locked hl] at hsp
      cases hsp
  | fork hsp hf => exact hs.fork hsp hf
  | insert cmd p hsp hp => exact hs.insert hsp hp

theorem step_kept (s : State) (l : Label) (t : State) (hs : Kept s) (h : step s l = some t) : Kept t := by
  cases step_cases h with
  | spawn pid e t hst => exact hst.kept hs
  | handler op t hst => exact hst.kept hs
  | kill cmd p hp => exact ⟨hs.numbered,hs.locked,hs.entry,hs.inserting,hs.stage,hs.found,hs.taken,hs.dropping⟩
  | exit i status p hp hr =>
    have ha : Alike p { p with life := .zombie status } := ⟨rfl,rfl,by rw [hr]; rfl⟩
    exact (hs.set hp ha (numbered_exit hs.numbered hp hr)).signals
  | disband i p hp hu =>
    have ha : Alike p { p with group := false } := ⟨rfl,rfl,rfl⟩
    exact hs.set hp ha (numbered_disband hs.numbered hp hu)
  | raise => exact hs.signals
  | deliver => exact hs.signals

end Kept

/-! ## A zombie is heard of -/

/-- The handler is going to poll, or will not poll any more. -/
def Handler.awake : Handler → Bool
  | .starting | .idle | .unlocking => false
  | _ => true

def Heard (s : State) : Prop :=
  anyZombie s.procs = true → s.pending = true ∨ s.sigchld = true ∨ s.handler.awake = true

/-- No SIGCHLD is delivered before `signal.Notify` while a worker is a zombie. -/
def InTime (s : State) : Label → Prop
  | .deliver => s.handler = .starting → anyZombie s.procs = false
  | _ => True

instance (s : State) (l : Label) : Decidable (InTime s l) :=
  match l with
  | .deliver => inferInstanceAs (Decidable (s.handler = .starting → anyZombie s.procs = false))
  | .spawn _ _ | .handler _ | .kill _ | .exit _ _ | .disband _ | .raise => .isTrue trivial

section Heard
variable {s t : State} {pid : ℕ} {op : HandlerOp}

theorem SpawnStep.heard (h : SpawnStep s pid t) (hs : Heard s) : Heard t := by
  cases h with
  | fork _ hf =>
    intro hz
    rw [anyZombie_fork] at hz
    exact hs hz
  | _ => exact hs

theorem HandlerStep.heard (h : HandlerStep s op t) (hs : Heard s) : Heard t := by
  cases h with
  | notify hh =>
    intro hz
    have := hs hz
    rw [hh] at this
    exact this
  | nothing _ hno =>
    intro hz
    rw [hno] at hz
    cases hz
  | eintr => exact hs
  | unlock hh =>
    intro hz
    have := hs hz
    rw [hh] at this
    exact this
  | _ => exact fun _ => Or.inr (Or.inr rfl)

theorem step_heard (s : State) (l : Label) (t : State) (hs : Heard s) (hg : InTime s l) (h : step s l = some t) :
    Heard t := by
  cases step_cases h with
  | spawn pid e t hst => exact hst.heard hs
  | handler op t hst => exact hst.heard hs
  | kill cmd p hp => exact hs
  | exit i status p hp hr => exact fun _ => Or.inl rfl
  | disband i p hp hu =>
    intro hz
    rw [anyZombie_set (q := { p with group := false }) hp rfl] at hz
    exact hs hz
  | raise => exact fun _ => Or.inl rfl
  | deliver =>
    intro hz
    cases hh : s.handler with
    | starting =>
      rw [hg hh] at hz
      cases hz
    | stopped => exact Or.inr (Or.inr rfl)
    | _ => exact Or.inr (Or.inl (by simp [Handler.notified]))

end Heard

/-! ## One call of wait -/

def Handler.rank : Handler → ℕ
  | .polling => 1
  | .waiting _ _ => 2
  | .killing _ _ => 3
  | .found _ => 4
  | _ => 0

/-- A bound for the operations `wait` still has before it. -/
def State.work (s : State) : ℕ := 5 * unreapedCount s.procs + s.handler.rank

/-- An operation of `wait`; an interrupted `Wait4` is not counted. -/
def Label.waits : Label → Bool
  | .handler (.wait4 .eintr) => false
  | .handler (.wait4 _) | .handler .lookup | .handler .killPg | .handler .cmdWait => true
  | _ => false

section Wait
variable {s t : State} {pid : ℕ} {op : HandlerOp} {l : Label}

theorem HandlerStep.work (h : HandlerStep s op t) (hl : s.handler.locked = true) (hne : op ≠ .unlock) :
    t.handler.locked = true ∧ t.work + (Label.waits (.handler op)).toNat ≤ s.work := by
  unfold State.work
  cases h with
  | notify hh | receive hh | done hh | lock hh => rw [hh] at hl; cases hl
  | child hh i p status hp hz =>
    have hc := unreapedCount_set (q := { p with life := .reaped status }) hp
    rw [hz] at hc
    simp only [Life.unreaped, Bool.toNat_true, Bool.toNat_false] at hc
    refine ⟨rfl,?_⟩
    simp only [hh, Handler.rank, Label.waits, Bool.toNat_true]
    omega
  | nothing hh => exact ⟨rfl,by simp [hh, Handler.rank, Label.waits]⟩
  | eintr hh => exact ⟨hl,by simp [Label.waits]⟩
  | known pid cmd hh => exact ⟨rfl,by simp [hh, Handler.rank, Label.waits, unreapedCount_update]⟩
  | unknown pid hh => exact ⟨rfl,by simp [hh, Handler.rank, Label.waits]⟩
  | killPg pid cmd hh => exact ⟨rfl,by simp [hh, Handler.rank, Label.waits]⟩
  | gone pid cmd hh => exact ⟨rfl,by simp [hh, Handler.rank, Label.waits, unreapedCount_update]⟩
  | other pid cmd hh i hu p status hp hz =>
    have hc := unreapedCount_set (q := { p with life := .reaped status }) hp
    rw [hz] at hc
    simp only [Life.unreaped, Bool.toNat_true, Bool.toNat_false] at hc
    refine ⟨rfl,?_⟩
    simp only [hh, Handler.rank, Label.waits, Bool.toNat_true, unreapedCount_update]
    omega
  | unlock => exact absurd rfl hne

/-- While the handler has the lock its work gets less with each operation of `wait` and
nothing adds to it. -/
theorem step_work (hk : Kept s) (hl : s.handler.locked = true) (h : step s l = some t) (hne : l ≠ .handler .unlock) :
    t.handler.locked = true ∧ t.work + l.waits.toNat ≤ s.work := by
  cases step_cases h with
  | spawn pid e t hst =>
    have hsp := hk.locked hl
    cases hst with
    | lock hs hn => rw [hl] at hn; cases hn
    | move pl hs | fork hs | insert cmd p hs => rw [hsp] at hs; cases hs
  | handler op t hst => exact hst.work hl (fun he => hne (congrArg _ he))
  | kill cmd p hp => exact ⟨hl,le_rfl⟩
  | exit i status p hp hr =>
    have hc := unreapedCount_set (q := { p with life := .zombie status }) hp
    rw [hr] at hc
    refine ⟨hl,?_⟩
    simp only [Life.unreaped, State.work, Label.waits, Bool.toNat_true, Bool.toNat_false] at hc ⊢
    omega
  | disband i p hp hu =>
    have hc := unreapedCount_set (q := { p with group := false }) hp
    refine ⟨hl,?_⟩
    simp only [State.work, Label.waits, Bool.toNat_false] at hc ⊢
    omega
  | raise => exact ⟨hl,le_rfl⟩
  | deliver => exact ⟨hl,le_rfl⟩

theorem runs_work {bs : List Label} (h : Runs step s bs t) (hk : Kept s) (hl : s.handler.locked = true)
    (hne : .handler .unlock ∉ bs) : bs.countP Label.waits + t.work ≤ s.work := by
  induction h with
  | refl => simp
  | @step s t u a as he _ ih =>
    obtain ⟨hne1,hne2⟩ := not_or.mp (List.mem_cons.not.mp hne)
    obtain ⟨hl',hw⟩ := step_work hk hl he (Ne.symm hne1)
    have := ih (step_kept _ _ _ hk he) hl' hne2
    rw [List.countP_cons]
    cases ha : a.waits with
    | true =>
      rw [ha, Bool.toNat_true] at hw
      simp only [if_true]
      omega
    | false =>
      simp only [Bool.false_eq_true, if_false]
      omega

theorem Kept.enabled (hk : Kept s) (hl : s.handler.locked = true) :
    ∃ op, (step s (.handler op)).isSome = true ∧ (op = .unlock ∨ Label.waits (.handler op) = true) := by
  cases hh : s.handler with
  | polling =>
    cases hz : anyZombie s.procs with
    | false => exact ⟨.wait4 .nothing,by simp [step, State.handle, hh, hz],Or.inr rfl⟩
    | true =>
      obtain ⟨p,hp,hzp⟩ := List.any_eq_true.mp hz
      obtain ⟨i,hi⟩ := List.getElem?_of_mem hp
      obtain ⟨pid,life,g,x⟩ := p
      cases life with
      | zombie status =>
        exact ⟨.wait4 (.child i),by simp [step, State.handle, hh, reap_of_zombie hi rfl],Or.inr rfl⟩
      | _ => cases hzp
  | found pid =>
    obtain ⟨cmd,p,hc,-⟩ := hk.found pid hh
    exact ⟨.lookup,by simp [step, State.handle, hh, hc],Or.inr rfl⟩
  | killing pid cmd => exact ⟨.killPg,by simp [step, State.handle, hh],Or.inr rfl⟩
  | waiting pid cmd =>
    have hu := hk.taken pid (by rw [hh]; rfl)
    exact ⟨.cmdWait,by simp [step, State.handle, hh, hu],Or.inr rfl⟩
  | unlocking => exact ⟨.unlock,by simp [step, State.handle, hh],Or.inl rfl⟩
  | _ => rw [hh] at hl; cases hl

end Wait

/-! ## Every worker is reaped -/

/-- The handler waits in its `select`, no signal is on its way and no `Spawn` has the lock. -/
def Quiet (s : State) : Prop := s.handler = .idle ∧ s.sigchld = false ∧ s.pending = false ∧ s.spawning = none

instance (s : State) : Decidable (Quiet s) := inferInstanceAs (Decidable (_ ∧ _ ∧ _ ∧ _))

structure Reaps (s : State) : Prop where
  keys : Quiet s → ∀ pid, pid ∈ s.children ↔ ∃ p ∈ s.procs, p.pid = pid ∧ p.life = .running
  once : Quiet s → ∀ p ∈ s.procs, p.info = if p.life = .running then .worker 0 0 else .worker 1 1
  atMost : ∀ p ∈ s.procs, p.info = .worker 0 0 ∨ p.info = .worker 1 0 ∨ p.info = .worker 1 1
  emptied : ∀ t, step s (.handler (.wait4 .nothing)) = some t → ∀ p ∈ s.procs, p.life.isZombie = false
  enabled : s.handler.locked = true →
    ∃ op, (step s (.handler op)).isSome = true ∧ (op = .unlock ∨ Label.waits (.handler op) = true)
  bounded : s.handler.locked = true → ∀ bs t, Runs step s bs t → .handler .unlock ∉ bs →
    bs.countP Label.waits ≤ 5 * unreapedCount s.procs + 4

section Reaps
variable {s t : State} {p : Child} {i : ℕ}

theorem Kept.quiet (hk : Kept s) (hh : Heard s) (hq : Quiet s) (hp : s.procs[i]? = some p) :
    (p.life = .running ∧ s.children[p.pid]? = some i ∧ p.info = .worker 0 0) ∨
    (p.life.unreaped = false ∧ p.info = .worker 1 1) := by
  obtain ⟨hidle,hsig,hpend,hsp⟩ := hq
  have hz : anyZombie s.procs = false := by
    cases hz : anyZombie s.procs with
    | false => rfl
    | true =>
      have := hh hz
      rw [hpend, hsig, hidle] at this
      simp [Handler.awake] at this
  have hpz := anyZombie_eq_false.mp hz p (List.mem_of_getElem? hp)
  rcases hk.stage i p hp with hst | hst | hst | ⟨hinfo,hu⟩
  · obtain ⟨r,hr,-,hinfo,hu⟩ := hk.entry p.pid i hst
    cases hp.symm.trans hr
    have hu := hu.resolve_right (by rw [hidle]; nofun)
    refine Or.inl ⟨?_,hst,hinfo⟩
    cases hl : p.life with
    | running => rfl
    | zombie status => rw [hl] at hpz; cases hpz
    | reaped status => rw [hl] at hu; cases hu
  · rw [hsp] at hst
    cases hst
  · rw [hidle] at hst
    cases hst
  · exact Or.inr ⟨hu,hinfo⟩

theorem Kept.reaps (hk : Kept s) (hh : Heard s) : Reaps s where
  keys := by
    intro hq pid
    constructor
    · intro hmem
      obtain ⟨cmd,hc⟩ := Option.isSome_iff_exists.mp (ExtTreeMap.isSome_getElem?_iff_mem.mpr hmem)
      obtain ⟨p,hp,hpid,hinfo,-⟩ := hk.entry pid cmd hc
      rcases hk.quiet hh hq hp with ⟨hl,-⟩ | ⟨-,hi⟩
      · exact ⟨p,List.mem_of_getElem? hp,hpid,hl⟩
      · rw [hinfo] at hi
        cases hi
    · rintro ⟨p,hmem,rfl,hl⟩
      obtain ⟨i,hp⟩ := List.getElem?_of_mem hmem
      rcases hk.quiet hh hq hp with ⟨-,hc,-⟩ | ⟨hu,-⟩
      · exact ExtTreeMap.isSome_getElem?_iff_mem.mp (by rw [hc]; rfl)
      · rw [hl] at hu
        cases hu
  once := by
    intro hq p hmem
    obtain ⟨i,hp⟩ := List.getElem?_of_mem hmem
    rcases hk.quiet hh hq hp with ⟨hl,-,hi⟩ | ⟨hu,hi⟩
    · rw [if_pos hl, hi]
    · rw [if_neg (by intro hl; rw [hl] at hu; cases hu), hi]
  atMost := by
    intro p hmem
    obtain ⟨i,hp⟩ := List.getElem?_of_mem hmem
    rcases hk.stage i p hp with hst | hst | hst | ⟨hinfo,-⟩
    · obtain ⟨r,hr,-,hinfo,-⟩ := hk.entry p.pid i hst
      cases hp.symm.trans hr
      exact Or.inl hinfo
    · obtain ⟨r,hr,hinfo,-⟩ := hk.inserting i hst
      cases hp.symm.trans hr
      exact Or.inl hinfo
    · obtain ⟨r,hr,hinfo,-⟩ := hk.dropping i hst
      cases hp.symm.trans hr
      exact Or.inr (Or.inl hinfo)
    · exact Or.inr (Or.inr hinfo)
  emptied := by
    intro t ht
    have hs : HandlerStep s (.wait4 .nothing) t := handle_cases ht
    cases hs with
    | nothing _ hz => exact anyZombie_eq_false.mp hz
  enabled := hk.enabled
  bounded := by
    intro hl bs t hr hne
    have hw := runs_work hr hk hl hne
    have hrank : s.handler.rank ≤ 4 := by cases s.handler <;> simp [Handler.rank]
    unfold State.work at hw
    omega

/-- Along every run in which no SIGCHLD for a worker comes before `signal.Notify`. -/
theorem reaps_of_inTime (as : List Label) (t : State) (h : Runs step initial as t) (hg : Meets step InTime initial as) :
    Reaps t := by
  have hk := h.invariant step_kept kept_initial
  have hh : Heard t := h.invariant_of_meets step_heard hg nofun
  exact hk.reaps hh

end Reaps

/-- Two workers exit, their signals merge and one turn reaps both. -/
theorem reaps_of_inTime_merged :
    let as := ([.handler .notify] : List Label) ++ launch 7 0 ++ launch 8 1 ++ ([.exit 1 0,.exit 0 1,.deliver,
      .handler .receive,.handler .lock,.handler (.wait4 (.child 0)),.handler .lookup,.handler .killPg,.handler .cmdWait,
      .handler (.wait4 (.child 1)),.handler .lookup,.handler .killPg,.handler .cmdWait,.handler (.wait4 .nothing),
      .handler .unlock] : List Label)
    ∃ t, run step initial as = some t ∧ Meets step InTime initial as ∧ Quiet t ∧ Reaps t := by
  intro as
  have hg : Meets step InTime initial as := by decide +kernel
  have hquiet : (run step initial as).map (fun t => decide (Quiet t)) = some true := by decide +kernel
  obtain ⟨t,ht,hq⟩ := Option.map_eq_some_iff.mp hquiet
  exact ⟨t,ht,hg,of_decide_eq_true hq,reaps_of_inTime as t (.of_run ht) hg⟩

/-- A worker exits before the goroutine of the handler has called `signal.Notify`: its
signal is lost, and with nothing on its way the worker is a zombie with an entry. -/
theorem notify_too_late : ∃ t, run step initial (launch 7 0 ++ [.exit 0 0,.deliver,.handler .notify]) = some t ∧
    Quiet t ∧ 7 ∈ t.children ∧ t.procs = [⟨7,.zombie 0,true,.worker 0 0⟩] ∧ ¬Reaps t := by
  refine ⟨_,rfl,by decide,by decide,rfl,?_⟩
  intro h
  obtain ⟨p,hp,-,hl⟩ := (h.keys (by decide) 7).mp (by decide)
  cases List.mem_singleton.mp hp
  cases hl

end Stout.Process
