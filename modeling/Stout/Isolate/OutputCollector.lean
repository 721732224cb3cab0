import Stout.Library.Runs

/-! # The start notification

`OutputCollector.Write` of `isolate/initialdispatch.go`, called by any number of writers
at once. `NotifyAboutStart` is a call with an empty chunk, the copiers of the output call
it with what they have read. The test of the flag is one step and so is each send on the
stream.
-/
namespace Stout.OutputCollector

abbrev Chunk := List UInt8

def notificationByte : Chunk := []

inductive Pc where
  /-- in no call; what the last one has returned -/
  | returned (n : ℕ)
  /-- this call has set the flag -/
  | notify (p : Chunk)
  | send (p : Chunk)
deriving DecidableEq, Repr

/-- The chunks passed to `Write` and those sent on the stream stand with their writers. -/
structure State (W : Type) where
  notified : Bool
  pc : W → Pc
  sent : List (W × Chunk)
  passed : List (W × Chunk)

def init {W : Type} : State W := ⟨false,fun _ => .returned 0,[],[]⟩

inductive Label (W : Type) where
  /-- a call, up to the test of the flag -/
  | write (w : W) (p : Chunk)
  | send (w : W)

def Label.isNotification {W : Type} : Label W → Bool
  | .write _ p => p = notificationByte
  | .send _ => false

variable {W : Type} [DecidableEq W]

def step (s : State W) : Label W → Option (State W)
  | .write w p =>
    match s.pc w with
    | .returned _ =>
      some { s with
        notified := true
        pc := Function.update s.pc w (if s.notified then .send p else .notify p)
        passed := s.passed ++ [(w,p)] }
    | _ => none
  | .send w =>
    match s.pc w with
    | .returned _ => none
    | .notify p =>
      some { s with
        pc := Function.update s.pc w (if p = [] then .returned 0 else .send p)
        sent := s.sent ++ [(w,notificationByte)] }
    | .send p =>
      some { s with
        pc := Function.update s.pc w (.returned p.length)
        sent := s.sent ++ [(w,p)] }

theorem step_cases {s t : State W} {a : Label W} (h : step s a = some t) :
    (∃ w p n, a = .write w p ∧ s.pc w = .returned n ∧
      t = ⟨true,Function.update s.pc w (if s.notified then .send p else .notify p),s.sent,s.passed ++ [(w,p)]⟩) ∨
    (∃ w p, a = .send w ∧ s.pc w = .notify p ∧
      t = ⟨s.notified,Function.update s.pc w (if p = [] then .returned 0 else .send p),s.sent ++ [(w,[])],s.passed⟩) ∨
    ∃ w p, a = .send w ∧ s.pc w = .send p ∧
      t = ⟨s.notified,Function.update s.pc w (.returned p.length),s.sent ++ [(w,p)],s.passed⟩ := by
  cases a with
  | write w p =>
    dsimp only [step] at h
    cases hw : s.pc w with
    | returned n =>
      rw [hw] at h
      exact Or.inl ⟨w,p,n,rfl,hw,(Option.some.inj h).symm⟩
    | notify q =>
      rw [hw] at h
      cases h
    | send q =>
      rw [hw] at h
      cases h
  | send w =>
    dsimp only [step] at h
    cases hw : s.pc w with
    | returned n =>
      rw [hw] at h
      cases h
    | notify p =>
      rw [hw] at h
      exact Or.inr (Or.inl ⟨w,p,rfl,hw,(Option.some.inj h).symm⟩)
    | send p =>
      rw [hw] at h
      exact Or.inr (Or.inr ⟨w,p,rfl,hw,(Option.some.inj h).symm⟩)

/-! ## What holds in every state -/

def output (w : W) (l : List (W × Chunk)) : List Chunk :=
  l.filterMap fun c => if c.1 = w ∧ c.2 ≠ [] then some c.2 else none

/-- What a writer has passed and not yet sent. -/
def Pc.pending : Pc → List Chunk
  | .returned _ => []
  | .notify p => if p = [] then [] else [p]
  | .send p => if p = [] then [] else [p]

theorem output_append (w : W) (l k : List (W × Chunk)) : output w (l ++ k) = output w l ++ output w k :=
  List.filterMap_append

theorem output_self (w : W) (p : Chunk) : output w [(w,p)] = if p = [] then [] else [p] := by
  by_cases hp : p = [] <;> simp [output, hp]

theorem output_other {v w : W} (h : v ≠ w) (p : Chunk) : output w [(v,p)] = [] := by
  simp [output, h]

structure Inv (s : State W) : Prop where
  quiet : s.notified = false → s.sent = [] ∧ ∀ w, ∃ n, s.pc w = .returned n
  announced : s.notified = true → s.sent = [] → ∃ w p, s.pc w = .notify p
  unique : ∀ v w p q, s.pc v = .notify p → s.pc w = .notify q → v = w
  order : ∀ w, output w s.sent ++ (s.pc w).pending = output w s.passed

theorem inv_init : Inv (init : State W) :=
  ⟨fun _ => ⟨rfl,fun _ => ⟨0,rfl⟩⟩,nofun,nofun,fun _ => rfl⟩

theorem order_update {pc : W → Pc} {sent sent' passed passed' : List (W × Chunk)}
    (hs : ∀ w, output w sent ++ (pc w).pending = output w passed) {v : W} {q : Pc}
    (hsent : ∀ w, w ≠ v → output w sent' = output w sent) (hpassed : ∀ w, w ≠ v → output w passed' = output w passed)
    (hv : output v sent' ++ q.pending = output v passed') (w : W) :
    output w sent' ++ (Function.update pc v q w).pending = output w passed' := by
  by_cases he : w = v
  · subst he
    rw [Function.update_self]
    exact hv
  · rw [Function.update_of_ne he, hsent w he, hpassed w he]
    exact hs w

theorem output_append_other {v w : W} (h : w ≠ v) (l : List (W × Chunk)) (p : Chunk) :
    output w (l ++ [(v,p)]) = output w l := by
  rw [output_append, output_other h.symm, List.append_nil]

theorem pc_of_update {pc : W → Pc} {v w : W} {q r : Pc} (hr : r ≠ q) (h : Function.update pc w r v = q) : pc v = q := by
  by_cases he : v = w
  · subst he
    rw [Function.update_self] at h
    exact absurd h hr
  · rwa [Function.update_of_ne he] at h

theorem unique_update {s : State W} (hs : Inv s) {w : W} {q : Pc} (hq : ∀ p, q ≠ .notify p) (u v : W) (p p' : Chunk)
    (hu : Function.update s.pc w q u = .notify p) (hv : Function.update s.pc w q v = .notify p') : u = v :=
  hs.unique u v p p' (pc_of_update (hq p) hu) (pc_of_update (hq p') hv)

theorem inv_step {s t : State W} {a : Label W} (hs : Inv s) (h : step s a = some t) : Inv t := by
  rcases step_cases h with ⟨w,p,n,-,hw,rfl⟩ | ⟨w,p,-,hw,rfl⟩ | ⟨w,p,-,hw,rfl⟩
  · refine ⟨nofun,?_,?_,?_⟩
    · intro _ hsent
      cases hn : s.notified with
      | false => exact ⟨w,p,Function.update_self ..⟩
      | true =>
        obtain ⟨v,q,hv⟩ := hs.announced hn hsent
        have hne : v ≠ w := by
          rintro rfl
          rw [hw] at hv
          cases hv
        exact ⟨v,q,(Function.update_of_ne hne ..).trans hv⟩
    · cases hn : s.notified with
      | true => exact unique_update hs nofun
      | false =>
        have hself {v : W} {q : Chunk} (hv : Function.update s.pc w (.notify p) v = .notify q) : v = w := by
          by_contra he
          obtain ⟨m,hm⟩ := (hs.quiet hn).2 v
          rw [Function.update_of_ne he, hm] at hv
          cases hv
        exact fun u v _ _ hu hv => (hself hu).trans (hself hv).symm
    · refine order_update hs.order (fun _ _ => rfl) (fun v hv => output_append_other hv _ _) ?_
      have ho := hs.order w
      rw [hw, Pc.pending, List.append_nil] at ho
      rw [output_append, output_self, ho]
      cases s.notified <;> rfl
  · refine ⟨?_,?_,?_,?_⟩
    · intro hn
      obtain ⟨m,hm⟩ := (hs.quiet hn).2 w
      rw [hw] at hm
      cases hm
    · intro _ hsent
      exact absurd hsent (by simp)
    · refine unique_update hs fun q => ?_
      by_cases hp : p = [] <;> simp [hp]
    · refine order_update hs.order (fun v hv => output_append_other hv _ _) (fun _ _ => rfl) ?_
      have ho := hs.order w
      rw [output_append, output_self, if_pos rfl, List.append_nil, ← ho, hw]
      by_cases hp : p = [] <;> simp [Pc.pending, hp]
  · refine ⟨?_,?_,?_,?_⟩
    · intro hn
      obtain ⟨m,hm⟩ := (hs.quiet hn).2 w
      rw [hw] at hm
      cases hm
    · intro _ hsent
      exact absurd hsent (by simp)
    · exact unique_update hs nofun
    · refine order_update hs.order (fun v hv => output_append_other hv _ _) (fun _ _ => rfl) ?_
      have ho := hs.order w
      rw [output_append, output_self, ← ho, hw, Pc.pending, List.append_nil]
      rfl

/-! ## What keeps the notification first and alone -/

/-- The notification, and no other empty chunk after it. -/
def Started (sent : List (W × Chunk)) : Prop := ∃ w rest, sent = (w,[]) :: rest ∧ ∀ c ∈ rest, c.2 ≠ []

/-- Nothing has gone wrong: no second empty chunk is on its way, the notification is not
outstanding while something has been sent, and it came first. -/
structure Clean (s : State W) : Prop where
  noEmpty : ∀ w, s.pc w ≠ .send []
  before : ∀ w p, s.pc w = .notify p → s.sent = []
  started : s.sent = [] ∨ Started s.sent

/-- `NotifyAboutStart` finds the flag unset, and a call that has found it set sends its
chunk when the notification has been sent. -/
def Allowed (s : State W) : Label W → Prop
  | .write _ p => p = [] → s.notified = false
  | .send w =>
    match s.pc w with
    | .send _ => s.sent ≠ []
    | _ => True

instance (s : State W) : (a : Label W) → Decidable (Allowed s a)
  | .write _ p => inferInstanceAs (Decidable (p = [] → s.notified = false))
  | .send w =>
    match h : s.pc w with
    | .returned _ => isTrue (by rw [Allowed, h]; trivial)
    | .notify _ => isTrue (by rw [Allowed, h]; trivial)
    | .send _ => decidable_of_iff (s.sent ≠ []) (by rw [Allowed, h])

omit [DecidableEq W] in
theorem clean_init : Clean (init : State W) := ⟨nofun,nofun,Or.inl rfl⟩

omit [DecidableEq W] in
theorem started_snoc {sent : List (W × Chunk)} {c : W × Chunk} (hne : sent ≠ []) :
    Started (sent ++ [c]) ↔ Started sent ∧ c.2 ≠ [] := by
  cases sent with
  | nil => exact absurd rfl hne
  | cons d sent =>
    constructor
    · rintro ⟨w,rest,he,hrest⟩
      cases he
      refine ⟨⟨w,sent,rfl,fun e hm => hrest e (List.mem_append_left _ hm)⟩,?_⟩
      exact hrest c (List.mem_append_right _ List.mem_cons_self)
    · rintro ⟨⟨w,_,he,hrest⟩,hc⟩
      cases he
      refine ⟨w,sent ++ [c],rfl,fun e hm => ?_⟩
      rcases List.mem_append.mp hm with hm | hm
      · exact hrest e hm
      · rw [List.mem_singleton.mp hm]
        exact hc

omit [DecidableEq W] in
theorem ne_of_pc {s : State W} {v w : W} {q r : Pc} (hv : s.pc v = q) (hw : s.pc w = r) (h : q ≠ r) : v ≠ w := by
  rintro rfl
  exact h (hv.symm.trans hw)

theorem clean_write {s : State W} (hs : Inv s) {w : W} {p : Chunk} {n : ℕ} (hw : s.pc w = .returned n) :
    Clean ⟨true,Function.update s.pc w (if s.notified then .send p else .notify p),s.sent,s.passed ++ [(w,p)]⟩ ↔
    Clean s ∧ (p = [] → s.notified = false) := by
  constructor
  · intro ht
    refine ⟨⟨fun v hv => ?_,fun v q hv => ?_,ht.started⟩,fun hp => ?_⟩
    · exact ht.noEmpty v ((Function.update_of_ne (ne_of_pc hv hw nofun) ..).trans hv)
    · exact ht.before v q ((Function.update_of_ne (ne_of_pc hv hw nofun) ..).trans hv)
    · cases hn : s.notified with
      | false => rfl
      | true =>
        refine absurd ?_ (ht.noEmpty w)
        dsimp only
        rw [Function.update_self, hn, hp, if_pos rfl]
  · rintro ⟨hc,ha⟩
    cases hn : s.notified with
    | false =>
      refine ⟨fun v hv => ?_,fun _ _ _ => (hs.quiet hn).1,hc.started⟩
      exact hc.noEmpty v (pc_of_update (r := .notify p) nofun hv)
    | true =>
      have hp : p ≠ [] := fun hp => absurd ((ha hp).symm.trans hn) Bool.false_ne_true
      refine ⟨fun v hv => ?_,fun v q hv => ?_,hc.started⟩
      · exact hc.noEmpty v (pc_of_update (r := .send p) (by simpa using hp) hv)
      · exact hc.before v q (pc_of_update (r := .send p) nofun hv)

theorem clean_notify {s : State W} (hs : Inv s) {w : W} {p : Chunk} (hw : s.pc w = .notify p) :
    Clean ⟨s.notified,Function.update s.pc w (if p = [] then .returned 0 else .send p),s.sent ++ [(w,[])],s.passed⟩ ↔
    Clean s := by
  have hnotify (q : Chunk) : (if p = [] then Pc.returned 0 else Pc.send p) ≠ .notify q := by
    by_cases hp : p = [] <;> simp [hp]
  have hempty : (if p = [] then Pc.returned 0 else Pc.send p) ≠ .send [] := by
    by_cases hp : p = [] <;> simp [hp]
  constructor
  · intro ht
    have hsent : s.sent = [] := by
      by_contra hne
      exact ((started_snoc hne).mp (ht.started.resolve_left (by simp))).2 rfl
    refine ⟨fun v hv => ?_,fun _ _ _ => hsent,Or.inl hsent⟩
    exact ht.noEmpty v ((Function.update_of_ne (ne_of_pc hv hw nofun) ..).trans hv)
  · intro hc
    refine ⟨fun v hv => hc.noEmpty v (pc_of_update hempty hv),fun v q hv => ?_,Or.inr ?_⟩
    · cases hs.unique v w q p (pc_of_update (hnotify q) hv) hw
      exact absurd ((Function.update_self ..).symm.trans hv) (hnotify q)
    · dsimp only
      rw [hc.before w p hw]
      exact ⟨w,[],rfl,nofun⟩

theorem clean_send {s : State W} (hs : Inv s) {w : W} {p : Chunk} (hw : s.pc w = .send p) :
    Clean ⟨s.notified,Function.update s.pc w (.returned p.length),s.sent ++ [(w,p)],s.passed⟩ ↔
    Clean s ∧ s.sent ≠ [] := by
  constructor
  · intro ht
    have hout (v : W) (q : Chunk) : s.pc v ≠ .notify q := by
      intro hv
      exact absurd (ht.before v q ((Function.update_of_ne (ne_of_pc hv hw nofun) ..).trans hv)) (by simp)
    have hne : s.sent ≠ [] := by
      intro hsent
      have hn : s.notified = true := by
        by_contra hn
        obtain ⟨m,hm⟩ := (hs.quiet (Bool.eq_false_iff.mpr hn)).2 w
        rw [hw] at hm
        cases hm
      obtain ⟨v,q,hv⟩ := hs.announced hn hsent
      exact hout v q hv
    obtain ⟨hstarted,hp⟩ := (started_snoc hne).mp (ht.started.resolve_left (by simp))
    refine ⟨⟨fun v hv => ?_,fun v q hv => absurd hv (hout v q),Or.inr hstarted⟩,hne⟩
    by_cases he : v = w
    · rw [he, hw] at hv
      exact hp (Pc.send.inj hv)
    · exact ht.noEmpty v ((Function.update_of_ne he ..).trans hv)
  · rintro ⟨hc,hne⟩
    have hp : p ≠ [] := by
      rintro rfl
      exact hc.noEmpty w hw
    refine ⟨fun v hv => ?_,fun v q hv => ?_,Or.inr ((started_snoc hne).mpr ⟨hc.started.resolve_left hne,hp⟩)⟩
    · exact hc.noEmpty v (pc_of_update (r := .returned p.length) nofun hv)
    · exact absurd (hc.before v q (pc_of_update (r := .returned p.length) nofun hv)) hne

/-- One step keeps things clean exactly if it is allowed. -/
theorem clean_step {s t : State W} {a : Label W} (hs : Inv s) (h : step s a = some t) :
    Clean t ↔ Clean s ∧ Allowed s a := by
  rcases step_cases h with ⟨w,p,n,rfl,hw,rfl⟩ | ⟨w,p,rfl,hw,rfl⟩ | ⟨w,p,rfl,hw,rfl⟩
  · exact clean_write hs hw
  · rw [clean_notify hs hw, Allowed, hw]
    exact (and_iff_left trivial).symm
  · rw [clean_send hs hw, Allowed, hw]

theorem clean_iff_meets {t : State W} {as : List (Label W)} (h : Runs step init as t) : Clean t ↔ Meets step Allowed init as := by
  have hiff := h.iff_meets (fun _ _ _ => inv_step) (fun _ _ _ => clean_step) inv_init
  rw [hiff]
  exact and_iff_right clean_init

/-! ## The run as a whole -/

/-- The first chunk on the stream is the notification, there is no other empty one, and the
output of each writer has been sent once and in order. -/
structure Announced (s : State W) : Prop where
  first : ∃ w, s.sent.head? = some (w,notificationByte)
  once : s.sent.countP (fun c => c.2 = []) = 1
  order : ∀ w, output w s.sent = output w s.passed

theorem notified_of_ne_nil {t : State W} {as : List (Label W)} (h : Runs step init as t) (hne : as ≠ []) :
    t.notified = true := by
  cases h with
  | refl => exact absurd rfl hne
  | step he hr =>
    refine hr.invariant (I := fun s => s.notified = true) (fun s a u hs hu => ?_) ?_
    · rcases step_cases hu with ⟨w,p,n,-,-,rfl⟩ | ⟨w,p,-,-,rfl⟩ | ⟨w,p,-,-,rfl⟩
      · rfl
      · exact hs
      · exact hs
    · rcases step_cases he with ⟨w,p,n,-,-,rfl⟩ | ⟨w,p,-,hw,-⟩ | ⟨w,p,-,hw,-⟩
      · rfl
      · cases hw
      · cases hw

omit [DecidableEq W] in
theorem count_empty_cons (w : W) (rest : List (W × Chunk)) :
    ((w,notificationByte) :: rest).countP (fun c => c.2 = []) = rest.countP (fun c => c.2 = []) + 1 :=
  List.countP_cons_of_pos rfl

theorem announced_iff_clean {t : State W} (ht : Inv t) (hdone : ∀ w, ∃ n, t.pc w = .returned n) (hn : t.notified = true) :
    Announced t ↔ Clean t := by
  have hout {w : W} {q : Pc} (h : t.pc w = q) : ∃ n, q = .returned n := by
    obtain ⟨n,hw⟩ := hdone w
    exact ⟨n,h.symm.trans hw⟩
  constructor
  · rintro ⟨⟨w,hfirst⟩,honce,-⟩
    refine ⟨fun w hw => ?_,fun w p hw => ?_,Or.inr ?_⟩
    · obtain ⟨n,hn⟩ := hout hw
      cases hn
    · obtain ⟨n,hn⟩ := hout hw
      cases hn
    · cases hs : t.sent with
      | nil =>
        rw [hs] at hfirst
        cases hfirst
      | cons c rest =>
        rw [hs] at hfirst honce
        cases hfirst
        refine ⟨w,rest,rfl,fun c hc he => ?_⟩
        have hrest : rest.countP (fun c => c.2 = []) = 0 := by
          rw [count_empty_cons] at honce
          exact Nat.succ.inj honce
        exact absurd (List.countP_eq_zero.mp hrest c hc) (by simpa using he)
  · intro hc
    rcases hc.started with hs | ⟨w,rest,hs,hrest⟩
    · obtain ⟨w,p,hw⟩ := ht.announced hn hs
      obtain ⟨n,hn⟩ := hout hw
      cases hn
    · refine ⟨⟨w,by rw [hs]; rfl⟩,?_,fun v => ?_⟩
      · have hzero : rest.countP (fun c => c.2 = []) = 0 :=
          List.countP_eq_zero.mpr fun c hc => by simpa using hrest c hc
        rw [hs]
        exact (count_empty_cons w rest).trans (by rw [hzero])
      · obtain ⟨n,hv⟩ := hdone v
        have ho := ht.order v
        rwa [hv, Pc.pending, List.append_nil] at ho

/-- When all calls have returned, one of them by `NotifyAboutStart`, the start has been
announced as it should exactly if each step was allowed. -/
theorem announced_iff_allowed {t : State W} {as : List (Label W)} (h : Runs step init as t)
    (hdone : ∀ w, ∃ n, t.pc w = .returned n) (hone : as.countP Label.isNotification = 1) :
    Announced t ↔ Meets step Allowed init as := by
  have hne : as ≠ [] := by
    rintro rfl
    cases hone
  have hinv := h.invariant (fun _ _ _ => inv_step) inv_init
  rw [announced_iff_clean hinv hdone (notified_of_ne_nil h hne), clean_iff_meets h]

inductive Writer where
  | stdout
  | stderr
  | notifyAboutStart
deriving DecidableEq, Repr

def inOrder : List (Label Writer) :=
  [.write .notifyAboutStart [],.send .notifyAboutStart,.write .stdout [1],.send .stdout]

theorem announced_inOrder : ∃ t, Runs step init inOrder t ∧ Meets step Allowed init inOrder ∧ Announced t := by
  have hrun : (run step init inOrder).map (fun t => (t.pc .stdout,t.pc .stderr,t.pc .notifyAboutStart)) =
      some (.returned 1,.returned 0,.returned 0) := by decide
  obtain ⟨t,ht,hpc⟩ := Option.map_eq_some_iff.mp hrun
  have hmeets : Meets step Allowed init inOrder := by decide
  refine ⟨t,.of_run ht,hmeets,(announced_iff_allowed (.of_run ht) (fun w => ?_) (by decide)).mpr hmeets⟩
  simp only [Prod.mk.injEq] at hpc
  cases w with
  | stdout => exact ⟨1,hpc.1⟩
  | stderr => exact ⟨0,hpc.2.1⟩
  | notifyAboutStart => exact ⟨0,hpc.2.2⟩

/-- Output that slips in between the flag and the notification is sent before it, and
output that comes before `NotifyAboutStart` makes it send a second empty chunk. -/
theorem notification_late_or_doubled :
    (run step init [.write .notifyAboutStart [],.write .stdout [1],.send .stdout,.send .notifyAboutStart]).map State.sent =
      some [(Writer.stdout,[1]),(.notifyAboutStart,[])] ∧
    (run step init [.write .stdout [1],.send .stdout,.send .stdout,.write .notifyAboutStart [],.send .notifyAboutStart]).map
      State.sent = some [(Writer.stdout,[]),(.stdout,[1]),(.notifyAboutStart,[])] := by
  decide

end Stout.OutputCollector
