import Stout.Isolate.MtnBackup
import Stout.Isolate.MtnFailures
import Stout.Library.RangeOrder
import Stout.Porto.JournalSync

/-! # Constructing the daemon

`New` and `Close` of `daemon/daemon.go` with `ConstructBox` of `isolate/plugins.go` and the
constructors and `Close` of the three boxes, as far as they can fail. The porto box closes
the database of the allocations, which is there only with MTN.
-/
namespace Stout.Daemon
open Std (ExtTreeMap)
open Mtn (nilDereference)
open Prog RangeOrder

inductive Box where
  | docker
  | porto (journal : Porto.Journal)
  | process

def Box.type : Box → String
  | .docker => "docker"
  | .porto _ => "porto"
  | .process => "process"

structure Config where
  mtn : Mtn.Backup.Config
  allowLocalState : Bool
  isolate : ExtTreeMap String String compare

/-- What the constructor of a box meets: a failure before there is a box, the size of the
semaphore as its arguments have it, and for the porto box its file, the layers of porto and
the order they are compared in. -/
structure Construction where
  fault : Option String
  spawnConcurrency : ℕ
  uuid : String
  journal : Porto.Opened
  listLayers : Except String (List String)
  layersOrder : List ℕ

structure Outside where
  backup : Mtn.Backup.Outside
  now : String
  configuration : String
  construction : String → Construction

/-- The orders in which the boxes of the configuration and those to be closed come. -/
structure Orders where
  isolate : List ℕ
  boxes : List ℕ

/-- `db` says that the database of the allocations is not nil. The names of the boxes that
were constructed and of those that were closed are recorded. -/
structure World where
  files : Mtn.Backup.World
  store : Mtn.Store
  db : Bool
  boxes : ExtTreeMap String Box compare
  constructed : List String
  closed : List String

inductive Err where
  | text (message : String)
  | mtn (e : Mtn.Err)
  | journal (e : Porto.StartErr)
deriving DecidableEq, Repr

abbrev Run (α : Type) := Prog World Err α

/-! ## Boxes -/

def portoClose : Run Unit := do
  let w ← Prog.read
  if w.db = true then pure () else Prog.crash nilDereference

def Box.close : Box → Run Unit
  | .porto _ => portoClose
  | .docker | .process => pure ()

/-- `semaphore.New`; a channel of no elements takes any capacity that is an `int`. -/
def newSemaphore (size : ℕ) : Run Unit :=
  if size = 0 then Prog.crash "Semaphore: size must be positive"
  else if 2^63 ≤ size then Prog.crash "makechan: size out of range"
  else pure ()

def newBox (box : Box) (concurrency : ℕ) (c : Construction) : Run Box :=
  match c.fault with
  | some e => Prog.throw (.text e)
  | none => do
    newSemaphore concurrency
    pure box

def newDockerBox (c : Construction) : Run Box := newBox .docker c.spawnConcurrency c

def newProcessBox (c : Construction) : Run Box := newBox .process 10 c

/-- A journal that is not loaded closes the box; the other failures do not. -/
def newPortoBox (c : Construction) : Run Box :=
  match c.fault with
  | some e => Prog.throw (.text e)
  | none => do
    newSemaphore c.spawnConcurrency
    match Porto.loadJournal (Porto.Journal.newJournal c.uuid) c.journal with
    | .error e => do
      portoClose
      Prog.throw (.journal e)
    | .ok j =>
      match c.listLayers with
      | .error e => Prog.throw (.journal (.listLayers e))
      | .ok layers => pure (.porto (j.updateFromPorto c.layersOrder layers))

def constructBox (type : String) (c : Construction) : Run Box :=
  if type = "docker" then newDockerBox c
  else if type = "porto" then newPortoBox c
  else if type = "process" then newProcessBox c
  else Prog.throw (.text ("isolation " ++ type ++ " is not available"))

/-! ## The daemon -/

def closeBox (e : String × Box) : Run PUnit := do
  Prog.modify fun w => { w with closed := w.closed ++ [e.1] }
  e.2.close

def closeBoxes (order : List ℕ) : Run PUnit := do
  let w ← Prog.read
  (arrange order w.boxes.toList).forM closeBox

/-- `Daemon.Close`; closing the listeners, of which `New` has none, touches no box. -/
def close (order : List ℕ) : Run PUnit := closeBoxes order

/-- The loop over the configuration, with the types seen so far. -/
def constructBoxes (o : Outside) (closing : List ℕ) : List String → List (String × String) → Run Unit
  | _, [] => pure ()
  | boxTypes, (name,type) :: rest =>
    if type ∈ boxTypes then do
      close closing
      Prog.throw (.text ("duplicated box type " ++ type))
    else do
      match ← Prog.attempt (constructBox type (o.construction name)) with
      | .error (e : Err) => do
        close closing
        Prog.throw e
      | .ok box => do
        Prog.modify fun w => { w with boxes := w.boxes.insert name box, constructed := w.constructed ++ [name] }
        constructBoxes o closing (type :: boxTypes) rest

/-- `CfgInit` sets the database if MTN is enabled and it returns true. -/
def cfgInit (o : Outside) (cfg : Config) : Run (Option Mtn.MtnCfg) := do
  let c ← (Prog.zoom World.files (fun w t => { w with files := t }) (Mtn.Backup.cfgInit o.backup cfg.mtn)).mapError Err.text
  Prog.modify fun w => { w with db := c.any (·.enable) }
  pure c

def start (o : Outside) (cfg : Config) : Run Unit := do
  let c ← cfgInit o cfg
  (Prog.zoom World.store (fun w t => { w with store := t }) (Mtn.newDaemon o.now o.configuration
    (c.getD ⟨cfg.mtn.enable,0,"","","",[]⟩) c.isSome cfg.allowLocalState)).mapError Err.mtn

def new (o : Outside) (orders : Orders) (cfg : Config) : Run Unit := do
  start o cfg
  constructBoxes o orders.boxes [] (arrange orders.isolate cfg.isolate.toList)

/-! ## Closing boxes -/

/-- No box that is closed misses the database. -/
def Closable (w : World) : Prop := w.db = true ∨ ∀ (name : String) box, w.boxes[name]? = some box → box.type ≠ "porto"

section Closing
variable {w : World} {e : String × Box}

theorem portoClose_ok (h : w.db = true) : portoClose w = (.ok (),w) := by
  rw [portoClose, read_bind, if_pos h]
  rfl

theorem portoClose_panic (h : w.db = false) : portoClose w = (.panic nilDereference,w) := by
  rw [portoClose, read_bind, if_neg (by simp [h])]
  rfl

def World.close (w : World) (name : String) : World := { w with closed := w.closed ++ [name] }

theorem closeBox_ok (h : w.db = true ∨ e.2.type ≠ "porto") : closeBox e w = (.ok ⟨⟩,w.close e.1) := by
  obtain ⟨name,box⟩ := e
  cases box with
  | docker => rfl
  | process => rfl
  | porto j => exact portoClose_ok (w := w.close name) (h.resolve_right fun hne => hne rfl)

theorem closeBox_panic (h : w.db = false) (hp : e.2.type = "porto") :
    closeBox e w = (.panic nilDereference,w.close e.1) := by
  obtain ⟨name,box⟩ := e
  cases box with
  | docker => simp [Box.type] at hp
  | process => simp [Box.type] at hp
  | porto j => exact portoClose_panic (w := w.close name) h

theorem forM_closeBox_cons (l : List (String × Box)) :
    (e :: l).forM closeBox w = (closeBox e >>= fun _ => l.forM closeBox) w := rfl

theorem forM_closeBox_ok {l : List (String × Box)} (h : w.db = true ∨ ∀ e ∈ l, e.2.type ≠ "porto") :
    l.forM closeBox w = (.ok ⟨⟩,{ w with closed := w.closed ++ l.map Prod.fst }) := by
  induction l generalizing w with
  | nil => simp [pure_apply]
  | cons e l ih =>
    have he := closeBox_ok (w := w) (e := e) (h.imp_right fun h => h e List.mem_cons_self)
    have hrest := ih (w := w.close e.1) (h.imp_right fun h x hx => h x (List.mem_cons_of_mem e hx))
    rw [forM_closeBox_cons, bind_ok he, hrest]
    simp [World.close]

theorem forM_closeBox_panic {l : List (String × Box)} (h : w.db = false) (hp : ∃ e ∈ l, e.2.type = "porto") :
    (l.forM closeBox w).1 = .panic nilDereference := by
  induction l generalizing w with
  | nil => simp at hp
  | cons e l ih =>
    rw [forM_closeBox_cons]
    by_cases he : e.2.type = "porto"
    · rw [bind_panic (closeBox_panic h he)]
    · rw [bind_ok (closeBox_ok (Or.inr he))]
      refine ih (w := w.close e.1) h ?_
      obtain ⟨x,hx,hxp⟩ := hp
      rcases List.mem_cons.mp hx with rfl | hx
      · exact absurd hxp he
      · exact ⟨x,hx,hxp⟩

theorem close_ok (h : Closable w) (order : List ℕ) : Daemon.close order w =
    (.ok ⟨⟩,{ w with closed := w.closed ++ (arrange order w.boxes.toList).map Prod.fst }) :=
  forM_closeBox_ok (h.imp_right fun h e he => h e.1 e.2 (mem_arrange_toList.mp he))

theorem close_panic (h : ¬Closable w) (order : List ℕ) : ∃ t, Daemon.close order w = (.panic nilDereference,t) := by
  simp only [Closable, not_or, not_forall, not_not] at h
  obtain ⟨hdb,name,box,hbox,htype⟩ := h
  have hmem : (name,box) ∈ arrange order w.boxes.toList := mem_arrange_toList.mpr hbox
  have hpanic := forM_closeBox_panic (w := w) (by simpa using hdb) ⟨_,hmem,htype⟩
  exact ⟨_,Prod.ext hpanic rfl⟩

end Closing

/-! ## Constructing boxes -/

/-- `NewBox` of porto fails, and has not closed the box. -/
def Construction.Spares (c : Construction) : Prop :=
  c.fault.isSome = true ∨
    (Porto.loadJournal (Porto.Journal.newJournal c.uuid) c.journal).isOk = true ∧ c.listLayers.isOk = false

abbrev Sized (concurrency : ℕ) : Prop := 0 < concurrency ∧ concurrency < 2^63

/-- The constructor of a box that takes the size from its arguments panics on it. -/
def Construction.Unsized (c : Construction) (type : String) : Prop :=
  (type = "docker" ∨ type = "porto") ∧ c.fault = none ∧ ¬Sized c.spawnConcurrency

/-- No box has been closed yet, and those that were constructed are there. -/
structure Building (w : World) : Prop where
  distinct : w.constructed.Nodup
  held : ∀ name, name ∈ w.boxes ↔ name ∈ w.constructed
  open' : w.closed = []

section Constructing
variable {o : Outside} {w : World} {type : String} {c : Construction} {closing : List ℕ}

theorem newSemaphore_ok {concurrency : ℕ} (h : Sized concurrency) (w : World) : newSemaphore concurrency w = (.ok (),w) := by
  rw [newSemaphore, if_neg h.1.ne', if_neg (Nat.not_le.mpr h.2)]
  rfl

theorem newSemaphore_panic {concurrency : ℕ} (h : ¬Sized concurrency) (w : World) :
    ∃ p, newSemaphore concurrency w = (.panic p,w) := by
  rw [newSemaphore]
  split
  case isTrue => exact ⟨_,rfl⟩
  case isFalse hzero =>
    rw [if_pos (not_lt.mp fun hlt => h ⟨Nat.pos_of_ne_zero hzero,hlt⟩)]
    exact ⟨_,rfl⟩

theorem newPortoBox_cases (c : Construction) (w : World) :
    (∃ j, newPortoBox c w = (.ok (.porto j),w) ∧ ¬c.Spares ∧ ¬c.Unsized "porto") ∨
    (∃ e, newPortoBox c w = (.error e,w) ∧ (w.db = false → c.Spares) ∧ ¬c.Unsized "porto") ∨
    (∃ p, newPortoBox c w = (.panic p,w) ∧ (w.db = false ∧ ¬c.Spares ∨ c.Unsized "porto")) := by
  rw [newPortoBox, Construction.Spares, Construction.Unsized]
  cases c.fault with
  | some e => exact Or.inr (Or.inl ⟨.text e,rfl,fun _ => Or.inl rfl,by simp⟩)
  | none =>
    dsimp only
    by_cases hsize : Sized c.spawnConcurrency
    case neg =>
      obtain ⟨p,hp⟩ := newSemaphore_panic hsize w
      rw [bind_panic hp]
      exact Or.inr (Or.inr ⟨p,rfl,Or.inr ⟨Or.inr rfl,rfl,hsize⟩⟩)
    rw [bind_ok (newSemaphore_ok hsize w)]
    cases Porto.loadJournal (Porto.Journal.newJournal c.uuid) c.journal with
    | error e =>
      dsimp only
      cases hdb : w.db with
      | true =>
        rw [bind_ok (portoClose_ok hdb)]
        exact Or.inr (Or.inl ⟨.journal e,rfl,nofun,fun h => h.2.2 hsize⟩)
      | false =>
        rw [bind_panic (portoClose_panic hdb)]
        exact Or.inr (Or.inr ⟨_,rfl,Or.inl ⟨rfl,by simp [Except.isOk, Except.toBool]⟩⟩)
    | ok j =>
      cases c.listLayers with
      | error e => exact Or.inr (Or.inl ⟨_,rfl,fun _ => Or.inr ⟨rfl,rfl⟩,fun h => h.2.2 hsize⟩)
      | ok layers => exact Or.inl ⟨_,rfl,by simp [Except.isOk, Except.toBool],fun h => h.2.2 hsize⟩

theorem newBox_cases (box : Box) (concurrency : ℕ) (c : Construction) (w : World) :
    (newBox box concurrency c w = (.ok box,w) ∧ Sized concurrency) ∨
    (∃ e, newBox box concurrency c w = (.error e,w) ∧ c.fault ≠ none) ∨
    (∃ p, newBox box concurrency c w = (.panic p,w) ∧ c.fault = none ∧ ¬Sized concurrency) := by
  rw [newBox]
  cases c.fault with
  | some e => exact Or.inr (Or.inl ⟨.text e,rfl,by simp⟩)
  | none =>
    by_cases hsize : Sized concurrency
    · exact Or.inl ⟨bind_ok (newSemaphore_ok hsize w) _,hsize⟩
    · obtain ⟨p,hp⟩ := newSemaphore_panic hsize w
      exact Or.inr (Or.inr ⟨p,bind_panic hp _,rfl,hsize⟩)

/-- A box is made or not, without a trace; or there is no semaphore of the size asked for,
or the porto box is closed and misses the database. -/
theorem constructBox_cases (type : String) (c : Construction) (w : World) :
    (∃ box, constructBox type c w = (.ok box,w) ∧ box.type = type ∧ (type = "porto" → ¬c.Spares) ∧ ¬c.Unsized type) ∨
    (∃ e, constructBox type c w = (.error e,w) ∧ (type = "porto" → w.db = false → c.Spares) ∧ ¬c.Unsized type) ∨
    (∃ p, constructBox type c w = (.panic p,w) ∧ (type = "porto" ∧ w.db = false ∧ ¬c.Spares ∨ c.Unsized type)) := by
  unfold constructBox
  split
  case isTrue hd =>
    rcases newBox_cases .docker c.spawnConcurrency c w with ⟨h,hsize⟩ | ⟨e,h,hfault⟩ | ⟨p,h,hfault,hsize⟩
    · exact Or.inl ⟨.docker,h,hd.symm,by simp [hd],fun hu => hu.2.2 hsize⟩
    · exact Or.inr (Or.inl ⟨e,h,by simp [hd],fun hu => hfault hu.2.1⟩)
    · exact Or.inr (Or.inr ⟨p,h,Or.inr ⟨Or.inl hd,hfault,hsize⟩⟩)
  case isFalse hd =>
    split
    case isTrue hp =>
      subst hp
      rcases newPortoBox_cases c w with ⟨j,h,hs,hu⟩ | ⟨e,h,hs,hu⟩ | ⟨p,h,hs⟩
      · exact Or.inl ⟨.porto j,h,rfl,fun _ => hs,hu⟩
      · exact Or.inr (Or.inl ⟨e,h,fun _ => hs,hu⟩)
      · exact Or.inr (Or.inr ⟨p,h,hs.imp_left fun hs => ⟨rfl,hs⟩⟩)
    case isFalse hp =>
      have hu : ¬c.Unsized type := fun hu => hu.1.elim hd hp
      split
      case isTrue hpr =>
        rcases newBox_cases .process 10 c w with ⟨h,-⟩ | ⟨e,h,-⟩ | ⟨p,-,-,hsize⟩
        · exact Or.inl ⟨.process,h,hpr.symm,by simp [hp],hu⟩
        · exact Or.inr (Or.inl ⟨e,h,by simp [hp],hu⟩)
        · exact absurd (by decide : Sized 10) hsize
      case isFalse => exact Or.inr (Or.inl ⟨_,rfl,by simp [hp],hu⟩)

theorem Building.close (h : Building w) (hc : Closable w) (order : List ℕ) :
    ∃ t, Daemon.close order w = (.ok ⟨⟩,t) ∧ t.constructed.Nodup ∧ t.closed.Perm t.constructed := by
  refine ⟨_,close_ok hc order,h.distinct,?_⟩
  rw [h.open', List.nil_append]
  refine (map_fst_arrange_perm order w.boxes).trans ((List.perm_ext_iff_of_nodup ExtTreeMap.nodup_keys h.distinct).mpr fun name => ?_)
  rw [ExtTreeMap.mem_keys, h.held]

def World.add (w : World) (name : String) (box : Box) : World :=
  { w with boxes := w.boxes.insert name box, constructed := w.constructed ++ [name] }

theorem Building.add (h : Building w) {name : String} (hn : name ∉ w.constructed) (box : Box) : Building (w.add name box) := by
  refine ⟨?_,?_,h.open'⟩
  · rw [World.add, List.nodup_append]
    refine ⟨h.distinct,List.nodup_singleton name,?_⟩
    rintro a ha b hb rfl
    exact hn (List.mem_singleton.mp hb ▸ ha)
  · intro x
    simp only [World.add, ExtTreeMap.mem_insert, compare_eq_iff_eq, List.mem_append, List.mem_singleton, h.held]
    tauto

theorem Closable.add (h : Closable w) {name : String} {box : Box} (hb : w.db = true ∨ box.type ≠ "porto") :
    Closable (w.add name box) := by
  rcases h with h | h
  · exact Or.inl h
  refine hb.imp_right fun hb x b hx => ?_
  rw [World.add, ExtTreeMap.getElem?_insert] at hx
  split at hx
  · cases hx
    exact hb
  · exact h x b hx

theorem constructBoxes_cons (o : Outside) (closing : List ℕ) (w : World) (name : String) {boxTypes : List String} {type : String}
    (rest : List (String × String)) (ht : type ∉ boxTypes) :
    (∀ {box}, constructBox type (o.construction name) w = (.ok box,w) →
      constructBoxes o closing boxTypes ((name,type) :: rest) w = constructBoxes o closing (type :: boxTypes) rest (w.add name box)) ∧
    (∀ {e}, constructBox type (o.construction name) w = (.error e,w) →
      constructBoxes o closing boxTypes ((name,type) :: rest) w = (Daemon.close closing >>= fun _ => Prog.throw e) w) ∧
    (∀ {p}, constructBox type (o.construction name) w = (.panic p,w) →
      constructBoxes o closing boxTypes ((name,type) :: rest) w = (.panic p,w)) := by
  rw [constructBoxes, if_neg ht]
  refine ⟨fun h => ?_,fun h => ?_,fun h => ?_⟩
  · rw [bind_ok (attempt_ok h)]
    rfl
  · rw [bind_ok (attempt_error h)]
  · rw [bind_panic (attempt_panic h)]

/-- The loop has come through: there is a box of its type for every name. -/
structure Built (w t : World) (boxTypes : List String) (es : List (String × String)) : Prop where
  building : Building t
  closable : Closable t
  others : ∀ name ∉ es.map Prod.fst, t.boxes[name]? = w.boxes[name]?
  types : ∀ e ∈ es, (t.boxes[e.1]?).map Box.type = some e.2
  distinct : (es.map Prod.snd).Nodup ∧ ∀ e ∈ es, e.2 ∉ boxTypes

/-- How a loop ends that misses no database. -/
def Ends (w : World) (boxTypes : List String) (es : List (String × String)) : Outcome Err Unit × World → Prop
  | (.ok (),t) => Built w t boxTypes es
  | (.error _,t) => t.constructed.Nodup ∧ t.closed.Perm t.constructed
  | (.panic _,_) => False

theorem ends_of_close (h : Building w) (hc : Closable w) (boxTypes : List String) (es : List (String × String)) (e : Err) :
    Ends w boxTypes es ((Daemon.close closing >>= fun _ => Prog.throw e) w) := by
  obtain ⟨t,ht,hclosed⟩ := h.close hc closing
  rw [bind_ok ht]
  exact hclosed

theorem Ends.cons {boxTypes : List String} {name type : String} {rest : List (String × String)} {box : Box}
    {r : Outcome Err Unit × World} (hname : name ∉ rest.map Prod.fst) (htype : box.type = type) (ht : type ∉ boxTypes)
    (h : Ends (w.add name box) (type :: boxTypes) rest r) : Ends w boxTypes ((name,type) :: rest) r := by
  obtain ⟨r,t⟩ := r
  cases r with
  | error e => exact h
  | panic p => exact h
  | ok u =>
    obtain ⟨hbuilding,hclosable,hothers,htypes,hnodup,hfresh⟩ := h
    refine ⟨hbuilding,hclosable,?_,?_,?_,?_⟩
    · intro x hx
      obtain ⟨hne,hx⟩ : x ≠ name ∧ x ∉ rest.map Prod.fst := by simpa using hx
      rw [hothers x hx, World.add, ExtTreeMap.getElem?_insert, if_neg (by simpa using hne.symm)]
    · intro e he
      rcases List.mem_cons.mp he with rfl | he
      · rw [hothers name hname, World.add, ExtTreeMap.getElem?_insert_self, Option.map_some, htype]
      · exact htypes e he
    · refine List.nodup_cons.mpr ⟨fun hmem => ?_,hnodup⟩
      obtain ⟨e,he,het⟩ := List.mem_map.mp hmem
      exact hfresh e he (het ▸ List.mem_cons_self)
    · intro e he
      rcases List.mem_cons.mp he with rfl | he
      · exact ht
      · exact fun hmem => hfresh e he (List.mem_cons_of_mem type hmem)

/-- The induction is on the boxes that are still to come. -/
theorem constructBoxes_ends {boxTypes : List String} {es : List (String × String)} (h : Building w) (hc : Closable w)
    (hnames : (es.map Prod.fst).Nodup) (hnew : ∀ e ∈ es, e.1 ∉ w.constructed)
    (hs : w.db = true ∨ ∀ e ∈ es, e.2 = "porto" → (o.construction e.1).Spares)
    (hu : ∀ e ∈ es, ¬(o.construction e.1).Unsized e.2) :
    Ends w boxTypes es (constructBoxes o closing boxTypes es w) := by
  induction es generalizing w boxTypes with
  | nil => exact ⟨h,hc,fun _ _ => rfl,nofun,List.nodup_nil,nofun⟩
  | cons e rest ih =>
    obtain ⟨name,type⟩ := e
    by_cases ht : type ∈ boxTypes
    · rw [constructBoxes, if_pos ht]
      exact ends_of_close h hc _ _ _
    obtain ⟨hok,herror,-⟩ := constructBoxes_cons o closing w name rest ht
    obtain ⟨hname,hrest⟩ := List.nodup_cons.mp hnames
    have hspares (hp : type = "porto") : w.db = true ∨ (o.construction name).Spares :=
      hs.imp_right fun hs => hs _ List.mem_cons_self hp
    rcases constructBox_cases type (o.construction name) w with
      ⟨box,hbox,htype,hsp,-⟩ | ⟨e,he,-⟩ | ⟨p,-,⟨hp,hdb,hsp⟩ | hun⟩
    · rw [hok hbox]
      have hn := hnew _ List.mem_cons_self
      have hclosable : Closable (w.add name box) := by
        refine hc.add ?_
        by_cases hp : type = "porto"
        · exact Or.inl ((hspares hp).resolve_right (hsp hp))
        · exact Or.inr (htype ▸ hp)
      refine Ends.cons hname htype ht (ih (h.add hn box) hclosable hrest ?_
        (hs.imp_right fun hs x hx => hs x (List.mem_cons_of_mem _ hx)) fun x hx => hu x (List.mem_cons_of_mem _ hx))
      intro x hx hmem
      rcases List.mem_append.mp hmem with hmem | hmem
      · exact hnew x (List.mem_cons_of_mem _ hx) hmem
      · exact hname (List.mem_map.mpr ⟨x,hx,List.mem_singleton.mp hmem⟩)
    · rw [herror he]
      exact ends_of_close h hc _ _ _
    · rcases hspares hp with h' | h'
      · rw [hdb] at h'
        cases h'
      · exact absurd h' hsp
    · exact absurd hun (hu _ List.mem_cons_self)

theorem not_closable {porto : String} {box : Box} (hdb : w.db = false) (hbox : w.boxes[porto]? = some box)
    (htype : box.type = "porto") : ¬Closable w := by
  rintro (h | h)
  · rw [hdb] at h
    cases h
  · exact h porto box hbox htype

/-- Once there is a porto box and no database, `New` does not return an error, and what it
returns cannot be closed. -/
theorem constructBoxes_misses (o : Outside) (closing : List ℕ) (boxTypes : List String) {es : List (String × String)}
    (hdb : w.db = false) {porto : String} {box : Box} (hbox : w.boxes[porto]? = some box) (htype : box.type = "porto")
    (hnew : porto ∉ es.map Prod.fst) :
    (∃ p t, constructBoxes o closing boxTypes es w = (.panic p,t)) ∨
      ∃ t, constructBoxes o closing boxTypes es w = (.ok (),t) ∧ ¬Closable t := by
  induction es generalizing w boxTypes with
  | nil => exact Or.inr ⟨w,rfl,not_closable hdb hbox htype⟩
  | cons e rest ih =>
    obtain ⟨name,type⟩ := e
    obtain ⟨hne,hrest⟩ : porto ≠ name ∧ porto ∉ rest.map Prod.fst := by simpa using hnew
    obtain ⟨t,hclose⟩ := close_panic (not_closable hdb hbox htype) closing
    by_cases ht : type ∈ boxTypes
    · rw [constructBoxes, if_pos ht]
      exact Or.inl ⟨_,t,bind_panic hclose _⟩
    obtain ⟨hok,herror,hpanic⟩ := constructBoxes_cons o closing w name rest ht
    rcases constructBox_cases type (o.construction name) w with ⟨b,hb,-⟩ | ⟨e,he,-⟩ | ⟨p,hp,-⟩
    · rw [hok hb]
      refine ih (type :: boxTypes) (w := w.add name b) hdb ?_ hrest
      rw [World.add, ExtTreeMap.getElem?_insert, if_neg (by simpa using hne.symm), hbox]
    · rw [herror he]
      exact Or.inl ⟨_,t,bind_panic hclose _⟩
    · exact Or.inl ⟨_,w,hpanic hp⟩

end Constructing

/-! ## The allocations -/

def StartPanics (o : Outside) (cfg : Config) (w : World) : Prop :=
  cfg.mtn.enable = true ∧ (Mtn.Backup.Faults o.backup cfg.mtn ∨
    Mtn.Backup.Opens o.backup cfg.mtn w.files ∧ w.store.env.listing.listable = false)

structure SameBoxes (w t : World) : Prop where
  boxes : t.boxes = w.boxes
  constructed : t.constructed = w.constructed
  closed : t.closed = w.closed

theorem start_cases (o : Outside) (cfg : Config) (w : World) :
    (StartPanics o cfg w ∧ ∃ p t, start o cfg w = (.panic p,t)) ∨
    (¬StartPanics o cfg w ∧ cfg.mtn.enable = true ∧ ∃ e t, start o cfg w = (.error e,t) ∧ SameBoxes w t) ∨
    (¬StartPanics o cfg w ∧ ∃ t, start o cfg w = (.ok (),t) ∧ SameBoxes w t ∧ t.db = cfg.mtn.enable) := by
  unfold start
  rcases Mtn.Backup.cfgInit_returns o.backup cfg.mtn w.files with ⟨hen,hf,hp⟩ | ⟨c,f,hc,hf,hopens,henable⟩
  · rcases hc : Mtn.Backup.cfgInit o.backup cfg.mtn w.files with ⟨r,f⟩
    rw [hc] at hp
    dsimp only at hp
    subst hp
    have hinit : cfgInit o cfg w = (.panic nilDereference,{ w with files := f }) := bind_panic (mapError_panic (zoom_of_eq hc)) _
    exact Or.inl ⟨⟨hen,Or.inl hf⟩,_,_,bind_panic hinit _⟩
  have hinit : cfgInit o cfg w = (.ok c,{ w with files := f, db := c.any (·.enable) }) :=
    bind_ok (mapError_ok (zoom_of_eq hc)) _
  rw [bind_ok hinit]
  obtain hnone | ⟨c,rfl⟩ := Option.eq_none_or_eq_some c
  · -- `CfgInit` has returned false
    subst hnone
    obtain ⟨hen,hno⟩ : cfg.mtn.enable = true ∧ ¬Mtn.Backup.Opens o.backup cfg.mtn w.files := by simpa using hopens
    refine Or.inr (Or.inl ⟨?_,hen,_,_,mapError_error (zoom_of_eq rfl),rfl,rfl,rfl⟩)
    rintro ⟨-,h | ⟨h,-⟩⟩
    · exact hf ⟨hen,h⟩
    · exact hno h
  have hc := henable c rfl
  have hpanics : StartPanics o cfg w ↔ c.enable = true ∧ w.store.env.listing.listable = false := by
    have hopens' : cfg.mtn.enable = true → Mtn.Backup.Opens o.backup cfg.mtn w.files := by simpa using hopens
    unfold StartPanics
    rw [hc]
    tauto
  have hiff := Mtn.newDaemon_panics_iff o.now o.configuration c true cfg.allowLocalState w.store
  rcases hn : Mtn.newDaemon o.now o.configuration c true cfg.allowLocalState w.store with ⟨r,t⟩
  rw [hn, eq_self, true_and, ← hpanics] at hiff
  have hzoom : Prog.zoom World.store (fun w t => { w with store := t })
      (Mtn.newDaemon o.now o.configuration c true cfg.allowLocalState) { w with files := f, db := (some c).any (·.enable) } =
      (r,{ w with files := f, db := (some c).any (·.enable), store := t }) := zoom_of_eq hn
  cases r with
  | panic p => exact Or.inl ⟨hiff.mp ⟨p,rfl⟩,p,_,mapError_panic hzoom⟩
  | error e =>
    refine Or.inr (Or.inl ⟨fun h => by simpa using hiff.mpr h,?_,_,_,mapError_error hzoom,rfl,rfl,rfl⟩)
    by_contra hen
    rw [Mtn.newDaemon_of_disabled (by simpa [hc] using hen)] at hn
    cases hn
  | ok u => exact Or.inr (Or.inr ⟨fun h => by simpa using hiff.mpr h,_,mapError_ok hzoom,⟨rfl,rfl,rfl⟩,hc⟩)

/-! ## The property -/

def fresh (files : Mtn.Backup.World) (store : Mtn.Store) : World := ⟨files,store,false,∅,[],[]⟩

/-- `New` has made a daemon with every box of the configuration, all of different types,
which can be closed; or it has failed and has closed what it had made, each box once. -/
def Clean (cfg : Config) : Outcome Err Unit × World → Prop
  | (.ok (),t) =>
    (∀ name : String, (t.boxes[name]?).map Box.type = cfg.isolate[name]?) ∧
    (∀ (name name' : String) type, cfg.isolate[name]? = some type → cfg.isolate[name']? = some type → name = name') ∧
    ∀ order, ∃ u, close order t = (.ok ⟨⟩,u) ∧ u.closed.Perm u.constructed
  | (.error _,t) => t.constructed.Nodup ∧ t.closed.Perm t.constructed
  | (.panic _,_) => False

section Clean
variable {o : Outside} {cfg : Config} {w t : World}

theorem clean_of_ends {order : List ℕ} (hw : w.boxes = ∅) {r : Outcome Err Unit × World}
    (h : Ends w [] (arrange order cfg.isolate.toList) r) : Clean cfg r := by
  obtain ⟨r,t⟩ := r
  cases r with
  | error e => exact h
  | panic p => exact h
  | ok u =>
    obtain ⟨hbuilding,hclosable,hothers,htypes,hnodup,-⟩ := h
    refine ⟨?_,?_,?_⟩
    · intro name
      cases hi : cfg.isolate[name]? with
      | some type => exact htypes (name,type) (mem_arrange_toList.mpr hi)
      | none =>
        rw [hothers name ?_, hw]
        · simp
        · intro hmem
          obtain ⟨e,he,rfl⟩ := List.mem_map.mp hmem
          rw [mem_arrange_toList.mp he] at hi
          cases hi
    · intro name name' type h h'
      have hmem : (name,type) ∈ arrange order cfg.isolate.toList := mem_arrange_toList.mpr h
      have hmem' : (name',type) ∈ arrange order cfg.isolate.toList := mem_arrange_toList.mpr h'
      exact congrArg Prod.fst (List.inj_on_of_nodup_map hnodup hmem hmem' rfl)
    · intro order
      obtain ⟨u,hu,-,hperm⟩ := hbuilding.close hclosable order
      exact ⟨u,hu,hperm⟩

/-- A box that comes first and that a panic meets: in its constructor, or without a database
when it is closed. -/
theorem constructBoxes_unclean {name type : String} {rest : List (String × String)} {closing : List ℕ}
    (h : type = "porto" ∧ w.db = false ∧ ¬(o.construction name).Spares ∨ (o.construction name).Unsized type)
    (hname : name ∉ rest.map Prod.fst) : ¬Clean cfg (constructBoxes o closing [] ((name,type) :: rest) w) := by
  obtain ⟨hok,-,hpanic⟩ := constructBoxes_cons o closing w name rest (List.not_mem_nil (a := type))
  rcases constructBox_cases type (o.construction name) w with ⟨box,hbox,htype,-,hu⟩ | ⟨e,-,hsp,hu⟩ | ⟨p,hp,-⟩
  · obtain ⟨rfl,hdb,-⟩ := h.resolve_right hu
    rw [hok hbox]
    have hget : (w.add name box).boxes[name]? = some box := ExtTreeMap.getElem?_insert_self
    rcases constructBoxes_misses o closing ["porto"] (w := w.add name box) hdb hget htype hname with
      ⟨p,t,ht⟩ | ⟨t,ht,hc⟩
    · rw [ht]
      exact id
    · rw [ht]
      rintro ⟨-,-,hclose⟩
      obtain ⟨u,hu,-⟩ := hclose []
      obtain ⟨v,hv⟩ := close_panic hc []
      cases hu.symm.trans hv
  · obtain ⟨hporto,hdb,hs⟩ := h.resolve_right hu
    exact absurd (hsp hporto hdb) hs
  · rw [hpanic hp]
    exact id

variable {files : Mtn.Backup.World} {store : Mtn.Store}

theorem start_of_clean (h : ∀ orders, Clean cfg (new o orders cfg (fresh files store))) :
    ¬StartPanics o cfg (fresh files store) := by
  intro hp
  rcases start_cases o cfg (fresh files store) with ⟨-,p,t,ht⟩ | ⟨hno,-⟩ | ⟨hno,-⟩
  · have hclean := h ⟨[],[]⟩
    rw [new, bind_panic ht] at hclean
    exact hclean
  · exact hno hp
  · exact hno hp

/-- In some order a box of the configuration comes first, and meets no panic. -/
theorem first_of_clean (h : ∀ orders, Clean cfg (new o orders cfg (fresh files store)))
    (ht : start o cfg (fresh files store) = (.ok (),t)) {name type : String} (hname : cfg.isolate[name]? = some type) :
    ¬(type = "porto" ∧ t.db = false ∧ ¬(o.construction name).Spares ∨ (o.construction name).Unsized type) := by
  intro hpanic
  obtain ⟨k,hk⟩ := List.getElem?_of_mem (ExtTreeMap.mem_toList_iff_getElem?_eq_some.mpr hname)
  have hfirst : arrange [k] cfg.isolate.toList = (name,type) :: cfg.isolate.toList.eraseIdx k := by
    rw [arrange, hk]
    rfl
  have hnodup := nodup_map_fst_arrange [k] cfg.isolate
  have hclean := h ⟨[k],[]⟩
  rw [hfirst, List.map_cons, List.nodup_cons] at hnodup
  rw [new, bind_ok ht, hfirst] at hclean
  exact constructBoxes_unclean hpanic hnodup.1 hclean

theorem spares_of_clean (h : ∀ orders, Clean cfg (new o orders cfg (fresh files store))) (hen : cfg.mtn.enable = false)
    {name : String} (hname : cfg.isolate[name]? = some "porto") : (o.construction name).Spares := by
  by_contra hs
  rcases start_cases o cfg (fresh files store) with ⟨hp,-⟩ | ⟨-,hen',-⟩ | ⟨-,t,ht,-,hdb⟩
  · exact start_of_clean h hp
  · rw [hen] at hen'
    cases hen'
  exact first_of_clean h ht hname (Or.inl ⟨rfl,hdb.trans hen,hs⟩)

theorem sized_of_clean (h : ∀ orders, Clean cfg (new o orders cfg (fresh files store)))
    (hstart : (start o cfg (fresh files store)).1 = .ok ()) {name type : String} (hname : cfg.isolate[name]? = some type) :
    ¬(o.construction name).Unsized type :=
  fun hu => first_of_clean h (Prod.ext hstart rfl) hname (Or.inr hu)

theorem clean_of_spares (hstart : ¬StartPanics o cfg (fresh files store))
    (h : cfg.mtn.enable = false → ∀ name : String, cfg.isolate[name]? = some "porto" → (o.construction name).Spares)
    (hsized : (start o cfg (fresh files store)).1 = .ok () →
      ∀ (name : String) type, cfg.isolate[name]? = some type → ¬(o.construction name).Unsized type)
    (orders : Orders) : Clean cfg (new o orders cfg (fresh files store)) := by
  rcases start_cases o cfg (fresh files store) with ⟨hp,-⟩ | ⟨-,-,e,t,ht,hsame⟩ | ⟨-,t,ht,hsame,hdb⟩
  · exact absurd hp hstart
  · rw [new, bind_error ht]
    refine ⟨?_,?_⟩
    · rw [hsame.constructed]
      exact List.nodup_nil
    · rw [hsame.constructed, hsame.closed]
      exact List.Perm.nil
  · rw [new, bind_ok ht]
    have hempty : t.boxes = ∅ := hsame.boxes
    have hnone : t.constructed = [] := hsame.constructed
    refine clean_of_ends hempty (constructBoxes_ends ⟨?_,?_,hsame.closed⟩ ?_ (nodup_map_fst_arrange _ _) ?_ ?_ ?_)
    · rw [hnone]
      exact List.nodup_nil
    · simp [hempty, hnone]
    · exact Or.inr (by simp [hempty])
    · simp [hnone]
    · rw [hdb]
      cases hen : cfg.mtn.enable with
      | true => exact Or.inl rfl
      | false =>
        refine Or.inr fun e he htype => h hen e.1 ?_
        rw [← htype]
        exact mem_arrange_toList.mp he
    · exact fun e he => hsized (congrArg Prod.fst ht) e.1 e.2 (mem_arrange_toList.mp he)

end Clean

/-- For every configuration and all that the constructors meet, `New` and `Close` behave in
every order of the boxes exactly if, with MTN, neither the database nor the listing panics,
without MTN no porto box is made or gives up on its journal, and, if `New` comes to the
boxes, each that gets to its semaphore has a size for it. -/
theorem new_clean_iff (o : Outside) (cfg : Config) (files : Mtn.Backup.World) (store : Mtn.Store) :
    (∀ orders, Clean cfg (new o orders cfg (fresh files store))) ↔
      (cfg.mtn.enable = true → ¬Mtn.Backup.Faults o.backup cfg.mtn ∧
        (Mtn.Backup.Opens o.backup cfg.mtn files → store.env.listing.listable = true)) ∧
      (cfg.mtn.enable = false → ∀ name : String, cfg.isolate[name]? = some "porto" → (o.construction name).Spares) ∧
      ((start o cfg (fresh files store)).1 = .ok () →
        ∀ (name : String) type, cfg.isolate[name]? = some type → ¬(o.construction name).Unsized type) := by
  have hstart : ¬StartPanics o cfg (fresh files store) ↔ (cfg.mtn.enable = true → ¬Mtn.Backup.Faults o.backup cfg.mtn ∧
      (Mtn.Backup.Opens o.backup cfg.mtn files → store.env.listing.listable = true)) := by
    simp only [StartPanics, fresh, not_and, not_or, Bool.not_eq_false]
  rw [← hstart]
  constructor
  · intro h
    exact ⟨start_of_clean h,fun hen name => spares_of_clean h hen,fun hs name type => sized_of_clean h hs⟩
  · rintro ⟨hstart,h,hsized⟩
    exact clean_of_spares hstart h hsized

/-- Without MTN a porto box is made, and the next box cannot be: `New` panics when it closes
the first. So it does on the way out of a daemon that has just this box, and for a Docker box
that is to spawn none at a time. -/
theorem porto_close_panics :
    let box : Construction := ⟨none,5,"",.notExist,.ok [],[]⟩
    let o : Outside := ⟨⟨.ok "host",fun _ => none,[]⟩,"","",fun _ => box⟩
    let mtn : Mtn.Backup.Config := ⟨false,0,"","","",[],""⟩
    let isolate : ExtTreeMap String String compare := (∅ : ExtTreeMap String String compare).insert "a" "porto"
    let docker : ExtTreeMap String String compare := (∅ : ExtTreeMap String String compare).insert "d" "docker"
    let files : Mtn.Backup.World := ⟨Mtn.Backup.damaged,false⟩
    let store : Mtn.Store := ⟨∅,⟨[],.newRequestError "",[],[],[]⟩⟩
    (new o ⟨[],[]⟩ ⟨mtn,false,isolate.insert "b" "jail"⟩ (fresh files store)).1 = .panic nilDereference ∧
      (new o ⟨[],[]⟩ ⟨mtn,false,isolate⟩ (fresh files store)).1 = .ok () ∧
      (close [] (new o ⟨[],[]⟩ ⟨mtn,false,isolate⟩ (fresh files store)).2).1 = .panic nilDereference ∧
      (new { o with construction := fun _ => { box with spawnConcurrency := 0 } } ⟨[],[]⟩ ⟨mtn,false,docker⟩
        (fresh files store)).1 = .panic "Semaphore: size must be positive" ∧
      ¬∀ orders, Clean ⟨mtn,false,isolate⟩ (new o orders ⟨mtn,false,isolate⟩ (fresh files store)) := by
  intro box o mtn isolate docker files store
  have hpanic : (new o ⟨[],[]⟩ ⟨mtn,false,isolate.insert "b" "jail"⟩ (fresh files store)).1 = .panic nilDereference := by
    decide +kernel
  have hnew : (new o ⟨[],[]⟩ ⟨mtn,false,isolate⟩ (fresh files store)).1 = .ok () := by
    decide +kernel
  have hclose : (close [] (new o ⟨[],[]⟩ ⟨mtn,false,isolate⟩ (fresh files store)).2).1 = .panic nilDereference := by
    decide +kernel
  refine ⟨hpanic,hnew,hclose,by decide +kernel,fun h => ?_⟩
  have hclean := h ⟨[],[]⟩
  rw [← Prod.eta (new o ⟨[],[]⟩ ⟨mtn,false,isolate⟩ (fresh files store)), hnew] at hclean
  obtain ⟨u,hu,-⟩ := hclean.2.2 []
  rw [hu] at hclose
  cases hclose

end Stout.Daemon
