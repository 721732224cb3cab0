import Stout.Library.Files
import Stout.Isolate.Mtn

/-! # The backup of a database that cannot be opened

`SaveRename` and `CfgInit` of `isolate/mtn.go` on a file system whose calls fail where
the world says so. A call that fails has done nothing. Symbolic links are left out; two
names of one file are not.
-/
namespace Stout.Mtn.Backup
open Prog

inductive Point where
  | open_
  | create
  | copy
  | remove
  | boltOpen
  | boltReopen
  | statDb
  | statBackup
  | removeEmpty
  | update
deriving DecidableEq, Repr

structure Outside where
  hostname : Except String String
  fault : Point → Option String
  /-- what bolt writes into a new database -/
  fresh : List UInt8

/-- The files, and whether the second `bolt.Open` has succeeded. -/
structure World where
  files : Files String UInt8
  recreated : Bool

abbrev Run (α : Type) := Prog World String α

structure Handle where
  file : ℕ
  writable : Bool
deriving DecidableEq, Repr

def trying {α : Type} (o : Outside) (p : Point) (m : Run α) : Run α :=
  match o.fault p with
  | some e => Prog.throw e
  | none => m

def noSuchFile (op path : String) : String := op ++ " " ++ path ++ ": no such file or directory"

/-- `os.Open`: for reading only. -/
def osOpen (o : Outside) (path : String) : Run Handle := trying o .open_ do
  let w ← Prog.read
  match w.files.name path with
  | some i => pure ⟨i,false⟩
  | none => Prog.throw (noSuchFile "open" path)

/-- `os.Create`: for reading and writing, emptied. -/
def osCreate (o : Outside) (path : String) : Run Handle := trying o .create do
  Prog.modify fun w => { w with files := w.files.create path }
  let w ← Prog.read
  match w.files.name path with
  | some i => pure ⟨i,true⟩
  | none => Prog.throw (noSuchFile "open" path)

/-- `io.Copy`, from the second to the first. Both handles stand at the beginning; there
is no write if there is nothing to read. -/
def ioCopy (o : Outside) (dst src : Handle) : Run Unit := trying o .copy do
  let w ← Prog.read
  let bs := w.files.file src.file
  if bs = [] then pure ()
  else if dst.writable then
    Prog.modify fun w => { w with files := w.files.write dst.file (bs ++ (w.files.file dst.file).drop bs.length) }
  else Prog.throw "write: bad file descriptor"

def osRemove (o : Outside) (p : Point) (path : String) : Run Unit := trying o p do
  let w ← Prog.read
  match w.files.name path with
  | some _ => Prog.modify fun w => { w with files := w.files.remove path }
  | none => Prog.throw (noSuchFile "remove" path)

def saveRename (o : Outside) (src dst : String) : Run Unit := do
  let ioSrcDb ← osOpen o src
  let ioDstDb ← osCreate o dst
  ioCopy o ioSrcDb ioDstDb
  osRemove o .remove src

structure Config where
  enable : Bool
  allocbuffer : ℤ
  label : String
  ident : String
  url : String
  headers : List (String × String)
  dbPath : String

def Config.path (c : Config) : String := if 1 < c.dbPath.utf8ByteSize then c.dbPath else "/run/isolate.mtn.db"

def corruptedBackupPath : String := "/var/tmp/isolate.mtn.db.corrupted"

/-- `bolt.Open`: a file that is not there or is empty gets a new database. -/
def boltOpen (o : Outside) (p : Point) (path : String) : Run Unit := trying o p do
  let w ← Prog.read
  match w.files.name path with
  | none => Prog.modify fun w => { w with files := w.files.add path o.fresh }
  | some i =>
    if w.files.file i = [] then Prog.modify fun w => { w with files := w.files.write i o.fresh } else pure ()

/-- `os.Stat`: the size, none for a file that is not there. -/
def osStat (o : Outside) (p : Point) (path : String) : Run (Option ℕ) := trying o p do
  let w ← Prog.read
  pure ((w.files.read path).map List.length)

/-- What is done with a database that cannot be opened. False is the end of `CfgInit`. -/
def setAside (o : Outside) (path : String) (fSize : ℕ) : Run Bool :=
  if 0 < fSize then do
    match ← Prog.attempt (osStat o .statBackup corruptedBackupPath) with
    | .ok (some _) => pure false
    | (_ : Except String (Option ℕ)) =>
      match ← Prog.attempt (saveRename o path corruptedBackupPath) with
      | .ok () => pure true
      | .error (_ : String) => pure false
  else do
    match ← Prog.attempt (osRemove o .removeEmpty path) with
    | .ok () => pure true
    | .error (_ : String) => pure false

def check (o : Outside) : Run Bool := pure (o.fault .update).isNone

def reopen (o : Outside) (path : String) : Run Bool := do
  match ← Prog.attempt (boltOpen o .boltReopen path) with
  | .ok () =>
    Prog.modify fun w => { w with recreated := true }
    check o
  | .error (_ : String) => pure false

/-- From the first `bolt.Open` on. A `Stat` that fails for another reason than the
missing file leaves no database to check. -/
def openDb (o : Outside) (path : String) : Run Bool := do
  match ← Prog.attempt (boltOpen o .boltOpen path) with
  | .ok () => pure true
  | .error (_ : String) =>
    match ← Prog.attempt (osStat o .statDb path) with
    | .ok none => pure false
    | .error (_ : String) => Prog.crash nilDereference
    | .ok (some fSize) =>
      if ← setAside o path fSize then reopen o path else pure false

/-- The configuration of the pool, if `CfgInit` returns true. -/
def cfgInit (o : Outside) (cfg : Config) : Run (Option MtnCfg) :=
  if cfg.enable = false then pure (some ⟨false,0,"","","",[]⟩)
  else
    let allocbuffer := if cfg.allocbuffer < 1 then 4 else cfg.allocbuffer
    let label : Except String String := if cfg.label = "" then o.hostname else .ok cfg.label
    match label with
    | .error _ => pure none
    | .ok schedLabel => do
      let ident := if cfg.ident = "" then schedLabel else cfg.ident
      if ← openDb o cfg.path then pure (some ⟨true,allocbuffer,cfg.url,ident,schedLabel,cfg.headers⟩) else pure none

/-! ## `SaveRename` -/

/-- The contract: the bytes are under the new name and the old one is gone, or the call
has failed and they are where they were. -/
def Saves (o : Outside) (src dst : String) (content : List UInt8) (w : World) : Prop :=
  match saveRename o src dst w with
  | (.ok (),t) => t.files.read dst = some content ∧ t.files.read src = none
  | (.error _,t) => t.files.read src = some content
  | (.panic _,_) => False

/-- The call is stopped: before it has touched anything, or later without the two names
standing for one file. -/
def Stopped (o : Outside) (src dst : String) (w : World) : Prop :=
  (o.fault .open_).isSome = true ∨ (o.fault .create).isSome = true ∨
    ((o.fault .copy).isSome = true ∨ (o.fault .remove).isSome = true) ∧ ¬w.files.Same src dst

instance (o : Outside) (src dst : String) (w : World) : Decidable (Stopped o src dst w) :=
  inferInstanceAs (Decidable (_ ∨ _ ∨ (_ ∨ _) ∧ ¬_))

section SaveRename
variable {o : Outside} {src dst : String} {w : World}

theorem trying_some {α : Type} {p : Point} {e : String} (h : o.fault p = some e) (m : Run α) :
    trying o p m = Prog.throw e := by
  rw [trying, h]

theorem trying_none {α : Type} {p : Point} (h : o.fault p = none) (m : Run α) : trying o p m = m := by
  rw [trying, h]

theorem fault_of_ok {α : Type} {p : Point} {m : Run α} {a : α} {t : World} (h : trying o p m w = (.ok a,t)) :
    o.fault p = none := by
  cases hf : o.fault p with
  | none => rfl
  | some e =>
    rw [trying_some hf] at h
    exact (of_throw_ok h).elim

theorem osOpen_ok {i : ℕ} (hf : o.fault .open_ = none) (h : w.files.name src = some i) :
    osOpen o src w = (.ok ⟨i,false⟩,w) := by
  rw [osOpen, trying_none hf, read_bind, h]
  rfl

theorem osCreate_ok (hf : o.fault .create = none) (dst : String) (w : World) :
    ∃ i, (w.files.create dst).name dst = some i ∧
      osCreate o dst w = (.ok ⟨i,true⟩,{ w with files := w.files.create dst }) := by
  obtain ⟨i,hi⟩ := Option.isSome_iff_exists.mp (w.files.name_create_isSome dst)
  refine ⟨i,hi,?_⟩
  have hm : (Prog.modify fun w => { w with files := w.files.create dst } : Run Unit) w =
      (.ok (),{ w with files := w.files.create dst }) := rfl
  rw [osCreate, trying_none hf, bind_ok hm, read_bind, hi]
  rfl

theorem ioCopy_created (hf : o.fault .copy = none) {i : ℕ} (hi : (w.files.create dst).name dst = some i) (h : Handle) :
    ioCopy o h ⟨i,true⟩ { w with files := w.files.create dst } = (.ok (),{ w with files := w.files.create dst }) := by
  have hempty := w.files.read_create_self dst
  rw [Files.read, hi, Option.map_some] at hempty
  rw [ioCopy, trying_none hf, read_bind, if_pos (Option.some.inj hempty), pure_apply]

theorem saveRename_opened {i : ℕ} (dst : String) (ho : o.fault .open_ = none) (hc : o.fault .create = none)
    (hname : w.files.name src = some i) :
    (∃ e, ((o.fault .copy).isSome = true ∨ (o.fault .remove).isSome = true) ∧
      saveRename o src dst w = (.error e,{ w with files := w.files.create dst })) ∨
    (o.fault .copy = none ∧ o.fault .remove = none ∧
      saveRename o src dst w = (.ok (),{ w with files := (w.files.create dst).remove src })) := by
  obtain ⟨j,hj,hcreate⟩ := osCreate_ok hc dst w
  rw [saveRename, bind_ok (osOpen_ok ho hname), bind_ok hcreate]
  cases hcopy : o.fault .copy with
  | some e =>
    refine Or.inl ⟨e,Or.inl rfl,?_⟩
    rw [ioCopy, trying_some hcopy]
    rfl
  | none =>
    rw [bind_ok (ioCopy_created hcopy hj _)]
    cases hrem : o.fault .remove with
    | some e =>
      refine Or.inl ⟨e,Or.inr rfl,?_⟩
      rw [osRemove, trying_some hrem]
      rfl
    | none =>
      refine Or.inr ⟨rfl,rfl,?_⟩
      have hsrc : ((w.files.create dst).name src).isSome = true := by
        by_cases hne : src = dst
        · subst hne
          exact w.files.name_create_isSome src
        · rw [Files.name_create_of_ne hne, hname]
          rfl
      obtain ⟨k,hk⟩ := Option.isSome_iff_exists.mp hsrc
      rw [osRemove, trying_none hrem, read_bind, hk]
      rfl

theorem saves_iff_stopped {content : List UInt8} (hread : w.files.read src = some content) (hne : content ≠ []) :
    Saves o src dst content w ↔ Stopped o src dst w := by
  obtain ⟨i,hname,-⟩ := Option.map_eq_some_iff.mp hread
  have hsome : (w.files.name src).isSome = true := by rw [hname]; rfl
  cases ho : o.fault .open_ with
  | some e =>
    have hcall : saveRename o src dst w = (.error e,w) := by
      rw [saveRename, osOpen, trying_some ho]
      rfl
    simp [Saves, Stopped, hcall, ho, hread]
  | none =>
  cases hc : o.fault .create with
  | some e =>
    have hcall : saveRename o src dst w = (.error e,w) := by
      rw [saveRename, bind_ok (osOpen_ok ho hname), osCreate, trying_some hc]
      rfl
    simp [Saves, Stopped, hcall, hc, hread]
  | none =>
  rcases saveRename_opened dst ho hc hname with ⟨e,hstop,hcall⟩ | ⟨hcopy,hrem,hcall⟩
  · unfold Saves Stopped
    rw [hcall, ho, hc]
    by_cases hsame : w.files.Same src dst
    · have hlost := Files.read_create_same hsame hsome
      simp [hlost, hsame, hne.symm]
    · have hkept := Files.read_create_other hsame
      simp [hkept, hread, hsame, hstop]
  · unfold Saves Stopped
    rw [hcall, ho, hc, hcopy, hrem]
    by_cases hd : dst = src
    · subst hd
      simp [Files.read_remove_self]
    · have hempty : ((w.files.create dst).remove src).read dst = some [] := by
        rw [Files.read_remove_of_ne hd, Files.read_create_self]
      simp [hempty, hne.symm]

theorem saveRename_ok_not_stopped {t : World} {u : Unit} (h : saveRename o src dst w = (.ok u,t)) :
    ¬Stopped o src dst w := by
  have hnone : o.fault .open_ = none ∧ o.fault .create = none ∧ o.fault .copy = none ∧ o.fault .remove = none := by
    obtain ⟨a,s₁,h₁,h⟩ := of_bind_ok h
    obtain ⟨b,s₂,h₂,h⟩ := of_bind_ok h
    obtain ⟨c,s₃,h₃,h₄⟩ := of_bind_ok h
    exact ⟨fault_of_ok h₁,fault_of_ok h₂,fault_of_ok h₃,fault_of_ok h₄⟩
  obtain ⟨h₁,h₂,h₃,h₄⟩ := hnone
  simp [Stopped, h₁, h₂, h₃, h₄]

end SaveRename

/-! ## `CfgInit` -/

def Unchanged (s t : World) : Prop := t.recreated = s.recreated

instance : IsPreorder World Unchanged where
  refl _ := rfl
  trans _ _ _ h k := Eq.trans k h

section CfgInit
variable {o : Outside}

theorem trying_unchanged {α : Type} {p : Point} {m : Run α} (h : Moves Unchanged m) : Moves Unchanged (trying o p m) := by
  unfold trying
  split
  · exact .throw _
  · exact h

theorem osOpen_unchanged (path : String) : Moves Unchanged (osOpen o path) := by
  apply trying_unchanged
  refine Moves.bind .read fun w => ?_
  split
  · exact .pure _
  · exact .throw _

theorem osCreate_unchanged (path : String) : Moves Unchanged (osCreate o path) := by
  apply trying_unchanged
  refine Moves.bind (.modify fun _ => rfl) fun _ => Moves.bind .read fun w => ?_
  split
  · exact .pure _
  · exact .throw _

theorem ioCopy_unchanged (dst src : Handle) : Moves Unchanged (ioCopy o dst src) := by
  apply trying_unchanged
  refine Moves.bind .read fun w => ?_
  dsimp only
  split
  · exact .pure _
  · split
    · exact .modify fun _ => rfl
    · exact .throw _

theorem osRemove_unchanged (p : Point) (path : String) : Moves Unchanged (osRemove o p path) := by
  apply trying_unchanged
  refine Moves.bind .read fun w => ?_
  split
  · exact .modify fun _ => rfl
  · exact .throw _

theorem saveRename_unchanged (src dst : String) : Moves Unchanged (saveRename o src dst) := by
  apply (osOpen_unchanged src).bind
  intro a
  apply (osCreate_unchanged dst).bind
  intro b
  apply (ioCopy_unchanged a b).bind
  intro _
  exact osRemove_unchanged .remove src

theorem boltOpen_unchanged (p : Point) (path : String) : Moves Unchanged (boltOpen o p path) := by
  apply trying_unchanged
  refine Moves.bind .read fun w => ?_
  split
  · exact .modify fun _ => rfl
  · split
    · exact .modify fun _ => rfl
    · exact .pure _

theorem osStat_eq (p : Point) (path : String) (w : World) :
    (osStat o p path w).2 = w ∧ ∀ r, (osStat o p path w).1 = .ok r → r = (w.files.read path).map List.length := by
  cases hf : o.fault p with
  | some e =>
    rw [osStat, trying_some hf]
    exact ⟨rfl,nofun⟩
  | none =>
    rw [osStat, trying_none hf]
    refine ⟨rfl,?_⟩
    intro r hr
    cases hr
    rfl

theorem boltOpen_error {p : Point} {path e : String} {w t : World} (h : boltOpen o p path w = (.error e,t)) : t = w := by
  cases hf : o.fault p with
  | some e =>
    rw [boltOpen, trying_some hf] at h
    cases h
    rfl
  | none =>
    rw [boltOpen, trying_none hf, read_bind] at h
    cases hn : w.files.name path with
    | none =>
      rw [hn] at h
      cases h
    | some i =>
      rw [hn] at h
      dsimp only at h
      by_cases hi : w.files.file i = []
      · rw [if_pos hi] at h
        cases h
      · rw [if_neg hi] at h
        cases h

theorem setAside_unchanged (path : String) (fSize : ℕ) : Moves Unchanged (setAside o path fSize) := by
  have hstat (p : Point) (path : String) : Moves Unchanged (osStat o p path) := by
    intro w
    rw [(osStat_eq p path w).1]
    exact refl_of Unchanged w
  unfold setAside
  split
  · apply (hstat _ _).attempt.bind
    intro r
    split
    · exact .pure _
    · apply (saveRename_unchanged _ _).attempt.bind
      intro r
      cases r <;> exact .pure _
  · apply (osRemove_unchanged _ _).attempt.bind
    intro r
    cases r <;> exact .pure _

/-- A database with contents is set aside by `SaveRename` only. -/
theorem setAside_true {path : String} {fSize : ℕ} {w t : World} (hpos : 0 < fSize)
    (h : setAside o path fSize w = (.ok true,t)) : ∃ u, saveRename o path corruptedBackupPath w = (.ok (),u) := by
  unfold setAside at h
  rw [if_pos hpos] at h
  obtain ⟨r,s₁,hr,h⟩ := of_bind_ok h
  have hs₁ : s₁ = w := by
    rcases of_attempt_ok hr with ⟨a,-,ha⟩ | ⟨e,-,he⟩
    · have := (osStat_eq (o := o) .statBackup corruptedBackupPath w).1
      rw [ha] at this
      exact this
    · have := (osStat_eq (o := o) .statBackup corruptedBackupPath w).1
      rw [he] at this
      exact this
  subst hs₁
  have hsave : (do
      match ← Prog.attempt (saveRename o path corruptedBackupPath) with
      | .ok () => pure true
      | .error (_ : String) => pure false : Run Bool) s₁ = (.ok true,t) →
      ∃ u, saveRename o path corruptedBackupPath s₁ = (.ok (),u) := by
    intro h
    obtain ⟨r,s₂,hr,h⟩ := of_bind_ok h
    rcases of_attempt_ok hr with ⟨a,rfl,ha⟩ | ⟨e,rfl,he⟩
    · exact ⟨s₂,ha⟩
    · cases h
  rcases r with e | ⟨_ | n⟩
  · exact hsave h
  · exact hsave h
  · cases h

/-- A new database beside one that had contents comes after a `SaveRename` that
returned. -/
theorem openDb_recreated {path : String} {content : List UInt8} {w : World} (hread : w.files.read path = some content)
    (hne : content ≠ []) (hw : w.recreated = false) (h : (openDb o path w).2.recreated = true) :
    ∃ u, saveRename o path corruptedBackupPath w = (.ok (),u) := by
  have hfalse {t : World} (ht : Unchanged w t) : t.recreated ≠ true := by
    rw [show t.recreated = w.recreated from ht, hw]
    exact Bool.false_ne_true
  rcases hopen : boltOpen o .boltOpen path w with ⟨b,s₁⟩
  have hs₁ := (boltOpen_unchanged .boltOpen path).of_eq hopen
  unfold openDb at h
  cases b with
  | ok u =>
    rw [bind_ok (attempt_ok hopen)] at h
    exact (hfalse hs₁ h).elim
  | panic p =>
    rw [bind_panic (attempt_panic hopen)] at h
    exact (hfalse hs₁ h).elim
  | error e =>
  obtain rfl := boltOpen_error hopen
  rw [bind_ok (attempt_error hopen)] at h
  dsimp only at h
  obtain ⟨hsame,hsize⟩ := osStat_eq (o := o) .statDb path s₁
  rcases hstat : osStat o .statDb path s₁ with ⟨r,s₂⟩
  rw [hstat] at hsame hsize
  dsimp only at hsame hsize
  subst hsame
  cases r with
  | error e =>
    rw [bind_ok (attempt_error hstat)] at h
    exact (hfalse hs₁ h).elim
  | panic p =>
    rw [bind_panic (attempt_panic hstat)] at h
    exact (hfalse hs₁ h).elim
  | ok r =>
  rw [bind_ok (attempt_ok hstat), hsize r rfl, hread, Option.map_some] at h
  dsimp only at h
  have hpos : 0 < content.length := List.length_pos_iff.mpr hne
  rcases haside : setAside o path content.length s₂ with ⟨a,s₃⟩
  have hs₃ := (setAside_unchanged path content.length).of_eq haside
  cases a with
  | ok a =>
    cases a with
    | true => exact setAside_true hpos haside
    | false =>
      rw [bind_ok haside] at h
      exact (hfalse hs₃ h).elim
  | error e =>
    rw [bind_error haside] at h
    exact (hfalse hs₃ h).elim
  | panic p =>
    rw [bind_panic haside] at h
    exact (hfalse hs₃ h).elim

theorem cfgInit_recreated {cfg : Config} {content : List UInt8} {w : World}
    (hread : w.files.read cfg.path = some content) (hne : content ≠ []) (hw : w.recreated = false)
    (h : (cfgInit o cfg w).2.recreated = true) : ∃ u, saveRename o cfg.path corruptedBackupPath w = (.ok (),u) := by
  have hfalse : w.recreated ≠ true := by
    rw [hw]
    exact Bool.false_ne_true
  unfold cfgInit at h
  by_cases hen : cfg.enable = false
  · rw [if_pos hen] at h
    exact (hfalse h).elim
  rw [if_neg hen] at h
  dsimp only at h
  generalize (if cfg.label = "" then o.hostname else .ok cfg.label) = label at h
  cases label with
  | error e => exact (hfalse h).elim
  | ok schedLabel =>
    have hsnd : ∀ f : Bool → Run (Option MtnCfg), (∀ b s, (f b s).2 = s) →
        ((openDb o cfg.path >>= f) w).2 = (openDb o cfg.path w).2 := by
      intro f hf
      rcases hr : openDb o cfg.path w with ⟨r,t⟩
      cases r with
      | ok b => rw [bind_ok hr, hf]
      | error e => rw [bind_error hr]
      | panic p => rw [bind_panic hr]
    rw [hsnd] at h
    · exact openDb_recreated hread hne hw h
    · intro b s
      cases b <;> rfl

/-- Where a new database has been made in the place of one that could not be opened, the
backup has its bytes. -/
def Recovers (o : Outside) (cfg : Config) (content : List UInt8) (w : World) : Prop :=
  (cfgInit o cfg w).2.recreated = true → (cfgInit o cfg w).2.files.read corruptedBackupPath = some content

/-- `SaveRename` keeps its contract, and `CfgInit` the bytes of the database, exactly if
`SaveRename` is stopped. -/
theorem backup_kept_iff (o : Outside) (src dst : String) (files : Files String UInt8) {content : List UInt8}
    (hread : files.read src = some content) (hne : content ≠ []) :
    (Saves o src dst content ⟨files,false⟩ ∧
      ∀ cfg : Config, cfg.path = src → dst = corruptedBackupPath → Recovers o cfg content ⟨files,false⟩) ↔
    Stopped o src dst ⟨files,false⟩ := by
  have hiff : Saves o src dst content ⟨files,false⟩ ↔ Stopped o src dst ⟨files,false⟩ := saves_iff_stopped hread hne
  constructor
  · rintro ⟨hs,-⟩
    exact hiff.mp hs
  · intro hs
    refine ⟨hiff.mpr hs,?_⟩
    rintro cfg rfl rfl hrec
    obtain ⟨u,hu⟩ := cfgInit_recreated hread hne rfl hrec
    exact (saveRename_ok_not_stopped hu hs).elim

end CfgInit

/-! ## Whether `CfgInit` returns -/

def Labelled (o : Outside) (cfg : Config) : Prop := cfg.label = "" → o.hostname.isOk = true

/-- A database that cannot be opened is out of the way: removed if it is empty, and else
saved where there is no backup yet. -/
def SetsAside (o : Outside) (content : List UInt8) (w : World) : Prop :=
  if content = [] then o.fault .removeEmpty = none
  else ((o.fault .statBackup).isSome = true ∨ w.files.read corruptedBackupPath = none) ∧
    o.fault .open_ = none ∧ o.fault .create = none ∧ o.fault .copy = none ∧ o.fault .remove = none

def Reopens (o : Outside) (path : String) (w : World) : Prop :=
  o.fault .statDb = none ∧ (∃ content, w.files.read path = some content ∧ SetsAside o content w) ∧
    o.fault .boltReopen = none ∧ o.fault .update = none

def Opens (o : Outside) (cfg : Config) (w : World) : Prop :=
  Labelled o cfg ∧ (o.fault .boltOpen = none ∨ Reopens o cfg.path w)

/-- Neither the database nor its file can be looked at. -/
def Faults (o : Outside) (cfg : Config) : Prop :=
  Labelled o cfg ∧ (o.fault .boltOpen).isSome = true ∧ (o.fault .statDb).isSome = true

section Returns
variable {o : Outside} {path : String} {w : World}

theorem boltOpen_ok {p : Point} (h : o.fault p = none) (path : String) (w : World) : ∃ t, boltOpen o p path w = (.ok (),t) := by
  rw [boltOpen, trying_none h, read_bind]
  cases w.files.name path with
  | none => exact ⟨_,rfl⟩
  | some i =>
    dsimp only
    split <;> exact ⟨_,rfl⟩

theorem boltOpen_fault {p : Point} {e : String} (h : o.fault p = some e) (path : String) (w : World) :
    boltOpen o p path w = (.error e,w) := by
  rw [boltOpen, trying_some h]
  rfl

theorem osStat_ok {p : Point} (h : o.fault p = none) (path : String) (w : World) :
    osStat o p path w = (.ok ((w.files.read path).map List.length),w) := by
  rw [osStat, trying_none h]
  rfl

theorem osStat_fault {p : Point} {e : String} (h : o.fault p = some e) (path : String) (w : World) :
    osStat o p path w = (.error e,w) := by
  rw [osStat, trying_some h]
  rfl

theorem saveRename_returns (dst : String) (h : (w.files.read path).isSome = true) :
    (∃ t, saveRename o path dst w = (.ok (),t)) ∧
      (o.fault .open_ = none ∧ o.fault .create = none ∧ o.fault .copy = none ∧ o.fault .remove = none) ∨
    (∃ e t, saveRename o path dst w = (.error e,t)) ∧
      ¬(o.fault .open_ = none ∧ o.fault .create = none ∧ o.fault .copy = none ∧ o.fault .remove = none) := by
  obtain ⟨content,hc⟩ := Option.isSome_iff_exists.mp h
  obtain ⟨i,hname,-⟩ := Option.map_eq_some_iff.mp hc
  cases ho : o.fault .open_ with
  | some e =>
    refine Or.inr ⟨⟨e,w,?_⟩,by simp⟩
    rw [saveRename, osOpen, trying_some ho]
    rfl
  | none =>
    cases hcr : o.fault .create with
    | some e =>
      refine Or.inr ⟨⟨e,w,?_⟩,by simp⟩
      rw [saveRename, bind_ok (osOpen_ok ho hname), osCreate, trying_some hcr]
      rfl
    | none =>
      rcases saveRename_opened dst ho hcr hname with ⟨e,hstop,hcall⟩ | ⟨hcopy,hrem,hcall⟩
      · refine Or.inr ⟨⟨e,_,hcall⟩,?_⟩
        rintro ⟨-,-,hcopy,hrem⟩
        simp [hcopy, hrem] at hstop
      · exact Or.inl ⟨⟨_,hcall⟩,rfl,rfl,hcopy,hrem⟩

theorem attempted {m : Run Unit} {p : Prop} (h : (∃ t, m w = (.ok (),t)) ∧ p ∨ (∃ e t, m w = (.error e,t)) ∧ ¬p) :
    ∃ b t, (do match ← Prog.attempt m with | .ok () => pure true | .error (_ : String) => pure false : Run Bool) w = (.ok b,t) ∧
      (b = true ↔ p) := by
  rcases h with ⟨⟨t,ht⟩,hp⟩ | ⟨⟨e,t,ht⟩,hp⟩
  · exact ⟨true,t,by rw [bind_ok (attempt_ok ht)]; rfl,by simpa using hp⟩
  · exact ⟨false,t,by rw [bind_ok (attempt_error ht)]; rfl,by simpa using hp⟩

theorem setAside_returns {content : List UInt8} (h : w.files.read path = some content) :
    ∃ b t, setAside o path content.length w = (.ok b,t) ∧ (b = true ↔ SetsAside o content w) := by
  unfold setAside SetsAside
  by_cases hempty : content = []
  · subst hempty
    rw [if_neg (by simp), if_pos rfl]
    refine attempted ?_
    obtain ⟨i,hname,-⟩ := Option.map_eq_some_iff.mp h
    cases hf : o.fault .removeEmpty with
    | some e =>
      refine Or.inr ⟨⟨e,w,?_⟩,by simp⟩
      rw [osRemove, trying_some hf]
      rfl
    | none =>
      refine Or.inl ⟨⟨{ w with files := w.files.remove path },?_⟩,rfl⟩
      rw [osRemove, trying_none hf, read_bind, hname]
      rfl
  · rw [if_pos (List.length_pos_iff.mpr hempty), if_neg hempty]
    have hsave := attempted (saveRename_returns (o := o) corruptedBackupPath (by rw [h]; rfl))
    cases hf : o.fault .statBackup with
    | some e =>
      rw [bind_ok (attempt_error (osStat_fault hf corruptedBackupPath w))]
      simpa using hsave
    | none =>
      rw [bind_ok (attempt_ok (osStat_ok hf corruptedBackupPath w))]
      cases hb : w.files.read corruptedBackupPath with
      | some backup => exact ⟨false,w,rfl,by simp⟩
      | none => simpa using hsave

theorem reopen_returns (o : Outside) (path : String) (w : World) :
    ∃ b t, reopen o path w = (.ok b,t) ∧ (b = true ↔ o.fault .boltReopen = none ∧ o.fault .update = none) := by
  unfold reopen
  cases hf : o.fault .boltReopen with
  | some e =>
    rw [bind_ok (attempt_error (boltOpen_fault hf path w))]
    exact ⟨false,w,rfl,by simp⟩
  | none =>
    obtain ⟨t,ht⟩ := boltOpen_ok hf path w
    rw [bind_ok (attempt_ok ht)]
    exact ⟨(o.fault .update).isNone,_,rfl,by simp⟩

theorem openDb_of_stat (path : String) {e : String} (hopen : o.fault .boltOpen = some e) (hstat : o.fault .statDb = none) (w : World) :
    ∃ b t, openDb o path w = (.ok b,t) ∧ (b = true ↔ Reopens o path w) := by
  unfold openDb Reopens
  rw [bind_ok (attempt_error (boltOpen_fault hopen path w))]
  dsimp only
  rw [bind_ok (attempt_ok (osStat_ok hstat path w))]
  cases hr : w.files.read path with
  | none => exact ⟨false,w,rfl,by simp⟩
  | some content =>
    obtain ⟨b,t,hb,hiff⟩ := setAside_returns (o := o) hr
    rw [Option.map_some]
    dsimp only
    rw [bind_ok hb]
    cases b with
    | false =>
      have hno : ¬SetsAside o content w := by simpa using hiff
      exact ⟨false,t,rfl,by simp [hno]⟩
    | true =>
      have hyes : SetsAside o content w := hiff.mp rfl
      obtain ⟨b,u,hb,hiff⟩ := reopen_returns o path t
      exact ⟨b,u,hb,by simp [hiff, hstat, hyes]⟩

theorem openDb_returns (o : Outside) (path : String) (w : World) :
    ((o.fault .boltOpen).isSome = true ∧ (o.fault .statDb).isSome = true ∧ ∃ t, openDb o path w = (.panic nilDereference,t)) ∨
    ¬((o.fault .boltOpen).isSome = true ∧ (o.fault .statDb).isSome = true) ∧
      ∃ b t, openDb o path w = (.ok b,t) ∧ (b = true ↔ o.fault .boltOpen = none ∨ Reopens o path w) := by
  cases hopen : o.fault .boltOpen with
  | none =>
    obtain ⟨t,ht⟩ := boltOpen_ok hopen path w
    refine Or.inr ⟨by simp,true,t,?_,by simp⟩
    rw [openDb, bind_ok (attempt_ok ht)]
    rfl
  | some e =>
    cases hstat : o.fault .statDb with
    | some e' =>
      refine Or.inl ⟨rfl,rfl,w,?_⟩
      rw [openDb, bind_ok (attempt_error (boltOpen_fault hopen path w))]
      dsimp only
      rw [bind_ok (attempt_error (osStat_fault hstat path w))]
      rfl
    | none =>
      obtain ⟨b,t,hdb,hiff⟩ := openDb_of_stat path hopen hstat w
      exact Or.inr ⟨by simp,b,t,hdb,by simpa using hiff⟩

theorem label_cases (o : Outside) (cfg : Config) :
    (∃ e, (if cfg.label = "" then o.hostname else .ok cfg.label) = .error e ∧ ¬Labelled o cfg) ∨
      ∃ l, (if cfg.label = "" then o.hostname else .ok cfg.label) = .ok l ∧ Labelled o cfg := by
  unfold Labelled
  by_cases hl : cfg.label = ""
  · cases o.hostname <;> simp [hl, Except.isOk, Except.toBool]
  · simp [hl]

theorem cfgInit_returns (o : Outside) (cfg : Config) (w : World) :
    (cfg.enable = true ∧ Faults o cfg ∧ (cfgInit o cfg w).1 = .panic nilDereference) ∨
    ∃ r t, cfgInit o cfg w = (.ok r,t) ∧ ¬(cfg.enable = true ∧ Faults o cfg) ∧
      (r.isSome = true ↔ cfg.enable = true → Opens o cfg w) ∧ ∀ c, r = some c → c.enable = cfg.enable := by
  unfold cfgInit
  by_cases hen : cfg.enable = false
  · rw [if_pos hen]
    exact Or.inr ⟨_,w,rfl,by simp [hen],by simp [hen],by rintro c ⟨rfl⟩; exact hen.symm⟩
  have htrue : cfg.enable = true := by simpa using hen
  rw [if_neg hen]
  dsimp only
  rcases label_cases o cfg with ⟨e,he,hno⟩ | ⟨l,hl,hyes⟩
  · rw [he]
    exact Or.inr ⟨none,w,rfl,by simp [Faults, hno],by simp [Opens, hno, htrue],nofun⟩
  rw [hl]
  dsimp only
  rcases openDb_returns o cfg.path w with ⟨hopen,hstat,t,hdb⟩ | ⟨hno,b,t,hdb,hiff⟩
  · rw [bind_panic hdb]
    exact Or.inl ⟨htrue,⟨hyes,hopen,hstat⟩,rfl⟩
  have hfaults : ¬(cfg.enable = true ∧ Faults o cfg) := fun h => hno h.2.2
  have hopens : Opens o cfg w ↔ b = true := by simp [Opens, hyes, hiff]
  rw [bind_ok hdb]
  cases b with
  | true => exact Or.inr ⟨_,t,rfl,hfaults,by simp [hopens],by rintro c ⟨rfl⟩; exact htrue.symm⟩
  | false => exact Or.inr ⟨none,t,rfl,hfaults,by simp [hopens, htrue],nofun⟩

end Returns

def damaged : Files String UInt8 := Files.add ⟨fun _ => none,fun _ => [],0,nofun⟩ "/run/isolate.mtn.db" [1,2,3]

/-- No backup can be created: the database stays where it is. -/
theorem backup_kept_uncreated :
    damaged.read "/run/isolate.mtn.db" = some [1,2,3] ∧
    Saves ⟨.ok "host",fun p => if p = .create then some "read-only" else none,[0]⟩ "/run/isolate.mtn.db"
      corruptedBackupPath [1,2,3] ⟨damaged,false⟩ :=
  ⟨by decide,((backup_kept_iff _ _ _ damaged (by decide) (by decide)).mpr (by decide)).1⟩

def corrupted : Outside := ⟨.ok "host",fun p => if p = .boltOpen then some "invalid database" else none,[0]⟩

/-- The call returns, and its contents are in neither place: the daemon goes on with a
new database and an empty backup. -/
theorem saveRename_empties_backup :
    damaged.read "/run/isolate.mtn.db" = some [1,2,3] ∧
    (saveRename corrupted "/run/isolate.mtn.db" corruptedBackupPath ⟨damaged,false⟩).1 = .ok () ∧
    (saveRename corrupted "/run/isolate.mtn.db" corruptedBackupPath ⟨damaged,false⟩).2.files.read corruptedBackupPath =
      some [] ∧
    (cfgInit corrupted ⟨true,4,"","","",[],""⟩ ⟨damaged,false⟩).2.recreated = true ∧
    (cfgInit corrupted ⟨true,4,"","","",[],""⟩ ⟨damaged,false⟩).2.files.read corruptedBackupPath = some [] := by
  decide +kernel

end Stout.Mtn.Backup
