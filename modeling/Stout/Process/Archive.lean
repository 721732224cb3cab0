import Stout.Library.FileTree
import Stout.Library.Paths
import Stout.Isolate.Mtn

/-! # Unpacking an archive

`unpackArchive` of `process/archive.go` and `Box.Spool` on a tree of directories and
files without symbolic links. A call fails where the tree makes it fail, and besides
wherever `Outside.fault` says so; what is written into a file is left out.
-/
namespace Stout.Process.Archive
open Prog
open Paths

/-- The calls that can fail for a reason the tree does not show, with the number of the
entry. -/
inductive Point where
  | removeAll
  | mkdir
  | stat (entry : ℕ)
  | mkdirAll (entry : ℕ) (path : List String)
  | openFile (entry : ℕ)
  | copy (entry : ℕ)
deriving DecidableEq, Repr

inductive Failure where
  | errno (e : Errno)
  | other (message : String)
deriving DecidableEq, Repr

def Failure.isNotExist : Failure → Bool
  | .errno .noEntry => true
  | _ => false

/-- The name of an entry, and what its `FileInfo` says. -/
structure Header where
  name : String
  isDir : Bool
  mode : ℕ
deriving DecidableEq, Repr

/-- The bytes a reader gives, and the error it ends with if that is not the end of the
file. -/
structure Stream where
  bytes : List UInt8
  error : Option String

/-- The readers of the standard library. An archive is read up to the end of the file or
up to an error. -/
structure Formats where
  gzipReader : List UInt8 → Except String Stream
  zlibReader : List UInt8 → Except String Stream
  tarReader : Stream → List Header × Option String

structure Outside where
  cwd : List String
  fault : Point → Option String

/-- The calls that have made a directory, or have created or truncated a file. -/
inductive Call where
  | mkdir (path : List String) (mode : ℕ)
  | openFile (path : List String) (mode : ℕ)
deriving DecidableEq, Repr

def Call.path : Call → List String
  | .mkdir path _ => path
  | .openFile path _ => path

structure World where
  tree : FileTree String
  log : List Call

abbrev Run (α : Type) := Prog World Failure α

def trying {α : Type} (o : Outside) (p : Point) (m : Run α) : Run α :=
  match o.fault p with
  | some e => Prog.throw (.other e)
  | none => m

/-- A call that changes the tree. -/
def change (o : Outside) (p : Point) (f : FileTree String → Except Errno (FileTree String)) (c : Call) : Run Unit :=
  trying o p do
    let w ← Prog.read
    match f w.tree with
    | .ok t => Prog.modify fun w => ⟨t,w.log ++ [c]⟩
    | .error e => Prog.throw (.errno e)

def mkdir (o : Outside) (p : Point) (path : List String) (mode : ℕ) : Run Unit :=
  change o p (fun t => t.mkdir path) (.mkdir path mode)

def openFile (o : Outside) (i : ℕ) (path : List String) (mode : ℕ) : Run Unit :=
  change o (.openFile i) (fun t => t.openFile path) (.openFile path mode)

def stat (o : Outside) (i : ℕ) (path : List String) : Run Node := trying o (.stat i) do
  let w ← Prog.read
  match w.tree.stat path with
  | .ok n => pure n
  | .error e => Prog.throw (.errno e)

def mkdirAll (o : Outside) (i : ℕ) (mode : ℕ) : List String → Run Unit
  | [] => pure ()
  | x :: path => do
    let w ← Prog.read
    match w.tree.node (x :: path) with
    | some .dir => pure ()
    | some .file => Prog.throw (.errno .notDir)
    | none => do
      mkdirAll o i mode path
      mkdir o (.mkdirAll i (x :: path)) (x :: path) mode

/-- `os.RemoveAll`. What a removal that fails has taken away before is left out. -/
def removeAll (o : Outside) (target : String) : Run Unit :=
  if target = "" then pure ()
  -- rmdir refuses these two whatever they stand for
  else if base target = "." then Prog.throw (.errno .invalid)
  else if base target = ".." then Prog.throw (.errno .notEmpty)
  else trying o .removeAll do
    let w ← Prog.read
    match w.tree.removeAll (resolve o.cwd target) with
    | .ok t => Prog.modify fun w => { w with tree := t }
    | .error e => Prog.throw (.errno e)

def fallbackTarReader (data : List UInt8) : Except String Stream := .ok ⟨data,none⟩

def constructors (f : Formats) : List (List UInt8 → Except String Stream) :=
  [f.gzipReader,f.zlibReader,fallbackTarReader]

/-- The first reader that does not refuse the data. -/
def archiveReader (data : List UInt8) : List (List UInt8 → Except String Stream) → Option Stream
  | [] => none
  | constructor :: rest =>
    match constructor data with
    | .ok stream => some stream
    | .error _ => archiveReader data rest

/-- Some archives do not contain headers with a directory item. -/
def makeParent (o : Outside) (i : ℕ) (path : String) : Run Unit :=
  let dirpath := dir path
  if dirpath = "." then pure ()
  else do
    match ← Prog.attempt (stat o i (resolve o.cwd dirpath)) with
    | .ok _ => pure ()
    | .error e => if e.isNotExist then mkdirAll o i 0o770 (resolve o.cwd dirpath) else Prog.throw e

def unpackEntry (o : Outside) (target : String) (i : ℕ) (hdr : Header) : Run Unit :=
  let path := join target hdr.name
  if hdr.isDir then mkdirAll o i hdr.mode (resolve o.cwd path)
  else do
    makeParent o i path
    openFile o i (resolve o.cwd path) hdr.mode
    trying o (.copy i) (pure ())

def unpackEntries (o : Outside) (target : String) : ℕ → List Header → Run Unit
  | _, [] => pure ()
  | i, hdr :: rest => do
    unpackEntry o target i hdr
    unpackEntries o target (i + 1) rest

def unpackStream (f : Formats) (o : Outside) (target : String) (stream : Stream) : Run Unit := do
  unpackEntries o target 0 (f.tarReader stream).1
  match (f.tarReader stream).2 with
  | none => pure ()
  | some e => Prog.throw (.other e)

def unpackArchive (f : Formats) (o : Outside) (data : List UInt8) (target : String) : Run Unit := do
  removeAll o target
  if target = "" then Prog.throw (.errno .noEntry)
  else do
    mkdir o .mkdir (resolve o.cwd target) 0o755
    match archiveReader data (constructors f) with
    | none => Prog.crash Mtn.nilDereference
    | some stream => unpackStream f o target stream

/-- `Box.Spool`, with the spool directory of the profile, the archive fetched and whether
the request has been cancelled meanwhile. -/
def spool (f : Formats) (o : Outside) (spoolPath : String) (profile : Except String String)
    (fetched : Except String (List UInt8)) (cancelled : Bool) (name : String) : Run Unit :=
  match profile with
  | .error e => Prog.throw (.other e)
  | .ok profileSpool =>
    let spoolPath := if profileSpool ≠ "" then profileSpool else spoolPath
    match fetched with
    | .error e => Prog.throw (.other e)
    | .ok data => if cancelled then pure () else unpackArchive f o data (join spoolPath name)

/-! ## Names that stay inside -/

def item (cwd : List String) (target : String) (hdr : Header) : FileTree.Item String :=
  ⟨resolve cwd (join target hdr.name),if hdr.isDir then .dir else .file⟩

/-- A path at which nothing can be made outside the target: it is inside, or it is a
directory that is there in any case. -/
def Sheltered (cwd target path : List String) : Prop := target <:+ path ∨ path <:+ target ∨ path <:+ cwd

instance (cwd target path : List String) : Decidable (Sheltered cwd target path) :=
  inferInstanceAs (Decidable (_ ∨ _ ∨ _))

/-- The directories that are there when the entries come. -/
def start (cwd target : List String) : List (FileTree.Item String) :=
  ⟨target,.dir⟩ :: if target <:+ cwd then [] else [⟨cwd,.dir⟩]

/-- Every entry is sheltered, up to the first one that cannot be unpacked beside those
before it. -/
def Contained (cwd target : List String) : List (FileTree.Item String) → List (FileTree.Item String) → Prop
  | _, [] => True
  | known, e :: rest =>
    Sheltered cwd target e.path ∧ ((∀ g ∈ known, ¬FileTree.Clash g e) → Contained cwd target (e :: known) rest)

def Contained.decide (cwd target : List String) :
    ∀ known items : List (FileTree.Item String), Decidable (Contained cwd target known items)
  | _, [] => isTrue trivial
  | known, e :: rest =>
    have := Contained.decide cwd target (e :: known) rest
    inferInstanceAs (Decidable (_ ∧ (_ → _)))

instance (cwd target : List String) (known items : List (FileTree.Item String)) :
    Decidable (Contained cwd target known items) :=
  Contained.decide cwd target known items

def headers (f : Formats) (data : List UInt8) : List Header :=
  match archiveReader data (constructors f) with
  | none => []
  | some stream => (f.tarReader stream).1

/-- The names of directories that cannot be removed by them. -/
def Dotted (target : String) : Prop := base target = "." ∨ base target = ".."

instance (target : String) : Decidable (Dotted target) := inferInstanceAs (Decidable (_ ∨ _))

/-- All that has been made or truncated is the target or below it. -/
def Stays (f : Formats) (o : Outside) (data : List UInt8) (target : String) (tree : FileTree String) : Prop :=
  ∀ c ∈ (unpackArchive f o data target ⟨tree,[]⟩).2.log, resolve o.cwd target <:+ c.path

end Stout.Process.Archive
