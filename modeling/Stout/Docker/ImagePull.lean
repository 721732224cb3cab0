import Stout.Library.JsonScanner

/-! # Errors of an image pull

`decodeImagePull` and `decodePullLine` of `docker/box.go`: the reply of Docker is read line
by line, and each line is decoded as a stream of JSON values. However the objects are
spread over the lines, the first one with an error is found.
-/
namespace Stout.Docker.ImagePull
open Json

structure SpoolResponse where
  error : Bytes
  status : Bytes
deriving DecidableEq, Repr

def errorName : Bytes := ofAscii "error"

def statusName : Bytes := ofAscii "status"

inductive Err where
  | read (message : String)
  | emptyLine
  /-- What the scanner does not accept, and what is not complete at the end. -/
  | malformed
  /-- A value of another type than the field. -/
  | mismatch
  /-- `fmt.Errorf` of the text. -/
  | errorf (format : Bytes)
deriving DecidableEq, Repr

/-- A string field set to a value; the flag says that a type has not fitted. -/
def setString (v : Value) (old : Bytes) (mismatch : Bool) : Bytes × Bool :=
  match v with
  | .string s => (s,mismatch)
  | .null => (old,mismatch)
  | _ => (old,true)

/-- A member decoded into the record. Other members than its fields are skipped. -/
def SpoolResponse.set (p : SpoolResponse × Bool) (m : Bytes × Value) : SpoolResponse × Bool :=
  if foldEq errorName m.1 then
    let r := setString m.2 p.1.error p.2
    ({ p.1 with error := r.1 },r.2)
  else if foldEq statusName m.1 then
    let r := setString m.2 p.1.status p.2
    ({ p.1 with status := r.1 },r.2)
  else p

def SpoolResponse.decode (r : SpoolResponse) : Value → Except Err SpoolResponse
  | .object ms =>
    let p := ms.foldl set (r,false)
    if p.2 then .error .mismatch else .ok p.1
  | .null => .ok r
  | _ => .error .mismatch

def decodeValues : SpoolResponse → List Value → Bool → Except Err Unit
  | _, [], eof => if eof then .ok () else .error .malformed
  | resp, v :: vs, eof =>
    match resp.decode v with
    | .error e => .error e
    | .ok resp => if resp.error ≠ [] then .error (.errorf resp.error) else decodeValues resp vs eof

def decodePullLine (line : Bytes) : Except Err Unit := decodeValues ⟨[],[]⟩ (values line).1 (values line).2

def newline : UInt8 := 0x0a

inductive ReadErr where
  | eof
  | other (message : String)
deriving DecidableEq, Repr

/-- What `ReadBytes` returns, call by call, up to the error the body ends with. -/
def readBytes (stop : ReadErr) : Bytes → Bytes → List (Bytes × Option ReadErr)
  | line, [] => [(line,some stop)]
  | line, c :: rest =>
    if c = newline then (line ++ [c],none) :: readBytes stop [] rest else readBytes stop (line ++ [c]) rest

def decodeLine (line : Bytes) : Except Err Unit :=
  if line.isEmpty then .error .emptyLine
  else decodePullLine (if line.getLast? = some newline then line.dropLast else line)

def decodeLines : List (Bytes × Option ReadErr) → Except Err Unit
  | [] => .ok ()
  | (line,err) :: rest =>
    match err with
    | none =>
      match decodeLine line with
      | .error e => .error e
      | .ok () => decodeLines rest
    | some .eof => if line.isEmpty then .ok () else decodeLine line
    | some (.other e) => .error (.read e)

/-- The body is given by its bytes and by what ends it. -/
def decodeImagePull (stop : ReadErr) (body : Bytes) : Except Err Unit := decodeLines (readBytes stop [] body)

/-! ## Lines -/

section Lines
variable {line : Bytes}

theorem decodePullLine_nil : decodePullLine [] = .ok () := rfl

/-- The body from the middle of a line. -/
def pull (line body : Bytes) : Except Err Unit := decodeLines (readBytes .eof line body)

theorem decodeLine_newline (line : Bytes) : decodeLine (line ++ [newline]) = decodePullLine line := by
  simp [decodeLine]

theorem pull_nil (h : newline ∉ line) : pull line [] = decodePullLine line := by
  have hlast : line.getLast? ≠ some newline := fun hl => h (List.mem_of_getLast? hl)
  cases line with
  | nil => rfl
  | cons c line => simp [pull, readBytes, decodeLines, decodeLine, hlast]

theorem pull_newline (line rest : Bytes) :
    pull line (newline :: rest) = match decodePullLine line with
      | .error e => .error e
      | .ok () => pull [] rest := by
  rw [pull, readBytes, if_pos rfl, decodeLines, decodeLine_newline]
  rfl

theorem pull_cons {c : UInt8} (hc : c ≠ newline) (line rest : Bytes) :
    pull line (c :: rest) = pull (line ++ [c]) rest := by
  rw [pull, readBytes, if_neg hc, pull]

theorem pull_append {t : Bytes} (h : newline ∉ t) (line rest : Bytes) : pull line (t ++ rest) = pull (line ++ t) rest := by
  induction t generalizing line with
  | nil => rw [List.nil_append, List.append_nil]
  | cons c t ih =>
    have hc : c ≠ newline := fun he => h (he ▸ List.mem_cons_self)
    rw [List.cons_append, pull_cons hc, ih (fun hm => h (List.mem_cons_of_mem c hm)), List.append_assoc, List.singleton_append]

/-- What is at the beginning of a line and has no error is as if it were not there. -/
theorem pull_skip {a : Bytes} (ha : newline ∉ a) (hskip : ∀ y, decodePullLine (a ++ y) = decodePullLine y)
    (hl : newline ∉ line) (body : Bytes) : pull (a ++ line) body = pull line body := by
  induction body generalizing line with
  | nil =>
    rw [pull_nil (by simp [ha, hl]), pull_nil hl, hskip]
  | cons c body ih =>
    by_cases hc : c = newline
    · rw [hc, pull_newline, pull_newline, hskip]
    · rw [pull_cons hc, pull_cons hc, List.append_assoc, ih]
      simpa [hl] using fun he => hc he.symm

/-- An error in a line is found whatever follows in the line. -/
theorem pull_error {a : Bytes} {e : Err} (ha : newline ∉ a) (herr : ∀ y, decodePullLine (a ++ y) = .error e)
    (hl : newline ∉ line) (body : Bytes) : pull (a ++ line) body = .error e := by
  induction body generalizing line with
  | nil => rw [pull_nil (by simp [ha, hl]), herr]
  | cons c body ih =>
    by_cases hc : c = newline
    · rw [hc, pull_newline, herr]
    · rw [pull_cons hc, List.append_assoc, ih]
      simpa [hl] using fun he => hc he.symm

end Lines

/-! ## Objects -/

/-- A field of an object: of the members that name it the last one counts. -/
def field (name : Bytes) (ms : List (Bytes × Value)) : Option Value :=
  (ms.filter fun m => foldEq name m.1).getLast?.map Prod.snd

/-- The error and the status are strings, if they are there. -/
def StringFields (ms : List (Bytes × Value)) : Prop :=
  ∀ m ∈ ms, foldEq errorName m.1 = true ∨ foldEq statusName m.1 = true → ∃ s, m.2 = .string s

def message (ms : List (Bytes × Value)) : Bytes :=
  match field errorName ms with
  | some (.string s) => s
  | _ => []

section Objects
variable {ms : List (Bytes × Value)}

theorem field_cons (name : Bytes) (m : Bytes × Value) (ms : List (Bytes × Value)) :
    field name (m :: ms) = (field name ms).or (if foldEq name m.1 then some m.2 else none) := by
  unfold field
  rw [List.filter_cons]
  split
  · rw [List.getLast?_cons]
    cases (ms.filter fun m => foldEq name m.1).getLast? <;> rfl
  · rw [Option.or_none]

theorem StringFields.field {name : Bytes} (h : StringFields ms) (hname : name = errorName ∨ name = statusName) {v : Value}
    (hv : field name ms = some v) : ∃ s, v = .string s := by
  obtain ⟨m,hm,rfl⟩ := Option.map_eq_some_iff.mp hv
  obtain ⟨hmem,hfold⟩ := List.mem_filter.mp (List.mem_of_getLast? hm)
  refine h m hmem ?_
  rcases hname with rfl | rfl
  · exact Or.inl hfold
  · exact Or.inr hfold

theorem set_string {m : Bytes × Value} (h : foldEq errorName m.1 = true ∨ foldEq statusName m.1 = true → ∃ s, m.2 = .string s)
    (r : SpoolResponse) (b : Bool) :
    (SpoolResponse.set (r,b) m).2 = b ∧
      (foldEq errorName m.1 = true → m.2 = .string (SpoolResponse.set (r,b) m).1.error) ∧
      (¬foldEq errorName m.1 = true → (SpoolResponse.set (r,b) m).1.error = r.error) := by
  unfold SpoolResponse.set
  by_cases he : foldEq errorName m.1 = true
  · obtain ⟨s,hs⟩ := h (Or.inl he)
    simp [he, hs, setString]
  · by_cases hst : foldEq statusName m.1 = true
    · obtain ⟨s,hs⟩ := h (Or.inr hst)
      simp [he, hst, hs, setString]
    · simp [he, hst]

theorem foldl_set (h : StringFields ms) (r : SpoolResponse) (b : Bool) :
    (ms.foldl SpoolResponse.set (r,b)).2 = b ∧
      (ms.foldl SpoolResponse.set (r,b)).1.error = match field errorName ms with
        | some (.string s) => s
        | _ => r.error := by
  induction ms generalizing r with
  | nil => exact ⟨rfl,rfl⟩
  | cons m ms ih =>
    have hms : StringFields ms := fun x hx => h x (List.mem_cons_of_mem m hx)
    obtain ⟨hflag,hset,hkeep⟩ := set_string (h m List.mem_cons_self) r b
    rcases hs : SpoolResponse.set (r,b) m with ⟨r₁,b₁⟩
    rw [hs] at hflag hset hkeep
    cases hflag
    obtain ⟨hb,herr⟩ := ih hms r₁
    rw [List.foldl_cons, hs, field_cons]
    refine ⟨hb,herr.trans ?_⟩
    cases hf : field errorName ms with
    | some v =>
      obtain ⟨s,rfl⟩ := hms.field (Or.inl rfl) hf
      rfl
    | none =>
      by_cases he : foldEq errorName m.1 = true
      · rw [if_pos he, hset he]
        rfl
      · rw [if_neg he]
        exact hkeep he

theorem decode_object (h : StringFields ms) {r : SpoolResponse} (hr : r.error = []) :
    ∃ r', r.decode (.object ms) = .ok r' ∧ r'.error = message ms := by
  obtain ⟨hflag,herr⟩ := foldl_set h r false
  refine ⟨(ms.foldl SpoolResponse.set (r,false)).1,?_,?_⟩
  · rw [SpoolResponse.decode, hflag]
    rfl
  · rw [herr, message, hr]

theorem setString_flag (v : Value) (old old' : Bytes) (b : Bool) : (setString v old b).2 = (setString v old' b).2 := by
  unfold setString
  split <;> rfl

/-- The status that is left over from earlier values does not matter. -/
theorem set_congr {r r' : SpoolResponse} (h : r.error = r'.error) (b : Bool) (m : Bytes × Value) :
    (SpoolResponse.set (r,b) m).2 = (SpoolResponse.set (r',b) m).2 ∧
      (SpoolResponse.set (r,b) m).1.error = (SpoolResponse.set (r',b) m).1.error := by
  unfold SpoolResponse.set
  dsimp only
  rw [h]
  split
  · exact ⟨rfl,rfl⟩
  split
  · exact ⟨setString_flag m.2 r.status r'.status b,rfl⟩
  · exact ⟨rfl,h⟩

theorem foldl_set_congr {r r' : SpoolResponse} (h : r.error = r'.error) (ms : List (Bytes × Value)) (b : Bool) :
    (ms.foldl SpoolResponse.set (r,b)).2 = (ms.foldl SpoolResponse.set (r',b)).2 ∧
      (ms.foldl SpoolResponse.set (r,b)).1.error = (ms.foldl SpoolResponse.set (r',b)).1.error := by
  induction ms generalizing r r' b with
  | nil => exact ⟨rfl,h⟩
  | cons m ms ih =>
    obtain ⟨hflag,herr⟩ := set_congr h b m
    have hset : SpoolResponse.set (r,b) m = ((SpoolResponse.set (r,b) m).1,(SpoolResponse.set (r',b) m).2) :=
      Prod.ext rfl hflag
    rw [List.foldl_cons, List.foldl_cons, hset]
    exact ih herr _

theorem decode_congr {r r' : SpoolResponse} (h : r.error = r'.error) (v : Value) :
    (∃ e, r.decode v = .error e ∧ r'.decode v = .error e) ∨
    ∃ t t', r.decode v = .ok t ∧ r'.decode v = .ok t' ∧ t.error = t'.error := by
  cases v with
  | object ms =>
    obtain ⟨hflag,herr⟩ := foldl_set_congr h ms false
    unfold SpoolResponse.decode
    dsimp only
    rw [hflag]
    split
    · exact Or.inl ⟨_,rfl,rfl⟩
    · exact Or.inr ⟨_,_,rfl,rfl,herr⟩
  | null => exact Or.inr ⟨r,r',rfl,rfl,h⟩
  | bool b => exact Or.inl ⟨_,rfl,rfl⟩
  | number text => exact Or.inl ⟨_,rfl,rfl⟩
  | string s => exact Or.inl ⟨_,rfl,rfl⟩
  | array vs => exact Or.inl ⟨_,rfl,rfl⟩

theorem decodeValues_congr {r r' : SpoolResponse} (h : r.error = r'.error) (vs : List Value) (eof : Bool) :
    decodeValues r vs eof = decodeValues r' vs eof := by
  induction vs generalizing r r' with
  | nil => rfl
  | cons v vs ih =>
    rw [decodeValues, decodeValues]
    rcases decode_congr h v with ⟨e,he,he'⟩ | ⟨t,t',ht,ht',htt⟩
    · rw [he, he']
    · rw [ht, ht']
      dsimp only
      rw [htt, ih htt]

theorem decodePullLine_object {t : Bytes} (ht : IsObject t ms) (h : StringFields ms) (y : Bytes) :
    decodePullLine (t ++ y) = if message ms ≠ [] then .error (.errorf (message ms)) else decodePullLine y := by
  obtain ⟨r,hr,herr⟩ := decode_object h (r := ⟨[],[]⟩) rfl
  rw [decodePullLine, values_append ht.feed]
  dsimp only [List.singleton_append]
  rw [decodeValues, hr]
  dsimp only
  rw [herr]
  split
  · rfl
  · rename_i hm
    exact decodeValues_congr (herr.trans (not_not.mp hm)) _ _

end Objects

/-! ## Streams of objects -/

/-- An object of the reply as it is written, and what is between it and the next one. -/
structure Item where
  text : Bytes
  members : List (Bytes × Value)
  separator : Bytes

def Separator (b : Bytes) : Prop := ∀ c ∈ b, c = 0x20 ∨ c = newline

/-- The object is written on one line, its error and its status are strings, and only
spaces and newlines follow. -/
structure Item.Valid (i : Item) : Prop where
  object : IsObject i.text i.members
  oneLine : newline ∉ i.text
  fields : StringFields i.members
  separator : Separator i.separator

def Item.failed (i : Item) : Bool := decide (message i.members ≠ [])

def Item.bytes (i : Item) : Bytes := i.text ++ i.separator

def body (lead : Bytes) (items : List Item) : Bytes := lead ++ items.flatMap Item.bytes

theorem decodePullLine_space (y : Bytes) : decodePullLine ([0x20] ++ y) = decodePullLine y := by
  have h : feed .start [0x20] = ([],some .start) := rfl
  rw [decodePullLine, values_append h]
  rfl

theorem pull_separator {sep : Bytes} (h : Separator sep) (rest : Bytes) : pull [] (sep ++ rest) = pull [] rest := by
  induction sep with
  | nil => rfl
  | cons c sep ih =>
    have hsep : Separator sep := fun x hx => h x (List.mem_cons_of_mem c hx)
    rw [List.cons_append]
    rcases h c List.mem_cons_self with rfl | rfl
    · rw [pull_cons (by decide), ← ih hsep]
      exact pull_skip (by decide) decodePullLine_space (List.not_mem_nil) _
    · rw [pull_newline, decodePullLine_nil]
      exact ih hsep

theorem pull_item {i : Item} (h : i.Valid) (rest : Bytes) :
    pull [] (i.bytes ++ rest) = if i.failed then .error (.errorf (message i.members)) else pull [] rest := by
  have hline := decodePullLine_object h.object h.fields
  rw [Item.bytes, List.append_assoc, pull_append h.oneLine, List.nil_append, ← List.append_nil i.text]
  by_cases hf : message i.members ≠ []
  · rw [Item.failed, if_pos (decide_eq_true hf)]
    exact pull_error h.oneLine (fun y => by rw [hline, if_pos hf]) List.not_mem_nil _
  · rw [Item.failed, if_neg (by simpa using hf)]
    rw [pull_skip h.oneLine (fun y => by rw [hline, if_neg hf]) List.not_mem_nil, pull_separator h.separator]

/-- The first object with an error, whatever follows; and otherwise what follows. -/
theorem pull_items {items : List Item} (h : ∀ i ∈ items, i.Valid) (rest : Bytes) :
    pull [] (items.flatMap Item.bytes ++ rest) = match items.find? Item.failed with
      | some i => .error (.errorf (message i.members))
      | none => pull [] rest := by
  induction items with
  | nil => rfl
  | cons i items ih =>
    rw [List.flatMap_cons, List.append_assoc, pull_item (h i List.mem_cons_self), List.find?_cons]
    cases i.failed with
    | true => rfl
    | false => exact ih fun j hj => h j (List.mem_cons_of_mem i hj)

/-! ## What is accepted -/

theorem decodeValues_ok {r : SpoolResponse} {vs : List Value} {eof : Bool} (h : decodeValues r vs eof = .ok ()) :
    eof = true ∧ ∀ text, .number text ∉ vs := by
  induction vs generalizing r with
  | nil =>
    cases eof with
    | true => exact ⟨rfl,by simp⟩
    | false => cases h
  | cons v vs ih =>
    rw [decodeValues] at h
    cases hr : r.decode v with
    | error e =>
      rw [hr] at h
      cases h
    | ok t =>
      rw [hr] at h
      dsimp only at h
      split at h
      · cases h
      · obtain ⟨heof,hvs⟩ := ih h
        refine ⟨heof,fun text hm => ?_⟩
        rcases List.mem_cons.mp hm with rfl | hm
        · cases hr
        · exact hvs text hm

/-- A line that is accepted is a stream of values that ends between two of them. -/
theorem decodePullLine_ok {line : Bytes} (h : decodePullLine line = .ok ()) :
    ∃ vs, feed .start line = (vs,some .start) := by
  obtain ⟨heof,hnum⟩ := decodeValues_ok h
  rcases hf : feed .start line with ⟨vs,_ | s⟩
  · rw [values, hf] at heof
    cases heof
  · rw [values, hf] at heof hnum
    dsimp only at heof hnum
    cases hfinish : s.finish with
    | none =>
      rw [hfinish] at heof
      cases heof
    | some more =>
      rw [hfinish] at hnum
      rcases finish_some hfinish with ⟨rfl,-⟩ | ⟨num,raw,-,rfl⟩
      · exact ⟨vs,rfl⟩
      · exact absurd (List.mem_append_right _ List.mem_cons_self) (hnum raw)

/-- A body that is accepted is a stream of values that ends well. -/
theorem values_of_pull {line body : Bytes} (hl : newline ∉ line) (h : pull line body = .ok ()) :
    (values (line ++ body)).2 = true := by
  induction body generalizing line with
  | nil =>
    rw [pull_nil hl] at h
    rw [List.append_nil]
    exact (decodeValues_ok h).1
  | cons c body ih =>
    by_cases hc : c = newline
    · rw [hc, pull_newline] at h
      cases hline : decodePullLine line with
      | error e =>
        rw [hline] at h
        cases h
      | ok u =>
        rw [hline] at h
        obtain ⟨vs,hvs⟩ := decodePullLine_ok hline
        have hnext : feed .start (line ++ [newline]) = (vs,some .start) := by
          rw [feed_append hvs]
          exact congrArg (·,some State.start) (List.append_nil vs)
        rw [hc, List.append_cons, values_append hnext]
        exact ih List.not_mem_nil h
    · rw [pull_cons hc] at h
      rw [List.append_cons]
      refine ih ?_ h
      simpa [hl] using fun he => hc he.symm

def Malformed (b : Bytes) : Prop := (values b).2 = false

/-- The bytes are the beginning of an object, but not all of it. -/
def CutOff (b : Bytes) : Prop := ∃ rest ms, IsObject (b ++ rest) ms ∧ b ≠ [] ∧ rest ≠ []

theorem pull_body {lead : Bytes} {items : List Item} (hlead : Separator lead) (h : ∀ i ∈ items, i.Valid) (rest : Bytes) :
    decodeImagePull .eof (body lead items ++ rest) = match items.find? Item.failed with
      | some i => .error (.errorf (message i.members))
      | none => pull [] rest := by
  rw [← pull_items h, ← pull_separator hlead, body, List.append_assoc]
  rfl

def firstError (objects : List (List (Bytes × Value))) : Except Err Unit :=
  match objects.find? fun ms => message ms ≠ [] with
  | some ms => .error (.errorf (message ms))
  | none => .ok ()

theorem decodeImagePull_body {lead : Bytes} {items : List Item} (hlead : Separator lead) (h : ∀ i ∈ items, i.Valid) :
    decodeImagePull .eof (body lead items) = firstError (items.map Item.members) := by
  have hall := pull_body hlead h []
  rw [List.append_nil] at hall
  rw [hall, firstError, List.find?_map]
  have hfailed : ((fun ms : List (Bytes × Value) => decide (message ms ≠ [])) ∘ Item.members) = Item.failed := rfl
  rw [hfailed]
  cases items.find? Item.failed <;> rfl

/-- The first object with an error is found, wherever the lines end and whatever follows
it; without one the reply is accepted, unless what follows is not JSON. What is between the
objects does not matter. -/
theorem decodeImagePull_detects (lead : Bytes) (items : List Item) (hlead : Separator lead) (h : ∀ i ∈ items, i.Valid) :
    (∀ i, items.find? Item.failed = some i →
      ∀ rest, decodeImagePull .eof (body lead items ++ rest) = .error (.errorf (message i.members))) ∧
    (items.find? Item.failed = none →
      decodeImagePull .eof (body lead items) = .ok () ∧
      ∀ rest, Malformed rest ∨ CutOff rest → ∃ e, decodeImagePull .eof (body lead items ++ rest) = .error e) ∧
    ∀ lead' items', Separator lead' → (∀ i ∈ items', i.Valid) → items'.map Item.members = items.map Item.members →
      decodeImagePull .eof (body lead' items') = decodeImagePull .eof (body lead items) := by
  have hpull := pull_body hlead h
  refine ⟨fun i hi rest => by rw [hpull, hi],fun hnone => ⟨?_,fun rest hrest => ?_⟩,fun lead' items' hlead' h' heq => ?_⟩
  · have hall := hpull []
    rw [List.append_nil, hnone] at hall
    exact hall
  · have hbad : (values rest).2 = false := by
      rcases hrest with hrest | ⟨q,ms,hobj,hb,hq⟩
      · exact hrest
      · rw [hobj.cut hb hq]
    rw [hpull, hnone]
    dsimp only
    cases hr : pull [] rest with
    | error e => exact ⟨e,rfl⟩
    | ok u =>
      have hgood := values_of_pull List.not_mem_nil hr
      rw [List.nil_append, hbad] at hgood
      cases hgood
  · rw [decodeImagePull_body hlead' h', decodeImagePull_body hlead h, heq]

def oneString (text : String) (key value : String) (separator : Bytes) : Item :=
  ⟨ofAscii text,[(ofAscii key,.string (ofAscii value))],separator⟩

def mixed : List Item :=
  [oneString "\x7b\"Status\": \"OK\"\x7d" "Status" "OK" [newline],
    oneString "\x7b\"Status\": \"OK\"\x7d" "Status" "OK" [],
    oneString "\x7b\"Error\": \"blabla\"\x7d" "Error" "blabla" []]

/-- An error that is not on a line of its own, before something that is not JSON. -/
theorem decodeImagePull_detects_mixed :
    decodeImagePull .eof (ofAscii
      "\x7b\"Status\": \"OK\"\x7d\n\x7b\"Status\": \"OK\"\x7d\x7b\"Error\": \"blabla\"\x7d]") =
      .error (.errorf (ofAscii "blabla")) := by
  have hvalid : ∀ i ∈ mixed, i.Valid := by
    have hstring (text key value : String) (sep : Bytes) :
        StringFields (oneString text key value sep).members := by
      intro m hm _
      exact ⟨ofAscii value,by rw [List.mem_singleton.mp hm]⟩
    intro i hi
    simp only [mixed, List.mem_cons, List.not_mem_nil, or_false] at hi
    rcases hi with rfl | rfl | rfl
    · exact ⟨⟨rfl,rfl,rfl⟩,by decide +kernel,hstring _ _ _ _,by simp [Separator, oneString]⟩
    · exact ⟨⟨rfl,rfl,rfl⟩,by decide +kernel,hstring _ _ _ _,by simp [Separator, oneString]⟩
    · exact ⟨⟨rfl,rfl,rfl⟩,by decide +kernel,hstring _ _ _ _,by simp [Separator, oneString]⟩
  exact (decodeImagePull_detects [] mixed (by simp [Separator]) hvalid).1
    (oneString "\x7b\"Error\": \"blabla\"\x7d" "Error" "blabla" []) rfl [0x5d]

end Stout.Docker.ImagePull
