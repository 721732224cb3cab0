import Stout.Library.JsonCompact
import Stout.Library.JsonTight

/-! # What `Inspect` returns

`portoData.MarshalJSON` and `getPListAndDlist` of `porto/utils.go` and `Box.Inspect` of
`porto/box.go`. The properties of a container are written as a JSON object without escapes,
which is right exactly for the names and texts that need none.
-/
namespace Stout.Porto.Inspect
open Json

structure Response where
  value : Bytes
  error : ℤ
  errorMsg : Bytes
deriving DecidableEq, Repr

/-- `portoData`, without nil. The keys of a map come in the order of `sort.Strings`. -/
abbrev PortoData := Std.ExtTreeMap Bytes Response

/-- The zero value for a name that is absent. -/
def PortoData.get (d : PortoData) (name : Bytes) : Response := d.getD name ⟨[],0,[]⟩

def Response.text (v : Response) : Bytes := if v.error = 0 then v.value else v.errorMsg

/-- The names that are listed, with the cached ones. -/
def listed (cached : List Bytes) (d : PortoData) : List Bytes := if cached.isEmpty then d.keys else cached

def writeMembers (d : PortoData) : ℕ → List Bytes → Bytes
  | _, [] => []
  | i, name :: rest =>
    (if i > 0 then [0x2c] else []) ++ writeMember name (d.get name).text ++ writeMembers d (i + 1) rest

def marshalJSON (cached : List Bytes) : Option PortoData → Bytes
  | none => ofAscii "null"
  | some d => [0x7b] ++ writeMembers d 0 (listed cached d) ++ [0x7d]

/-! ## The box -/

def sortStrings (names : List Bytes) : List Bytes := names.mergeSort fun a b => (compare a b).isLE

/-- `getPListAndDlist`: the list, and the cached one afterwards. -/
def getPListAndDlist (cached : List Bytes) (plist dlist : Except String (List Bytes)) : List Bytes × List Bytes :=
  if cached.isEmpty then
    match plist with
    | .error _ => (cached,cached)
    | .ok properties =>
      match dlist with
      | .error _ => (properties,cached)
      | .ok data =>
        let list := sortStrings (properties ++ data.filter fun name => name ≠ ofAscii "stdout" ∧ name ≠ ofAscii "stderr")
        (list,list)
  else (cached,cached)

/-- How the calls to Porto end, and the cached names as `MarshalJSON` finds them. -/
structure Outside where
  connect : Except String Unit
  plist : Except String (List Bytes)
  dlist : Except String (List Bytes)
  get : String → List Bytes → Except String (Option PortoData)
  cached : List Bytes

/-- What `json.Marshal` makes of a document that a `MarshalJSON` returns: one with the same
value. -/
structure Encoder where
  compact : Bytes → Bytes
  same : ∀ b v, decode b = some v → decode (compact b) = some v

/-- That of `encoding/json`. -/
def encodingJson : Encoder := ⟨compact,fun _ _ => decode_compact⟩

inductive Err where
  | connect (message : String)
  | get (message : String)
  /-- The document is not JSON. -/
  | marshal
deriving DecidableEq, Repr

def jsonMarshal (enc : Encoder) (b : Bytes) : Except Err Bytes :=
  if (decode b).isSome then .ok (enc.compact b) else .error .marshal

/-- `Box.Inspect`, with the containers and their workers in the order they are gone
through. -/
def inspect (enc : Encoder) (o : Outside) (cached : List Bytes) (containers : List (String × String)) (workeruuid : String) :
    Except Err Bytes :=
  match containers.find? fun c => c.2 = workeruuid with
  | none => .ok []
  | some (cid,_) =>
    match o.connect with
    | .error e => .error (.connect e)
    | .ok () =>
      match o.get cid (getPListAndDlist cached o.plist o.dlist).1 with
      | .error e => .error (.get e)
      | .ok data => jsonMarshal enc (marshalJSON o.cached data)

/-! ## Faithful documents -/

/-- One member for each name, with the value, or with the message if there is an error. -/
def members (d : PortoData) (names : List Bytes) : List (Bytes × Value) :=
  names.map fun name => (name,.string (d.get name).text)

/-- The members of the listed names; nil has no properties. -/
def reported (cached : List Bytes) (d : Option PortoData) : List (Bytes × Value) :=
  members (d.getD ∅) (listed cached (d.getD ∅))

/-- The document says what the properties are. -/
def Faithful (cached : List Bytes) (d : Option PortoData) : Prop :=
  decode (marshalJSON cached d) = some (.object (reported cached d))

/-- There is a map, and no listed name and no text of one needs an escape. -/
def Printable (cached : List Bytes) : Option PortoData → Prop
  | none => False
  | some d => ∀ name ∈ listed cached d, Clean name ∧ Clean (d.get name).text

section Faithful
variable {d : PortoData} {names : List Bytes}

theorem members_cons (d : PortoData) (name : Bytes) (names : List Bytes) :
    members d (name :: names) = (name,.string (d.get name).text) :: members d names := rfl

theorem feed_writeMembers (h : ∀ name ∈ names, Clean name ∧ Clean (d.get name).text) (ms : List (Bytes × Value)) (i : ℕ) :
    feed ⟨.members ms,[]⟩ (writeMembers d (i + 1) names) = ([],some ⟨.members (ms ++ members d names),[]⟩) := by
  induction names generalizing ms i with
  | nil =>
    rw [writeMembers, feed]
    simp [members]
  | cons name names ih =>
    obtain ⟨hname,htext⟩ := h name List.mem_cons_self
    have hcomma : feed ⟨.members ms,[]⟩ [0x2c] = ([],some ⟨.key ms,[]⟩) := rfl
    have hmember := feed_append hcomma (writeMember name (d.get name).text)
    rw [feed_writeMember hname htext] at hmember
    have hrest := feed_append hmember (writeMembers d (i + 1 + 1) names)
    rw [ih (fun x hx => h x (List.mem_cons_of_mem name hx))] at hrest
    rw [writeMembers, if_pos (Nat.succ_pos i), members_cons, List.append_cons]
    exact hrest

theorem feed_marshal (h : ∀ name ∈ names, Clean name ∧ Clean (d.get name).text) :
    feed .start ([0x7b] ++ writeMembers d 0 names ++ [0x7d]) = ([.object (members d names)],some .start) := by
  have hopen : feed .start [0x7b] = ([],some ⟨.key [],[]⟩) := rfl
  cases names with
  | nil => rfl
  | cons name names =>
    obtain ⟨hname,htext⟩ := h name List.mem_cons_self
    have hmember := feed_append hopen (writeMember name (d.get name).text)
    rw [feed_writeMember hname htext] at hmember
    have hrest := feed_append hmember (writeMembers d 1 names)
    rw [feed_writeMembers (fun x hx => h x (List.mem_cons_of_mem name hx))] at hrest
    have hclose := feed_append hrest [0x7d]
    rw [List.append_assoc [0x7b]] at hclose
    exact hclose

theorem ascii_writeMembers (i : ℕ) : ascii (writeMembers d (i + 1) names) = memberCosts (members d names) := by
  induction names generalizing i with
  | nil => simp [writeMembers, members, memberCosts]
  | cons name names ih =>
    have hcomma : ascii [0x2c] = 1 := by decide
    have hmember := ascii_writeMember name (d.get name).text
    rw [writeMembers, if_pos (Nat.succ_pos i), ascii_append, ascii_append, hcomma, ih, members_cons, memberCosts, ← hmember]
    omega

theorem ascii_marshal : ascii ([0x7b] ++ writeMembers d 0 names ++ [0x7d]) = (Value.object (members d names)).cost := by
  have hbraces : ascii [0x7b] = 1 ∧ ascii [0x7d] = 1 := by decide
  cases names with
  | nil => simp [writeMembers, members, Value.cost, memberCosts]
  | cons name names =>
    have hmember := ascii_writeMember name (d.get name).text
    rw [writeMembers, ascii_append, ascii_append, ascii_append, ascii_append, ascii_writeMembers, hbraces.1, hbraces.2,
      members_cons, Value.cost, memberCosts, ← hmember]
    simp only [gt_iff_lt, Nat.lt_irrefl, if_false, ascii_nil, List.isEmpty_cons, Bool.false_eq_true]
    omega

theorem clean_of_tidy (h : TidyMembers (members d names)) : ∀ name ∈ names, Clean name ∧ Clean (d.get name).text := by
  induction names with
  | nil => simp
  | cons name names ih =>
    obtain ⟨⟨hname,htext⟩,hrest⟩ := h
    intro x hx
    rcases List.mem_cons.mp hx with rfl | hx
    · exact ⟨hname,htext⟩
    · exact ih hrest x hx

end Faithful

theorem faithful_iff (cached : List Bytes) (d : Option PortoData) : Faithful cached d ↔ Printable cached d := by
  cases d with
  | none =>
    refine iff_of_false (fun h => ?_) id
    have hnull : decode (marshalJSON cached none) = some .null := rfl
    rw [Faithful, hnull] at h
    cases h
  | some d =>
    constructor
    · intro h
      obtain ⟨-,htidy⟩ := decode_tight h nofun
      exact clean_of_tidy (htidy ascii_marshal.symm)
    · intro h
      exact decode_of_feed (feed_marshal h)

theorem jsonMarshal_iff (enc : Encoder) (b : Bytes) (v : Value) :
    (∃ doc, jsonMarshal enc b = .ok doc ∧ decode doc = some v) ↔ decode b = some v := by
  unfold jsonMarshal
  cases hb : decode b with
  | none => simp
  | some w =>
    have hsame := enc.same b w hb
    simp [hsame]

/-- The document of `MarshalJSON` is an object with the listed names and with their values
or messages, exactly if none of these needs an escape; and so for what `Inspect` returns,
whenever Porto answers. -/
theorem marshalJSON_faithful_iff (cached : List Bytes) (d : Option PortoData) :
    (Faithful cached d ↔ Printable cached d) ∧
    ∀ (enc : Encoder) (o : Outside) (before : List Bytes) (containers : List (String × String)) (uuid cid : String),
      containers.find? (fun c => c.2 = uuid) = some (cid,uuid) → o.connect = .ok () →
      o.get cid (getPListAndDlist before o.plist o.dlist).1 = .ok d → o.cached = cached →
      ((∃ doc, inspect enc o before containers uuid = .ok doc ∧
        decode doc = some (.object (reported cached d))) ↔ Printable cached d) := by
  refine ⟨faithful_iff cached d,fun enc o before containers uuid cid hfind hconnect hget hcached => ?_⟩
  have hinspect : inspect enc o before containers uuid = jsonMarshal enc (marshalJSON cached d) := by
    rw [inspect, hfind]
    dsimp only
    rw [hconnect]
    dsimp only
    rw [hget, hcached]
  rw [hinspect, jsonMarshal_iff]
  exact faithful_iff cached d

def oneProperty (name value : String) : PortoData := (∅ : PortoData).insert (ofAscii name) ⟨ofAscii value,0,[]⟩

/-- A porto that answers every request with these properties. -/
def answering (d : PortoData) : Outside := ⟨.ok (),.ok [],.ok [],fun _ _ => .ok (some d),[]⟩

/-- A quote in a value ends the document, or ends the value and begins another member. -/
theorem quote_breaks :
    decode (marshalJSON [] (some (oneProperty "command" "echo \"x\""))) = none ∧
    decode (marshalJSON [] (some (oneProperty "command" "x\",\"state\":\"dead"))) =
      some (.object [(ofAscii "command",.string (ofAscii "x")),(ofAscii "state",.string (ofAscii "dead"))]) ∧
    ¬Faithful [] (some (oneProperty "command" "echo \"x\"")) ∧
    inspect encodingJson (answering (oneProperty "command" "echo \"x\"")) [] [("c","w")] "w" = .error .marshal := by
  have hnone : decode (marshalJSON [] (some (oneProperty "command" "echo \"x\""))) = none := rfl
  refine ⟨hnone,rfl,fun h => ?_,rfl⟩
  rw [Faithful, hnone] at h
  cases h

example : inspect encodingJson (answering (oneProperty "command" "a < b")) [] [("c","w")] "w" =
    .ok (ofAscii "\x7b\"command\":\"a \\u003c b\"\x7d") := rfl

end Stout.Porto.Inspect
