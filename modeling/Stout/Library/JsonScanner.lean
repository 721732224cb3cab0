import Stout.Library.JsonText

/-! # A scanner for streams of JSON values

The scanner goes through the bytes one by one, with what is open on a stack. It emits the
values of a stream as they are complete: an object, an array or a string with its last
byte, a number with the first byte that does not belong to it. What has been emitted does
not depend on what follows.
-/
namespace Stout.Json

inductive Value where
  | null
  | bool (b : Bool)
  | number (text : Bytes)
  | string (s : Bytes)
  | array (elements : List Value)
  | object (members : List (Bytes × Value))

/-! ## Words -/

inductive Lex where
  | plain
  | escape
  | hex (left : ℕ)
deriving DecidableEq, Repr

inductive LexStep where
  | go (l : Lex)
  | close
  | bad

def isHex (c : UInt8) : Bool := (hexDigit c).isSome

/-- The bytes that may be escaped, but for the one that takes hexadecimal digits. -/
def isEscape (c : UInt8) : Bool := [quote,backslash,0x2f,0x62,0x66,0x6e,0x72,0x74].contains c

def Lex.next (c : UInt8) : Lex → LexStep
  | .plain =>
    if c = quote then .close
    else if c = backslash then .go .escape
    else if c < 0x20 then .bad
    else .go .plain
  | .escape =>
    if c = 0x75 then .go (.hex 3)
    else if isEscape c then .go .plain
    else .bad
  | .hex 0 => if isHex c then .go .plain else .bad
  | .hex (n + 1) => if isHex c then .go (.hex n) else .bad

inductive Num where
  | minus
  | zero
  | int
  | point
  | fraction
  | exponent
  | sign
  | power
deriving DecidableEq, Repr

def isDigit (c : UInt8) : Bool := inRange 0x30 0x39 c

def Num.start (c : UInt8) : Option Num :=
  if c = 0x2d then some .minus
  else if c = 0x30 then some .zero
  else if isDigit c then some .int
  else none

def Num.nextExponent (c : UInt8) : Option Num := if c = 0x65 ∨ c = 0x45 then some .exponent else none

def Num.nextPoint (c : UInt8) : Option Num := if c = 0x2e then some .point else nextExponent c

def Num.next (c : UInt8) : Num → Option Num
  | .minus => if c = 0x30 then some .zero else if isDigit c then some .int else none
  | .zero => nextPoint c
  | .int => if isDigit c then some .int else nextPoint c
  | .point => if isDigit c then some .fraction else none
  | .fraction => if isDigit c then some .fraction else nextExponent c
  | .exponent => if c = 0x2b ∨ c = 0x2d then some .sign else if isDigit c then some .power else none
  | .sign => if isDigit c then some .power else none
  | .power => if isDigit c then some .power else none

/-- The number may end here. -/
def Num.complete : Num → Bool
  | .zero | .int | .fraction | .power => true
  | _ => false

/-! ## States -/

/-- What is open around a value: an array after the elements it has so far, or an object
after the members it has so far and the key of the one that has begun. -/
inductive Frame where
  | array (elements : List Value)
  | member (members : List (Bytes × Value)) (key : Bytes)

inductive Phase where
  /-- A value is to come, or the end of an array that has no element yet. -/
  | value
  /-- A key is to come, or the end of an object that has no member yet. -/
  | key (members : List (Bytes × Value))
  | keyText (members : List (Bytes × Value)) (lex : Lex) (raw : Bytes)
  | colon (members : List (Bytes × Value)) (key : Bytes)
  | text (lex : Lex) (raw : Bytes)
  | number (num : Num) (raw : Bytes)
  /-- What is left of `null`, `true` or `false`. -/
  | word (left : Bytes) (v : Value)
  /-- After an element. -/
  | elements (elements : List Value)
  /-- After a member. -/
  | members (members : List (Bytes × Value))

structure State where
  phase : Phase
  outer : List Frame

/-- Between the values of a stream. -/
def State.start : State := ⟨.value,[]⟩

/-- The value that is complete with a byte, and the state after it, if the byte may come
there. -/
abbrev Step := Option Value × Option State

def Step.bad : Step := (none,none)

def Step.go (phase : Phase) (outer : List Frame) : Step := (none,some ⟨phase,outer⟩)

def isSpace (c : UInt8) : Bool := decide (c = 0x20) || decide (c = 0x09) || decide (c = 0x0a) || decide (c = 0x0d)

def close (v : Value) : List Frame → Step
  | [] => (some v,some .start)
  | .array elements :: outer => .go (.elements (elements ++ [v])) outer
  | .member members key :: outer => .go (.members (members ++ [(key,v)])) outer

def closeEmpty : List Frame → Step
  | .array [] :: outer => close (.array []) outer
  | _ => .bad

def valueStep (outer : List Frame) (c : UInt8) : Step :=
  if isSpace c then .go .value outer
  else if c = quote then .go (.text .plain []) outer
  else if c = 0x7b then .go (.key []) outer
  else if c = 0x5b then .go .value (.array [] :: outer)
  else if c = 0x5d then closeEmpty outer
  else if c = 0x6e then .go (.word [0x75,0x6c,0x6c] .null) outer
  else if c = 0x74 then .go (.word [0x72,0x75,0x65] (.bool true)) outer
  else if c = 0x66 then .go (.word [0x61,0x6c,0x73,0x65] (.bool false)) outer
  else
    match Num.start c with
    | some n => .go (.number n [c]) outer
    | none => .bad

def keyStep (members : List (Bytes × Value)) (outer : List Frame) (c : UInt8) : Step :=
  if isSpace c then .go (.key members) outer
  else if c = quote then .go (.keyText members .plain []) outer
  else if c = 0x7d ∧ members.isEmpty then close (.object []) outer
  else .bad

def colonStep (members : List (Bytes × Value)) (key : Bytes) (outer : List Frame) (c : UInt8) : Step :=
  if isSpace c then .go (.colon members key) outer
  else if c = 0x3a then .go .value (.member members key :: outer)
  else .bad

def elementsStep (elements : List Value) (outer : List Frame) (c : UInt8) : Step :=
  if isSpace c then .go (.elements elements) outer
  else if c = 0x2c then .go .value (.array elements :: outer)
  else if c = 0x5d then close (.array elements) outer
  else .bad

def membersStep (members : List (Bytes × Value)) (outer : List Frame) (c : UInt8) : Step :=
  if isSpace c then .go (.members members) outer
  else if c = 0x2c then .go (.key members) outer
  else if c = 0x7d then close (.object members) outer
  else .bad

/-- The byte does not belong to the number any more. -/
def numberEnd (v : Value) (outer : List Frame) (c : UInt8) : Step :=
  match outer with
  | [] => (some v,(valueStep [] c).2)
  | .array elements :: outer => elementsStep (elements ++ [v]) outer c
  | .member members key :: outer => membersStep (members ++ [(key,v)]) outer c

def wordStep (left : Bytes) (v : Value) (outer : List Frame) (c : UInt8) : Step :=
  match left with
  | [] => .bad
  | b :: left => if c = b then (if left = [] then close v outer else .go (.word left v) outer) else .bad

def step (s : State) (c : UInt8) : Step :=
  match s.phase with
  | .value => valueStep s.outer c
  | .key members => keyStep members s.outer c
  | .keyText members lex raw =>
    match lex.next c with
    | .go lex => .go (.keyText members lex (raw ++ [c])) s.outer
    | .close => .go (.colon members (unquote raw)) s.outer
    | .bad => .bad
  | .colon members key => colonStep members key s.outer c
  | .text lex raw =>
    match lex.next c with
    | .go lex => .go (.text lex (raw ++ [c])) s.outer
    | .close => close (.string (unquote raw)) s.outer
    | .bad => .bad
  | .number num raw =>
    match num.next c with
    | some num => .go (.number num (raw ++ [c])) s.outer
    | none => if num.complete then numberEnd (.number raw) s.outer c else .bad
  | .word left v => wordStep left v s.outer c
  | .elements elements => elementsStep elements s.outer c
  | .members members => membersStep members s.outer c

/-! ## Streams -/

/-- The values that are complete after the bytes, and the state then. -/
def feed : State → Bytes → List Value × Option State
  | s, [] => ([],some s)
  | s, c :: rest =>
    match step s c with
    | (v,none) => (v.toList,none)
    | (v,some t) => (v.toList ++ (feed t rest).1,(feed t rest).2)

/-- What the end of the stream completes, unless something is open. -/
def State.finish (s : State) : Option (List Value) :=
  match s.phase, s.outer with
  | .value, [] => some []
  | .number num raw, [] => if num.complete then some [.number raw] else none
  | _, _ => none

/-- The values of a stream, and whether it ends well after them. -/
def values (b : Bytes) : List Value × Bool :=
  match feed .start b with
  | (vs,none) => (vs,false)
  | (vs,some s) =>
    match s.finish with
    | none => (vs,false)
    | some more => (vs ++ more,true)

/-- The document of a single value. -/
def decode (b : Bytes) : Option Value :=
  match values b with
  | ([v],true) => some v
  | _ => none

theorem finish_some {s : State} {more : List Value} (h : s.finish = some more) :
    (s = .start ∧ more = []) ∨ ∃ num raw, s = ⟨.number num raw,[]⟩ ∧ more = [.number raw] := by
  obtain ⟨phase,outer⟩ := s
  unfold State.finish at h
  dsimp only at h
  split at h
  · cases h
    exact Or.inl ⟨rfl,rfl⟩
  · split at h
    · cases h
      exact Or.inr ⟨_,_,rfl,rfl⟩
    · cases h
  · cases h

theorem feed_cons {s t : State} {c : UInt8} {v : Option Value} (h : step s c = (v,some t)) (b : Bytes) :
    feed s (c :: b) = (v.toList ++ (feed t b).1,(feed t b).2) := by
  rw [feed, h]

theorem feed_cons_bad {s : State} {c : UInt8} {v : Option Value} (h : step s c = (v,none)) (b : Bytes) :
    feed s (c :: b) = (v.toList,none) := by
  rw [feed, h]

theorem of_feed_cons {s u : State} {c : UInt8} {b : Bytes} {vs : List Value} (h : feed s (c :: b) = (vs,some u)) :
    ∃ w t ws, step s c = (w,some t) ∧ feed t b = (ws,some u) ∧ vs = w.toList ++ ws := by
  rcases hs : step s c with ⟨w,_ | t⟩
  · rw [feed_cons_bad hs] at h
    cases (Prod.mk.inj h).2
  · rw [feed_cons hs] at h
    obtain ⟨hvs,hu⟩ := Prod.mk.inj h
    exact ⟨w,t,(feed t b).1,rfl,Prod.ext rfl hu,hvs.symm⟩

theorem feed_append {s t : State} {a : Bytes} {vs : List Value} (h : feed s a = (vs,some t)) (b : Bytes) :
    feed s (a ++ b) = (vs ++ (feed t b).1,(feed t b).2) := by
  induction a generalizing s vs with
  | nil =>
    cases h
    rfl
  | cons c a ih =>
    obtain ⟨v,u,ws,hs,hu,rfl⟩ := of_feed_cons h
    rw [List.cons_append, feed_cons hs, ih hu, List.append_assoc]

theorem feed_append_bad {s : State} {a : Bytes} {vs : List Value} (h : feed s a = (vs,none)) (b : Bytes) :
    feed s (a ++ b) = (vs,none) := by
  induction a generalizing s vs with
  | nil => cases h
  | cons c a ih =>
    rcases hs : step s c with ⟨v,_ | u⟩
    · rw [feed_cons_bad hs] at h
      rw [List.cons_append, feed_cons_bad hs, h]
    · rcases hu : feed u a with ⟨ws,r⟩
      rw [feed_cons hs, hu] at h
      cases h
      rw [List.cons_append, feed_cons hs, ih hu]

theorem values_append {a : Bytes} {vs : List Value} (h : feed .start a = (vs,some .start)) (b : Bytes) :
    values (a ++ b) = (vs ++ (values b).1,(values b).2) := by
  rw [values, values, feed_append h]
  rcases feed .start b with ⟨ws,_ | s⟩
  · rfl
  · dsimp only
    cases s.finish with
    | none => rfl
    | some more => exact congrArg (·,true) (List.append_assoc ..)

theorem decode_of_feed {b : Bytes} {v : Value} (h : feed .start b = ([v],some .start)) : decode b = some v := by
  rw [decode, values, h]
  rfl

/-- The rest of a document with the value `v`. A number may be left to be completed by the
end. -/
def Ends (s : State) (b : Bytes) (v : Value) : Prop :=
  feed s b = ([v],some .start) ∨
    ∃ num raw, num.complete = true ∧ v = .number raw ∧ feed s b = ([],some ⟨.number num raw,[]⟩)

theorem values_of_decode {b : Bytes} {v : Value} (h : decode b = some v) : values b = ([v],true) := by
  unfold decode at h
  split at h
  · rename_i hvalues
    cases h
    exact hvalues
  · cases h

theorem ends_of_decode {b : Bytes} {v : Value} (h : decode b = some v) : Ends .start b v := by
  have hvalues := values_of_decode h
  unfold values at hvalues
  rcases hfeed : feed .start b with ⟨vs,_ | s⟩
  · rw [hfeed] at hvalues
    cases hvalues
  · rw [hfeed] at hvalues
    dsimp only at hvalues
    cases hfinish : s.finish with
    | none =>
      rw [hfinish] at hvalues
      cases hvalues
    | some more =>
      rw [hfinish] at hvalues
      have hvs : vs ++ more = [v] := (Prod.mk.inj hvalues).1
      rcases finish_some hfinish with ⟨rfl,rfl⟩ | ⟨num,raw,rfl,rfl⟩
      · rw [List.append_nil] at hvs
        exact Or.inl (by rw [hfeed, hvs])
      · obtain ⟨rfl,hv⟩ : vs = [] ∧ Value.number raw = v := by
          cases vs with
          | nil => exact ⟨rfl,(List.cons.inj hvs).1⟩
          | cons w vs => simp at hvs
        have hcomplete : num.complete = true := by
          by_contra hn
          simp [State.finish, hn] at hfinish
        exact Or.inr ⟨num,raw,hcomplete,hv.symm,hfeed⟩

theorem decode_of_ends {b : Bytes} {v : Value} (h : Ends .start b v) : decode b = some v := by
  rcases h with hfeed | ⟨num,raw,hcomplete,rfl,hfeed⟩
  · exact decode_of_feed hfeed
  · rw [decode, values, hfeed]
    simp [State.finish, hcomplete]

/-! ## Literals -/

/-- Where the scanner is after bytes of a literal. -/
def Lex.run : Lex → Bytes → Option Lex
  | lex, [] => some lex
  | lex, c :: rest =>
    match lex.next c with
    | .go lex => lex.run rest
    | _ => none

theorem Lex.run_cons {lex l : Lex} {c : UInt8} (h : lex.next c = .go l) (s : Bytes) : lex.run (c :: s) = l.run s := by
  rw [Lex.run, h]

theorem Lex.of_run_cons {lex m : Lex} {c : UInt8} {s : Bytes} (h : lex.run (c :: s) = some m) :
    ∃ l, lex.next c = .go l ∧ l.run s = some m := by
  rw [Lex.run] at h
  split at h
  · exact ⟨_,by assumption,h⟩
  · cases h

/-- The phases in which a literal is read. -/
inductive Literal : (Lex → Bytes → Phase) → Prop where
  | text : Literal .text
  | key (members : List (Bytes × Value)) : Literal (.keyText members)

theorem step_literal {p : Lex → Bytes → Phase} (hp : Literal p) {lex m : Lex} {c : UInt8} (h : lex.next c = .go m) (raw : Bytes)
    (outer : List Frame) : step ⟨p lex raw,outer⟩ c = (none,some ⟨p m (raw ++ [c]),outer⟩) := by
  cases hp <;> simp only [step, h, Step.go]

theorem feed_literal {p : Lex → Bytes → Phase} (hp : Literal p) {lex m : Lex} {s : Bytes} (h : lex.run s = some m) (raw : Bytes)
    (outer : List Frame) : feed ⟨p lex raw,outer⟩ s = ([],some ⟨p m (raw ++ s),outer⟩) := by
  induction s generalizing lex raw with
  | nil =>
    cases h
    rw [List.append_nil, feed]
  | cons c s ih =>
    obtain ⟨l,hl,hs⟩ := Lex.of_run_cons h
    rw [feed_cons (step_literal hp hl raw outer), ih hs, List.append_assoc]
    rfl

/-! ## Objects -/

theorem go_eq_start {phase : Phase} {outer : List Frame} :
    Step.go phase outer = (none,some .start) ↔ phase = .value ∧ outer = [] := by
  simp [Step.go, State.start]

theorem bad_ne_start : Step.bad ≠ (none,some .start) := by simp [Step.bad]

theorem close_ne_start (v : Value) (outer : List Frame) : close v outer ≠ (none,some .start) := by
  match outer with
  | [] => simp [close]
  | .array _ :: _ => simp [close, go_eq_start]
  | .member _ _ :: _ => simp [close, go_eq_start]

theorem elementsStep_ne_start (vs : List Value) (outer : List Frame) (c : UInt8) :
    elementsStep vs outer c ≠ (none,some .start) := by
  unfold elementsStep
  split_ifs <;> simp [go_eq_start, close_ne_start, bad_ne_start]

theorem membersStep_ne_start (ms : List (Bytes × Value)) (outer : List Frame) (c : UInt8) :
    membersStep ms outer c ≠ (none,some .start) := by
  unfold membersStep
  split_ifs <;> simp [go_eq_start, close_ne_start, bad_ne_start]

theorem step_start {s : State} {c : UInt8} (h : step s c = (none,some .start)) : s = .start ∧ isSpace c = true := by
  obtain ⟨phase,outer⟩ := s
  cases phase with
  | value =>
    simp only [step, valueStep] at h
    split_ifs at h with hspace
    · exact ⟨by rw [(go_eq_start.mp h).2]; rfl,hspace⟩
    · simp [go_eq_start] at h
    · simp [go_eq_start] at h
    · simp [go_eq_start] at h
    · unfold closeEmpty at h
      split at h
      · exact absurd h (close_ne_start _ _)
      · exact absurd h bad_ne_start
    · simp [go_eq_start] at h
    · simp [go_eq_start] at h
    · simp [go_eq_start] at h
    · split at h
      · simp [go_eq_start] at h
      · exact absurd h bad_ne_start
  | key ms =>
    simp only [step, keyStep] at h
    split_ifs at h <;> simp [go_eq_start, close_ne_start, bad_ne_start] at h
  | keyText ms lex raw =>
    simp only [step] at h
    split at h <;> simp [go_eq_start, bad_ne_start] at h
  | colon ms key =>
    simp only [step, colonStep] at h
    split_ifs at h <;> simp [go_eq_start, bad_ne_start] at h
  | text lex raw =>
    simp only [step] at h
    split at h <;> simp [go_eq_start, close_ne_start, bad_ne_start] at h
  | number num raw =>
    simp only [step] at h
    split at h
    · simp [go_eq_start] at h
    · split_ifs at h
      · unfold numberEnd at h
        split at h
        · simp at h
        · exact absurd h (elementsStep_ne_start _ _ _)
        · exact absurd h (membersStep_ne_start _ _ _)
      · exact absurd h bad_ne_start
  | word left v =>
    simp only [step, wordStep] at h
    split at h
    · exact absurd h bad_ne_start
    · split_ifs at h <;> simp [go_eq_start, close_ne_start, bad_ne_start] at h
  | elements vs => exact absurd h (elementsStep_ne_start _ _ _)
  | members ms => exact absurd h (membersStep_ne_start _ _ _)

theorem feed_start {s : State} {b : Bytes} (h : feed s b = ([],some .start)) : s = .start ∧ ∀ c ∈ b, isSpace c = true := by
  induction b generalizing s with
  | nil =>
    cases h
    exact ⟨rfl,by simp⟩
  | cons c b ih =>
    obtain ⟨v,t,vs,hs,ht,hvs⟩ := of_feed_cons h
    cases v with
    | some v => cases hvs
    | none =>
      obtain rfl : vs = [] := hvs.symm
      obtain ⟨rfl,hb⟩ := ih ht
      obtain ⟨hstart,hc⟩ := step_start hs
      exact ⟨hstart,by simpa [hc] using hb⟩

theorem feed_number {num : Num} {raw b : Bytes} {v : Value} {vs : List Value} {r : Option State}
    (h : feed ⟨.number num raw,[]⟩ b = (v :: vs,r)) : ∃ text, v = .number text := by
  induction b generalizing num raw with
  | nil => cases h
  | cons c b ih =>
    cases hn : num.next c with
    | some n =>
      have hs : step ⟨.number num raw,[]⟩ c = (none,some ⟨.number n (raw ++ [c]),[]⟩) := by simp [step, hn, Step.go]
      rw [feed_cons hs] at h
      exact ih h
    | none =>
      cases hc : num.complete with
      | false =>
        have hs : step ⟨.number num raw,[]⟩ c = (none,none) := by simp [step, hn, hc, Step.bad]
        rw [feed_cons_bad hs] at h
        cases h
      | true =>
        have hs : step ⟨.number num raw,[]⟩ c = (some (.number raw),(valueStep [] c).2) := by simp [step, hn, hc, numberEnd]
        rcases hv : (valueStep [] c).2 with _ | t
        · rw [hv] at hs
          rw [feed_cons_bad hs] at h
          cases h
          exact ⟨raw,rfl⟩
        · rw [hv] at hs
          rw [feed_cons hs] at h
          cases h
          exact ⟨raw,rfl⟩

/-- The bytes are an object, from the opening brace to the closing one. -/
structure IsObject (t : Bytes) (ms : List (Bytes × Value)) : Prop where
  feed : feed .start t = ([.object ms],some .start)
  first : t.head? = some 0x7b
  last : t.getLast? = some 0x7d

/-- Where an object is cut off, the stream does not end well. -/
theorem IsObject.cut {p q : Bytes} {ms : List (Bytes × Value)} (h : IsObject (p ++ q) ms) (hp : p ≠ []) (hq : q ≠ []) :
    values p = ([],false) := by
  have hfirst : p.head? = some 0x7b := by
    rw [← h.first, List.head?_append_of_ne_nil _ hp]
  have hlast : q.getLast? = some 0x7d := by
    rw [← h.last, List.getLast?_append_of_ne_nil _ hq]
  have hspace : ¬isSpace 0x7d = true := by decide
  rcases hfeed : Json.feed .start p with ⟨vs,_ | s⟩
  · have hbad := h.feed
    rw [feed_append_bad hfeed] at hbad
    cases hbad
  · have hrest := h.feed
    rw [feed_append hfeed] at hrest
    obtain ⟨hvs,hend⟩ := Prod.mk.inj hrest
    cases vs with
    | cons v vs =>
      -- the closing brace would come after the object
      have hnil : (Json.feed s q).1 = [] := by
        obtain ⟨-,hvs⟩ := List.cons.inj hvs
        exact (List.append_eq_nil_iff.mp hvs).2
      obtain ⟨-,hall⟩ := feed_start (Prod.ext hnil hend)
      exact absurd (hall _ (List.mem_of_getLast? hlast)) hspace
    | nil =>
      rw [values, hfeed]
      dsimp only
      cases hfinish : s.finish with
      | none => rfl
      | some more =>
        rcases finish_some hfinish with ⟨rfl,-⟩ | ⟨num,raw,rfl,-⟩
        · -- nothing would have begun
          obtain ⟨-,hall⟩ := feed_start hfeed
          exact absurd (hall _ (List.mem_of_head? hfirst)) (by decide)
        · obtain ⟨text,ht⟩ := feed_number (Prod.ext hvs rfl)
          cases ht

end Stout.Json
