import Stout.Library.JsonScanner

/-! # Documents without escapes

`Value.cost` is the number of ASCII bytes of a value that is written without whitespace and
without escapes. No document has fewer, and in one that has no more every string stands for
itself.
-/
namespace Stout.Json

mutual

def Value.cost : Value → ℕ
  | .null => 4
  | .bool true => 4
  | .bool false => 5
  | .number text => ascii text
  | .string s => ascii s + 2
  | .array vs => costs vs + if vs.isEmpty then 2 else 1
  | .object ms => memberCosts ms + if ms.isEmpty then 2 else 1

/-- Each element with the comma or the bracket after it. -/
def costs : List Value → ℕ
  | [] => 0
  | v :: vs => v.cost + 1 + costs vs

def memberCost : Bytes × Value → ℕ
  | (key,v) => ascii key + v.cost + 4

/-- Each member with the comma or the brace after it. -/
def memberCosts : List (Bytes × Value) → ℕ
  | [] => 0
  | m :: ms => memberCost m + memberCosts ms

end

mutual

/-- Every string stands for itself. -/
def Value.Tidy : Value → Prop
  | .string s => Clean s
  | .array vs => TidyElements vs
  | .object ms => TidyMembers ms
  | _ => True

def TidyElements : List Value → Prop
  | [] => True
  | v :: vs => v.Tidy ∧ TidyElements vs

def TidyMember : Bytes × Value → Prop
  | (key,v) => Clean key ∧ v.Tidy

def TidyMembers : List (Bytes × Value) → Prop
  | [] => True
  | m :: ms => TidyMember m ∧ TidyMembers ms

end

theorem costs_append (vs ws : List Value) : costs (vs ++ ws) = costs vs + costs ws := by
  induction vs with
  | nil => simp [costs]
  | cons v vs ih =>
    rw [List.cons_append, costs, costs, ih]
    omega

theorem memberCosts_append (ms ns : List (Bytes × Value)) : memberCosts (ms ++ ns) = memberCosts ms + memberCosts ns := by
  induction ms with
  | nil => simp [memberCosts]
  | cons m ms ih =>
    rw [List.cons_append, memberCosts, memberCosts, ih]
    omega

theorem tidyElements_append {vs ws : List Value} (h : TidyElements vs) (k : TidyElements ws) : TidyElements (vs ++ ws) := by
  induction vs with
  | nil => exact k
  | cons v vs ih =>
    rw [TidyElements] at h
    exact ⟨h.1,ih h.2⟩

theorem tidyMembers_append {ms ns : List (Bytes × Value)} (h : TidyMembers ms) (k : TidyMembers ns) :
    TidyMembers (ms ++ ns) := by
  induction ms with
  | nil => exact k
  | cons m ms ih =>
    rw [TidyMembers] at h
    exact ⟨h.1,ih h.2⟩

/-! ## Along the scan -/

def Frame.cost : Frame → ℕ
  | .array vs => costs vs + 1
  | .member ms key => memberCosts ms + ascii key + 4

def Frame.Tidy : Frame → Prop
  | .array vs => TidyElements vs
  | .member ms key => TidyMembers ms ∧ Clean key

def outerCost (outer : List Frame) : ℕ := (outer.map Frame.cost).sum

def TidyOuter (outer : List Frame) : Prop := ∀ f ∈ outer, f.Tidy

def Phase.cost : Phase → ℕ
  | .value => 0
  | .key ms => memberCosts ms + 1
  | .keyText ms _ raw => memberCosts ms + ascii raw + 2
  | .colon ms k => memberCosts ms + ascii k + 3
  | .text _ raw => ascii raw + 1
  | .number _ raw => ascii raw
  | .word left v => v.cost - ascii left
  | .elements vs => costs vs + if vs.isEmpty then 1 else 0
  | .members ms => memberCosts ms + if ms.isEmpty then 1 else 0

def RawText (lex : Lex) (raw : Bytes) : Prop :=
  (∀ b ∈ raw, 0x20 ≤ b) ∧ (backslash ∉ raw → quote ∉ raw ∧ lex = .plain)

def Phase.Tidy : Phase → Prop
  | .value => True
  | .key ms => TidyMembers ms
  | .keyText ms lex raw => TidyMembers ms ∧ RawText lex raw
  | .colon ms k => TidyMembers ms ∧ Clean k
  | .text lex raw => RawText lex raw
  | .number _ _ => True
  | .word _ v => v.Tidy
  | .elements vs => TidyElements vs
  | .members ms => TidyMembers ms

def State.cost (s : State) : ℕ := s.phase.cost + outerCost s.outer

def State.Tidy (s : State) : Prop := s.phase.Tidy ∧ TidyOuter s.outer

def emittedCost (w : Option Value) : ℕ := (w.map Value.cost).getD 0

/-- A step that has `n` ASCII bytes to spend spends no more; and if it needs them all, what
was tidy is so afterwards. -/
def Step.Within (n : ℕ) (P : Prop) (r : Step) : Prop :=
  ∀ w t, r = (w,some t) → emittedCost w + t.cost ≤ n ∧
    (emittedCost w + t.cost = n → P → (∀ v ∈ w, v.Tidy) ∧ t.Tidy)

theorem Step.Within.mono {n m : ℕ} {P Q : Prop} {r : Step} (h : r.Within n P) (hnm : n ≤ m) (hQ : n = m → Q → P) :
    r.Within m Q := by
  intro w t hr
  obtain ⟨hle,htidy⟩ := h w t hr
  refine ⟨hle.trans hnm,fun he hq => ?_⟩
  have hn : n = m := Nat.le_antisymm hnm (he ▸ hle)
  exact htidy (he.trans hn.symm) (hQ hn hq)

theorem bad_within (n : ℕ) (P : Prop) : Step.bad.Within n P := by
  intro w t h
  cases h

theorem go_within (phase : Phase) (outer : List Frame) :
    (Step.go phase outer).Within (phase.cost + outerCost outer) (phase.Tidy ∧ TidyOuter outer) := by
  intro w t h
  cases h
  exact ⟨by simp [emittedCost, State.cost],fun _ hp => ⟨by simp,hp⟩⟩

theorem outerCost_cons (f : Frame) (outer : List Frame) : outerCost (f :: outer) = f.cost + outerCost outer := by
  simp [outerCost]

theorem tidyOuter_cons {f : Frame} {outer : List Frame} : TidyOuter (f :: outer) ↔ f.Tidy ∧ TidyOuter outer := by
  simp [TidyOuter]

theorem close_within (v : Value) (outer : List Frame) :
    (close v outer).Within (v.cost + outerCost outer) (v.Tidy ∧ TidyOuter outer) := by
  rcases outer with _ | ⟨vs | ⟨ms,key⟩,outer⟩
  · intro w t h
    cases h
    refine ⟨by simp [emittedCost, State.cost, State.start, Phase.cost],fun _ hv => ⟨by simpa using hv.1,?_⟩⟩
    exact ⟨trivial,hv.2⟩
  · refine (go_within _ _).mono ?_ fun _ htidy => ?_
    · simp [Phase.cost, Frame.cost, outerCost_cons, costs_append, costs]
      omega
    · obtain ⟨hf,ho⟩ := tidyOuter_cons.mp htidy.2
      exact ⟨tidyElements_append hf ⟨htidy.1,trivial⟩,ho⟩
  · refine (go_within _ _).mono ?_ fun _ htidy => ?_
    · simp [Phase.cost, Frame.cost, outerCost_cons, memberCosts_append, memberCosts, memberCost]
      omega
    · obtain ⟨⟨hms,hkey⟩,ho⟩ := tidyOuter_cons.mp htidy.2
      exact ⟨tidyMembers_append hms ⟨⟨hkey,htidy.1⟩,trivial⟩,ho⟩

def asciiByte (c : UInt8) : ℕ := if c < 0x80 then 1 else 0

theorem elementsStep_within (vs : List Value) (outer : List Frame) (c : UInt8) :
    (elementsStep vs outer c).Within ((Phase.elements vs).cost + outerCost outer + asciiByte c)
      ((Phase.elements vs).Tidy ∧ TidyOuter outer) := by
  unfold elementsStep
  split_ifs with hspace hcomma hclose
  · exact (go_within _ _).mono (Nat.le_add_right _ _) fun _ h => h
  · have hc : asciiByte c = 1 := by rw [hcomma]; rfl
    refine (go_within _ _).mono ?_ fun _ ⟨hv,ho⟩ => ⟨trivial,tidyOuter_cons.mpr ⟨hv,ho⟩⟩
    rw [hc, outerCost_cons]
    simp only [Phase.cost, Frame.cost]
    omega
  · have hc : asciiByte c = 1 := by rw [hclose]; rfl
    refine (close_within _ _).mono ?_ fun _ ⟨hv,ho⟩ => ⟨hv,ho⟩
    rw [hc, Value.cost, Phase.cost]
    split <;> omega
  · exact bad_within _ _

theorem membersStep_within (ms : List (Bytes × Value)) (outer : List Frame) (c : UInt8) :
    (membersStep ms outer c).Within ((Phase.members ms).cost + outerCost outer + asciiByte c)
      ((Phase.members ms).Tidy ∧ TidyOuter outer) := by
  unfold membersStep
  split_ifs with hspace hcomma hclose
  · exact (go_within _ _).mono (Nat.le_add_right _ _) fun _ h => h
  · have hc : asciiByte c = 1 := by rw [hcomma]; rfl
    refine (go_within _ _).mono ?_ fun _ h => h
    rw [hc]
    simp only [Phase.cost]
    omega
  · have hc : asciiByte c = 1 := by rw [hclose]; rfl
    refine (close_within _ _).mono ?_ fun _ h => h
    rw [hc, Value.cost, Phase.cost]
    split <;> omega
  · exact bad_within _ _

theorem keyStep_within (ms : List (Bytes × Value)) (outer : List Frame) (c : UInt8) :
    (keyStep ms outer c).Within ((Phase.key ms).cost + outerCost outer + asciiByte c)
      ((Phase.key ms).Tidy ∧ TidyOuter outer) := by
  unfold keyStep
  split_ifs with hspace hquote hclose
  · exact (go_within _ _).mono (Nat.le_add_right _ _) fun _ h => h
  · have hc : asciiByte c = 1 := by rw [hquote]; rfl
    refine (go_within _ _).mono ?_ fun _ ⟨hms,ho⟩ => ⟨⟨hms,by simp [RawText]⟩,ho⟩
    rw [hc]
    simp only [Phase.cost, ascii_nil]
    omega
  · have hc : asciiByte c = 1 := by rw [hclose.1]; rfl
    obtain rfl := List.isEmpty_iff.mp hclose.2
    refine (close_within _ _).mono ?_ fun _ ⟨hms,ho⟩ => ⟨hms,ho⟩
    rw [hc, Value.cost, Phase.cost, memberCosts]
    simp only [List.isEmpty_nil, if_true]
    omega
  · exact bad_within _ _

theorem colonStep_within (ms : List (Bytes × Value)) (key : Bytes) (outer : List Frame) (c : UInt8) :
    (colonStep ms key outer c).Within ((Phase.colon ms key).cost + outerCost outer + asciiByte c)
      ((Phase.colon ms key).Tidy ∧ TidyOuter outer) := by
  unfold colonStep
  split_ifs with hspace hcolon
  · exact (go_within _ _).mono (Nat.le_add_right _ _) fun _ h => h
  · have hc : asciiByte c = 1 := by rw [hcolon]; rfl
    refine (go_within _ _).mono ?_ fun _ ⟨hk,ho⟩ => ⟨trivial,tidyOuter_cons.mpr ⟨hk,ho⟩⟩
    rw [hc, outerCost_cons]
    simp only [Phase.cost, Frame.cost]
    omega
  · exact bad_within _ _

theorem valueStep_within (outer : List Frame) (c : UInt8) :
    (valueStep outer c).Within (outerCost outer + asciiByte c) (TidyOuter outer) := by
  -- a phase that a single ASCII byte leads to
  have hgo (x : UInt8) (phase : Phase) (hc : c = x) (hx : asciiByte x = 1) (hcost : phase.cost ≤ 1) (htidy : phase.Tidy) :
      (Step.go phase outer).Within (outerCost outer + asciiByte c) (TidyOuter outer) := by
    refine (go_within _ _).mono ?_ fun _ ho => ⟨htidy,ho⟩
    rw [hc, hx]
    omega
  unfold valueStep
  split_ifs with hspace hquote hbrace hbracket hclose hn ht hf
  · exact (go_within _ _).mono (by simp [Phase.cost]) fun _ ho => ⟨trivial,ho⟩
  · exact hgo quote _ hquote rfl (by simp [Phase.cost]) (by simp [Phase.Tidy, RawText])
  · exact hgo 0x7b _ hbrace rfl (by simp [Phase.cost, memberCosts]) (by simp [Phase.Tidy, TidyMembers])
  · have hc : asciiByte c = 1 := by rw [hbracket]; rfl
    refine (go_within _ _).mono ?_ fun _ ho => ⟨trivial,tidyOuter_cons.mpr ⟨by simp [Frame.Tidy, TidyElements],ho⟩⟩
    rw [hc, outerCost_cons]
    simp only [Phase.cost, Frame.cost, costs]
    omega
  · have hc : asciiByte c = 1 := by rw [hclose]; rfl
    unfold closeEmpty
    split
    · refine (close_within _ _).mono ?_ fun _ ho => tidyOuter_cons.mp ho
      rw [hc, outerCost_cons, Value.cost, Frame.cost, costs]
      simp only [List.isEmpty_nil, if_true]
      omega
    · exact bad_within _ _
  · exact hgo 0x6e _ hn rfl (by decide) trivial
  · exact hgo 0x74 _ ht rfl (by decide) trivial
  · exact hgo 0x66 _ hf rfl (by decide) trivial
  · split
    · refine (go_within _ _).mono ?_ fun _ ho => ⟨trivial,ho⟩
      simp only [Phase.cost, ascii_cons, ascii_nil, asciiByte]
      omega
    · exact bad_within _ _

theorem numberEnd_within (raw : Bytes) (outer : List Frame) (c : UInt8) :
    (numberEnd (.number raw) outer c).Within (ascii raw + outerCost outer + asciiByte c) (TidyOuter outer) := by
  match outer with
  | [] =>
    intro w t h
    rw [numberEnd] at h
    obtain ⟨hw,ht⟩ := Prod.mk.inj h
    obtain ⟨hle,htidy⟩ := valueStep_within [] c _ t (Prod.ext rfl ht)
    subst hw
    have hcost : emittedCost (some (.number raw)) = ascii raw := by simp [emittedCost, Value.cost]
    rw [hcost]
    refine ⟨by omega,fun he ho => ⟨by simp [Value.Tidy],(htidy (by omega) ho).2⟩⟩
  | .array vs :: outer =>
    refine (elementsStep_within _ outer c).mono ?_ fun _ ho => ?_
    · simp [Phase.cost, Frame.cost, outerCost_cons, costs_append, costs, Value.cost]
      omega
    · obtain ⟨hf,ho⟩ := tidyOuter_cons.mp ho
      exact ⟨tidyElements_append hf ⟨trivial,trivial⟩,ho⟩
  | .member ms key :: outer =>
    refine (membersStep_within _ outer c).mono ?_ fun _ ho => ?_
    · simp [Phase.cost, Frame.cost, outerCost_cons, memberCosts_append, memberCosts, memberCost, Value.cost]
      omega
    · obtain ⟨⟨hms,hkey⟩,ho⟩ := tidyOuter_cons.mp ho
      exact ⟨tidyMembers_append hms ⟨⟨hkey,trivial⟩,trivial⟩,ho⟩

theorem wordStep_within (left : Bytes) (v : Value) (outer : List Frame) (c : UInt8) :
    (wordStep left v outer c).Within ((Phase.word left v).cost + outerCost outer + asciiByte c) (v.Tidy ∧ TidyOuter outer) := by
  unfold wordStep
  cases left with
  | nil => exact bad_within _ _
  | cons b left =>
    dsimp only
    split_ifs with hb hleft
    · refine (close_within _ _).mono ?_ fun _ h => h
      simp only [Phase.cost, hleft, hb, ascii_cons, ascii_nil, asciiByte]
      omega
    · refine (go_within _ _).mono ?_ fun _ h => h
      simp only [Phase.cost, hb, ascii_cons, asciiByte]
      omega
    · exact bad_within _ _

/-! ## Literals -/

theorem next_close {lex : Lex} {c : UInt8} (h : lex.next c = .close) : c = quote := by
  cases lex with
  | plain =>
    rw [Lex.next] at h
    split_ifs at h with hc
    exact hc
  | escape =>
    rw [Lex.next] at h
    split_ifs at h
  | hex n =>
    cases n <;> rw [Lex.next] at h <;> split_ifs at h

theorem isHex_le {c : UInt8} (h : isHex c = true) : 0x20 ≤ c := by
  obtain ⟨n,hn⟩ := Option.isSome_iff_exists.mp h
  exact (hexDigit_range hn).1

theorem isEscape_le {c : UInt8} (h : isEscape c = true) : 0x20 ≤ c := by
  have hall : ∀ x ∈ ([quote,backslash,0x2f,0x62,0x66,0x6e,0x72,0x74] : Bytes), 0x20 ≤ x := by
    decide +kernel
  exact hall c (List.contains_iff_mem.mp h)

theorem RawText.next {lex lex' : Lex} {raw : Bytes} {c : UInt8} (h : RawText lex raw) (hc : lex.next c = .go lex') :
    RawText lex' (raw ++ [c]) := by
  -- within an escape there has been a backslash
  have hescape (hlex : lex ≠ .plain) (hle : 0x20 ≤ c) : RawText lex' (raw ++ [c]) := by
    have hmem : backslash ∈ raw := by
      by_contra hn
      exact hlex (h.2 hn).2
    exact ⟨by simpa [or_imp, forall_and, hle] using h.1,fun hn => absurd (List.mem_append_left _ hmem) hn⟩
  cases lex with
  | plain =>
    rw [Lex.next] at hc
    split_ifs at hc with hquote hback hctl
    · cases hc
      subst hback
      refine ⟨?_,fun hn => absurd (List.mem_append_right _ List.mem_cons_self) hn⟩
      simpa [or_imp, forall_and] using ⟨h.1,by decide⟩
    · cases hc
      have hle := UInt8.not_lt.mp hctl
      refine ⟨by simpa [or_imp, forall_and, hle] using h.1,fun hn => ⟨?_,rfl⟩⟩
      have hno : backslash ∉ raw := fun hm => hn (List.mem_append_left _ hm)
      simpa [(h.2 hno).1] using fun he => hquote he.symm
  | escape =>
    rw [Lex.next] at hc
    split_ifs at hc with hu he
    · exact hescape nofun (by rw [hu]; decide)
    · exact hescape nofun (isEscape_le he)
  | hex n =>
    cases n with
    | zero =>
      rw [Lex.next] at hc
      split_ifs at hc with hx
      exact hescape nofun (isHex_le hx)
    | succ n =>
      rw [Lex.next] at hc
      split_ifs at hc with hx
      exact hescape nofun (isHex_le hx)

theorem RawText.clean {lex : Lex} {raw : Bytes} (h : RawText lex raw) (ht : ascii (unquote raw) = ascii raw) :
    Clean (unquote raw) :=
  clean_of_tight h.1 (fun hn => (h.2 hn).1) ht

theorem step_within (s : State) (c : UInt8) : (step s c).Within (s.cost + asciiByte c) s.Tidy := by
  obtain ⟨phase,outer⟩ := s
  cases phase with
  | value => exact (valueStep_within outer c).mono (by simp [State.cost, Phase.cost]) fun _ h => h.2
  | key ms => exact keyStep_within ms outer c
  | colon ms key => exact colonStep_within ms key outer c
  | elements vs => exact elementsStep_within vs outer c
  | members ms => exact membersStep_within ms outer c
  | word left v => exact wordStep_within left v outer c
  | keyText ms lex raw =>
    simp only [step]
    split
    · rename_i hn
      refine (go_within _ _).mono ?_ fun _ h => ⟨⟨h.1.1,h.1.2.next hn⟩,h.2⟩
      simp only [State.cost, Phase.cost, ascii_append, ascii_cons, ascii_nil, asciiByte]
      omega
    · rename_i hn
      have hc : asciiByte c = 1 := by rw [next_close hn]; rfl
      have hle := ascii_unquote raw
      refine (go_within _ _).mono ?_ fun he h => ⟨⟨h.1.1,h.1.2.clean ?_⟩,h.2⟩
      · simp only [State.cost, Phase.cost]
        omega
      · simp only [State.cost, Phase.cost] at he
        omega
    · exact bad_within _ _
  | text lex raw =>
    simp only [step]
    split
    · rename_i hn
      refine (go_within _ _).mono ?_ fun _ h => ⟨h.1.next hn,h.2⟩
      simp only [State.cost, Phase.cost, ascii_append, ascii_cons, ascii_nil, asciiByte]
      omega
    · rename_i hn
      have hc : asciiByte c = 1 := by rw [next_close hn]; rfl
      have hle := ascii_unquote raw
      refine (close_within _ _).mono ?_ fun he h => ⟨h.1.clean ?_,h.2⟩
      · simp only [State.cost, Phase.cost, Value.cost]
        omega
      · simp only [State.cost, Phase.cost, Value.cost] at he
        omega
    · exact bad_within _ _
  | number num raw =>
    simp only [step]
    split
    · refine (go_within _ _).mono ?_ fun _ h => ⟨trivial,h.2⟩
      simp only [State.cost, Phase.cost, ascii_append, ascii_cons, ascii_nil, asciiByte]
      omega
    · split_ifs
      · exact (numberEnd_within raw outer c).mono (Nat.le_refl _) fun _ h => h.2
      · exact bad_within _ _

theorem feed_within {s t : State} {b : Bytes} {vs : List Value} (h : feed s b = (vs,some t)) :
    (vs.map Value.cost).sum + t.cost ≤ s.cost + ascii b ∧
      ((vs.map Value.cost).sum + t.cost = s.cost + ascii b → s.Tidy → (∀ v ∈ vs, v.Tidy) ∧ t.Tidy) := by
  induction b generalizing s vs with
  | nil =>
    cases h
    exact ⟨by simp,fun _ hs => ⟨by simp,hs⟩⟩
  | cons c b ih =>
    obtain ⟨w,u,ws,hs,hu,rfl⟩ := of_feed_cons h
    obtain ⟨hle,htidy⟩ := step_within s c w u hs
    obtain ⟨hle',htidy'⟩ := ih hu
    have hc : ascii (c :: b) = ascii b + asciiByte c := ascii_cons c b
    have hw : ((w.toList ++ ws).map Value.cost).sum = emittedCost w + (ws.map Value.cost).sum := by
      cases w <;> simp [emittedCost]
    rw [hc, hw]
    refine ⟨by omega,fun he hst => ?_⟩
    obtain ⟨hvw,htu⟩ := htidy (by omega) hst
    obtain ⟨hvs,htt⟩ := htidy' (by omega) htu
    refine ⟨fun v hv => ?_,htt⟩
    rcases List.mem_append.mp hv with hv | hv
    · exact hvw v (Option.mem_toList.mp hv)
    · exact hvs v hv

theorem feed_of_decode {b : Bytes} {v : Value} (h : decode b = some v) (hv : ∀ text, v ≠ .number text) :
    feed .start b = ([v],some .start) := by
  rcases ends_of_decode h with hfeed | ⟨_,raw,_,hnumber,_⟩
  · exact hfeed
  · exact absurd hnumber (hv raw)

/-- A document costs what its value costs at least, and if it costs no more all the strings
in it stand for themselves. -/
theorem decode_tight {b : Bytes} {v : Value} (h : decode b = some v) (hv : ∀ text, v ≠ .number text) :
    v.cost ≤ ascii b ∧ (v.cost = ascii b → v.Tidy) := by
  obtain ⟨hle,htidy⟩ := feed_within (feed_of_decode h hv)
  have hstart : State.start.cost = 0 := rfl
  simp only [List.map_cons, List.map_nil, List.sum_cons, List.sum_nil, hstart, Nat.add_zero, Nat.zero_add] at hle htidy
  refine ⟨hle,fun he => (htidy he ⟨trivial,by simp [TidyOuter, State.start]⟩).1 v List.mem_cons_self⟩

/-! ## Members without escapes -/

theorem next_plain {c : UInt8} (h : 0x20 ≤ c ∧ c ≠ quote ∧ c ≠ backslash) : Lex.plain.next c = .go .plain := by
  rw [Lex.next, if_neg h.2.1, if_neg h.2.2, if_neg (UInt8.not_lt.mpr h.1)]

theorem run_plain {s : Bytes} (h : ∀ b ∈ s, 0x20 ≤ b ∧ b ≠ quote ∧ b ≠ backslash) : Lex.plain.run s = some .plain := by
  induction s with
  | nil => rfl
  | cons c s ih =>
    rw [Lex.run_cons (next_plain (h c List.mem_cons_self))]
    exact ih fun b hb => h b (List.mem_cons_of_mem c hb)

def writeMember (key s : Bytes) : Bytes := [quote] ++ key ++ [quote,0x3a,quote] ++ s ++ [quote]

theorem feed_writeMember {key s : Bytes} (hkey : Clean key) (hs : Clean s) (ms : List (Bytes × Value)) (outer : List Frame) :
    feed ⟨.key ms,outer⟩ (writeMember key s) = ([],some ⟨.members (ms ++ [(key,.string s)]),outer⟩) := by
  have hopen : feed ⟨.key ms,outer⟩ [quote] = ([],some ⟨.keyText ms .plain [],outer⟩) := rfl
  have hmid : feed ⟨.keyText ms .plain ([] ++ key),outer⟩ [quote,0x3a,quote] =
      ([],some ⟨.text .plain [],.member ms (unquote key) :: outer⟩) := rfl
  have hclose : feed ⟨.text .plain ([] ++ s),.member ms (unquote key) :: outer⟩ [quote] =
      ([],some ⟨.members (ms ++ [(unquote key,.string (unquote s))]),outer⟩) := rfl
  have h₁ := feed_append hopen key
  rw [feed_literal (.key ms) (run_plain hkey.1)] at h₁
  have h₂ := feed_append h₁ [quote,0x3a,quote]
  rw [hmid] at h₂
  have h₃ := feed_append h₂ s
  rw [feed_literal .text (run_plain hs.1)] at h₃
  have h₄ := feed_append h₃ [quote]
  rw [hclose, hkey.unquote, hs.unquote] at h₄
  exact h₄

theorem ascii_writeMember (key s : Bytes) : ascii (writeMember key s) + 1 = memberCost (key,.string s) := by
  have hpunct : ascii [quote] = 1 ∧ ascii [quote,0x3a,quote] = 3 := by decide
  rw [writeMember, memberCost, Value.cost]
  simp only [ascii_append, hpunct]
  omega

end Stout.Json
