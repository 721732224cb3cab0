import Stout.Library.JsonScanner

/-! # Compact documents

What an encoder makes of a document that it is handed: the whitespace between the tokens
is dropped, and what means something to HTML or ends a line of JavaScript is escaped. The
document keeps its value.
-/
namespace Stout.Json

/-! ## Whitespace -/

/-- Whitespace here is between two tokens. -/
def Phase.skips : Phase → Bool
  | .text _ _ => false
  | .keyText _ _ _ => false
  | .word _ _ => false
  | _ => true

def dropSpaces : State → Bytes → Bytes
  | _, [] => []
  | s, c :: rest =>
    let after := ((step s c).2.map fun t => dropSpaces t rest).getD rest
    if s.phase.skips && isSpace c then after else c :: after

/-- The first byte completes the value, and whitespace follows; or it is still to come. -/
theorem Ends.cases_cons {s : State} {c : UInt8} {b : Bytes} {v : Value} (h : Ends s (c :: b) v) :
    (step s c = (some v,some .start) ∧ ∀ x ∈ b, isSpace x = true) ∨ ∃ t, step s c = (none,some t) ∧ Ends t b v := by
  rcases h with hfeed | ⟨num,raw,hcomplete,hv,hfeed⟩
  · obtain ⟨w,t,ws,hs,ht,hvs⟩ := of_feed_cons hfeed
    cases w with
    | none => exact Or.inr ⟨t,hs,Or.inl (by rw [ht, hvs]; rfl)⟩
    | some w =>
      obtain ⟨rfl,rfl⟩ := List.cons.inj hvs
      obtain ⟨rfl,hb⟩ := feed_start ht
      exact Or.inl ⟨hs,hb⟩
  · obtain ⟨w,t,ws,hs,ht,hvs⟩ := of_feed_cons hfeed
    cases w with
    | none => exact Or.inr ⟨t,hs,Or.inr ⟨num,raw,hcomplete,hv,by rw [ht, hvs]; rfl⟩⟩
    | some w => cases hvs

theorem Ends.cons {s t : State} {c : UInt8} {b : Bytes} {v : Value} (hs : step s c = (none,some t)) (h : Ends t b v) :
    Ends s (c :: b) v := by
  rw [Ends, feed_cons hs]
  exact h

theorem dropSpaces_spaces {b : Bytes} (h : ∀ x ∈ b, isSpace x = true) : dropSpaces .start b = [] := by
  induction b with
  | nil => rfl
  | cons c b ih =>
    have hc := h c List.mem_cons_self
    have hstep : step .start c = (none,some .start) := by simp [step, State.start, valueStep, hc, Step.go]
    rw [dropSpaces, hstep]
    simp only [hc, State.start, Phase.skips, Bool.and_true, if_true, Option.map_some, Option.getD_some]
    exact ih fun x hx => h x (List.mem_cons_of_mem c hx)

/-- The same state, or a number that whitespace has completed on one side only. -/
inductive Lags : State → State → Prop where
  | same (s : State) : Lags s s
  | number {num : Num} {raw : Bytes} {outer : List Frame} {s : State} (hcomplete : num.complete = true)
    (hclose : close (.number raw) outer = (none,some s)) : Lags s ⟨.number num raw,outer⟩

theorem next_space {c : UInt8} (h : isSpace c = true) (num : Num) : num.next c = none := by
  have hc : c = 0x20 ∨ c = 0x09 ∨ c = 0x0a ∨ c = 0x0d := by simpa [isSpace, or_assoc] using h
  rcases hc with rfl | rfl | rfl | rfl <;> cases num <;> rfl

theorem next_punctuation {c : UInt8} (h : c = 0x2c ∨ c = 0x5d ∨ c = 0x7d) (num : Num) : num.next c = none := by
  rcases h with rfl | rfl | rfl <;> cases num <;> rfl

theorem numberEnd_of_close {v : Value} {outer : List Frame} {s : State} (h : close v outer = (none,some s)) (c : UInt8) :
    numberEnd v outer c = step s c := by
  rcases outer with _ | ⟨vs | ⟨ms,key⟩,outer⟩ <;> cases h <;> rfl

/-- After a value inside another one comes whitespace or punctuation. -/
theorem step_closed {v : Value} {outer : List Frame} {s t : State} {c : UInt8} {w : Option Value}
    (h : close v outer = (none,some s)) (hs : step s c = (w,some t)) :
    (isSpace c = true ∧ w = none ∧ t = s) ∨ (isSpace c = false ∧ (c = 0x2c ∨ c = 0x5d ∨ c = 0x7d)) := by
  rcases outer with _ | ⟨vs | ⟨ms,key⟩,outer⟩ <;> cases h
  · simp only [step, elementsStep] at hs
    split_ifs at hs with hspace hcomma hclose
    · cases hs
      exact Or.inl ⟨hspace,rfl,rfl⟩
    · exact Or.inr ⟨by simpa using hspace,Or.inl hcomma⟩
    · exact Or.inr ⟨by simpa using hspace,Or.inr (Or.inl hclose)⟩
    · cases hs
  · simp only [step, membersStep] at hs
    split_ifs at hs with hspace hcomma hclose
    · cases hs
      exact Or.inl ⟨hspace,rfl,rfl⟩
    · exact Or.inr ⟨by simpa using hspace,Or.inl hcomma⟩
    · exact Or.inr ⟨by simpa using hspace,Or.inr (Or.inr hclose)⟩
    · cases hs

/-- Whitespace between two tokens leaves the state as it is, unless it completes a number. -/
theorem step_space {s t : State} {c : UInt8} {w : Option Value} (hskip : s.phase.skips = true) (hc : isSpace c = true)
    (h : step s c = (w,some t)) :
    (w = none ∧ Lags t s) ∨ ∃ num raw, num.complete = true ∧ s = ⟨.number num raw,[]⟩ ∧ w = some (.number raw) := by
  obtain ⟨phase,outer⟩ := s
  have hsame (hstep : step ⟨phase,outer⟩ c = .go phase outer) : w = none ∧ Lags t ⟨phase,outer⟩ := by
    rw [hstep] at h
    cases h
    exact ⟨rfl,.same _⟩
  cases phase with
  | value => exact Or.inl (hsame (if_pos hc))
  | key ms => exact Or.inl (hsame (if_pos hc))
  | keyText ms lex raw => cases hskip
  | colon ms key => exact Or.inl (hsame (if_pos hc))
  | text lex raw => cases hskip
  | number num raw =>
    simp only [step, next_space hc] at h
    split at h
    · rename_i hcomplete
      rcases hclose : close (.number raw) outer with ⟨u,_ | s⟩
      · rcases outer with _ | ⟨vs | ⟨ms,key⟩,outer⟩ <;> cases hclose
      · cases u with
        | none =>
          rw [numberEnd_of_close hclose] at h
          rcases step_closed hclose h with ⟨-,rfl,rfl⟩ | ⟨hn,-⟩
          · exact Or.inl ⟨rfl,.number hcomplete hclose⟩
          · rw [hc] at hn
            cases hn
        | some u =>
          rcases outer with _ | ⟨vs | ⟨ms,key⟩,outer⟩ <;> cases hclose
          cases (Prod.mk.inj h).1
          exact Or.inr ⟨num,raw,hcomplete,rfl,rfl⟩
    · cases h
  | word left v => cases hskip
  | elements vs => exact Or.inl (hsame (if_pos hc))
  | members ms => exact Or.inl (hsame (if_pos hc))

theorem dropSpaces_skipped {s t : State} {c : UInt8} {w : Option Value} (hc : (s.phase.skips && isSpace c) = true)
    (h : step s c = (w,some t)) (b : Bytes) : dropSpaces s (c :: b) = dropSpaces t b := by
  rw [dropSpaces, h]
  exact if_pos hc

theorem dropSpaces_kept {s t : State} {c : UInt8} {w : Option Value} (hc : (s.phase.skips && isSpace c) = false)
    (h : step s c = (w,some t)) (b : Bytes) : dropSpaces s (c :: b) = c :: dropSpaces t b := by
  rw [dropSpaces, h]
  exact if_neg (by simp [hc])

theorem Lags.skipped {s s' t : State} {c : UInt8} (h : Lags s t) (hc : (s.phase.skips && isSpace c) = true)
    (hs : step s c = (none,some s')) : Lags s' t := by
  obtain ⟨hskip,hspace⟩ := (Bool.and_eq_true _ _).mp hc
  cases h with
  | same =>
    rcases step_space hskip hspace hs with ⟨-,hlag⟩ | ⟨_,_,_,_,hw⟩
    · exact hlag
    · cases hw
  | number hcomplete hclose =>
    rcases step_closed hclose hs with ⟨-,-,rfl⟩ | ⟨hn,-⟩
    · exact .number hcomplete hclose
    · rw [hspace] at hn
      cases hn

theorem Lags.kept {s s' t : State} {c : UInt8} {w : Option Value} (h : Lags s t) (hc : (s.phase.skips && isSpace c) = false)
    (hs : step s c = (w,some s')) : step t c = (w,some s') := by
  cases h with
  | same => exact hs
  | @number num raw outer _ hcomplete hclose =>
    rcases step_closed hclose hs with ⟨hspace,-,-⟩ | ⟨-,hpunct⟩
    · have hskip : s.phase.skips = true := by
        rcases outer with _ | ⟨vs | ⟨ms,key⟩,outer⟩ <;> cases hclose <;> rfl
      rw [hskip, hspace] at hc
      cases hc
    · rw [← hs, ← numberEnd_of_close hclose]
      simp only [step, next_punctuation hpunct, hcomplete, if_true]

theorem Ends.dropSpaces {s t : State} {b : Bytes} {v : Value} (h : Ends s b v) (hlag : Lags s t) :
    Ends t (dropSpaces s b) v := by
  induction b generalizing s t with
  | nil =>
    rcases h with hfeed | ⟨num,raw,hcomplete,rfl,hfeed⟩
    · cases hfeed
    · cases hfeed
      cases hlag with
      | same => exact Or.inr ⟨num,raw,hcomplete,rfl,rfl⟩
      | @number _ _ outer _ _ hclose =>
        rcases outer with _ | ⟨vs | ⟨ms,key⟩,outer⟩ <;> cases hclose
  | cons c b ih =>
    cases hc : s.phase.skips && isSpace c with
    | true =>
      rcases h.cases_cons with ⟨hstep,hb⟩ | ⟨s',hstep,hrest⟩
      · obtain ⟨hskip,hspace⟩ := (Bool.and_eq_true _ _).mp hc
        rw [dropSpaces_skipped hc hstep, dropSpaces_spaces hb]
        cases hlag with
        | same =>
          rcases step_space hskip hspace hstep with ⟨hw,-⟩ | ⟨num,raw,hcomplete,rfl,hw⟩
          · cases hw
          · cases hw
            exact Or.inr ⟨num,raw,hcomplete,rfl,rfl⟩
        | number hcomplete hclose =>
          rcases step_closed hclose hstep with ⟨-,hw,-⟩ | ⟨hn,-⟩
          · cases hw
          · rw [hspace] at hn
            cases hn
      · rw [dropSpaces_skipped hc hstep]
        exact ih hrest (hlag.skipped hc hstep)
    | false =>
      rcases h.cases_cons with ⟨hstep,hb⟩ | ⟨s',hstep,hrest⟩
      · rw [dropSpaces_kept hc hstep, dropSpaces_spaces hb]
        exact Or.inl (feed_cons (hlag.kept hc hstep) [])
      · rw [dropSpaces_kept hc hstep]
        exact .cons (hlag.kept hc hstep) (ih hrest (.same s'))

theorem decode_dropSpaces {b : Bytes} {v : Value} (h : decode b = some v) : decode (dropSpaces .start b) = some v :=
  decode_of_ends ((ends_of_decode h).dropSpaces (.same _))

/-! ## Literals in two parts -/

theorem inRange_tail {lo hi c : UInt8} (h : isTail c = false) (hlo : 0x80 ≤ lo) (hhi : hi ≤ 0xbf) : inRange lo hi c = false := by
  by_contra hn
  simp only [inRange, Bool.not_eq_false, Bool.and_eq_true, decide_eq_true_eq] at hn
  simp [isTail, inRange, UInt8.le_trans hlo hn.1, UInt8.le_trans hn.2 hhi] at h

theorem leadsThree_tail {c : UInt8} (h : isTail c = false) (b : UInt8) : leadsThree b c = false := by
  simp [leadsThree, inRange_tail h, h]

theorem leadsFour_tail {c : UInt8} (h : isTail c = false) (b : UInt8) : leadsFour b c = false := by
  simp [leadsFour, inRange_tail h, h]

section Runes
variable {x : UInt8} (hx : isTail x = false) (b c d : UInt8) (s y : Bytes)
include hx

theorem runeLengthFour_append : runeLengthFour b c d (s ++ x :: y) = runeLengthFour b c d s := by
  cases s with
  | nil => simp [runeLengthFour, hx]
  | cons e s => rfl

theorem runeLengthThree_append : runeLengthThree b c (s ++ x :: y) = runeLengthThree b c s := by
  cases s with
  | nil => cases y <;> simp [runeLengthThree, runeLengthFour, hx]
  | cons d s => rw [List.cons_append, runeLengthThree, runeLengthThree, runeLengthFour_append hx]

theorem runeLengthTwo_append : runeLengthTwo b (s ++ x :: y) = runeLengthTwo b s := by
  cases s with
  | nil =>
    rcases y with _ | ⟨d,_ | ⟨e,y⟩⟩ <;>
      simp [runeLengthTwo, runeLengthThree, runeLengthFour, hx, leadsThree_tail hx, leadsFour_tail hx]
  | cons c s => rw [List.cons_append, runeLengthTwo, runeLengthTwo, runeLengthThree_append hx]

/-- A rune ends before a byte that begins one. -/
theorem runeLength_append : runeLength b (s ++ x :: y) = runeLength b s := by
  rw [runeLength, runeLength, runeLengthTwo_append hx]

end Runes

theorem runeLengthFour_le (b c d : UInt8) (s : Bytes) : runeLengthFour b c d s ≤ s.length + 3 := by
  cases s with
  | nil => exact Nat.zero_le _
  | cons e s =>
    rw [runeLengthFour, List.length_cons]
    split <;> omega

theorem runeLengthThree_le (b c : UInt8) (s : Bytes) : runeLengthThree b c s ≤ s.length + 2 := by
  cases s with
  | nil => exact Nat.zero_le _
  | cons d s =>
    have := runeLengthFour_le b c d s
    rw [runeLengthThree, List.length_cons]
    split <;> omega

theorem runeLength_le (b : UInt8) (s : Bytes) : runeLength b s ≤ s.length + 1 := by
  rw [runeLength]
  split
  · omega
  cases s with
  | nil => exact Nat.zero_le _
  | cons c s =>
    have := runeLengthThree_le b c s
    rw [runeLengthTwo, List.length_cons]
    split <;> omega

theorem Lex.run_append {lex m : Lex} {s : Bytes} (h : lex.run s = some m) (t : Bytes) : lex.run (s ++ t) = m.run t := by
  induction s generalizing lex with
  | nil =>
    cases h
    rfl
  | cons c s ih =>
    obtain ⟨l,hl,hs⟩ := of_run_cons h
    rw [List.cons_append, run_cons hl, ih hs]

theorem Lex.of_run_plain {m : Lex} {c : UInt8} {s : Bytes} (h : Lex.plain.run (c :: s) = some m) :
    (c = backslash ∧ Lex.escape.run s = some m) ∨ (c ≠ backslash ∧ Lex.plain.run s = some m) := by
  obtain ⟨l,hl,hs⟩ := of_run_cons h
  simp only [Lex.next] at hl
  by_cases hback : c = backslash
  · subst hback
    cases hl
    exact Or.inl ⟨rfl,hs⟩
  · rw [if_neg hback] at hl
    split at hl
    · cases hl
    split at hl
    · cases hl
    · cases hl
      exact Or.inr ⟨hback,hs⟩

theorem Lex.of_run_hex {l : Lex} {n : ℕ} {s : Bytes} (hl : ∀ c, (Lex.hex n).next c = if isHex c then .go l else .bad)
    (h : (Lex.hex n).run s = some .plain) : ∃ c t r, s = c :: t ∧ hexDigit c = some r ∧ l.run t = some .plain := by
  cases s with
  | nil => cases h
  | cons c t =>
    obtain ⟨m,hm,ht⟩ := of_run_cons h
    rw [hl] at hm
    split at hm
    · rename_i hc
      cases hm
      obtain ⟨r,hr⟩ := Option.isSome_iff_exists.mp hc
      exact ⟨c,t,r,rfl,hr,ht⟩
    · cases hm

theorem hexFour_of_run {s : Bytes} (h : (Lex.hex 3).run s = some .plain) :
    4 ≤ s.length ∧ Lex.plain.run (s.drop 4) = some .plain ∧ ∃ r, ∀ y, hexFour (s ++ y) = some r := by
  obtain ⟨a,s₁,r₁,rfl,ha,h₁⟩ := Lex.of_run_hex (fun _ => rfl) h
  obtain ⟨b,s₂,r₂,rfl,hb,h₂⟩ := Lex.of_run_hex (fun _ => rfl) h₁
  obtain ⟨c,s₃,r₃,rfl,hc,h₃⟩ := Lex.of_run_hex (fun _ => rfl) h₂
  obtain ⟨d,s₄,r₄,rfl,hd,h₄⟩ := Lex.of_run_hex (fun _ => rfl) h₃
  refine ⟨by simp,h₄,((r₁ * 16 + r₂) * 16 + r₃) * 16 + r₄,fun y => ?_⟩
  simp only [List.cons_append, hexFour, ha, hb, hc, hd]
  rfl

theorem Lex.of_run_escape {s : Bytes} (h : Lex.escape.run s = some .plain) :
    ∃ c t, s = c :: t ∧ ((c = 0x75 ∧ (Lex.hex 3).run t = some .plain) ∨ (c ≠ 0x75 ∧ Lex.plain.run t = some .plain)) := by
  cases s with
  | nil => cases h
  | cons c t =>
    obtain ⟨l,hl,ht⟩ := of_run_cons h
    simp only [Lex.next] at hl
    by_cases hu : c = 0x75
    · rw [if_pos hu] at hl
      cases hl
      exact ⟨c,t,rfl,Or.inl ⟨hu,ht⟩⟩
    · rw [if_neg hu] at hl
      split at hl
      · cases hl
        exact ⟨c,t,rfl,Or.inr ⟨hu,ht⟩⟩
      · cases hl

theorem lowSurrogate_append {s y : Bytes} (h : Lex.plain.run s = some .plain) (hy : lowSurrogate y = none) :
    lowSurrogate (s ++ y) = lowSurrogate s ∧
      (lowSurrogate s ≠ none → 6 ≤ s.length ∧ Lex.plain.run (s.drop 6) = some .plain) := by
  cases s with
  | nil => exact ⟨hy,fun hn => absurd rfl hn⟩
  | cons a s =>
    rcases Lex.of_run_plain h with ⟨rfl,hs⟩ | ⟨ha,hs⟩
    · obtain ⟨b,t,rfl,⟨rfl,ht⟩ | ⟨hb,-⟩⟩ := Lex.of_run_escape hs
      · obtain ⟨hlen,hrun,r,hr⟩ := hexFour_of_run ht
        have hnil := hr []
        rw [List.append_nil] at hnil
        refine ⟨?_,fun _ => ⟨?_,hrun⟩⟩
        · simp only [List.cons_append, lowSurrogate, hr, hnil]
        · simp only [List.length_cons]
          omega
      · have hnone (t : Bytes) : lowSurrogate (backslash :: b :: t) = none := if_neg fun hn => hb hn.2
        exact ⟨by rw [List.cons_append, List.cons_append, hnone, hnone],fun hn => absurd (hnone t) hn⟩
    · have hnone (t : Bytes) : lowSurrogate (a :: t) = none := by
        cases t with
        | nil => rfl
        | cons b t => exact if_neg fun hn => ha hn.1
      exact ⟨by rw [List.cons_append, hnone, hnone],fun hn => absurd (hnone s) hn⟩

theorem escape_append {s y : Bytes} (h : Lex.escape.run s = some .plain) (hy : lowSurrogate y = none) :
    escape (s ++ y) = escape s ∧ (escape s).2 ≤ s.length ∧ Lex.plain.run (s.drop (escape s).2) = some .plain := by
  obtain ⟨c,t,rfl,⟨rfl,ht⟩ | ⟨hc,ht⟩⟩ := Lex.of_run_escape h
  · obtain ⟨hlen,hrun,r,hr⟩ := hexFour_of_run ht
    have hnil := hr []
    rw [List.append_nil] at hnil
    obtain ⟨hlow,hsix⟩ := lowSurrogate_append hrun hy
    have hdrop : (t ++ y).drop 4 = t.drop 4 ++ y := List.drop_append_of_le_length hlen
    have hfive : 5 ≤ (0x75 :: t : Bytes).length ∧ Lex.plain.run ((0x75 :: t : Bytes).drop 5) = some .plain :=
      ⟨by simpa using hlen,hrun⟩
    simp only [List.cons_append, escape, if_true, hr, hnil, hdrop, hlow, true_and]
    split
    · split
      · rename_i hl
        split
        · obtain ⟨hlong,hrest⟩ := hsix (by simp [hl])
          rw [List.length_drop] at hlong
          rw [List.drop_drop] at hrest
          exact ⟨by simp only [List.length_cons]; omega,hrest⟩
        · exact hfive
      · exact hfive
    · exact hfive
  · simp only [List.cons_append, escape, if_neg hc, true_and]
    exact ⟨by simp,ht⟩

theorem unquoteFrom_skip (n : ℕ) (s : Bytes) : unquoteFrom n 0 s = unquote (s.drop n) := by
  induction s generalizing n with
  | nil => cases n <;> rfl
  | cons b s ih =>
    cases n with
    | zero => rfl
    | succ n => exact ih n

theorem unquoteFrom_copy (k : ℕ) (s : Bytes) : unquoteFrom 0 k s = s.take k ++ unquote (s.drop k) := by
  induction s generalizing k with
  | nil => cases k <;> rfl
  | cons b s ih =>
    cases k with
    | zero => rfl
    | succ k => rw [unquoteFrom, ih, List.take_succ_cons, List.drop_succ_cons, List.cons_append]

theorem Lex.run_drop {s : Bytes} {k : ℕ} (h : ∀ c ∈ s.take k, 0x80 ≤ c) (hs : Lex.plain.run s = some .plain) :
    Lex.plain.run (s.drop k) = some .plain := by
  induction s generalizing k with
  | nil => rwa [List.drop_nil]
  | cons b s ih =>
    cases k with
    | zero => exact hs
    | succ k =>
      rw [List.take_succ_cons] at h
      rcases of_run_plain hs with ⟨rfl,-⟩ | ⟨-,hs⟩
      · exact absurd (h backslash List.mem_cons_self) (by decide)
      · exact ih (fun c hc => h c (List.mem_cons_of_mem b hc)) hs

/-- The bytes begin with a rune, and not with the second half of a surrogate pair. -/
def Apart : Bytes → Prop
  | [] => True
  | c :: rest => isTail c = false ∧ lowSurrogate (c :: rest) = none

theorem Apart.runeLength_append {y : Bytes} (h : Apart y) (b : UInt8) (s : Bytes) : runeLength b (s ++ y) = runeLength b s := by
  cases y with
  | nil => rw [List.append_nil]
  | cons c y => exact Json.runeLength_append h.1 b s y

theorem Apart.lowSurrogate {y : Bytes} (h : Apart y) : lowSurrogate y = none := by
  cases y with
  | nil => rfl
  | cons c y => exact h.2

/-- A literal can be cut where no escape is open. -/
theorem unquote_append {s y : Bytes} (h : Lex.plain.run s = some .plain) (hy : Apart y) :
    unquote (s ++ y) = unquote s ++ unquote y := by
  match s with
  | [] => rfl
  | b :: s =>
    have hcut {n : ℕ} (hn : n ≤ s.length) : (s ++ y).drop n = s.drop n ++ y := List.drop_append_of_le_length hn
    rw [List.cons_append, unquote, unquote, unquoteFrom, unquoteFrom]
    rcases Lex.of_run_plain h with ⟨hb,hs⟩ | ⟨hb,hs⟩
    · obtain ⟨hesc,hlen,hrun⟩ := escape_append hs hy.lowSurrogate
      rw [if_pos hb, if_pos hb, hesc, unquoteFrom_skip, unquoteFrom_skip, hcut hlen, unquote_append hrun hy, List.append_assoc]
    · rw [if_neg hb, if_neg hb, hy.runeLength_append]
      cases hr : runeLength b s with
      | zero =>
        have hrest := unquote_append hs hy
        rw [unquote, unquote] at hrest
        dsimp only
        rw [hrest, List.append_assoc]
      | succ k =>
        have hlen : k ≤ s.length := by
          have := runeLength_le b s
          omega
        have hrun := Lex.run_drop (runeLength_spec hr).1 hs
        dsimp only
        rw [unquoteFrom_copy, unquoteFrom_copy, hcut hlen, unquote_append hrun hy, List.take_append_of_le_length hlen,
          List.cons_append, List.append_assoc]
termination_by s.length

/-! ## What is escaped -/

/-- `<`, `>`, `&`, U+2028 and U+2029 with their escapes. -/
def markup : List (Bytes × Bytes) :=
  [([0x3c],ofAscii "\\u003c"),([0x3e],ofAscii "\\u003e"),([0x26],ofAscii "\\u0026"),([0xe2,0x80,0xa8],ofAscii "\\u2028"),
    ([0xe2,0x80,0xa9],ofAscii "\\u2029")]

/-- After the bytes of a rune that has been escaped. -/
def escapeFrom : ℕ → Bytes → Bytes
  | _, [] => []
  | n + 1, _ :: rest => escapeFrom n rest
  | 0, c :: rest =>
    match markup.find? fun e => e.1.isPrefixOf (c :: rest) with
    | none => c :: escapeFrom 0 rest
    | some e => e.2 ++ escapeFrom (e.1.length - 1) rest

theorem escapeFrom_skip (n : ℕ) (s : Bytes) : escapeFrom n s = escapeFrom 0 (s.drop n) := by
  induction s generalizing n with
  | nil => cases n <;> rfl
  | cons b s ih =>
    cases n with
    | zero => rfl
    | succ n => exact ih n

theorem run_markup : ∀ e ∈ markup, Lex.plain.run e.1 = some .plain ∧ Lex.plain.run e.2 = some .plain := by decide

theorem unquote_markup {e : Bytes × Bytes} (he : e ∈ markup) (x : Bytes) :
    Apart (e.1 ++ x) ∧ Apart (e.2 ++ x) ∧ unquote (e.1 ++ x) = unquote (e.2 ++ x) := by
  simp only [markup, List.mem_cons, List.not_mem_nil, or_false] at he
  rcases he with rfl | rfl | rfl | rfl | rfl <;> exact ⟨⟨rfl,by cases x <;> rfl⟩,⟨rfl,rfl⟩,rfl⟩

/-- Inside a literal an escape stands for what is escaped. -/
theorem unquote_append_markup {e : Bytes × Bytes} (he : e ∈ markup) {raw : Bytes} (h : Lex.plain.run raw = some .plain)
    (x : Bytes) : unquote (raw ++ (e.1 ++ x)) = unquote (raw ++ (e.2 ++ x)) := by
  obtain ⟨hold,hnew,heq⟩ := unquote_markup he x
  rw [unquote_append h hold, unquote_append h hnew, heq]

/-! ## Along the scan -/

/-- What has been read of a literal or a word is the beginning of one. -/
def Phase.Sound : Phase → Prop
  | .text lex raw => Lex.plain.run raw = some lex
  | .keyText _ lex raw => Lex.plain.run raw = some lex
  | .word left _ => left.all (inRange 0x61 0x7a) = true
  | _ => True

def Step.Sound (r : Step) : Prop := ∀ w t, r = (w,some t) → t.phase.Sound

theorem bad_sound : Step.bad.Sound := by
  intro w t h
  cases h

theorem go_sound {phase : Phase} (h : phase.Sound) (outer : List Frame) : (Step.go phase outer).Sound := by
  intro w t ht
  cases ht
  exact h

theorem close_sound (v : Value) (outer : List Frame) : (close v outer).Sound := by
  intro w t h
  rcases outer with _ | ⟨vs | ⟨ms,key⟩,outer⟩ <;> cases h <;> trivial

theorem valueStep_sound (outer : List Frame) (c : UInt8) : (valueStep outer c).Sound := by
  unfold valueStep
  split_ifs
  · exact go_sound (by trivial) _
  · exact go_sound (by rfl) _
  · exact go_sound (by trivial) _
  · exact go_sound (by trivial) _
  · unfold closeEmpty
    split
    · exact close_sound _ _
    · exact bad_sound
  · exact go_sound (by rfl) _
  · exact go_sound (by rfl) _
  · exact go_sound (by rfl) _
  · split
    · exact go_sound (by trivial) _
    · exact bad_sound

theorem elementsStep_sound (vs : List Value) (outer : List Frame) (c : UInt8) : (elementsStep vs outer c).Sound := by
  unfold elementsStep
  split_ifs
  · exact go_sound (by trivial) _
  · exact go_sound (by trivial) _
  · exact close_sound _ _
  · exact bad_sound

theorem membersStep_sound (ms : List (Bytes × Value)) (outer : List Frame) (c : UInt8) : (membersStep ms outer c).Sound := by
  unfold membersStep
  split_ifs
  · exact go_sound (by trivial) _
  · exact go_sound (by trivial) _
  · exact close_sound _ _
  · exact bad_sound

theorem run_concat {lex m : Lex} {raw : Bytes} {c : UInt8} (h : Lex.plain.run raw = some lex) (hc : lex.next c = .go m) :
    Lex.plain.run (raw ++ [c]) = some m := by
  rw [Lex.run_append h, Lex.run_cons hc]
  rfl

theorem step_sound {s : State} (hs : s.phase.Sound) (c : UInt8) : (step s c).Sound := by
  obtain ⟨phase,outer⟩ := s
  cases phase with
  | value => exact valueStep_sound outer c
  | key ms =>
    simp only [step, keyStep]
    split_ifs
    · exact go_sound (by trivial) _
    · exact go_sound (by rfl) _
    · exact close_sound _ _
    · exact bad_sound
  | keyText ms lex raw =>
    simp only [step]
    split
    · refine go_sound ?_ _
      exact run_concat hs (by assumption)
    · exact go_sound (by trivial) _
    · exact bad_sound
  | colon ms key =>
    simp only [step, colonStep]
    split_ifs
    · exact go_sound (by trivial) _
    · exact go_sound (by trivial) _
    · exact bad_sound
  | text lex raw =>
    simp only [step]
    split
    · refine go_sound ?_ _
      exact run_concat hs (by assumption)
    · exact close_sound _ _
    · exact bad_sound
  | number num raw =>
    simp only [step]
    split
    · exact go_sound (by trivial) _
    split_ifs
    · unfold numberEnd
      split
      · intro w t h
        exact valueStep_sound [] c (valueStep [] c).1 t (Prod.ext rfl (Prod.mk.inj h).2)
      · exact elementsStep_sound _ _ _
      · exact membersStep_sound _ _ _
    · exact bad_sound
  | word left v =>
    simp only [step, wordStep]
    split
    · exact bad_sound
    split_ifs
    · exact close_sound _ _
    · refine go_sound ?_ _
      exact ((Bool.and_eq_true _ _).mp hs).2
    · exact bad_sound
  | elements vs => exact elementsStep_sound vs outer c
  | members ms => exact membersStep_sound ms outer c

/-- The same state but for a literal that is written in another way. -/
def Alike (s t : State) : Prop :=
  s = t ∨ ∃ p lex raw raw' outer, Literal p ∧ s = ⟨p lex raw,outer⟩ ∧ t = ⟨p lex raw',outer⟩ ∧
    ∀ x, unquote (raw ++ x) = unquote (raw' ++ x)

theorem Alike.literal {p : Lex → Bytes → Phase} (hp : Literal p) {lex : Lex} {raw raw' : Bytes} {outer : List Frame}
    (h : ∀ x, unquote (raw ++ x) = unquote (raw' ++ x)) : Alike ⟨p lex raw,outer⟩ ⟨p lex raw',outer⟩ :=
  Or.inr ⟨p,lex,raw,raw',outer,hp,rfl,rfl,h⟩

theorem Alike.cases_literal {p : Lex → Bytes → Phase} (hp : Literal p) {lex : Lex} {raw : Bytes} {outer : List Frame} {t : State}
    (h : Alike ⟨p lex raw,outer⟩ t) : ∃ raw', t = ⟨p lex raw',outer⟩ ∧ ∀ x, unquote (raw ++ x) = unquote (raw' ++ x) := by
  rcases h with rfl | ⟨q,_,_,raw',_,hq,hs,rfl,h⟩
  · exact ⟨raw,rfl,fun _ => rfl⟩
  · cases hp <;> cases hq <;> cases hs <;> exact ⟨raw',rfl,h⟩

theorem Alike.eq_of_not_literal {s t : State} (h : Alike s t) (hs : ∀ p lex raw, Literal p → s.phase ≠ p lex raw) : s = t := by
  rcases h with rfl | ⟨p,lex,raw,_,_,hp,rfl,-⟩
  · rfl
  · exact absurd rfl (hs p lex raw hp)

/-- A literal is closed with what it stands for. -/
theorem step_literal_close {p : Lex → Bytes → Phase} (hp : Literal p) {lex : Lex} {c : UInt8} (h : lex.next c = .close)
    {raw raw' : Bytes} (heq : unquote raw = unquote raw') (outer : List Frame) :
    step ⟨p lex raw,outer⟩ c = step ⟨p lex raw',outer⟩ c := by
  cases hp <;> simp only [step, h, heq]

theorem step_literal_bad {p : Lex → Bytes → Phase} (hp : Literal p) {lex : Lex} {c : UInt8} (h : lex.next c = .bad) (raw : Bytes)
    (outer : List Frame) : step ⟨p lex raw,outer⟩ c = .bad := by
  cases hp <;> simp only [step, h]

theorem Alike.step {s s' t : State} {c : UInt8} {w : Option Value} (h : Alike s t) (hs : step s c = (w,some s')) :
    ∃ t', Json.step t c = (w,some t') ∧ Alike s' t' := by
  rcases h with rfl | ⟨p,lex,raw,raw',outer,hp,rfl,rfl,h⟩
  · exact ⟨s',hs,Or.inl rfl⟩
  · cases hl : lex.next c with
    | go l =>
      rw [step_literal hp hl] at hs
      cases hs
      exact ⟨_,step_literal hp hl raw' outer,.literal hp fun x => by simpa using h (c :: x)⟩
    | close =>
      have heq : unquote raw = unquote raw' := by simpa using h []
      exact ⟨s',by rw [← step_literal_close hp hl heq, hs],Or.inl rfl⟩
    | bad =>
      rw [step_literal_bad hp hl] at hs
      cases hs

/-- The first bytes of what is escaped. -/
def leads : Bytes := [0x3c,0x3e,0x26,0xe2]

/-- They occur in literals only, and not in an escape there. -/
theorem step_leads {s : State} {c : UInt8} (hc : c ∈ leads) (hs : s.phase.Sound) (h : (step s c).2.isSome) :
    ∃ p raw, Literal p ∧ s.phase = p .plain raw := by
  have hcases : c = 0x3c ∨ c = 0x3e ∨ c = 0x26 ∨ c = 0xe2 := by simpa [leads] using hc
  have hlex (lex : Lex) (hgo : lex.next c ≠ .bad) : lex = .plain := by
    rcases lex with _ | _ | _ | n
    · rfl
    all_goals exact absurd (by rcases hcases with rfl | rfl | rfl | rfl <;> rfl) hgo
  obtain ⟨phase,outer⟩ := s
  cases phase with
  | value => rcases hcases with rfl | rfl | rfl | rfl <;> cases h
  | key ms => rcases hcases with rfl | rfl | rfl | rfl <;> cases h
  | keyText ms lex raw =>
    obtain rfl := hlex lex fun hbad => by simp [step, hbad, Step.bad] at h
    exact ⟨_,raw,.key ms,rfl⟩
  | colon ms key => rcases hcases with rfl | rfl | rfl | rfl <;> cases h
  | text lex raw =>
    obtain rfl := hlex lex fun hbad => by simp [step, hbad, Step.bad] at h
    exact ⟨_,raw,.text,rfl⟩
  | number num raw =>
    have hnext : num.next c = none := by rcases hcases with rfl | rfl | rfl | rfl <;> cases num <;> rfl
    simp only [step, hnext] at h
    split at h
    · rcases outer with _ | ⟨vs | ⟨ms,key⟩,outer⟩ <;> rcases hcases with rfl | rfl | rfl | rfl <;> cases h
    · cases h
  | word left v =>
    cases left with
    | nil => cases h
    | cons b left =>
      have hb := ((Bool.and_eq_true _ _).mp hs).1
      have hne : c ≠ b := by
        rintro rfl
        rcases hcases with rfl | rfl | rfl | rfl <;> cases hb
      simp [step, wordStep, hne, Step.bad] at h
  | elements vs => rcases hcases with rfl | rfl | rfl | rfl <;> cases h
  | members ms => rcases hcases with rfl | rfl | rfl | rfl <;> cases h

theorem markup_leads : ∀ e ∈ markup, ∃ c t, e.1 = c :: t ∧ c ∈ leads := by
  simp [markup, leads]

/-- Reading what is escaped on one side and the escape on the other. -/
theorem Alike.markup {e : Bytes × Bytes} (he : e ∈ markup) {s t u : State} (h : Alike s t) (hs : s.phase.Sound) {b : Bytes}
    {vs : List Value} (hfeed : feed s (e.1 ++ b) = (vs,some u)) :
    ∃ s' t', s'.phase.Sound ∧ Alike s' t' ∧ feed s' b = (vs,some u) ∧ feed t e.2 = ([],some t') := by
  obtain ⟨hold,hnew⟩ := run_markup e he
  obtain ⟨p,raw,hp,hphase⟩ : ∃ p raw, Literal p ∧ s.phase = p .plain raw := by
    obtain ⟨c,l,hl,hc⟩ := markup_leads e he
    rw [hl, List.cons_append] at hfeed
    obtain ⟨w,t,_,hstep,-⟩ := of_feed_cons hfeed
    exact step_leads hc hs (by rw [hstep]; rfl)
  obtain ⟨phase,outer⟩ := s
  obtain rfl : phase = p .plain raw := hphase
  obtain ⟨raw',rfl,hsame⟩ := h.cases_literal hp
  have hraw : Lex.plain.run raw = some .plain := by cases hp <;> exact hs
  rw [feed_append (feed_literal hp hold raw outer)] at hfeed
  refine ⟨_,_,?_,.literal hp fun x => ?_,hfeed,feed_literal hp hnew raw' outer⟩
  · cases hp <;> exact (Lex.run_append hraw _).trans hold
  · rw [List.append_assoc, List.append_assoc, unquote_append_markup he hraw, hsame]

/-- The induction is on the length, what is escaped being several bytes. -/
theorem Alike.feed {s t u : State} (h : Alike s t) (hs : s.phase.Sound) {b : Bytes} {vs : List Value}
    (hfeed : feed s b = (vs,some u)) : ∃ u', Json.feed t (escapeFrom 0 b) = (vs,some u') ∧ Alike u u' := by
  match b with
  | [] =>
    cases hfeed
    exact ⟨t,rfl,h⟩
  | c :: b =>
    rw [escapeFrom]
    cases hfind : Json.markup.find? fun e => e.1.isPrefixOf (c :: b) with
    | none =>
      obtain ⟨w,s',ws,hstep,hrest,rfl⟩ := of_feed_cons hfeed
      obtain ⟨t',ht,hlike⟩ := h.step hstep
      obtain ⟨u',hu,hend⟩ := hlike.feed (step_sound hs c w s' hstep) hrest
      refine ⟨u',?_,hend⟩
      dsimp only
      rw [feed_cons ht, hu]
    | some e =>
      have he := List.mem_of_find?_eq_some hfind
      have hprefix : e.1.isPrefixOf (c :: b) = true := List.find?_some (p := fun e : Bytes × Bytes => e.1.isPrefixOf (c :: b)) hfind
      obtain ⟨rest,hrest⟩ := List.isPrefixOf_iff_prefix.mp hprefix
      obtain ⟨l,ls,hl,-⟩ := markup_leads e he
      have hb : b.drop (e.1.length - 1) = rest := by
        rw [hl, List.cons_append] at hrest
        rw [hl, ← (List.cons.inj hrest).2]
        simp
      rw [← hrest] at hfeed
      obtain ⟨s',t',hsound,hlike,hnext,ht⟩ := h.markup he hs hfeed
      have hshort : rest.length < b.length + 1 := by
        rw [← hb, List.length_drop]
        omega
      obtain ⟨u',hu,hend⟩ := hlike.feed hsound hnext
      refine ⟨u',?_,hend⟩
      dsimp only
      rw [escapeFrom_skip, hb, feed_append ht, hu]
      rfl
termination_by b.length

theorem decode_escape {b : Bytes} {v : Value} (h : decode b = some v) : decode (escapeFrom 0 b) = some v := by
  refine decode_of_ends ?_
  have hfeed {u : State} {vs : List Value} (hu : feed .start b = (vs,some u))
      (hphase : ∀ p lex raw, Literal p → u.phase ≠ p lex raw) : feed .start (escapeFrom 0 b) = (vs,some u) := by
    obtain ⟨u',hu',hend⟩ := Alike.feed (Or.inl rfl) (by trivial) hu
    rw [hu', hend.eq_of_not_literal hphase]
  rcases ends_of_decode h with hu | ⟨num,raw,hcomplete,hv,hu⟩
  · exact Or.inl (hfeed hu fun p lex raw hp => by cases hp <;> nofun)
  · exact Or.inr ⟨num,raw,hcomplete,hv,hfeed hu fun p lex raw hp => by cases hp <;> nofun⟩

/-! ## Both -/

def compact (b : Bytes) : Bytes := escapeFrom 0 (dropSpaces .start b)

theorem decode_compact {b : Bytes} {v : Value} (h : decode b = some v) : decode (compact b) = some v :=
  decode_escape (decode_dropSpaces h)

end Stout.Json
