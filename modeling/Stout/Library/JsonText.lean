import Mathlib

/-! # What a JSON string literal stands for

Strings are bytes. `unquote` takes a literal without its quotes, resolves the escapes and
puts the replacement character in the place of every byte that is not part of a
well-formed rune. A literal that is no longer than its string, counted in ASCII bytes, has
no escapes.
-/
namespace Stout.Json

abbrev Bytes := List UInt8

def quote : UInt8 := 0x22

def backslash : UInt8 := 0x5c

/-! ## Runes -/

def inRange (lo hi b : UInt8) : Bool := decide (lo ≤ b) && decide (b ≤ hi)

/-- The bytes of a rune but the first two. -/
def isTail (b : UInt8) : Bool := inRange 0x80 0xbf b

/-- The first two bytes of a rune of three: no overlong forms and no surrogates. -/
def leadsThree (b c : UInt8) : Bool :=
  if b = 0xe0 then inRange 0xa0 0xbf c
  else if b = 0xed then inRange 0x80 0x9f c
  else inRange 0xe1 0xef b && isTail c

/-- The first two bytes of a rune of four: no overlong forms and nothing beyond the last
rune. -/
def leadsFour (b c : UInt8) : Bool :=
  if b = 0xf0 then inRange 0x90 0xbf c
  else if b = 0xf4 then inRange 0x80 0x8f c
  else inRange 0xf1 0xf3 b && isTail c

def runeLengthFour (b c d : UInt8) : Bytes → ℕ
  | [] => 0
  | e :: _ => if leadsFour b c && isTail d && isTail e then 4 else 0

def runeLengthThree (b c : UInt8) : Bytes → ℕ
  | [] => 0
  | d :: rest => if leadsThree b c && isTail d then 3 else runeLengthFour b c d rest

def runeLengthTwo (b : UInt8) : Bytes → ℕ
  | [] => 0
  | c :: rest => if inRange 0xc2 0xdf b && isTail c then 2 else runeLengthThree b c rest

/-- The number of bytes of the rune at the front, 0 if no well-formed one is there. -/
def runeLength (b : UInt8) (rest : Bytes) : ℕ := if b < 0x80 then 1 else runeLengthTwo b rest

theorem runeLength_ascii {b : UInt8} {rest : Bytes} (h : runeLength b rest = 0) : 0x80 ≤ b := by
  by_contra hn
  rw [runeLength, if_pos (UInt8.not_le.mp hn)] at h
  cases h

theorem isTail_le {b : UInt8} (h : isTail b = true) : 0x80 ≤ b := by
  rw [isTail, inRange, Bool.and_eq_true, decide_eq_true_eq] at h
  exact h.1

theorem inRange_le {lo hi b : UInt8} (h : inRange lo hi b = true) (hlo : 0x80 ≤ lo) : 0x80 ≤ b := by
  rw [inRange, Bool.and_eq_true, decide_eq_true_eq] at h
  exact UInt8.le_trans hlo h.1

theorem leadsThree_le {b c : UInt8} (h : leadsThree b c = true) : 0x80 ≤ c := by
  unfold leadsThree at h
  split at h
  · exact inRange_le h (by decide)
  split at h
  · exact inRange_le h (by decide)
  · exact isTail_le ((Bool.and_eq_true _ _).mp h).2

theorem leadsFour_le {b c : UInt8} (h : leadsFour b c = true) : 0x80 ≤ c := by
  unfold leadsFour at h
  split at h
  · exact inRange_le h (by decide)
  split at h
  · exact inRange_le h (by decide)
  · exact isTail_le ((Bool.and_eq_true _ _).mp h).2

/-- After `m` bytes of a rune, the length depends on the bytes of the rune alone, and these
are not ASCII. -/
def Settled (m : ℕ) (f : Bytes → ℕ) : Prop :=
  ∀ s, f s ≠ 0 → ∃ k, f s = m + k + 1 ∧ (∀ x ∈ s.take (k + 1), 0x80 ≤ x) ∧
    ∀ t : Bytes, t.take (k + 1) = s.take (k + 1) → f t = f s

theorem Settled.cons {m : ℕ} {f : Bytes → ℕ} {last : UInt8 → Bool} {g : UInt8 → Bytes → ℕ} (hnil : f [] = 0)
    (hcons : ∀ c s, f (c :: s) = if last c then m + 1 else g c s) (hlast : ∀ c, last c = true → 0x80 ≤ c)
    (hg : ∀ c, Settled (m + 1) (g c)) (hlead : ∀ c s, g c s ≠ 0 → 0x80 ≤ c) : Settled m f := by
  intro s hs
  cases s with
  | nil => exact absurd hnil hs
  | cons c s =>
    rw [hcons] at hs
    simp only [hcons]
    cases hc : last c with
    | true =>
      refine ⟨0,if_pos rfl,by simpa using hlast c hc,fun t ht => ?_⟩
      cases t with
      | nil => cases ht
      | cons x t =>
        obtain ⟨rfl,-⟩ := List.cons.inj ht
        rw [hcons, if_pos hc, if_pos rfl]
    | false =>
      rw [hc, if_neg Bool.false_ne_true] at hs
      obtain ⟨k,hk,hx,ht⟩ := hg c s hs
      refine ⟨k + 1,by rw [if_neg Bool.false_ne_true, hk]; omega,?_,fun t htake => ?_⟩
      · rw [List.take_succ_cons]
        intro x hm
        rcases List.mem_cons.mp hm with rfl | hm
        · exact hlead x s hs
        · exact hx x hm
      · cases t with
        | nil => cases htake
        | cons x t =>
          rw [List.take_succ_cons, List.take_succ_cons] at htake
          obtain ⟨rfl,hrest⟩ := List.cons.inj htake
          rw [hcons, hc]
          exact ht t hrest

theorem runeLengthFour_settled (b c d : UInt8) : Settled 3 (runeLengthFour b c d) := by
  refine Settled.cons (g := fun _ _ => 0) rfl (fun e s => rfl) (fun e he => ?_) (fun e s h => absurd rfl h)
    fun e s h => absurd rfl h
  simp only [Bool.and_eq_true] at he
  exact isTail_le he.2

theorem runeLengthFour_lead {b c d : UInt8} {s : Bytes} (h : runeLengthFour b c d s ≠ 0) : 0x80 ≤ c ∧ 0x80 ≤ d := by
  cases s with
  | nil => exact absurd rfl h
  | cons e s =>
    rw [runeLengthFour] at h
    split at h
    · rename_i he
      simp only [Bool.and_eq_true] at he
      exact ⟨leadsFour_le he.1.1,isTail_le he.1.2⟩
    · exact absurd rfl h

theorem runeLengthThree_settled (b c : UInt8) : Settled 2 (runeLengthThree b c) := by
  refine Settled.cons rfl (fun d s => rfl) (fun d hd => ?_) (runeLengthFour_settled b c)
    fun d s h => (runeLengthFour_lead h).2
  exact isTail_le ((Bool.and_eq_true _ _).mp hd).2

theorem runeLengthThree_lead {b c : UInt8} {s : Bytes} (h : runeLengthThree b c s ≠ 0) : 0x80 ≤ c := by
  cases s with
  | nil => exact absurd rfl h
  | cons d s =>
    rw [runeLengthThree] at h
    split at h
    · rename_i hd
      exact leadsThree_le ((Bool.and_eq_true _ _).mp hd).1
    · exact (runeLengthFour_lead h).1

theorem runeLengthTwo_settled (b : UInt8) : Settled 1 (runeLengthTwo b) :=
  Settled.cons rfl (fun _ _ => rfl) (fun _ hc => isTail_le ((Bool.and_eq_true _ _).mp hc).2) (runeLengthThree_settled b)
    fun _ _ => runeLengthThree_lead

/-- The rune at the front: no ASCII after the first byte, and what follows the rune does
not matter. -/
theorem runeLength_spec {b : UInt8} {s : Bytes} {k : ℕ} (h : runeLength b s = k + 1) :
    (∀ c ∈ s.take k, 0x80 ≤ c) ∧ ∀ t : Bytes, t.take k = s.take k → runeLength b t = k + 1 := by
  unfold runeLength at h ⊢
  split at h
  · rename_i hb
    obtain rfl : k = 0 := by omega
    exact ⟨by simp,fun _ _ => if_pos hb⟩
  · rename_i hb
    obtain ⟨j,hj,hc,ht⟩ := runeLengthTwo_settled b s (by omega)
    obtain rfl : k = j + 1 := by omega
    refine ⟨hc,fun t htake => ?_⟩
    rw [if_neg hb, ht t htake, h]

/-- Every byte is part of a well-formed rune, after the given number of bytes of one. -/
def wellFormedFrom : ℕ → Bytes → Bool
  | _, [] => true
  | k + 1, _ :: rest => wellFormedFrom k rest
  | 0, b :: rest =>
    match runeLength b rest with
    | 0 => false
    | k + 1 => wellFormedFrom k rest

/-- The rune of a leading byte and the bytes that belong to it. -/
def runeOf (b : UInt8) (tail : Bytes) : ℕ :=
  let lead := match tail.length with
    | 0 => b.toNat
    | 1 => b.toNat % 32
    | 2 => b.toNat % 16
    | _ => b.toNat % 8
  tail.foldl (fun r c => r * 64 + c.toNat % 64) lead

def runesFrom : ℕ → Bytes → List Char
  | _, [] => []
  | k + 1, _ :: rest => runesFrom k rest
  | 0, b :: rest =>
    match runeLength b rest with
    | 0 => Char.ofNat 0xfffd :: runesFrom 0 rest
    | k + 1 => Char.ofNat (runeOf b (rest.take k)) :: runesFrom k rest

def utf8Text (s : Bytes) : String := String.ofList (runesFrom 0 s)

def replacement : Bytes := [0xef,0xbf,0xbd]

/-- The bytes of no well-formed rune replaced. -/
def coerceFrom : ℕ → Bytes → Bytes
  | _, [] => []
  | k + 1, b :: rest => b :: coerceFrom k rest
  | 0, b :: rest =>
    match runeLength b rest with
    | 0 => replacement ++ coerceFrom 0 rest
    | k + 1 => b :: coerceFrom k rest

theorem take_coerceFrom (k : ℕ) (s : Bytes) : (coerceFrom k s).take k = s.take k := by
  induction s generalizing k with
  | nil => cases k <;> rfl
  | cons b s ih =>
    cases k with
    | zero => rfl
    | succ k => rw [coerceFrom, List.take_succ_cons, List.take_succ_cons, ih]

theorem wellFormed_coerceFrom (k : ℕ) (s : Bytes) : wellFormedFrom k (coerceFrom k s) = true := by
  induction s generalizing k with
  | nil => cases k <;> rfl
  | cons b s ih =>
    cases k with
    | succ k => exact ih k
    | zero =>
      rw [coerceFrom]
      cases hr : runeLength b s with
      | zero => exact ih 0
      | succ k =>
        dsimp only
        rw [wellFormedFrom, (runeLength_spec hr).2 _ (take_coerceFrom k s)]
        exact ih k

theorem coerceFrom_wellFormed {k : ℕ} {s : Bytes} (h : wellFormedFrom k s = true) : coerceFrom k s = s := by
  induction s generalizing k with
  | nil => cases k <;> rfl
  | cons b s ih =>
    cases k with
    | succ k => rw [coerceFrom, ih h]
    | zero =>
      rw [wellFormedFrom] at h
      rw [coerceFrom]
      cases hr : runeLength b s with
      | zero =>
        rw [hr] at h
        cases h
      | succ k =>
        rw [hr] at h
        dsimp only
        rw [ih h]

theorem mem_of_mem_coerceFrom {k : ℕ} {s : Bytes} {x : UInt8} (hx : x < 0x80) (h : x ∈ coerceFrom k s) : x ∈ s := by
  have hnew : x ∉ replacement := by
    intro hm
    simp only [replacement, List.mem_cons, List.not_mem_nil, or_false] at hm
    rcases hm with rfl | rfl | rfl <;> exact absurd hx (by decide)
  induction s generalizing k with
  | nil => cases k <;> cases h
  | cons b s ih =>
    have hcons {j : ℕ} (hm : x ∈ b :: coerceFrom j s) : x ∈ b :: s := by
      rcases List.mem_cons.mp hm with rfl | hm
      · exact List.mem_cons_self
      · exact List.mem_cons_of_mem b (ih hm)
    cases k with
    | succ k => exact hcons h
    | zero =>
      rw [coerceFrom] at h
      cases hr : runeLength b s with
      | zero =>
        rw [hr] at h
        exact List.mem_cons_of_mem b (ih ((List.mem_append.mp h).resolve_left hnew))
      | succ k =>
        rw [hr] at h
        exact hcons h

/-! ## Escapes -/

def hexDigit (b : UInt8) : Option ℕ :=
  if inRange 0x30 0x39 b then some (b.toNat - 0x30)
  else if inRange 0x41 0x46 b then some (b.toNat - 0x37)
  else if inRange 0x61 0x66 b then some (b.toNat - 0x57)
  else none

def hexFour : Bytes → Option ℕ
  | a :: b :: c :: d :: _ => do
    let a ← hexDigit a
    let b ← hexDigit b
    let c ← hexDigit c
    let d ← hexDigit d
    return ((a * 16 + b) * 16 + c) * 16 + d
  | _ => none

/-- The second half of a surrogate pair, as the escape that follows. -/
def lowSurrogate : Bytes → Option ℕ
  | a :: b :: rest =>
    if a = backslash ∧ b = 0x75 then (hexFour rest).filter fun r => decide (0xdc00 ≤ r) && decide (r < 0xe000) else none
  | _ => none

def encodeRune (r : ℕ) : Bytes :=
  if r < 0x80 then [r.toUInt8]
  else if r < 0x800 then [(0xc0 + r / 64).toUInt8,(0x80 + r % 64).toUInt8]
  else if r < 0x10000 then [(0xe0 + r / 4096).toUInt8,(0x80 + r / 64 % 64).toUInt8,(0x80 + r % 64).toUInt8]
  else [(0xf0 + r / 262144).toUInt8,(0x80 + r / 4096 % 64).toUInt8,(0x80 + r / 64 % 64).toUInt8,(0x80 + r % 64).toUInt8]

def escaped (c : UInt8) : UInt8 :=
  if c = 0x62 then 0x08
  else if c = 0x66 then 0x0c
  else if c = 0x6e then 0x0a
  else if c = 0x72 then 0x0d
  else if c = 0x74 then 0x09
  else c

def pairRune (high low : ℕ) : ℕ := 0x10000 + (high - 0xd800) * 1024 + (low - 0xdc00)

/-- What the escape after a backslash stands for, and the number of its bytes. A surrogate
that is not half of a pair is replaced. -/
def escape : Bytes → Bytes × ℕ
  | [] => ([],0)
  | c :: rest =>
    if c = 0x75 then
      match hexFour rest with
      | none => ([],1)
      | some r =>
        if 0xd800 ≤ r ∧ r < 0xe000 then
          match lowSurrogate (rest.drop 4) with
          | some low => if r < 0xdc00 then (encodeRune (pairRune r low),11) else (replacement,5)
          | none => (replacement,5)
        else (encodeRune r,5)
    else ([escaped c],1)

/-- After the bytes to be left out and then the bytes of a rune to be taken over. -/
def unquoteFrom : ℕ → ℕ → Bytes → Bytes
  | _, _, [] => []
  | n + 1, k, _ :: rest => unquoteFrom n k rest
  | 0, k + 1, b :: rest => b :: unquoteFrom 0 k rest
  | 0, 0, b :: rest =>
    if b = backslash then (escape rest).1 ++ unquoteFrom (escape rest).2 0 rest
    else
      match runeLength b rest with
      | 0 => replacement ++ unquoteFrom 0 0 rest
      | k + 1 => b :: unquoteFrom 0 k rest

def unquote (raw : Bytes) : Bytes := unquoteFrom 0 0 raw

def ascii (s : Bytes) : ℕ := s.countP fun b => decide (b < 0x80)

@[simp] theorem ascii_nil : ascii [] = 0 := rfl

@[simp] theorem ascii_cons (b : UInt8) (s : Bytes) : ascii (b :: s) = ascii s + if b < 0x80 then 1 else 0 := by
  simp [ascii, List.countP_cons]

@[simp] theorem ascii_append (s t : Bytes) : ascii (s ++ t) = ascii s + ascii t := List.countP_append

theorem ascii_le_length (s : Bytes) : ascii s ≤ s.length := List.countP_le_length

theorem ascii_take_add_drop (n : ℕ) (s : Bytes) : ascii (s.take n) + ascii (s.drop n) = ascii s := by
  rw [← ascii_append, List.take_append_drop]

theorem hexDigit_range {b : UInt8} {n : ℕ} (h : hexDigit b = some n) : 0x20 ≤ b ∧ b < 0x80 := by
  have hrange {lo hi : UInt8} (hr : inRange lo hi b = true) (hlo : 0x20 ≤ lo) (hhi : hi < 0x80) : 0x20 ≤ b ∧ b < 0x80 := by
    rw [inRange, Bool.and_eq_true, decide_eq_true_eq, decide_eq_true_eq] at hr
    exact ⟨UInt8.le_trans hlo hr.1,UInt8.lt_of_le_of_lt hr.2 hhi⟩
  unfold hexDigit at h
  split at h
  · exact hrange (by assumption) (by decide) (by decide)
  split at h
  · exact hrange (by assumption) (by decide) (by decide)
  split at h
  · exact hrange (by assumption) (by decide) (by decide)
  · cases h

theorem hexFour_ascii {s : Bytes} {n : ℕ} (h : hexFour s = some n) : ascii (s.take 4) = 4 := by
  match s, h with
  | a :: b :: c :: d :: _, h =>
    simp only [hexFour, bind, Option.bind_eq_some_iff] at h
    obtain ⟨_,ha,_,hb,_,hc,_,hd,-⟩ := h
    simp [(hexDigit_range ha).2, (hexDigit_range hb).2, (hexDigit_range hc).2, (hexDigit_range hd).2]

theorem length_encodeRune (r : ℕ) : (encodeRune r).length ≤ 4 := by
  unfold encodeRune
  split
  · simp
  split
  · simp
  split <;> simp

/-- An escape has no fewer ASCII bytes than what it stands for, even without its backslash. -/
theorem ascii_escape (s : Bytes) : ascii (escape s).1 ≤ ascii (s.take (escape s).2) := by
  cases s with
  | nil => exact Nat.le_refl 0
  | cons c rest =>
    rw [escape]
    by_cases hu : c = 0x75
    · rw [if_pos hu]
      cases hr : hexFour rest with
      | none => exact Nat.zero_le _
      | some r =>
        have hfour := hexFour_ascii hr
        -- the escape has five ASCII bytes at least, and a rune has four bytes at most
        have hlong (out : Bytes) (n : ℕ) (hout : out.length ≤ 4) : ascii out ≤ ascii ((c :: rest).take (n + 5)) := by
          have hpre : ascii (rest.take 4) ≤ ascii (rest.take (n + 4)) := by
            have htake : (rest.take (n + 4)).take 4 = rest.take 4 := by rw [List.take_take, Nat.min_eq_left (by omega)]
            rw [← ascii_take_add_drop 4 (rest.take (n + 4)), htake]
            exact Nat.le_add_right _ _
          rw [List.take_succ_cons, ascii_cons]
          have := ascii_le_length out
          omega
        dsimp only
        split
        · split
          · split
            · dsimp only
              exact hlong _ 6 (length_encodeRune _)
            · exact hlong _ 0 (by decide)
          · exact hlong _ 0 (by decide)
        · exact hlong _ 0 (length_encodeRune r)
    · rw [if_neg hu]
      have hsame : escaped c < 0x80 → c < 0x80 := by
        intro h
        by_contra hc
        have hne (x : UInt8) (hx : x < 0x80) : c ≠ x := fun he => hc (he ▸ hx)
        rw [escaped, if_neg (hne _ (by decide)), if_neg (hne _ (by decide)), if_neg (hne _ (by decide)),
          if_neg (hne _ (by decide)), if_neg (hne _ (by decide))] at h
        exact hc h
      simp only [ascii_cons, ascii_nil, List.take_succ_cons, List.take_zero, Nat.zero_add]
      split
      · rename_i h
        rw [if_pos (hsame h)]
      · exact Nat.zero_le _

theorem ascii_replacement : ascii replacement = 0 := by decide

theorem ascii_unquoteFrom (n k : ℕ) (s : Bytes) : ascii (unquoteFrom n k s) ≤ ascii (s.drop n) := by
  induction s generalizing n k with
  | nil => simp [unquoteFrom]
  | cons b s ih =>
    cases n with
    | succ n =>
      rw [unquoteFrom]
      exact ih n k
    | zero =>
      cases k with
      | succ k =>
        rw [unquoteFrom, List.drop_zero, ascii_cons, ascii_cons]
        exact Nat.add_le_add_right (ih 0 k) _
      | zero =>
        rw [unquoteFrom, List.drop_zero, ascii_cons]
        split
        · have hesc := ascii_escape s
          have hrest := ih (escape s).2 0
          have hsplit := ascii_take_add_drop (escape s).2 s
          rw [ascii_append]
          omega
        · cases hr : runeLength b s with
          | zero =>
            have hrest := ih 0 0
            rw [List.drop_zero] at hrest
            dsimp only
            rw [ascii_append, ascii_replacement]
            omega
          | succ k =>
            have hrest := ih 0 k
            rw [List.drop_zero] at hrest
            dsimp only
            rw [ascii_cons]
            omega

theorem ascii_unquote (raw : Bytes) : ascii (unquote raw) ≤ ascii raw := ascii_unquoteFrom 0 0 raw

/-- Where no ASCII byte has been spent on an escape, there is none. -/
theorem unquoteFrom_tight {k : ℕ} {s : Bytes} (hk : ∀ c ∈ s.take k, 0x80 ≤ c)
    (h : ascii (unquoteFrom 0 k s) = ascii s) : backslash ∉ s ∧ unquoteFrom 0 k s = coerceFrom k s := by
  induction s generalizing k with
  | nil => cases k <;> exact ⟨by simp,rfl⟩
  | cons b s ih =>
    have hcons {j : ℕ} (hb : b ≠ backslash) (hj : ∀ c ∈ s.take j, 0x80 ≤ c)
        (h : ascii (b :: unquoteFrom 0 j s) = ascii (b :: s)) :
        backslash ∉ b :: s ∧ b :: unquoteFrom 0 j s = b :: coerceFrom j s := by
      rw [ascii_cons, ascii_cons] at h
      obtain ⟨hno,heq⟩ := ih hj (Nat.add_right_cancel h)
      exact ⟨by simpa [hno] using hb.symm,by rw [heq]⟩
    cases k with
    | succ k =>
      rw [List.take_succ_cons] at hk
      have hb : b ≠ backslash := by
        rintro rfl
        exact absurd (hk backslash List.mem_cons_self) (by decide)
      rw [unquoteFrom] at h ⊢
      exact hcons hb (fun c hc => hk c (List.mem_cons_of_mem b hc)) h
    | zero =>
      rw [unquoteFrom] at h ⊢
      by_cases hb : b = backslash
      · have hesc := ascii_escape s
        have hrest := ascii_unquoteFrom (escape s).2 0 s
        have hsplit := ascii_take_add_drop (escape s).2 s
        rw [if_pos hb, ascii_append, ascii_cons, if_pos (hb ▸ by decide)] at h
        omega
      · rw [if_neg hb] at h ⊢
        rw [coerceFrom]
        cases hr : runeLength b s with
        | zero =>
          rw [hr] at h
          have hlead := runeLength_ascii hr
          dsimp only at h ⊢
          rw [ascii_append, ascii_replacement, ascii_cons, if_neg (UInt8.not_lt.mpr hlead), Nat.zero_add] at h
          obtain ⟨hno,heq⟩ := ih (by simp) h
          exact ⟨by simpa [hno] using fun he => hb he.symm,by rw [heq]⟩
        | succ k =>
          rw [hr] at h
          exact hcons hb (runeLength_spec hr).1 h

theorem unquoteFrom_plain {k : ℕ} {s : Bytes} (h : backslash ∉ s) : unquoteFrom 0 k s = coerceFrom k s := by
  induction s generalizing k with
  | nil => cases k <;> rfl
  | cons b s ih =>
    have hs : backslash ∉ s := fun hm => h (List.mem_cons_of_mem b hm)
    have hb : b ≠ backslash := fun he => h (he ▸ List.mem_cons_self)
    cases k with
    | succ k => rw [unquoteFrom, coerceFrom, ih hs]
    | zero =>
      rw [unquoteFrom, coerceFrom, if_neg hb]
      cases runeLength b s <;> dsimp only <;> rw [ih hs]

/-! ## Strings that are their own literals -/

/-- A string that stands for itself between quotes. -/
def Clean (s : Bytes) : Prop := (∀ b ∈ s, 0x20 ≤ b ∧ b ≠ quote ∧ b ≠ backslash) ∧ wellFormedFrom 0 s = true

instance (s : Bytes) : Decidable (Clean s) := inferInstanceAs (Decidable (_ ∧ _))

theorem Clean.unquote {s : Bytes} (h : Clean s) : unquote s = s := by
  have hno : backslash ∉ s := fun hm => (h.1 backslash hm).2.2 rfl
  rw [Json.unquote, unquoteFrom_plain hno, coerceFrom_wellFormed h.2]

theorem clean_of_tight {raw : Bytes} (hctl : ∀ b ∈ raw, 0x20 ≤ b) (hquote : backslash ∉ raw → quote ∉ raw)
    (h : ascii (unquote raw) = ascii raw) : Clean (unquote raw) := by
  obtain ⟨hno,heq⟩ := unquoteFrom_tight (by simp) h
  rw [unquote, heq]
  refine ⟨fun b hb => ?_,wellFormed_coerceFrom 0 raw⟩
  by_cases hlt : b < 0x80
  · have hm := mem_of_mem_coerceFrom hlt hb
    exact ⟨hctl b hm,fun he => hquote hno (he ▸ hm),fun he => hno (he ▸ hm)⟩
  · have hle := UInt8.not_lt.mp hlt
    refine ⟨UInt8.le_trans (by decide) hle,?_,?_⟩ <;> rintro rfl <;> exact hlt (by decide)

/-! ## Names of fields -/

def ofAscii (text : String) : Bytes := text.toList.map fun c => c.toNat.toUInt8

def isLetter (b : UInt8) : Bool := inRange 0x41 0x5a (b &&& 0xdf)

/-- The key names the field, whose name is in ASCII, in any case. The long s and the Kelvin
sign are cases of `s` and `k`. -/
def foldEq : Bytes → Bytes → Bool
  | [], key => key.isEmpty
  | _ :: _, [] => false
  | s :: name, t :: key =>
    if t < 0x80 then (s == t || isLetter s && s &&& 0xdf == t &&& 0xdf) && foldEq name key
    else if s &&& 0xdf = 0x53 ∧ (t :: key).take 2 = [0xc5,0xbf] then foldEq name (key.drop 1)
    else if s &&& 0xdf = 0x4b ∧ (t :: key).take 3 = [0xe2,0x84,0xaa] then foldEq name (key.drop 2)
    else false

end Stout.Json
