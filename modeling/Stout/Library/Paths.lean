import Mathlib

/-! # Paths

`Clean`, `Join`, `Dir` and `Base` of `path/filepath`, and paths as the system reads them. A
path is walked name by name, from the root or from the working directory. The last name of
a place stands first. `Clean`, and so `Join` and `Dir`, do not change the place a path
stands for; `Dir` of what `Join` returns is the directory it is in, except for a path that
only climbs.
-/
namespace Stout.Paths

/-- One element of a path, with the elements before it on a stack. -/
def cleanStep (rooted : Bool) (stack : List String) (name : String) : List String :=
  if name = "" ∨ name = "." then stack
  else if name = ".." then
    match stack with
    | [] => if rooted then [] else [".."]
    | last :: rest => if last = ".." then ".." :: stack else rest
  else name :: stack

def clean (path : String) : String :=
  let rooted := path.toList.head? = some '/'
  let names := (path.toList.splitOn '/').map String.ofList
  let stack := (names.foldl (cleanStep rooted) []).reverse
  if rooted then "/" ++ "/".intercalate stack
  else if stack = [] then "."
  else "/".intercalate stack

/-- `filepath.Join`: empty elements at the beginning are dropped. -/
def joinAll : List String → String
  | [] => ""
  | e :: rest => if e ≠ "" then clean ("/".intercalate (e :: rest)) else joinAll rest

def join (a b : String) : String := joinAll [a,b]

theorem join_of_ne {a : String} (h : a ≠ "") (b : String) : join a b = clean (a ++ "/" ++ b) := if_pos h

def dir (path : String) : String := clean (String.ofList (path.toList.reverse.dropWhile (· ≠ '/')).reverse)

def base (path : String) : String :=
  if path = "" then "."
  else match path.toList.reverse.dropWhile (· = '/') with
    | [] => "/"
    | l => String.ofList (l.takeWhile (· ≠ '/')).reverse

def names (path : String) : List String := (path.toList.splitOn '/').map String.ofList

def Rooted (path : String) : Prop := path.toList.head? = some '/'

instance (path : String) : Decidable (Rooted path) := inferInstanceAs (Decidable (_ = _))

def walk (place : List String) (name : String) : List String :=
  if name = "" ∨ name = "." then place else if name = ".." then place.tail else name :: place

/-- The place a path stands for. -/
def resolve (cwd : List String) (path : String) : List String :=
  (names path).foldl walk (if Rooted path then [] else cwd)

theorem suffix_foldl_walk {ns : List String} (h : ".." ∉ ns) (place : List String) : place <:+ ns.foldl walk place := by
  induction ns generalizing place with
  | nil => exact List.suffix_rfl
  | cons n ns ih =>
    have hn : n ≠ ".." := fun he => h (he ▸ List.mem_cons_self)
    have hstep : place <:+ walk place n := by
      unfold walk
      split
      · exact List.suffix_rfl
      · exact List.suffix_cons n place
    exact hstep.trans (ih (fun hm => h (List.mem_cons_of_mem n hm)) _)

/-! ## What `Clean` leaves of the names -/

/-- A name that `Clean` keeps. -/
structure Plain (name : String) : Prop where
  ne_empty : name ≠ ""
  ne_dot : name ≠ "."
  noSlash : '/' ∉ name.toList

/-- Names that lead down, over those that climb; none of these in a rooted path. -/
structure Normal (rooted : Bool) (stack : List String) : Prop where
  plain : ∀ n ∈ stack, Plain n
  split : ∃ down k, stack = down ++ List.replicate k ".." ∧ ".." ∉ down ∧ (rooted = true → k = 0)

theorem noSlash_of_mem_splitOn {l w : List Char} (h : w ∈ l.splitOn '/') : '/' ∉ w := by
  rw [List.splitOn] at h
  induction l generalizing w with
  | nil =>
    rw [List.splitOnP_nil, List.mem_singleton] at h
    rw [h]
    exact List.not_mem_nil
  | cons c l ih =>
    rw [List.splitOnP_cons_eq_if_modifyHead] at h
    split at h
    · rcases List.mem_cons.mp h with rfl | h
      · exact List.not_mem_nil
      · exact ih h
    · rename_i hc
      cases hl : List.splitOnP (fun x => x == '/') l with
      | nil =>
        rw [hl] at h
        cases h
      | cons v vs =>
        rw [hl] at h ih
        rcases List.mem_cons.mp h with rfl | h
        · intro hm
          rcases List.mem_cons.mp hm with rfl | hm
          · exact hc rfl
          · exact ih List.mem_cons_self hm
        · exact ih (List.mem_cons_of_mem v h)

theorem noSlash_of_mem_names {path n : String} (h : n ∈ names path) : '/' ∉ n.toList := by
  obtain ⟨w,hw,rfl⟩ := List.mem_map.mp h
  rw [String.toList_ofList]
  exact noSlash_of_mem_splitOn hw

theorem splitOn_append (a b : List Char) : (a ++ '/' :: b).splitOn '/' = a.splitOn '/' ++ b.splitOn '/' :=
  List.splitOnP_append_cons a b rfl

theorem names_slash (a b : String) : names (a ++ "/" ++ b) = names a ++ names b := by
  have hl : (a ++ "/" ++ b).toList = a.toList ++ '/' :: b.toList := by
    rw [String.toList_append, String.toList_append, List.append_assoc]
    rfl
  rw [names, hl, splitOn_append, List.map_append]
  rfl

theorem names_intercalate {l : List String} (hl : l ≠ []) (h : ∀ n ∈ l, '/' ∉ n.toList) :
    names ("/".intercalate l) = l := by
  have hsep : "/".toList = ['/'] := rfl
  rw [names, String.toList_intercalate, hsep, List.splitOn_intercalate, List.map_map]
  · have hid : String.ofList ∘ String.toList = id := by
      funext n
      exact String.ofList_toList
    rw [hid, List.map_id]
  · intro w hw
    obtain ⟨n,hn,rfl⟩ := List.mem_map.mp hw
    exact h n hn
  · exact fun he => hl (List.map_eq_nil_iff.mp he)

/-- The path up to its last separator, which is what `Dir` cleans. -/
def upTo (l : List Char) : List Char := (l.reverse.dropWhile (· ≠ '/')).reverse

theorem upTo_cases (l : List Char) :
    ('/' ∉ l ∧ upTo l = []) ∨ ∃ a b, '/' ∉ b ∧ l = a ++ '/' :: b ∧ upTo l = a ++ ['/'] := by
  have hne {l : List Char} (h : '/' ∉ l) : ∀ c ∈ l, decide (c ≠ '/') = true := by
    intro c hc
    simpa using fun he : c = '/' => h (he ▸ hc)
  by_cases h : '/' ∈ l.reverse
  · obtain ⟨b,a,hab,hb⟩ := List.eq_append_cons_of_mem h
    refine Or.inr ⟨a.reverse,b.reverse,fun hm => hb (List.mem_reverse.mp hm),?_,?_⟩
    · rw [← List.reverse_reverse l, hab]
      simp
    · rw [upTo, hab, List.dropWhile_append_of_pos (hne hb)]
      exact List.reverse_cons
  · refine Or.inl ⟨fun hm => h (List.mem_reverse.mpr hm),?_⟩
    rw [upTo, List.dropWhile_eq_nil_iff.mpr (hne h), List.reverse_nil]

theorem splitOn_upTo (l : List Char) : (upTo l).splitOn '/' = (l.splitOn '/').dropLast ++ [[]] := by
  rcases upTo_cases l with ⟨h,hu⟩ | ⟨a,b,hb,rfl,hu⟩
  · rw [hu, List.splitOn_eq_singleton h]
    rfl
  · rw [hu, splitOn_append, splitOn_append, List.splitOn_eq_singleton hb, List.dropLast_concat, List.splitOn_nil]

theorem head_upTo (l : List Char) : (upTo l).head? = some '/' ↔ l.head? = some '/' := by
  rcases upTo_cases l with ⟨h,hu⟩ | ⟨a,b,-,rfl,hu⟩
  · rw [hu]
    refine iff_of_false nofun fun hl => h ?_
    exact List.mem_of_head? hl
  · rw [hu]
    cases a <;> rfl

theorem cleanStep_normal {rooted : Bool} {stack : List String} (h : Normal rooted stack) {n : String}
    (hn : '/' ∉ n.toList) : Normal rooted (cleanStep rooted stack n) := by
  obtain ⟨hplain,down,k,rfl,hdown,hk⟩ := h
  unfold cleanStep
  split
  · exact ⟨hplain,down,k,rfl,hdown,hk⟩
  rename_i hkeep
  split
  · cases down with
    | nil =>
      cases k with
      | zero =>
        cases rooted with
        | true => exact ⟨nofun,[],0,rfl,nofun,fun _ => rfl⟩
        | false =>
          refine ⟨?_,[],1,rfl,nofun,nofun⟩
          intro m hm
          rw [List.mem_singleton.mp hm]
          exact ⟨by decide,by decide,by decide⟩
      | succ k =>
        refine ⟨?_,[],k + 2,rfl,nofun,fun hr => absurd (hk hr) (Nat.succ_ne_zero k)⟩
        intro m hm
        rcases List.mem_cons.mp hm with rfl | hm
        · exact ⟨by decide,by decide,by decide⟩
        · exact hplain m hm
    | cons x down =>
      have hx : x ≠ ".." := fun h => hdown (h ▸ List.mem_cons_self)
      rw [List.cons_append]
      dsimp only
      rw [if_neg hx]
      refine ⟨fun m hm => hplain m (List.mem_cons_of_mem x hm),down,k,rfl,?_,hk⟩
      exact fun h => hdown (List.mem_cons_of_mem x h)
  · rename_i hup
    refine ⟨?_,n :: down,k,rfl,?_,hk⟩
    · intro m hm
      rcases List.mem_cons.mp hm with rfl | hm
      · exact ⟨fun h => hkeep (Or.inl h),fun h => hkeep (Or.inr h),hn⟩
      · exact hplain m hm
    · intro h
      rcases List.mem_cons.mp h with h | h
      · exact hup h.symm
      · exact hdown h

theorem foldl_normal {rooted : Bool} {ns : List String} (hns : ∀ n ∈ ns, '/' ∉ n.toList) {stack : List String}
    (h : Normal rooted stack) : Normal rooted (ns.foldl (cleanStep rooted) stack) := by
  induction ns generalizing stack with
  | nil => exact h
  | cons n ns ih =>
    exact ih (fun m hm => hns m (List.mem_cons_of_mem n hm)) (cleanStep_normal h (hns n List.mem_cons_self))

theorem normal_nil (rooted : Bool) : Normal rooted [] := ⟨nofun,[],0,rfl,nofun,fun _ => rfl⟩

/-- The names that climb are never taken back. -/
theorem count_le_cleanStep (rooted : Bool) (stack : List String) (n : String) :
    stack.count ".." ≤ (cleanStep rooted stack n).count ".." := by
  unfold cleanStep
  split
  · exact le_rfl
  split
  · split
    · exact Nat.zero_le _
    · rename_i last rest
      split
      · exact List.count_le_count_cons
      · rename_i hl
        rw [List.count_cons_of_ne hl]
  · exact List.count_le_count_cons

theorem count_le_foldl (rooted : Bool) (ns stack : List String) :
    stack.count ".." ≤ (ns.foldl (cleanStep rooted) stack).count ".." := by
  induction ns generalizing stack with
  | nil => exact le_rfl
  | cons n ns ih => exact (count_le_cleanStep rooted stack n).trans (ih _)

/-! ## Places -/

def place (base stack : List String) : List String := stack.foldr (fun n p => walk p n) base

theorem walk_down {n : String} (h : Plain n) (hn : n ≠ "..") (p : List String) : walk p n = n :: p := by
  rw [walk, if_neg (not_or.mpr ⟨h.ne_empty,h.ne_dot⟩), if_neg hn]

theorem place_cleanStep {rooted : Bool} {base stack : List String} (h : ∀ n ∈ stack, Plain n)
    (hb : rooted = true → base = []) (n : String) : place base (cleanStep rooted stack n) = walk (place base stack) n := by
  unfold cleanStep
  split
  · rename_i hn
    rw [walk, if_pos hn]
  split
  · rename_i hn
    subst hn
    cases stack with
    | nil =>
      cases rooted with
      | true =>
        rw [hb rfl]
        rfl
      | false => rfl
    | cons x rest =>
      dsimp only
      split
      · rfl
      · rename_i hx
        have hw : place base (x :: rest) = x :: place base rest := walk_down (h x List.mem_cons_self) hx _
        rw [hw]
        rfl
  · rfl

theorem place_foldl {rooted : Bool} {base : List String} (hb : rooted = true → base = []) {ns : List String}
    (hns : ∀ n ∈ ns, '/' ∉ n.toList) {stack : List String} (h : Normal rooted stack) :
    place base (ns.foldl (cleanStep rooted) stack) = ns.foldl walk (place base stack) := by
  induction ns generalizing stack with
  | nil => rfl
  | cons n ns ih =>
    have hstep := cleanStep_normal h (hns n List.mem_cons_self)
    rw [List.foldl_cons, List.foldl_cons, ih (fun m hm => hns m (List.mem_cons_of_mem n hm)) hstep,
      place_cleanStep h.plain hb]

/-- What `Clean` keeps of a path. -/
def kept (path : String) : List String := (names path).foldl (cleanStep (decide (Rooted path))) []

theorem kept_normal (path : String) : Normal (decide (Rooted path)) (kept path) :=
  foldl_normal (fun _ hn => noSlash_of_mem_names hn) (normal_nil _)

theorem clean_rooted {path : String} (h : Rooted path) : clean path = "/" ++ "/".intercalate (kept path).reverse :=
  if_pos h

theorem clean_relative {path : String} (h : ¬Rooted path) (hk : kept path ≠ []) :
    clean path = "/".intercalate (kept path).reverse := by
  have hne : (kept path).reverse ≠ [] := fun he => hk (List.reverse_eq_nil_iff.mp he)
  exact (if_neg h).trans (if_neg hne)

theorem clean_dot {path : String} (h : ¬Rooted path) (hk : kept path = []) : clean path = "." := by
  have he : (kept path).reverse = [] := by
    rw [hk]
    rfl
  exact (if_neg h).trans (if_pos he)

theorem names_clean_rooted {path : String} (h : Rooted path) :
    names (clean path) = "" :: if kept path = [] then [""] else (kept path).reverse := by
  have hs := names_slash "" ("/".intercalate (kept path).reverse)
  rw [String.empty_append, ← clean_rooted h] at hs
  rw [hs]
  by_cases hk : kept path = []
  · rw [if_pos hk, hk]
    rfl
  · rw [if_neg hk, names_intercalate (fun he => hk (List.reverse_eq_nil_iff.mp he))]
    · rfl
    · intro n hn
      exact ((kept_normal path).plain n (List.mem_reverse.mp hn)).noSlash

theorem names_clean_relative {path : String} (h : ¬Rooted path) :
    names (clean path) = if kept path = [] then ["."] else (kept path).reverse := by
  by_cases hk : kept path = []
  · rw [if_pos hk, clean_dot h hk]
    rfl
  · rw [if_neg hk, clean_relative h hk, names_intercalate (fun he => hk (List.reverse_eq_nil_iff.mp he))]
    intro n hn
    exact ((kept_normal path).plain n (List.mem_reverse.mp hn)).noSlash

theorem foldl_reverse_eq_place (base stack : List String) : stack.reverse.foldl walk base = place base stack :=
  List.foldl_reverse ..

theorem foldl_names_clean (path : String) (base : List String) :
    (names (clean path)).foldl walk base = place base (kept path) := by
  by_cases h : Rooted path
  · rw [names_clean_rooted h, List.foldl_cons]
    by_cases hk : kept path = []
    · rw [if_pos hk, hk]
      rfl
    · rw [if_neg hk]
      exact foldl_reverse_eq_place base (kept path)
  · rw [names_clean_relative h]
    by_cases hk : kept path = []
    · rw [if_pos hk, hk]
      rfl
    · rw [if_neg hk]
      exact foldl_reverse_eq_place base (kept path)

theorem foldl_dropLast_clean (path : String) (base : List String) :
    (names (clean path)).dropLast.foldl walk base = place base (kept path).tail := by
  by_cases h : Rooted path
  · rw [names_clean_rooted h]
    by_cases hk : kept path = []
    · rw [if_pos hk, hk]
      rfl
    · rw [if_neg hk, List.dropLast_cons_of_ne_nil (fun he => hk (List.reverse_eq_nil_iff.mp he)), List.dropLast_reverse,
        List.foldl_cons]
      exact foldl_reverse_eq_place base (kept path).tail
  · rw [names_clean_relative h]
    by_cases hk : kept path = []
    · rw [if_pos hk, hk]
      rfl
    · rw [if_neg hk, List.dropLast_reverse]
      exact foldl_reverse_eq_place base (kept path).tail

theorem rooted_clean (path : String) : Rooted (clean path) ↔ Rooted path := by
  by_cases h : Rooted path
  · rw [clean_rooted h, Rooted, String.toList_append]
    exact iff_of_true rfl h
  · refine iff_of_false ?_ h
    by_cases hk : kept path = []
    · rw [clean_dot h hk]
      decide
    · rw [clean_relative h hk, Rooted, String.toList_intercalate]
      cases hr : (kept path).reverse with
      | nil => exact absurd (List.reverse_eq_nil_iff.mp hr) hk
      | cons n rest =>
        have hn := (kept_normal path).plain n (List.mem_reverse.mp (hr ▸ List.mem_cons_self))
        cases hc : n.toList with
        | nil => exact absurd (String.toList_eq_nil_iff.mp hc) hn.ne_empty
        | cons c cs =>
          have hslash : c ≠ '/' := by
            rintro rfl
            exact hn.noSlash (hc ▸ List.mem_cons_self)
          cases rest <;> simp [List.intercalate, hc, hslash]

theorem resolve_eq_place (cwd : List String) (path : String) :
    resolve cwd path = place (if Rooted path then [] else cwd) (kept path) := by
  have hb : decide (Rooted path) = true → (if Rooted path then [] else cwd) = [] :=
    fun h => if_pos (of_decide_eq_true h)
  exact (place_foldl hb (fun _ hn => noSlash_of_mem_names hn) (normal_nil _)).symm

theorem resolve_clean (cwd : List String) (path : String) : resolve cwd (clean path) = resolve cwd path := by
  rw [resolve_eq_place cwd path, resolve, foldl_names_clean]
  simp only [rooted_clean]

theorem dir_eq_clean (path : String) : dir path = clean (String.ofList (upTo path.toList)) := rfl

theorem rooted_upTo (path : String) : Rooted (String.ofList (upTo path.toList)) ↔ Rooted path := by
  unfold Rooted
  rw [String.toList_ofList]
  exact head_upTo path.toList

theorem names_upTo (path : String) : names (String.ofList (upTo path.toList)) = (names path).dropLast ++ [""] := by
  rw [names, names, String.toList_ofList, splitOn_upTo, List.map_append, List.map_dropLast]
  rfl

theorem resolve_dir (cwd : List String) (path : String) :
    resolve cwd (dir path) = (names path).dropLast.foldl walk (if Rooted path then [] else cwd) := by
  rw [dir_eq_clean, resolve_clean, resolve, names_upTo, List.foldl_append]
  simp only [rooted_upTo]
  rfl

theorem place_climbing (base : List String) (k : ℕ) : place base (List.replicate k "..") = base.drop k := by
  induction k with
  | zero => rfl
  | succ k ih =>
    have hw : place base (List.replicate (k + 1) "..") = walk (place base (List.replicate k "..")) ".." := rfl
    rw [hw, ih, ← List.tail_drop]
    rfl

theorem place_down {down : List String} (h : ∀ n ∈ down, Plain n) (hd : ".." ∉ down) (base : List String) :
    place base down = down ++ base := by
  induction down with
  | nil => rfl
  | cons n down ih =>
    have hn : n ≠ ".." := fun he => hd (he ▸ List.mem_cons_self)
    have hw : place base (n :: down) = walk (place base down) n := rfl
    rw [hw, walk_down (h n List.mem_cons_self) hn, ih (fun m hm => h m (List.mem_cons_of_mem n hm))
      (fun hm => hd (List.mem_cons_of_mem n hm))]
    rfl

theorem place_append (base a b : List String) : place base (a ++ b) = place (place base b) a := List.foldr_append

theorem Normal.tail {rooted : Bool} {x : String} {rest : List String} (h : Normal rooted (x :: rest)) :
    Normal rooted rest := by
  obtain ⟨hplain,down,k,hsplit,hdown,hk⟩ := h
  refine ⟨fun n hn => hplain n (List.mem_cons_of_mem x hn),?_⟩
  cases down with
  | cons y down =>
    cases hsplit
    exact ⟨down,k,rfl,fun hm => hdown (List.mem_cons_of_mem x hm),hk⟩
  | nil =>
    cases k with
    | zero => cases hsplit
    | succ k =>
      cases hsplit
      exact ⟨[],k,rfl,nofun,fun hr => absurd (hk hr) (Nat.succ_ne_zero k)⟩

theorem Normal.cleanStep_eq {rooted : Bool} {x : String} {rest : List String} (h : Normal rooted (x :: rest)) :
    cleanStep rooted rest x = x :: rest := by
  obtain ⟨hplain,down,k,hsplit,hdown,hk⟩ := h
  have hx := hplain x List.mem_cons_self
  unfold cleanStep
  rw [if_neg (not_or.mpr ⟨hx.ne_empty,hx.ne_dot⟩)]
  cases down with
  | cons y down =>
    cases hsplit
    have hup : x ≠ ".." := fun he => hdown (he ▸ List.mem_cons_self)
    rw [if_neg hup]
  | nil =>
    cases k with
    | zero => cases hsplit
    | succ k =>
      cases hsplit
      cases rooted with
      | true => exact absurd (hk rfl) (Nat.succ_ne_zero k)
      | false => cases k <;> rfl

theorem Normal.rebuild {rooted : Bool} {stack : List String} (h : Normal rooted stack) :
    stack.reverse.foldl (cleanStep rooted) [] = stack := by
  induction stack with
  | nil => rfl
  | cons x rest ih =>
    rw [List.reverse_cons, List.foldl_append, ih h.tail, List.foldl_cons, h.cleanStep_eq]
    rfl

theorem kept_eq_nil_of_clean {path : String} (h : clean path = ".") : kept path = [] := by
  have hroot : ¬Rooted path := by
    rw [← rooted_clean, h]
    decide
  by_contra hk
  have hn := names_clean_relative hroot
  rw [h, if_neg hk] at hn
  have hmem : "." ∈ kept path := by
    rw [← List.mem_reverse, ← hn]
    decide
  exact ((kept_normal path).plain _ hmem).ne_dot rfl

theorem kept_dir {path : String} (h : ¬Rooted (clean path)) :
    kept (String.ofList (upTo (clean path).toList)) = (kept path).tail := by
  have hpath : ¬Rooted path := fun hr => h ((rooted_clean path).mpr hr)
  have hnormal := kept_normal path
  rw [decide_eq_false hpath] at hnormal
  have hfalse : decide (Rooted (String.ofList (upTo (clean path).toList))) = false :=
    decide_eq_false fun hr => h ((rooted_upTo _).mp hr)
  have hstep (stack : List String) : cleanStep false stack "" = stack := rfl
  rw [kept, hfalse, names_upTo, List.foldl_append, List.foldl_cons, List.foldl_nil, hstep, names_clean_relative hpath]
  cases hk : kept path with
  | nil => rfl
  | cons x rest =>
    rw [if_neg (List.cons_ne_nil x rest), List.dropLast_reverse]
    rw [hk] at hnormal
    exact hnormal.tail.rebuild

theorem kept_clean (path : String) : kept (clean path) = kept path := by
  have hstep (rooted : Bool) (stack : List String) : cleanStep rooted stack "" = stack := rfl
  have hnormal := kept_normal path
  rw [kept]
  simp only [rooted_clean]
  by_cases hr : Rooted path
  · rw [names_clean_rooted hr, List.foldl_cons, hstep]
    split
    · rename_i hk
      rw [List.foldl_cons, hstep, hk]
      rfl
    · exact hnormal.rebuild
  · rw [names_clean_relative hr]
    split
    · rename_i hk
      rw [hk]
      rfl
    · exact hnormal.rebuild

theorem clean_congr {p q : String} (hr : Rooted p ↔ Rooted q) (hk : kept p = kept q) : clean p = clean q := by
  by_cases hp : Rooted p
  · rw [clean_rooted hp, clean_rooted (hr.mp hp), hk]
  · have hq : ¬Rooted q := fun h => hp (hr.mpr h)
    by_cases hnil : kept p = []
    · rw [clean_dot hp hnil, clean_dot hq (hk ▸ hnil)]
    · rw [clean_relative hp hnil, clean_relative hq (hk ▸ hnil), hk]

/-- Paths that begin alike are cleaned to the same exactly if the same is kept of them. -/
theorem clean_eq_iff {p q : String} (hr : Rooted p ↔ Rooted q) : clean p = clean q ↔ kept p = kept q := by
  refine ⟨fun h => ?_,clean_congr hr⟩
  rw [← kept_clean p, h, kept_clean]

theorem clean_clean (path : String) : clean (clean path) = clean path :=
  clean_congr (rooted_clean path) (kept_clean path)

theorem foldl_cleanStep_down {ns : List String} (h : ".." ∉ ns) (rooted : Bool) (stack : List String) :
    ns.foldl (cleanStep rooted) stack = (ns.filter fun n => n ≠ "" ∧ n ≠ ".").reverse ++ stack := by
  induction ns generalizing stack with
  | nil => rfl
  | cons n ns ih =>
    have hup : n ≠ ".." := fun he => h (he ▸ List.mem_cons_self)
    rw [List.foldl_cons, ih (fun hm => h (List.mem_cons_of_mem n hm))]
    by_cases hn : n = "" ∨ n = "."
    · have hstep : cleanStep rooted stack n = stack := if_pos hn
      rw [hstep, List.filter_cons_of_neg (by simpa [imp_iff_not_or] using hn)]
    · have hstep : cleanStep rooted stack n = n :: stack := (if_neg hn).trans (if_neg hup)
      rw [hstep, List.filter_cons_of_pos (by simpa [not_or] using hn)]
      simp

/-! ## `Join` -/

section Join
variable {target : String} (ht : target ≠ "")
include ht

theorem rooted_slash (name : String) : Rooted (target ++ "/" ++ name) ↔ Rooted target := by
  unfold Rooted
  rw [String.toList_append, String.toList_append, List.append_assoc]
  cases hl : target.toList with
  | nil => exact absurd (String.toList_eq_nil_iff.mp hl) ht
  | cons c cs => rfl

theorem kept_slash (name : String) :
    kept (target ++ "/" ++ name) = (names name).foldl (cleanStep (decide (Rooted target))) (kept target) := by
  rw [kept, names_slash, List.foldl_append]
  simp only [rooted_slash ht]
  rfl

theorem count_kept_slash (name : String) : (kept target).count ".." ≤ (kept (target ++ "/" ++ name)).count ".." := by
  rw [kept_slash ht]
  exact count_le_foldl _ _ _

theorem resolve_join (cwd : List String) (name : String) :
    resolve cwd (join target name) = place (if Rooted target then [] else cwd) (kept (target ++ "/" ++ name)) := by
  rw [join_of_ne ht, resolve_clean, resolve_eq_place]
  simp only [rooted_slash ht]

theorem resolve_join_walk (cwd : List String) (name : String) :
    resolve cwd (join target name) = (names name).foldl walk (resolve cwd target) := by
  rw [join_of_ne ht, resolve_clean, resolve, names_slash, List.foldl_append]
  simp only [rooted_slash ht]
  rfl

theorem resolve_dir_join (cwd : List String) (name : String) :
    resolve cwd (dir (join target name)) = place (if Rooted target then [] else cwd) (kept (target ++ "/" ++ name)).tail := by
  rw [join_of_ne ht, resolve_dir, foldl_dropLast_clean]
  simp only [rooted_clean, rooted_slash ht]

/-- A path that only climbs leads to the target or above it. -/
theorem climbing_join (cwd : List String) {name : String} {k : ℕ}
    (hk : kept (target ++ "/" ++ name) = List.replicate k "..") :
    resolve cwd (join target name) <:+ resolve cwd target := by
  obtain ⟨hplain,down,m,hsplit,hdown,-⟩ := kept_normal target
  have hmk : m ≤ k := by
    have hle := count_kept_slash ht name
    rw [hk, hsplit, List.count_append, List.count_replicate_self, List.count_replicate_self] at hle
    exact (Nat.le_add_left _ _).trans hle
  have hd : ∀ n ∈ down, Plain n := fun n hn => hplain n (hsplit ▸ List.mem_append_left _ hn)
  rw [resolve_join ht, hk, place_climbing, resolve_eq_place, hsplit, place_append, place_climbing, place_down hd hdown,
    ← Nat.add_sub_cancel' hmk, ← List.drop_drop]
  exact (List.drop_suffix _ _).trans (List.suffix_append _ _)

/-- `Dir` of what `Join` returns: the directory it is in, or else the path only climbs. -/
theorem dir_join_cases (cwd : List String) (name : String) :
    resolve cwd (dir (join target name)) = (resolve cwd (join target name)).tail ∨
    (resolve cwd (join target name) <:+ resolve cwd target ∧ resolve cwd (dir (join target name)) <:+ cwd) := by
  obtain ⟨hplain,down,k,hsplit,hdown,-⟩ := kept_normal (target ++ "/" ++ name)
  rw [resolve_dir_join ht]
  cases down with
  | cons x down =>
    left
    rw [resolve_join ht, hsplit, List.cons_append]
    have hx : Plain x := hplain x (hsplit ▸ List.mem_cons_self)
    exact (congrArg List.tail (walk_down hx (fun he => hdown (he ▸ List.mem_cons_self)) _)).symm
  | nil =>
    refine Or.inr ⟨climbing_join ht cwd hsplit,?_⟩
    rw [hsplit, List.nil_append, List.tail_replicate, place_climbing]
    refine (List.drop_suffix _ _).trans ?_
    split
    · exact List.nil_suffix
    · exact List.suffix_rfl

/-- Where `Dir` has nothing left, the path only climbs or the target is in the working
directory. -/
theorem dir_join_dot (cwd : List String) {name : String} (hd : dir (join target name) = ".") :
    resolve cwd (join target name) <:+ resolve cwd target ∨ cwd <:+ resolve cwd target := by
  rw [dir_eq_clean] at hd
  have hroot : ¬Rooted (clean (target ++ "/" ++ name)) := by
    intro h
    have hj := join_of_ne ht name
    rw [← hj, ← rooted_upTo, ← rooted_clean, hd] at h
    exact absurd h (by decide)
  have htarget : ¬Rooted target := fun h => hroot ((rooted_clean _).mpr ((rooted_slash ht name).mpr h))
  have htail : (kept (target ++ "/" ++ name)).tail = [] := by
    rw [← kept_dir hroot]
    refine kept_eq_nil_of_clean ?_
    rw [← hd, join_of_ne ht]
  obtain ⟨-,down,k,hsplit,hdown,-⟩ := kept_normal (target ++ "/" ++ name)
  cases down with
  | nil => exact Or.inl (climbing_join ht cwd hsplit)
  | cons x down =>
    have hone : kept (target ++ "/" ++ name) = [x] := by
      rw [hsplit, List.cons_append, List.tail_cons] at htail
      rw [hsplit, List.cons_append, htail]
    have hup : x ≠ ".." := fun he => hdown (he ▸ List.mem_cons_self)
    obtain ⟨hplain,downT,m,hsplitT,hdownT,-⟩ := kept_normal target
    have hm : m = 0 := by
      have hle := count_kept_slash ht name
      rw [hone, hsplitT, List.count_append, List.count_replicate_self, List.count_cons_of_ne hup] at hle
      exact Nat.le_zero.mp ((Nat.le_add_left _ _).trans hle)
    rw [hm, List.replicate_zero, List.append_nil] at hsplitT
    have hT : resolve cwd target = kept target ++ cwd := by
      rw [resolve_eq_place, if_neg htarget, place_down hplain (hsplitT ▸ hdownT)]
    rw [hT]
    exact Or.inr (List.suffix_append _ _)

theorem kept_slash_plain {name : String} (h : Plain name) (hup : name ≠ "..") :
    kept (target ++ "/" ++ name) = name :: kept target := by
  have hnames : names name = [name] := by
    rw [names, List.splitOn_eq_singleton h.noSlash, List.map_singleton, String.ofList_toList]
  rw [kept_slash ht, hnames]
  exact (if_neg (not_or.mpr ⟨h.ne_empty,h.ne_dot⟩)).trans (if_neg hup)

theorem join_inj {a b : String} (ha : Plain a) (hb : Plain b) (haup : a ≠ "..") (hbup : b ≠ "..")
    (h : join target a = join target b) : a = b := by
  have hroot : Rooted (target ++ "/" ++ a) ↔ Rooted (target ++ "/" ++ b) := (rooted_slash ht a).trans (rooted_slash ht b).symm
  rw [join_of_ne ht, join_of_ne ht, clean_eq_iff hroot, kept_slash_plain ht ha haup, kept_slash_plain ht hb hbup] at h
  exact (List.cons.inj h).1

end Join

theorem clean_ne_empty (path : String) : clean path ≠ "" := by
  intro he
  have hnames : names (clean path) = [""] := by
    rw [he]
    rfl
  by_cases hr : Rooted path
  · rw [names_clean_rooted hr] at hnames
    split at hnames
    · cases hnames
    · rename_i hk
      have htail := (List.cons.inj hnames).2
      exact hk (List.reverse_eq_nil_iff.mp htail)
  · rw [names_clean_relative hr] at hnames
    split at hnames
    · exact absurd (List.cons.inj hnames).1 (by decide)
    · have hm : "" ∈ kept path := by
        rw [← List.mem_reverse, hnames]
        exact List.mem_singleton_self _
      exact ((kept_normal path).plain _ hm).ne_empty rfl

theorem join_ne_empty {a : String} (ha : a ≠ "") (b : String) : join a b ≠ "" := by
  rw [join_of_ne ha]
  exact clean_ne_empty _

end Stout.Paths
