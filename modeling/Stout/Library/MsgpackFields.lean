import Stout.Library.MsgpackCodec

/-! # What becomes of a field

A structure is decoded pair by pair. A field is made of the values sent under its key and of
nothing else; a slice that is sent again is decoded into the array that is there. An error is
reported with the path of the first value that does not fit.
-/
namespace Stout.Msgpack

/-! ## The values of a key -/

/-- The values sent under a key. -/
def sent (key : Bytes) (kvs : List (Value × Value)) : List Value :=
  kvs.filterMap fun kv =>
    match kv.1.asKey with
    | .ok k => if k = key then some kv.2 else none
    | .error _ => none

theorem mem_sent {key : Bytes} {kvs : List (Value × Value)} {v : Value} (h : v ∈ sent key kvs) :
    ∃ k, (k,v) ∈ kvs ∧ k.asKey = .ok key := by
  obtain ⟨⟨k,w⟩,hm,hw⟩ := List.mem_filterMap.mp h
  cases hk : k.asKey with
  | error e => simp [hk] at hw
  | ok key' =>
    simp only [hk, Option.ite_none_right_eq_some, Option.some.injEq] at hw
    obtain ⟨rfl,rfl⟩ := hw
    exact ⟨k,hm,hk⟩

theorem fits_sent {σ : Type} {fields : List (Bytes × Codec σ)} {kvs : List (Value × Value)} (h : kvs.all (pairFits fields) = true)
    {key : Bytes} {v : Value} (hv : v ∈ sent key kvs) : fieldFits fields key v = true := by
  obtain ⟨k,hm,hk⟩ := mem_sent hv
  have hfits := List.all_eq_true.mp h (k,v) hm
  rwa [pairFits, hk] at hfits

theorem EncodesAll.mem {vs : List Value} {b : Bytes} (h : EncodesAll vs b) {v : Value} (hv : v ∈ vs) : ∃ c, Encodes v c := by
  induction vs generalizing b with
  | nil => cases hv
  | cons w vs ih =>
    obtain ⟨c,d,-,hc,hd⟩ := h.cons_inv
    rcases List.mem_cons.mp hv with rfl | hv
    · exact ⟨c,hc⟩
    · exact ih hd hv

theorem Encodes.sent {kvs : List (Value × Value)} {b : Bytes} (h : Encodes (.map kvs) b) {key : Bytes} {v : Value}
    (hv : v ∈ sent key kvs) : ∃ c, Encodes v c := by
  obtain ⟨k,hm,-⟩ := mem_sent hv
  cases h with
  | map _ hs => exact hs.mem (List.mem_flatMap.mpr ⟨(k,v),hm,by simp⟩)

def pairsOf (vs : List Value) : List (Value × Value) :=
  vs.flatMap fun v =>
    match v with
    | .map kvs => kvs
    | _ => []

def lastOf {α : Type} (f : Value → Except Fault α) (vs : List Value) (a : α) : α :=
  (vs.getLast?.bind fun v => (f v).toOption).getD a

namespace Codec
variable {α σ : Type}

def after (c : Codec α) : List Value → α → Except Fault α
  | [], a => .ok a
  | v :: vs, a => do
    let a ← c.meaning v a
    c.after vs a

/-- The codec leaves a part of the value as it is. -/
def Keeps (get : σ → α) (c : Codec σ) : Prop := ∀ v z z', c.meaning v z = .ok z' → get z' = get z

theorem keeps_focus {β : Type} {get : σ → α} {get' : σ → β} {set : σ → β → σ} {c : Codec β} (h : ∀ z b, get (set z b) = get z) :
    (focus get' set c).Keeps get := by
  intro v z z' hm
  obtain ⟨b,-,rfl⟩ := ok_of_map hm
  exact h z b

theorem after_append (c : Codec α) (vs ws : List Value) (a : α) :
    c.after (vs ++ ws) a = c.after vs a >>= c.after ws := by
  induction vs generalizing a with
  | nil => rfl
  | cons v vs ih =>
    rw [List.cons_append, after, after]
    cases c.meaning v a with
    | error e => rfl
    | ok a' => exact ih a'

/-- Of values that do not build on each other the last one counts. What is looked at may be
less than the whole. -/
theorem after_last {β : Type} {c : Codec α} (view : α → β) {f : Value → Except Fault β}
    (hc : ∀ v a a', c.meaning v a = .ok a' → f v = .ok (view a')) {vs : List Value} {a a' : α} (h : c.after vs a = .ok a') :
    view a' = lastOf f vs (view a) := by
  rcases List.eq_nil_or_concat vs with rfl | ⟨init,v,rfl⟩
  · rw [Except.ok.inj h]
    rfl
  · rw [List.concat_eq_append, after_append] at h
    obtain ⟨a₁,-,h⟩ := ok_of_bind h
    obtain ⟨a₂,hv,h⟩ := ok_of_bind h
    obtain rfl := Except.ok.inj h
    simp [lastOf, hc v a₁ a₂ hv, Except.toOption]

theorem ok_of_fresh {ctx : Context} {m : Stream.M α} {f : Value → Except Fault α}
    {h : ∀ {v : Value} {b : Bytes}, Encodes v b → v.NoExt → Reads m b (f v)} (v : Value) (a a' : α)
    (hm : (fresh ctx m f h).meaning v a = .ok a') : f v = .ok a' := ok_of_inside hm

/-- Structures that come one after another are one with all their pairs. -/
theorem after_struct {ctx : Context} {fields : List (Bytes × Codec σ)} {vs : List Value} {z z' : σ}
    (h : (struct ctx fields).after vs z = .ok z') : fieldsMeaning ctx fields (pairsOf vs) z = .ok z' := by
  induction vs generalizing z with
  | nil => exact h
  | cons v vs ih =>
    obtain ⟨z₁,hv,hrest⟩ := ok_of_bind h
    cases v with
    | map kvs =>
      change fieldsMeaning ctx fields (kvs ++ pairsOf vs) z = .ok z'
      rw [fieldsMeaning_append]
      change fieldsMeaning ctx fields kvs z = .ok z₁ at hv
      rw [hv]
      exact ih hrest
    | _ => cases ctx <;> cases hv

/-- A field is made of the values sent under its key, and of nothing else. -/
theorem fieldsMeaning_get {ctx : Context} {fields : List (Bytes × Codec σ)} (get : σ → α) {set : σ → α → σ} {c : Codec α} {key : Bytes}
    (hown : fields.lookup key = some (focus get set c)) (hset : ∀ z a, get (set z a) = a)
    (hothers : ∀ kc ∈ fields, kc.1 = key ∨ kc.2.Keeps get) {kvs : List (Value × Value)} {z z' : σ}
    (h : fieldsMeaning ctx fields kvs z = .ok z') : c.after (sent key kvs) (get z) = .ok (get z') := by
  induction kvs generalizing z with
  | nil =>
    obtain rfl := Except.ok.inj h
    rfl
  | cons kv kvs ih =>
    obtain ⟨k,v⟩ := kv
    obtain ⟨k',hk,h⟩ := ok_of_bind h
    obtain ⟨z₁,hf,h⟩ := ok_of_bind h
    have hk := ok_of_inside hk
    have hrest := ih h
    by_cases hkey : k' = key
    · subst hkey
      have hsent : sent k' ((k,v) :: kvs) = v :: sent k' kvs := by simp [sent, hk]
      rw [fieldMeaning, hown] at hf
      obtain ⟨a,ha,rfl⟩ := ok_of_map hf
      rw [hset] at hrest
      rw [hsent, after, ha]
      exact hrest
    · have hsent : sent key ((k,v) :: kvs) = sent key kvs := by simp [sent, hk, hkey]
      have hget : get z₁ = get z := by
        unfold fieldMeaning at hf
        cases hl : fields.lookup k' with
        | none =>
          rw [hl] at hf
          rw [Except.ok.inj hf]
        | some d =>
          rw [hl] at hf
          obtain ⟨l₁,l₂,rfl,-⟩ := List.lookup_eq_some_iff.mp hl
          rcases hothers (k',d) (by simp) with he | hd
          · exact absurd he hkey
          · exact hd v z z₁ hf
      rw [hsent, ← hget]
      exact hrest

theorem field_last {ctx : Context} {fields : List (Bytes × Codec σ)} (get : σ → α) {set : σ → α → σ} {c : Codec α} {key : Bytes}
    {f : Value → Except Fault α} (hown : fields.lookup key = some (focus get set c)) (hset : ∀ z a, get (set z a) = a)
    (hothers : ∀ kc ∈ fields, kc.1 = key ∨ kc.2.Keeps get) (hc : ∀ v a a', c.meaning v a = .ok a' → f v = .ok a')
    {kvs : List (Value × Value)} {z z' : σ} (h : fieldsMeaning ctx fields kvs z = .ok z') :
    get z' = lastOf f (sent key kvs) (get z) :=
  after_last id hc (fieldsMeaning_get get hown hset hothers h)

end Codec

def elemsOf {α : Type} (f : Value → Except Fault α) : Value → List α
  | .array vs => vs.filterMap fun v => (f v).toOption
  | _ => []

theorem elems_of_fresh {α : Type} {ctx : Context} {c : Codec α} {f : Value → Except Fault α}
    (hc : ∀ v a a', c.meaning v a = .ok a' → f v = .ok a') {i : ℕ} {vs : List Value} {as as' : List α}
    (hl : as.length = vs.length) (h : elemsMeaning ctx c i vs as = .ok as') : vs.filterMap (fun v => (f v).toOption) = as' := by
  induction vs generalizing i as as' with
  | nil => exact Except.ok.inj h
  | cons v vs ih =>
    cases as with
    | nil => simp at hl
    | cons a as =>
      obtain ⟨a₁,ha,h⟩ := ok_of_bind h
      obtain ⟨as₁,has,h⟩ := ok_of_bind h
      obtain rfl := Except.ok.inj h
      have hf := hc v a a₁ (ok_of_inside ha)
      rw [List.filterMap_cons, hf, ih (Nat.succ.inj hl) has]
      rfl

theorem Codec.ok_of_slice {α : Type} {ctx : Context} {c : Codec α} {zero : α} {f : Value → Except Fault α}
    (hc : ∀ v a a', c.meaning v a = .ok a' → f v = .ok a') (v : Value) (s s' : Slice α)
    (h : (Codec.slice ctx c zero).meaning v s = .ok s') : (.ok (elemsOf f v) : Except Fault (List α)) = .ok s'.elems := by
  cases v with
  | array vs =>
    obtain ⟨as,has,rfl⟩ := ok_of_map h
    exact congrArg Except.ok (elems_of_fresh hc (s.length_resize zero vs.length) has)
  | _ => cases ok_of_inside h

/-! ## Slices that are sent again -/

/-- The arrays that are behind a slice: one that needs more room than there is starts anew. -/
def kept {β : Type} (vss : List (List β)) : List (List β) :=
  vss.foldl (fun acc vs => if vs.length ≤ (acc.headD []).length then acc ++ [vs] else [vs]) []

def arraysOf (vs : List Value) : List (List Value) :=
  vs.filterMap fun v =>
    match v with
    | .array ws => some ws
    | _ => none

section Again
variable {α : Type} {ctx : Context} {c : Codec α} {zero : α}

/-- Each element of the array behind a slice is made of what was sent at its place since the
array was made. -/
structure MadeOf (c : Codec α) (zero : α) (vss : List (List Value)) (s : Slice α) : Prop where
  elems : s.elems.length = (vss.getLastD []).length
  all : (s.elems ++ s.spare).length = ((kept vss).headD []).length
  made : ∀ (i : ℕ) a, (s.elems ++ s.spare)[i]? = some a → c.after ((kept vss).filterMap (·[i]?)) zero = .ok a

theorem kept_concat {β : Type} (vss : List (List β)) (vs : List β) :
    kept (vss ++ [vs]) = if vs.length ≤ ((kept vss).headD []).length then kept vss ++ [vs] else [vs] := by
  simp [kept]

theorem MadeOf.nil : MadeOf c zero [] ⟨[],[]⟩ := ⟨rfl,rfl,by simp⟩

theorem Codec.after_concat {vs : List Value} {v : Value} {a a' b : α} (h : c.after vs a = .ok b) (hv : c.meaning v b = .ok a') :
    c.after (vs ++ [v]) a = .ok a' := by
  rw [Codec.after_append, h]
  change (c.meaning v b >>= fun a => .ok a) = .ok a'
  rw [hv]
  rfl

theorem MadeOf.step {vss : List (List Value)} {vs : List Value} {s s' : Slice α} (h : MadeOf c zero vss s)
    (hm : sliceMeaning ctx c zero (.array vs) s = .ok s') : MadeOf c zero (vss ++ [vs]) s' := by
  obtain ⟨as,has,rfl⟩ := ok_of_map hm
  obtain ⟨hlen,helem⟩ := elems_of_meaning ctx c (s.length_resize zero vs.length) has
  by_cases hroom : vs.length ≤ (s.elems ++ s.spare).length
  · -- the elements that are there are decoded into
    have hr : s.resize zero vs.length = ⟨(s.elems ++ s.spare).take vs.length,(s.elems ++ s.spare).drop vs.length⟩ := if_pos hroom
    have hk : kept (vss ++ [vs]) = kept vss ++ [vs] := by rw [kept_concat, if_pos (h.all ▸ hroom)]
    rw [hr] at helem ⊢
    have hall := h.all
    have hmade := h.made
    generalize s.elems ++ s.spare = all at hroom helem hall hmade ⊢
    refine ⟨by simpa using hlen,?_,?_⟩
    · rw [hk, List.length_append, List.length_drop, hlen]
      cases hkept : kept vss with
      | nil =>
        simp only [hkept, List.headD_nil, List.length_nil] at hall
        simp only [List.nil_append, List.headD_cons]
        omega
      | cons first rest =>
        simp only [hkept, List.headD_cons] at hall
        simp only [List.cons_append, List.headD_cons]
        omega
    · intro i a ha
      dsimp only at ha
      rw [hk, List.filterMap_append]
      by_cases hi : i < vs.length
      · obtain ⟨v,hv⟩ : ∃ v, vs[i]? = some v := ⟨_,List.getElem?_eq_getElem hi⟩
        obtain ⟨b,hb⟩ : ∃ b, all[i]? = some b := ⟨_,List.getElem?_eq_getElem (hi.trans_le hroom)⟩
        obtain ⟨a',ha',hmean⟩ := helem i v b hv (by rw [List.getElem?_take_of_lt hi, hb])
        rw [List.getElem?_append_left (by omega), ha'] at ha
        obtain rfl := Option.some.inj ha
        simp only [List.filterMap_cons, hv, List.filterMap_nil]
        exact Codec.after_concat (hmade i b hb) hmean
      · have hv : vs[i]? = none := List.getElem?_eq_none (by omega)
        rw [List.getElem?_append_right (by omega), List.getElem?_drop, hlen, Nat.add_sub_cancel' (by omega)] at ha
        simp only [List.filterMap_cons, hv, List.filterMap_nil, List.append_nil]
        exact hmade i a ha
  · -- a new array
    have hr : s.resize zero vs.length = ⟨List.replicate vs.length zero,[]⟩ := if_neg hroom
    have hk : kept (vss ++ [vs]) = [vs] := by rw [kept_concat, if_neg (h.all ▸ hroom)]
    rw [hr] at helem ⊢
    refine ⟨by simpa using hlen,by simpa [hk] using hlen,?_⟩
    intro i a ha
    rw [List.append_nil] at ha
    have hi : i < vs.length := hlen ▸ (List.getElem?_eq_some_iff.mp ha).1
    obtain ⟨v,hv⟩ : ∃ v, vs[i]? = some v := ⟨_,List.getElem?_eq_getElem hi⟩
    obtain ⟨a',ha',hmean⟩ := helem i v zero hv (by rw [List.getElem?_replicate_of_lt hi])
    rw [ha'] at ha
    obtain rfl := Option.some.inj ha
    simp only [hk, List.filterMap_cons, hv, List.filterMap_nil]
    exact Codec.after_concat (show c.after [] zero = .ok zero from rfl) hmean

theorem MadeOf.run {vs : List Value} {vss : List (List Value)} {s s' : Slice α} (h : MadeOf c zero vss s)
    (hm : (Codec.slice ctx c zero).after vs s = .ok s') : MadeOf c zero (vss ++ arraysOf vs) s' := by
  induction vs generalizing vss s with
  | nil =>
    obtain rfl := Except.ok.inj hm
    simpa [arraysOf] using h
  | cons v vs ih =>
    obtain ⟨s₁,hv,hrest⟩ := ok_of_bind hm
    cases v with
    | array ws =>
      have hcons : vss ++ arraysOf (.array ws :: vs) = vss ++ [ws] ++ arraysOf vs := by simp [arraysOf]
      rw [hcons]
      exact ih (h.step hv) hrest
    | _ => cases ok_of_inside hv

theorem Codec.after_slice {vs : List Value} {s : Slice α} (h : (Codec.slice ctx c zero).after vs ⟨[],[]⟩ = .ok s) :
    MadeOf c zero (arraysOf vs) s := by
  simpa using MadeOf.nil.run h

/-- What is made of the values at each place of the last array. -/
def placesOf {β : Type} (f : List Value → β) (vss : List (List Value)) : List β :=
  (List.range (vss.getLastD []).length).map fun i => f ((kept vss).filterMap (·[i]?))

theorem MadeOf.map_elems {β : Type} {vss : List (List Value)} {s : Slice α} (h : MadeOf c zero vss s) {view : α → β}
    {f : List Value → β} (hf : ∀ ws a, c.after ws zero = .ok a → view a = f ws) : s.elems.map view = placesOf f vss := by
  refine List.ext_getElem (by simp [placesOf, h.elems]) ?_
  intro i hi _
  have hlen : i < s.elems.length := by simpa using hi
  rw [List.getElem_map]
  simp only [placesOf, List.getElem_map, List.getElem_range]
  exact hf _ _ (h.made i _ (by rw [List.getElem?_append_left hlen, List.getElem?_eq_getElem hlen]))

end Again

/-! ## The path of an error -/

/-- The failure is reported below the path, if with a path at all. -/
def Fault.Below (p : Path) : Fault → Prop
  | .short => True
  | .belowZero q => p <+: q
  | .located q => p <+: q

/-- The errors of the codec are reported below the path. -/
def Codec.Names {α : Type} (p : Path) (c : Codec α) : Prop := ∀ v a f, c.meaning v a = .error f → f.Below p

section Names
variable {α σ : Type} {p : Path}

theorem below_inside {steps : Path} {x : Except Fault α} {f : Fault} (h : inside (some p) steps x = .error f) : f.Below p := by
  cases x with
  | ok a => cases h
  | error e =>
    obtain rfl := Except.error.inj h
    cases e with
    | short => trivial
    | belowZero q => exact List.prefix_append ..
    | located q => exact (List.prefix_append ..).trans (List.prefix_append ..)

theorem Located.below_path {e : Located} (h : e.fault.Below p) : e.err = .shortBytes ∨ p <+: e.path := by
  obtain ⟨err,path⟩ := e
  cases err with
  | shortBytes => exact Or.inl rfl
  | read err => cases err <;> exact Or.inr h
  | _ => exact Or.inr h

theorem error_of_bind {β : Type} {g : α → Except Fault β} {x : Except Fault α} {f : Fault} (h : x >>= g = .error f) :
    x = .error f ∨ ∃ a, x = .ok a ∧ g a = .error f := by
  cases x with
  | error e => exact Or.inl (congrArg Except.error (Except.error.inj h))
  | ok a => exact Or.inr ⟨a,rfl,h⟩

namespace Codec

theorem names_fresh {m : Stream.M α} {f : Value → Except Fault α}
    {h : ∀ {v : Value} {b : Bytes}, Encodes v b → v.NoExt → Reads m b (f v)} : (fresh (some p) m f h).Names p :=
  fun _ _ _ hm => below_inside hm

theorem names_focus {get : σ → α} {set : σ → α → σ} {c : Codec α} (h : c.Names p) : (focus get set c).Names p := by
  intro v z f hm
  change (c.meaning v (get z)).map (set z) = .error f at hm
  cases hc : c.meaning v (get z) with
  | ok a =>
    rw [hc] at hm
    cases hm
  | error e =>
    rw [hc] at hm
    obtain rfl := Except.error.inj hm
    exact h _ _ _ hc

theorem names_strMap : (strMap (some p)).Names p := by
  have hpairs (kvs : List (Value × Value)) (m : StrMap) (f : Fault) (h : pairsMeaning (some p) kvs m = .error f) : f.Below p := by
    induction kvs generalizing m with
    | nil => cases h
    | cons kv kvs ih =>
      obtain ⟨k,v⟩ := kv
      rcases error_of_bind h with h | ⟨s,-,h⟩
      · exact below_inside h
      · rcases error_of_bind h with h | ⟨t,-,h⟩
        · exact below_inside h
        · exact ih _ h
  intro v m f h
  cases v with
  | map kvs => exact hpairs kvs ∅ f h
  | _ => exact below_inside (show inside (some p) [] (refused : Except Fault StrMap) = .error f from h)

theorem names_slice {c : Codec α} {zero : α} : (slice (some p) c zero).Names p := by
  have helems (vs : List Value) (i : ℕ) (as : List α) (f : Fault) (h : elemsMeaning (some p) c i vs as = .error f) : f.Below p := by
    induction vs generalizing i as with
    | nil => cases h
    | cons v vs ih =>
      cases as with
      | nil => cases h
      | cons a as =>
        rcases error_of_bind h with h | ⟨a',-,h⟩
        · exact below_inside h
        · rcases error_of_bind h with h | ⟨as',-,h⟩
          · exact ih _ _ h
          · cases h
  intro v s f h
  cases v with
  | array vs =>
    change (elemsMeaning (some p) c 0 vs (s.resize zero vs.length).elems).map _ = .error f at h
    cases he : elemsMeaning (some p) c 0 vs (s.resize zero vs.length).elems with
    | ok as =>
      rw [he] at h
      cases h
    | error e =>
      rw [he] at h
      obtain rfl := Except.error.inj h
      exact helems _ _ _ _ he
  | _ => exact below_inside (show inside (some p) [] (refused : Except Fault (Slice α)) = .error f from h)

end Codec

theorem fieldsMeaning_error {ctx : Context} {fields : List (Bytes × Codec σ)} {kvs : List (Value × Value)} {z : σ} {f : Fault}
    (h : fieldsMeaning ctx fields kvs z = .error f) :
    ∃ pre k v post, kvs = pre ++ (k,v) :: post ∧ pre.all (pairFits fields) = true ∧ pairFits fields (k,v) = false ∧
      ∀ key, k.asKey = .ok key → ∃ c z', fields.lookup key = some c ∧ c.meaning v z' = .error f := by
  induction kvs generalizing z with
  | nil => cases h
  | cons kv kvs ih =>
    obtain ⟨k,v⟩ := kv
    rcases error_of_bind h with hk | ⟨key,hk,h⟩
    · have hnone : ∀ key, k.asKey ≠ .ok key := by
        intro key he
        rw [he, inside_ok] at hk
        cases hk
      refine ⟨[],k,v,kvs,rfl,rfl,?_,fun key he => absurd he (hnone key)⟩
      unfold pairFits
      cases hkey : k.asKey with
      | ok key => exact absurd hkey (hnone key)
      | error e => rfl
    · have hkey := ok_of_inside hk
      rcases error_of_bind h with hf | ⟨z',hf,h⟩
      · have hfits : pairFits fields (k,v) = false := by
          rw [pairFits, hkey]
          change fieldFits fields key v = false
          rw [← isOk_fieldMeaning fields key v z, hf]
          rfl
        refine ⟨[],k,v,kvs,rfl,rfl,hfits,?_⟩
        intro key' he
        obtain rfl : key = key' := Except.ok.inj (hkey.symm.trans he)
        unfold fieldMeaning at hf
        cases hl : fields.lookup key with
        | none =>
          rw [hl] at hf
          cases hf
        | some c =>
          rw [hl] at hf
          exact ⟨c,z,rfl,hf⟩
      · obtain ⟨pre,k',v',post,rfl,hpre,hbad,hpath⟩ := ih h
        refine ⟨(k,v) :: pre,k',v',post,rfl,?_,hbad,hpath⟩
        rw [List.all_cons, hpre, Bool.and_true, pairFits, hkey]
        change fieldFits fields key v = true
        rw [← isOk_fieldMeaning fields key v z, hf]
        rfl

theorem Codec.Names.mono {q : Path} {c : Codec α} (h : c.Names q) (hp : p <+: q) : c.Names p := by
  intro v a f hf
  have hq := h v a f hf
  cases f with
  | short => trivial
  | belowZero path => exact hp.trans hq
  | located path => exact hp.trans hq

theorem Codec.names_struct {fields : List (Bytes × Codec σ)} (h : ∀ kc ∈ fields, kc.2.Names p) : (struct (some p) fields).Names p := by
  intro v z f hm
  cases v with
  | map kvs =>
    change fieldsMeaning (some p) fields kvs z = .error f at hm
    induction kvs generalizing z with
    | nil => cases hm
    | cons kv kvs ih =>
      obtain ⟨k,v⟩ := kv
      rcases error_of_bind hm with hk | ⟨key,-,hm⟩
      · exact below_inside hk
      · rcases error_of_bind hm with hf | ⟨z',-,hm⟩
        · unfold fieldMeaning at hf
          cases hl : fields.lookup key with
          | none =>
            rw [hl] at hf
            cases hf
          | some c =>
            rw [hl] at hf
            obtain ⟨l₁,l₂,rfl,-⟩ := List.lookup_eq_some_iff.mp hl
            exact h (key,c) (by simp) v z f hf
        · exact ih z' hm
  | _ => exact below_inside (show inside (some p) [] (refused : Except Fault σ) = .error f from hm)

end Names

end Stout.Msgpack
