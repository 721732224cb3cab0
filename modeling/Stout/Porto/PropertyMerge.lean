import Stout.Porto.ProtectedOptions

/-! # Merging the properties of a container

What becomes of the `container` section of a profile, of the environment, of the mount
points and of the arguments in the properties that `CreateContainer` sets. Lists are
sent to porto as text with semicolons between the items, so an item that brings a
semicolon of its own is more than one item there.
-/
namespace Stout.Porto
open Std (ExtTreeMap)
open Prog RangeOrder

/-! ## Items -/

def items (s : String) : List String := (s.toList.splitOn ';').map String.ofList

def nonempty (l : List String) : List String := l.filter (· ≠ "")

theorem items_single {s : String} (h : ';' ∉ s.toList) : items s = [s] := by
  rw [items, List.splitOn_eq_singleton h, List.map_singleton, String.ofList_toList]

theorem items_append (s t : String) : items (s ++ ";" ++ t) = items s ++ items t := by
  have hl : (s ++ ";" ++ t).toList = s.toList ++ ';' :: t.toList := by simp
  rw [items, hl, List.splitOn, List.splitOnP_append_cons _ _ rfl, List.map_append]
  rfl

@[simp] theorem nonempty_append (l m : List String) : nonempty (l ++ m) = nonempty l ++ nonempty m := List.filter_append ..

def ContainerConfig.own (c : ContainerConfig) (property : String) : List String :=
  (c.profile.container[property]?.map items).getD []

def ContainerConfig.fullEnv (c : ContainerConfig) : Map :=
  if c.setImgURI then c.env.insert "image_uri" (c.profile.registry ++ "/" ++ c.name) else c.env

def envItem (p : String × String) : String := p.1 ++ "=" ++ p.2

def bindItem (dockerBind : String) : String := dockerBind.map fun c => if c = ':' then ' ' else c

def ContainerConfig.endpointItem (c : ContainerConfig) : String := lookup c.args "--endpoint" ++ " " ++ "/run/cocaine"

/-- The variables and the image have no semicolon in them. -/
structure ContainerConfig.PlainEnv (c : ContainerConfig) : Prop where
  env : ∀ (k v : String), c.env[k]? = some v → ';' ∉ k.toList ∧ ';' ∉ v.toList
  image : c.setImgURI = true → ';' ∉ c.profile.registry.toList ∧ ';' ∉ c.name.toList

/-- Neither have the endpoint and the mount points. -/
structure ContainerConfig.PlainBinds (c : ContainerConfig) : Prop where
  endpoint : ';' ∉ (lookup c.args "--endpoint").toList
  binds : ∀ b ∈ c.profile.binds, ';' ∉ b.toList

/-- What is set when the section of the profile does not set it. -/
def ContainerConfig.fallback (c : ContainerConfig) (property : String) : Option String :=
  if property = "ulimit" ∧ c.ulimits ≠ "" then some c.ulimits
  else if property = "cwd" ∧ c.profile.cwd ≠ "" then some c.profile.cwd
  else none

/-- The properties that `CreateContainer` writes itself. -/
def writtenOptions : List String :=
  ["env","bind","resolv_conf","command","root","enable_porto","net","hostname","ip"]

/-! ## Formatters -/

theorem envItem_ne_empty (p : String × String) : envItem p ≠ "" := by
  intro h
  have hlen := congrArg (fun s : String => s.toList.length) h
  simp [envItem] at hlen

theorem formatEnv_items (l : List (String × String)) (hl : ∀ p ∈ l, ';' ∉ (envItem p).toList) (buff : String) :
    nonempty (items (l.foldl (fun buff p => (if buff = "" then buff else buff ++ ";") ++ p.1 ++ "=" ++ p.2) buff)) =
      nonempty (items buff) ++ l.map envItem := by
  induction l generalizing buff with
  | nil => simp
  | cons p l ih =>
    have hne : nonempty (items (envItem p)) = [envItem p] := by
      rw [items_single (hl p List.mem_cons_self)]
      simp [nonempty, envItem_ne_empty]
    have hstep : nonempty (items ((if buff = "" then buff else buff ++ ";") ++ p.1 ++ "=" ++ p.2)) =
        nonempty (items buff) ++ [envItem p] := by
      by_cases hb : buff = ""
      · have hfirst : "" ++ p.1 ++ "=" ++ p.2 = envItem p := by simp [envItem]
        rw [if_pos hb, hb, hfirst, hne]
        rfl
      · have hnext : buff ++ ";" ++ p.1 ++ "=" ++ p.2 = buff ++ ";" ++ envItem p := by
          simp only [envItem, String.append_assoc]
        rw [if_neg hb, hnext, items_append, nonempty_append, hne]
    rw [List.foldl_cons, ih fun q hq => hl q (List.mem_cons_of_mem _ hq), hstep]
    simp

theorem formatBinds_items (binds : List String) (hb : ∀ b ∈ binds, ';' ∉ b.toList) (buff : String) :
    items (binds.foldl (fun buff dockerBind => buff ++ ";" ++ bindItem dockerBind) buff) =
      items buff ++ binds.map bindItem := by
  induction binds generalizing buff with
  | nil => simp
  | cons b binds ih =>
    have hitem : ';' ∉ (bindItem b).toList := by
      rw [bindItem, String.toList_map]
      intro hmem
      obtain ⟨c,hc,he⟩ := List.mem_map.mp hmem
      split at he
      · cases he
      · exact hb b List.mem_cons_self (he ▸ hc)
    rw [List.foldl_cons, ih fun d hd => hb d (List.mem_cons_of_mem _ hd), items_append, items_single hitem]
    simp

theorem foldl_command (l : List (String × String)) (executable : String) :
    l.foldl (fun buff p => buff ++ " " ++ p.1 ++ " " ++ p.2) executable =
      executable ++ String.join (l.map fun p => " " ++ p.1 ++ " " ++ p.2) := by
  apply String.toList_inj.mp
  induction l generalizing executable with
  | nil => simp
  | cons p l ih => simp [ih]

/-! ## The properties one by one -/

section Lookup
variable {o : Outside} {c : ContainerConfig} {path : String}

theorem getElem?_merged_self (properties : Map) (property value : String) :
    (merged properties property value)[property]? =
      some ((properties[property]?.map fun given => given ++ ";" ++ value).getD value) := by
  unfold merged
  cases hp : properties[property]? with
  | none => rw [ExtTreeMap.getElem?_insert_self]; rfl
  | some given => rw [ExtTreeMap.getElem?_insert_self]; rfl

theorem getElem?_unprotected (c : ContainerConfig) (property : String) :
    (c.profile.container.foldl (fun m property value => m.insert property value)
      (if c.profile.cwd ≠ "" then
        (if c.ulimits ≠ "" then (∅ : Map).insert "ulimit" c.ulimits else ∅).insert "cwd" c.profile.cwd
      else if c.ulimits ≠ "" then (∅ : Map).insert "ulimit" c.ulimits else ∅))[property]? =
    c.profile.container[property]?.or (c.fallback property) := by
  rw [getElem?_copied]
  congr 1
  unfold ContainerConfig.fallback
  by_cases hw : property = "cwd"
  · subst hw
    by_cases hc : c.profile.cwd = ""
    · rw [if_neg (not_not.mpr hc), getElem?_ite_insert_ne (by decide), ExtTreeMap.getElem?_empty, if_neg (by simp),
        if_neg (by simp [hc])]
    · rw [if_pos hc, ExtTreeMap.getElem?_insert_self, if_neg (by simp), if_pos ⟨rfl,hc⟩]
  · rw [getElem?_ite_insert_ne (Ne.symm hw)]
    by_cases hu : property = "ulimit"
    · subst hu
      by_cases hl : c.ulimits = ""
      · rw [if_neg (not_not.mpr hl), ExtTreeMap.getElem?_empty, if_neg (by simp [hl]), if_neg (by simp)]
      · rw [if_pos hl, ExtTreeMap.getElem?_insert_self, if_pos ⟨rfl,hl⟩]
    · rw [getElem?_ite_insert_ne (Ne.symm hu), ExtTreeMap.getElem?_empty, if_neg (by simp [hu]), if_neg (by simp [hw])]

theorem properties_other {property : String} (h : property ∉ writtenOptions) :
    (c.properties o path)[property]? = c.profile.container[property]?.or (c.fallback property) := by
  simp only [writtenOptions, List.mem_cons, List.not_mem_nil, or_false, not_or] at h
  obtain ⟨henv,hbind,hresolv,hcommand,hroot,hporto,-,-,-⟩ := h
  unfold ContainerConfig.properties
  dsimp only
  rw [getElem?_insert_ne (Ne.symm hporto), getElem?_insert_ne (Ne.symm hroot), getElem?_insert_ne (Ne.symm hcommand),
    getElem?_ite_insert_ne (Ne.symm hresolv), getElem?_merged (Ne.symm hbind), getElem?_merged (Ne.symm henv),
    getElem?_unprotected]

theorem properties_env : (c.properties o path)["env"]? =
    some ((c.profile.container["env"]?.map fun given => given ++ ";" ++ formatEnv o c.fullEnv).getD
      (formatEnv o c.fullEnv)) := by
  have hnone : c.fallback "env" = none := by simp [ContainerConfig.fallback]
  unfold ContainerConfig.properties
  dsimp only
  rw [getElem?_insert_ne (by decide), getElem?_insert_ne (by decide), getElem?_insert_ne (by decide),
    getElem?_ite_insert_ne (by decide), getElem?_merged (by decide), getElem?_merged_self, getElem?_unprotected, hnone,
    Option.or_none]
  rfl

theorem properties_bind : (c.properties o path)["bind"]? =
    some ((c.profile.container["bind"]?.map fun given => given ++ ";" ++ (formatBinds c.profile.binds c.args).1).getD
      (formatBinds c.profile.binds c.args).1) := by
  have hnone : c.fallback "bind" = none := by simp [ContainerConfig.fallback]
  unfold ContainerConfig.properties
  dsimp only
  rw [getElem?_insert_ne (by decide), getElem?_insert_ne (by decide), getElem?_insert_ne (by decide),
    getElem?_ite_insert_ne (by decide), getElem?_merged_self, getElem?_merged (by decide), getElem?_unprotected, hnone,
    Option.or_none]

theorem items_merged (c : ContainerConfig) (property value : String) :
    items ((c.profile.container[property]?.map fun given => given ++ ";" ++ value).getD value) =
      c.own property ++ items value := by
  unfold ContainerConfig.own
  cases c.profile.container[property]? with
  | none => rfl
  | some given => exact items_append given value

theorem ContainerConfig.PlainEnv.item (h : c.PlainEnv) {p : String × String} (hp : p ∈ c.fullEnv.toList) :
    ';' ∉ (envItem p).toList := by
  have hkv : ';' ∉ p.1.toList ∧ ';' ∉ p.2.toList := by
    have hp' : c.fullEnv[p.1]? = some p.2 := ExtTreeMap.mem_toList_iff_getElem?_eq_some.mp hp
    unfold ContainerConfig.fullEnv at hp'
    split at hp'
    · rename_i hset
      rw [ExtTreeMap.getElem?_insert] at hp'
      split at hp'
      · rename_i hk
        obtain ⟨hreg,hname⟩ := h.image hset
        have hk : "image_uri" = p.1 := by simpa using hk
        rw [← hk, ← Option.some.inj hp']
        simp [hreg, hname]
      · exact h.env p.1 p.2 hp'
    · exact h.env p.1 p.2 hp'
  simp [envItem, hkv.1, hkv.2]

end Lookup

/-- The properties `P` of a run: what is set is in them, and all of them are set if the
run does not fail. The section of the profile is kept but for the options that are
written; the lists are split back into the items they were made of, provided that no
item has a semicolon; every argument is in the command once. -/
theorem createContainer_merges (o : Outside) (c : ContainerConfig) (root : ℕ) (extraVolumes : List ℕ) (w : World) (P : Map)
    (hP : c.finalProperties o root w = some P) :
    (∀ property value, Sets w (createContainer o c root extraVolumes w).2 property value → P[property]? = some value) ∧
    ((∃ c', (createContainer o c root extraVolumes w).1 = .ok c') → ∀ property value, P[property]? = some value →
      Sets w (createContainer o c root extraVolumes w).2 property value) ∧
    (∀ property ∉ writtenOptions, P[property]? = c.profile.container[property]?.or (c.fallback property)) ∧
    (c.PlainEnv → ∃ (env : String) (l : List (String × String)), P["env"]? = some env ∧ l.Perm c.fullEnv.toList ∧
      nonempty (items env) = nonempty (c.own "env") ++ l.map envItem) ∧
    (c.PlainBinds → ∃ bind, P["bind"]? = some bind ∧
      items bind = c.own "bind" ++ c.endpointItem :: c.profile.binds.map bindItem) ∧
    ∃ l : List (String × String), l.Perm (c.args.insert "--endpoint" "/run/cocaine").toList ∧
      P["command"]? = some (c.executable ++ String.join (l.map fun p => " " ++ p.1 ++ " " ++ p.2)) := by
  refine ⟨?_,?_,?_,?_,?_,?_⟩
  · intro property value hs
    obtain ⟨P',hP',hv⟩ := createContainer_logs.of_sets hs
    rw [hP] at hP'
    cases hP'
    exact hv
  · rintro ⟨c',hok⟩ property value hv
    exact (createContainer_sets_iff hok hP property value).mpr hv
  · intro property hp
    have hnet : property ∉ ["net","hostname","ip"] := fun hmem => hp (by
      simp only [writtenOptions, List.mem_cons, List.not_mem_nil, or_false] at hmem ⊢
      tauto)
    rw [finalProperties_other hP hnet, properties_other hp]
  · intro hplain
    let l := arrange o.envOrder c.fullEnv.toList
    have hperm : l.Perm c.fullEnv.toList := arrange_perm _ _
    refine ⟨_,l,(finalProperties_other hP (by decide)).trans properties_env,hperm,?_⟩
    rw [items_merged, nonempty_append]
    congr 1
    exact formatEnv_items l (fun p hp => hplain.item (hperm.mem_iff.mp hp)) ""
  · intro hplain
    refine ⟨_,(finalProperties_other hP (by decide)).trans properties_bind,?_⟩
    have hendpoint : ';' ∉ c.endpointItem.toList := by simp [ContainerConfig.endpointItem, hplain.endpoint]
    rw [items_merged]
    congr 1
    refine (formatBinds_items c.profile.binds hplain.binds c.endpointItem).trans ?_
    rw [items_single hendpoint]
    rfl
  · refine ⟨arrange o.argsOrder (c.args.insert "--endpoint" "/run/cocaine").toList,arrange_perm _ _,?_⟩
    rw [finalProperties_other hP (by decide), (properties_assigned _).1, formatCommand, foldl_command]
    rfl

/-- A container with one variable, one mount point and a section with a bind of its own. -/
theorem createContainer_merges_app :
    let c : ContainerConfig := ⟨⟨"registry","inherited",∅,"",["/a:/b"],(∅ : Map).insert "bind" "/c /d",∅,[]⟩,"app",
      "/app/run","","",(∅ : Map).insert "--endpoint" "/tmp/e",(∅ : Map).insert "k" "v",⟨false,1,"","","",[]⟩,"box","/cont","app_1","layer",
      true,false,"overlay",false,"","","label"⟩
    let w : World := ⟨[],[],⟨∅,⟨[],.newRequestError "",[],[],[]⟩⟩⟩
    ∃ P, c.finalProperties ⟨fun _ => none,[],[],[]⟩ 0 w = some P ∧
      ∃ bind, P["bind"]? = some bind ∧ items bind = ["/c /d","/tmp/e /run/cocaine","/a /b"] := by
  intro c w
  have hP : c.finalProperties ⟨fun _ => none,[],[],[]⟩ 0 w = some _ := finalProperties_of_not_asksMtn (by decide)
  refine ⟨_,hP,?_⟩
  obtain ⟨bind,hbind,hitems⟩ := (createContainer_merges _ c 0 [] w _ hP).2.2.2.2.1 ⟨by decide,by decide⟩
  have hmount : bindItem "/a:/b" = "/a /b" := by simp [bindItem, ← String.toList_inj]
  refine ⟨bind,hbind,hitems.trans ?_⟩
  rw [List.map_cons, hmount]
  rfl

/-- A semicolon in the registry makes two items of the image, and one in a mount point
two items of it, with nothing to split in the environment itself. -/
theorem semicolon_splits :
    let c : ContainerConfig := ⟨⟨"r;x","inherited",∅,"",["/a:/b;/c:/d"],∅,∅,[]⟩,"app","/app/run","","",∅,∅,
      ⟨false,1,"","","",[]⟩,"box","/cont","app_1","layer",true,true,"overlay",false,"","","label"⟩
    let w : World := ⟨[],[],⟨∅,⟨[],.newRequestError "",[],[],[]⟩⟩⟩
    let t := (createContainer ⟨fun _ => none,[],[],[]⟩ c 0 [] w).2
    (∀ (k v : String), c.env[k]? = some v → '=' ∉ k.toList ∧ ';' ∉ k.toList ∧ ';' ∉ v.toList) ∧
    (∃ env, Sets w t "env" env ∧ ¬∃ l : List (String × String), l.Perm c.fullEnv.toList ∧
      nonempty (items env) = nonempty (c.own "env") ++ l.map envItem) ∧
    ∃ bind, Sets w t "bind" bind ∧ items bind ≠ c.own "bind" ++ c.endpointItem :: c.profile.binds.map bindItem := by
  intro c w t
  have hP : c.finalProperties ⟨fun _ => none,[],[],[]⟩ 0 w = some _ := finalProperties_of_not_asksMtn (by decide)
  obtain ⟨c',hok⟩ : ∃ c', (createContainer ⟨fun _ => none,[],[],[]⟩ c 0 [] w).1 = .ok c' :=
    createContainer_ok (by decide) fun _ => rfl
  have hsets := createContainer_sets_iff hok hP
  refine ⟨?_,⟨"image_uri=r;x/app",?_,?_⟩," /run/cocaine;/a /b;/c /d",?_,?_⟩
  · intro k v hv
    cases hv
  · rw [hsets]
    exact (finalProperties_other hP (by decide)).trans properties_env
  · rintro ⟨l,hl,he⟩
    have hlen := congrArg List.length he
    rw [List.length_append, List.length_map, hl.length_eq] at hlen
    revert hlen
    decide +kernel
  · rw [hsets]
    have hmount : bindItem "/a:/b;/c:/d" = "/a /b;/c /d" := by simp [bindItem, ← String.toList_inj]
    refine (finalProperties_other hP (by decide)).trans (properties_bind.trans ?_)
    change some (" /run/cocaine" ++ ";" ++ bindItem "/a:/b;/c:/d") = _
    rw [hmount]
    rfl
  · intro he
    have hlen := congrArg List.length he
    rw [List.length_append, List.length_cons, List.length_map] at hlen
    revert hlen
    decide +kernel

end Stout.Porto
