import Stout.Docker.ProfileCodec
import Stout.Library.FloatBits

/-! # The limits that Docker gets

`newContainer` asks each number of the profile for its `Int` and does not look whether it
was an integer. A number that was sent as a float, or as an unsigned integer of 64 bits, is
handed to Docker as what its bits are as a signed integer.
-/
namespace Stout.Docker
open Msgpack
open Json (ofAscii)
open Wire

def numberOf : Value → ℚ
  | .int z => z
  | .float32 bits => FloatBits.value 8 23 (beVal bits)
  | .float64 bits => FloatBits.value 11 52 (beVal bits)
  | _ => 0

/-- What `Int` gives is the number that was sent exactly if that was an integer below `2 ^ 63`,
or nought. -/
theorem int_eq_number_iff {v : Value} {b : Bytes} {n : ℕ} (h : Encodes v b) (hv : v.asNumber = .ok n) :
    ((signed 8 n : ℤ) : ℚ) = numberOf v ↔ (∃ z < 2 ^ 63, v = .int z) ∨ n = 0 := by
  cases h with
  | @int z b h =>
    obtain rfl := Except.ok.inj hv
    have hr := h.range
    have hint : signed 8 (z % 256 ^ 8).toNat = z ↔ z < 2 ^ 63 := by
      unfold signed
      split <;> omega
    rw [numberOf, Int.cast_inj, hint]
    constructor
    · exact fun hz => Or.inl ⟨z,hz,rfl⟩
    · rintro (⟨_,hz,he⟩ | hz)
      · rw [Value.int.inj he]
        exact hz
      · omega
  | @float32 bits hlen =>
    obtain rfl := Except.ok.inj hv
    have hlt := beVal_lt bits
    rw [hlen] at hlt
    have hs : signed 8 (beVal bits) = beVal bits := signed_field (by omega)
    rw [numberOf, hs, Int.cast_natCast, FloatBits.single_eq_iff (by omega)]
    simp
  | @float64 bits hlen =>
    obtain rfl := Except.ok.inj hv
    have hlt := beVal_lt bits
    rw [hlen] at hlt
    have hs : signed 8 (beVal bits) = if beVal bits < 2 ^ 63 then (beVal bits : ℤ) else (beVal bits : ℤ) - 2 ^ 64 := rfl
    rw [numberOf, hs, FloatBits.double_eq_iff (by omega)]
    simp
  | _ => cases hv

def limits : List (String × (Resources → ℤ)) :=
  [("memory",Resources.memory),("CpuShares",Resources.cpuShares),("CpuPeriod",Resources.cpuPeriod),
    ("CpuQuota",Resources.cpuQuota)]

theorem limit_sent {kvs : List (Value × Value)} {raw : Bytes} (h : Encodes (.map kvs) raw) (hfit : Profile.fits kvs = true)
    {key : String} {limit : Resources → ℤ} (hl : (key,limit) ∈ limits) {v : Value}
    (hv : v ∈ sent (ofAscii key) (pairsOf (sent (ofAscii "resources") kvs))) :
    (∃ b, Encodes v b) ∧ v.asNumber.isOk = true := by
  obtain ⟨k,hpair,hk⟩ := mem_sent hv
  obtain ⟨u,hu,hmem⟩ := List.mem_flatMap.mp hpair
  have hufits := fits_sent hfit hu
  obtain ⟨c,hc⟩ := h.sent hu
  cases u with
  | map entries =>
    have hv' : v ∈ sent (ofAscii key) entries := by
      refine List.mem_filterMap.mpr ⟨(k,v),hmem,?_⟩
      simp [hk]
    refine ⟨hc.sent hv',?_⟩
    have hvfits := fits_sent (show entries.all (pairFits Wire.Resources.fields) = true from hufits) hv'
    simp only [limits, List.mem_cons, List.not_mem_nil, or_false, Prod.mk.injEq] at hl
    rcases hl with ⟨rfl,-⟩ | ⟨rfl,-⟩ | ⟨rfl,-⟩ | ⟨rfl,-⟩ <;> exact hvfits
  | _ => cases hmem

/-- Each limit of a container that is created is the number that was sent last for it exactly if
that was an integer below `2 ^ 63`, or nought. -/
theorem limit_eq_number_iff {kvs : List (Value × Value)} {raw : Bytes} (h : Encodes (.map kvs) raw)
    (hn : (Value.map kvs).NoExt) {o : Outside} {config : SpawnConfig} (hd : config.decodeTo = decodeTo raw) {w : World}
    {id : String} {c : Config} {hc : HostConfig} (hcall : .containerCreate id c hc ∈ callsSince w (spawn o config w).2)
    {key : String} {limit : Resources → ℤ} (hl : (key,limit) ∈ limits) (v : Value)
    (hv : (sent (ofAscii key) (pairsOf (sent (ofAscii "resources") kvs))).getLast? = some v) :
    ((limit hc.resources : ℤ) : ℚ) = numberOf v ↔ (∃ z < 2 ^ 63, v = .int z) ∨ v.asNumber = .ok 0 := by
  obtain ⟨hfit,-,rfl⟩ := creates_of_pairs h hn hd hcall
  obtain ⟨⟨b,hb⟩,hok⟩ := limit_sent h hfit hl (List.mem_of_getLast? hv)
  have hlimit : limit (hostConfig (profileOf kvs) config.args).resources =
      limitOf key (pairsOf (sent (ofAscii "resources") kvs)) := by
    simp only [limits, List.mem_cons, List.not_mem_nil, or_false, Prod.mk.injEq] at hl
    rcases hl with ⟨rfl,rfl⟩ | ⟨rfl,rfl⟩ | ⟨rfl,rfl⟩ | ⟨rfl,rfl⟩ <;> rfl
  rw [hlimit, limitOf, lastOf, hv]
  cases hnum : v.asNumber with
  | error e =>
    rw [hnum] at hok
    cases hok
  | ok n =>
    have hiff := int_eq_number_iff hb hnum
    simpa [hnum, Except.toOption] using hiff

/-- A memory limit of `10 ^ 9` sent as a double. -/
theorem limit_eq_number_iff_double :
    let o : Outside := ⟨none,.ok "c1",none,[],[]⟩
    let config : SpawnConfig := ⟨decodeTo sampleRaw,"app","/app/run",∅,∅⟩
    ∃ c hc, .containerCreate "c1" c hc ∈ callsSince ⟨0,0,∅,[]⟩ (spawn o config ⟨0,0,∅,[]⟩).2 ∧
      ((hc.resources.memory : ℤ) : ℚ) ≠ numberOf (.float64 [0x41,0xcd,0xcd,0x65,0,0,0,0]) := by
  intro o config
  have hdecode := (decodeTo_of_pairs sampleRaw_encodes sampleKvs_noExt).1 (by decide)
  have hcall : Call.containerCreate "c1" _ _ ∈ callsSince ⟨0,0,∅,[]⟩ (spawn o config ⟨0,0,∅,[]⟩).2 :=
    creates_of_decoded hdecode (by decide) rfl rfl
  have hmem : ("memory",Resources.memory) ∈ limits := List.mem_cons_self
  refine ⟨_,_,hcall,?_⟩
  rw [Ne, limit_eq_number_iff sampleRaw_encodes sampleKvs_noExt rfl hcall hmem (.float64 [0x41,0xcd,0xcd,0x65,0,0,0,0]) rfl]
  rintro (⟨z,-,hz⟩ | hz)
  · cases hz
  · exact absurd hz (by decide)

end Stout.Docker
