import Valoserveri.Proofs.ConfigProofs
import Valoserveri.Proofs.InterferenceProofs

/-!
# The start code

The payload of a frame begins with the start code, byte 4, before the first channel. A light is stored
from byte 4 on if its address is zero, which `LightsConfig::parse` does not rule out: the section may
give no address, the address zero, or one that becomes zero when it is narrowed to a byte. Setting such
a light replaces the start code by the first component of its colour.
-/

namespace Valoserveri

open FixedStore ExceptRun

/-- The address in the section of light `i` is missing, zero, or becomes zero when it is narrowed to a
    byte. -/
def Config.OnStartCode (config : Config) (i : Nat) : Prop :=
  ∃ address, config.getUnsigned (lit "light" ++ stdToString i) (lit "address") 0 = .ok address ∧
    address % 256 = 0

/-- The type in the section of light `i`. -/
def Config.HasLightType (config : Config) (i : Nat) (type : LightType) : Prop :=
  parseLightType (config.get (lit "light" ++ stdToString i) (lit "type") (lit "rgb")) = .ok type

/-- A colour whose first byte is zero in a light of the given type. -/
def LightType.FirstZero : LightType → Color → Prop
  | .RGB, color => color.red = 0
  | .UV, color => 77 * color.red.toNat + 150 * color.green.toNat + 29 * color.blue.toNat < 256

theorem not_firstZero_white (type : LightType) : ¬ type.FirstZero white := by
  unfold LightType.FirstZero
  cases type <;> decide

/-! ## One call -/

theorem writes_startCode_iff (light : Light) : light.Writes 4 ↔ light.address = 0 := by
  rw [← UInt8.toNat_inj]
  unfold Light.Writes LightType.width
  cases light.type with
  | RGB => simp
  | UV => simp

theorem ofNat_intensity_eq_zero_iff (color : Color) :
    UInt8.ofNat (intensity color) = 0 ↔ LightType.UV.FirstZero color := by
  rw [← UInt8.toNat_inj, toNat_intensity]
  show _ / 256 = 0 ↔ 77 * color.red.toNat + 150 * color.green.toNat + 29 * color.blue.toNat < 256
  omega

/-- A light at address zero stores the first byte of its colour to the start code. -/
theorem lastWrite_startCode {light : Light} (h : light.address = 0) (color : Color) :
    ∃ v, lastWrite (light.writes color) 4 = some v ∧ (v = 0 ↔ light.type.FirstZero color) := by
  unfold Light.writes
  rw [h]
  cases light.type with
  | RGB => exact ⟨color.red, rfl, Iff.rfl⟩
  | UV => exact ⟨_, rfl, ofNat_intensity_eq_zero_iff color⟩

/-- A call keeps a start code that is zero exactly if the light is not at address zero or its first
    byte becomes zero. -/
theorem setLightColor_startCode_iff {dmx : DMXController} (h : dmx.dmxPacket[4]? = some 0)
    (index : UInt32) (color : Color) :
    (dmx.setLightColor index color).dmxPacket[4]? = some 0 ↔
      ∀ light, dmx.lightConfig.lights.lookup index = some light → light.address = 0 →
        light.type.FirstZero color := by
  rw [setLightColor_dmxPacket]
  show (listStore UInt8).get _ 4 = some 0 ↔ _
  have hget : (listStore UInt8).get dmx.dmxPacket 4 = some 0 := h
  rw [Store.get_putAll, hget, Option.map_some, Option.some.injEq]
  cases hlookup : dmx.lightConfig.lights.lookup index with
  | none =>
    have hwrites : dmx.lightConfig.callWrites (index, color) = [] := by
      simp only [LightsConfig.callWrites, hlookup]
    rw [hwrites]
    exact iff_of_true rfl fun light hlight => by simp at hlight
  | some light =>
    rw [callWrites_of_lookup hlookup]
    by_cases haddress : light.address = 0
    · obtain ⟨v, hlast, hzero⟩ := lastWrite_startCode haddress color
      rw [hlast, Option.getD_some, hzero]
      constructor
      · rintro hfirst light' heq -
        obtain rfl := Option.some.inj heq
        exact hfirst
      · intro hfirst
        exact hfirst light rfl haddress
    · rw [lastWrite_writes_eq_none (mt (writes_startCode_iff light).mp haddress)]
      refine iff_of_true rfl ?_
      intro light' heq haddress'
      obtain rfl := Option.some.inj heq
      exact absurd haddress' haddress

/-! ## Sequences of calls -/

/-- The start code stays zero all along a sequence of calls exactly if each call keeps it. -/
theorem setLightColors_startCode_iff {dmx : DMXController} (h : dmx.dmxPacket[4]? = some 0)
    (calls : List (UInt32 × Color)) :
    (∀ k, (dmx.setLightColors (calls.take k)).dmxPacket[4]? = some 0) ↔
      ∀ call ∈ calls, ∀ light, dmx.lightConfig.lights.lookup call.1 = some light →
        light.address = 0 → light.type.FirstZero call.2 := by
  induction calls generalizing dmx with
  | nil =>
    refine iff_of_true (fun k => ?_) (by simp)
    rw [List.take_nil]
    exact h
  | cons call calls ih =>
    have hcall := setLightColor_startCode_iff h call.1 call.2
    rw [List.forall_mem_cons, ← hcall]
    constructor
    · intro hall
      have hfirst : (dmx.setLightColor call.1 call.2).dmxPacket[4]? = some 0 := hall 1
      have hrest := (ih hfirst).mp fun k => hall (k + 1)
      rw [setLightColor_lightConfig] at hrest
      exact ⟨hfirst, hrest⟩
    · rintro ⟨hfirst, hrest⟩ k
      have hrest' := (ih hfirst).mpr (by rwa [setLightColor_lightConfig])
      cases k with
      | zero => exact h
      | succ k => exact hrest' k

/-! ## The configuration -/

/-- The lights that are parsed are those of the sections below the configured number. -/
theorem parse_lookup_iff {config : Config} {n : Nat} {lights : LightsConfig}
    (hn : config.getUnsigned (lit "global") (lit "lights") 0 = .ok n)
    (h : LightsConfig.parse config = .ok lights) (k : UInt32) (light : Light) :
    lights.lights.lookup k = some light ↔ k.toNat < n ∧ parseLight config k.toNat = .ok light := by
  obtain ⟨n', hlt, hn', hnumbered⟩ := parse_numbered h
  obtain rfl := Except.ok.inj (hn.symm.trans hn')
  constructor
  · intro hk
    have hkn : k.toNat < n := (hnumbered.mem_iff hlt k).mp (Finmap.mem_of_lookup_eq_some hk)
    obtain ⟨light', hlight', hk'⟩ := parse_lookup hn h k.toNat hkn
    rw [UInt32.ofNat_toNat, hk] at hk'
    obtain rfl := Option.some.inj hk'
    exact ⟨hkn, hlight'⟩
  · rintro ⟨hkn, hlight⟩
    obtain ⟨light', hlight', hk'⟩ := parse_lookup hn h k.toNat hkn
    obtain rfl := Except.ok.inj (hlight.symm.trans hlight')
    rwa [UInt32.ofNat_toNat] at hk'

theorem parseLight_address_eq_zero_iff {config : Config} {i : Nat} {light : Light}
    (h : parseLight config i = .ok light) : light.address = 0 ↔ config.OnStartCode i := by
  obtain ⟨address, -, haddress, -, hfield, -, -⟩ := parseLight_eq_ok h
  have hzero : light.address = 0 ↔ address % 256 = 0 := by
    rw [hfield, ← UInt8.toNat_inj, UInt8.toNat_ofNat']
    rfl
  rw [hzero]
  constructor
  · intro hmod
    exact ⟨address, haddress, hmod⟩
  · rintro ⟨address', haddress', hmod⟩
    obtain rfl := Except.ok.inj (haddress.symm.trans haddress')
    exact hmod

theorem parseLight_hasLightType {config : Config} {i : Nat} {light : Light}
    (h : parseLight config i = .ok light) : config.HasLightType i light.type := by
  obtain ⟨-, -, -, -, -, -, htype⟩ := parseLight_eq_ok h
  exact htype

/-- What keeps the start code in a call, in terms of the configuration. -/
theorem call_firstZero_iff {config : Config} {n : Nat} {lights : LightsConfig}
    (hn : config.getUnsigned (lit "global") (lit "lights") 0 = .ok n)
    (h : LightsConfig.parse config = .ok lights) (call : UInt32 × Color) :
    (∀ light, lights.lights.lookup call.1 = some light → light.address = 0 →
        light.type.FirstZero call.2) ↔
      (call.1.toNat < n → config.OnStartCode call.1.toNat →
        ∀ type, config.HasLightType call.1.toNat type → type.FirstZero call.2) := by
  constructor
  · intro hlights hlt hon type htype
    obtain ⟨light, hlight, -⟩ := parse_lookup hn h _ hlt
    have htype' := parseLight_hasLightType hlight
    obtain rfl := Except.ok.inj (Eq.trans (Eq.symm htype) htype')
    exact hlights light ((parse_lookup_iff hn h call.1 light).mpr ⟨hlt, hlight⟩)
      ((parseLight_address_eq_zero_iff hlight).mpr hon)
  · intro hconfig light hlookup haddress
    obtain ⟨hlt, hlight⟩ := (parse_lookup_iff hn h call.1 light).mp hlookup
    exact hconfig hlt ((parseLight_address_eq_zero_iff hlight).mp haddress) light.type
      (parseLight_hasLightType hlight)

theorem not_onStartCode_distConfig : ∀ i < 2, ¬ distConfig.OnStartCode i := by
  rintro i hi ⟨address, haddress, hzero⟩
  obtain rfl | rfl : i = 0 ∨ i = 1 := by omega
  · obtain rfl : 1 = address := Except.ok.inj haddress
    exact absurd hzero (by decide)
  · obtain rfl : 6 = address := Except.ok.inj haddress
    exact absurd hzero (by decide)

/-- Along a sequence of calls the start code stays zero exactly if no call gives a light whose address
    is missing or divisible by 256 a colour whose first byte is not zero. All sequences of calls keep
    the start code exactly if no light has such an address. -/
theorem startCode_kept_iff (config : Config) (fd : Int) (initial : DMXController) (n : Nat)
    (h : DMXController.construct config fd = .ok initial)
    (hn : config.getUnsigned (lit "global") (lit "lights") 0 = .ok n) :
    (∀ calls : List (UInt32 × Color),
      (∀ k, (initial.setLightColors (calls.take k)).dmxPacket[4]? = some 0) ↔
      ∀ call ∈ calls, call.1.toNat < n → config.OnStartCode call.1.toNat →
        ∀ type, config.HasLightType call.1.toNat type → type.FirstZero call.2) ∧
    ((∀ calls, (initial.setLightColors calls).dmxPacket[4]? = some 0) ↔
      ∀ i < n, ¬ config.OnStartCode i) := by
  obtain ⟨hparse, hpacket⟩ := construct_eq_ok h
  have hzero : initial.dmxPacket[4]? = some 0 := by
    rw [hpacket]
    exact initialPacket_getElem? (by decide) (by decide)
  have hcalls := fun calls => (setLightColors_startCode_iff hzero calls).trans
    (forall₂_congr fun call _ => call_firstZero_iff hn hparse call)
  refine ⟨hcalls, ?_, ?_⟩
  · intro hall i hi hon
    -- white has no component that is zero
    have hlt : i < 2 ^ 31 := hi.trans (getUnsigned_lt (by decide) hn)
    have hindex : (UInt32.ofNat i).toNat = i := by
      rw [UInt32.toNat_ofNat', Nat.mod_eq_of_lt (by omega)]
    obtain ⟨light, hlight, -⟩ := parse_lookup hn hparse i hi
    have hwhite := (hcalls [(UInt32.ofNat i, white)]).mp (fun k => hall _) _ (List.mem_singleton_self _)
    simp only [hindex] at hwhite
    exact not_firstZero_white light.type (hwhite hi hon light.type (parseLight_hasLightType hlight))
  · intro hnone calls
    have hkept := (hcalls calls).mpr fun call _ hlt hon => absurd hon (hnone _ hlt)
    have hend := hkept calls.length
    rwa [List.take_length] at hend

/-- The default configuration keeps the start code. -/
theorem startCode_kept_distConfig :
    ∃ initial, DMXController.construct distConfig 3 = .ok initial ∧
      ∀ calls, (initial.setLightColors calls).dmxPacket[4]? = some 0 := by
  obtain ⟨initial, h⟩ := construct_distConfig
  exact ⟨initial, h, (startCode_kept_iff distConfig 3 initial 2 h rfl).2.mpr not_onStartCode_distConfig⟩

/-- One light, whose section is missing. -/
def unplacedConfig : Config := .ofEntries [("global=lights", "1")]

/-- Setting the light to red stores 255 to the start code. -/
theorem startCode_unplacedConfig_overwritten :
    ¬ ∀ (config : Config) (fd : Int) (initial : DMXController) (calls : List (UInt32 × Color)),
      DMXController.construct config fd = .ok initial →
      (initial.setLightColors calls).dmxPacket[4]? = some 0 := by
  intro h
  have hkept := h unplacedConfig 3 _ [(0, { red := 255 })] rfl
  have hbyte : some 255 = some (0 : UInt8) := hkept
  exact absurd hbyte (by decide)

end Valoserveri
