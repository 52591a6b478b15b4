import Valoserveri.Rig
import Valoserveri.Library.ExceptRun

/-!
# The frame along sequences of `setLightColor`

A sequence of calls stores the bytes of the lights it names, and nothing else. The addresses are
bytes, so every store lies between the header and the terminator.
-/

namespace Valoserveri

open FixedStore ExceptRun

/-! ## The stores of one light -/

/-- The positions stored to are those of the light, whatever the colour. -/
theorem mem_writes_iff (light : Light) (color : Color) (b : Nat) :
    b ∈ (light.writes color).map Prod.fst ↔ light.Writes b := by
  unfold Light.writes Light.Writes LightType.width
  cases light.type with
  | RGB =>
    simp only [List.map_cons, List.map_nil, List.mem_cons, List.not_mem_nil, or_false]
    omega
  | UV =>
    simp only [List.map_cons, List.map_nil, List.mem_cons, List.not_mem_nil, or_false]
    omega

/-- Every store lies strictly between the header and the terminator. -/
theorem writes_in_frame {light : Light} {b : Nat} (h : light.Writes b) : 3 < b ∧ b < 516 := by
  have haddr := light.address.toNat_lt
  obtain ⟨h1, h2⟩ := h
  unfold LightType.width at h2
  cases hty : light.type with
  | RGB => rw [hty] at h2; simp only at h2; omega
  | UV => rw [hty] at h2; simp only at h2; omega

theorem lastWrite_writes_eq_none {light : Light} {color : Color} {b : Nat} (h : ¬ light.Writes b) :
    lastWrite (light.writes color) b = none := by
  rw [lastWrite_eq_none_iff, mem_writes_iff]
  exact h

/-- Only the last byte of a light is not active, and zero is stored there. -/
theorem writes_value_of_not_active {light : Light} {color : Color} {b : Nat} {v : UInt8}
    (hmem : (b, v) ∈ light.writes color) (ha : ¬ light.Active b) : v = 0 := by
  unfold Light.Active LightType.width at ha
  unfold Light.writes at hmem
  cases hty : light.type with
  | RGB =>
    simp only [hty, List.mem_cons, Prod.mk.injEq, List.not_mem_nil, or_false] at hmem ha
    rcases hmem with ⟨h, -⟩ | ⟨h, -⟩ | ⟨h, -⟩ | ⟨h, -⟩ | ⟨-, h⟩
    case inr.inr.inr.inr => exact h
    all_goals omega
  | UV =>
    simp only [hty, List.mem_cons, Prod.mk.injEq, List.not_mem_nil, or_false] at hmem ha
    rcases hmem with ⟨h, -⟩ | ⟨-, h⟩
    · omega
    · exact h

theorem lastWrite_writes_of_not_active {light : Light} {color : Color} {b : Nat}
    (hw : light.Writes b) (ha : ¬ light.Active b) : lastWrite (light.writes color) b = some 0 := by
  cases hlast : lastWrite (light.writes color) b with
  | none => exact absurd ((mem_writes_iff light color b).mpr hw) (lastWrite_eq_none_iff.mp hlast)
  | some v => rw [writes_value_of_not_active (mem_of_lastWrite_eq_some hlast) ha]

theorem lastWrite_writes_white {light : Light} {b : Nat} (h : light.Active b) :
    lastWrite (light.writes { red := 255, green := 255, blue := 255 }) b = some 255 := by
  obtain ⟨h1, h2⟩ := h
  unfold LightType.width at h2
  unfold Light.writes
  cases hty : light.type with
  | RGB =>
    rw [hty] at h2
    simp only at h2
    obtain rfl | rfl | rfl | rfl : b = light.address.toNat + 4 ∨ b = light.address.toNat + 4 + 1 ∨
        b = light.address.toNat + 4 + 2 ∨ b = light.address.toNat + 4 + 3 := by omega
    all_goals simp [lastWrite]
  | UV =>
    rw [hty] at h2
    simp only at h2
    obtain rfl : b = light.address.toNat + 4 := by omega
    simp [lastWrite, intensity]

/-! ## Sequences of calls -/

@[simp] theorem setLightColor_lightConfig (dmx : DMXController) (index : UInt32) (color : Color) :
    (dmx.setLightColor index color).lightConfig = dmx.lightConfig := by
  unfold DMXController.setLightColor
  split <;> rfl

theorem setLightColor_dmxPacket (dmx : DMXController) (index : UInt32) (color : Color) :
    (dmx.setLightColor index color).dmxPacket =
      (listStore UInt8).putAll dmx.dmxPacket (dmx.lightConfig.callWrites (index, color)) := by
  unfold DMXController.setLightColor LightsConfig.callWrites
  cases dmx.lightConfig.lights.lookup index <;> rfl

@[simp] theorem setLightColors_lightConfig (dmx : DMXController) (calls : List (UInt32 × Color)) :
    (dmx.setLightColors calls).lightConfig = dmx.lightConfig := by
  induction calls generalizing dmx with
  | nil => rfl
  | cons call calls ih =>
    show ((dmx.setLightColor call.1 call.2).setLightColors calls).lightConfig = _
    rw [ih, setLightColor_lightConfig]

/-- A sequence of calls carries out the stores of its calls. -/
theorem setLightColors_dmxPacket (dmx : DMXController) (calls : List (UInt32 × Color)) :
    (dmx.setLightColors calls).dmxPacket =
      (listStore UInt8).putAll dmx.dmxPacket (dmx.lightConfig.writes calls) := by
  induction calls generalizing dmx with
  | nil => rfl
  | cons call calls ih =>
    show ((dmx.setLightColor call.1 call.2).setLightColors calls).dmxPacket = _
    rw [ih, setLightColor_lightConfig, setLightColor_dmxPacket, ← Store.putAll_append]
    rfl

theorem callWrites_of_lookup {config : LightsConfig} {index : UInt32} {light : Light}
    (h : config.lights.lookup index = some light) (color : Color) :
    config.callWrites (index, color) = light.writes color := by
  simp only [LightsConfig.callWrites, h]

/-- A byte is stored to by a sequence of calls only if it belongs to a light. -/
theorem exists_light_of_mem_writes {config : LightsConfig} {calls : List (UInt32 × Color)} {b : Nat}
    (h : b ∈ (config.writes calls).map Prod.fst) :
    ∃ i light, config.lights.lookup i = some light ∧ light.Writes b := by
  obtain ⟨w, hw, rfl⟩ := List.mem_map.mp h
  obtain ⟨⟨i, color⟩, -, hw⟩ := List.mem_flatMap.mp hw
  unfold LightsConfig.callWrites at hw
  cases hl : config.lights.lookup i with
  | none => simp [hl] at hw
  | some light =>
    simp only [hl] at hw
    exact ⟨i, light, hl, (mem_writes_iff light color w.1).mp (List.mem_map_of_mem hw)⟩

theorem setLightColors_outside (dmx : DMXController) (calls : List (UInt32 × Color)) {b : Nat}
    (h : ∀ i light, dmx.lightConfig.lights.lookup i = some light → ¬ light.Writes b) :
    (dmx.setLightColors calls).dmxPacket[b]? = dmx.dmxPacket[b]? := by
  rw [setLightColors_dmxPacket]
  refine (listStore UInt8).get_putAll_of_notMem fun hb => ?_
  obtain ⟨i, light, hl, hw⟩ := exists_light_of_mem_writes hb
  exact h i light hl hw

theorem setLightColors_length (dmx : DMXController) (calls : List (UInt32 × Color)) :
    (dmx.setLightColors calls).dmxPacket.length = dmx.dmxPacket.length := by
  rw [setLightColors_dmxPacket, length_listStore_putAll]

theorem setLightColors_header (dmx : DMXController) (calls : List (UInt32 × Color)) {b : Nat}
    (h : b ≤ 3 ∨ 516 ≤ b) : (dmx.setLightColors calls).dmxPacket[b]? = dmx.dmxPacket[b]? := by
  refine setLightColors_outside dmx calls fun i light _ hw => ?_
  have := writes_in_frame hw
  omega

/-! ## The initial frame -/

theorem initialPacket_length : initialPacket.length = 517 := by
  rw [initialPacket, length_listStore_putAll, List.length_replicate]

/-- Between the header and the terminator, the initial frame is zero. -/
theorem initialPacket_getElem? {b : Nat} (h1 : 3 < b) (h2 : b < 516) :
    initialPacket[b]? = some 0 := by
  have hnot : b ∉ ([(0, 0x7e), (1, 0x06), (2, 0x00), (3, 0x02), (516, 0xe7)] :
      List (Nat × UInt8)).map Prod.fst := by
    simp only [List.map_cons, List.map_nil, List.mem_cons, List.not_mem_nil, or_false]
    omega
  refine Eq.trans ((listStore UInt8).get_putAll_of_notMem hnot) ?_
  show (List.replicate 517 (0 : UInt8))[b]? = some 0
  rw [List.getElem?_replicate, if_pos (by omega)]

theorem construct_eq_ok {config : Config} {fd : Int} {dmx : DMXController}
    (h : DMXController.construct config fd = .ok dmx) :
    LightsConfig.parse config = .ok dmx.lightConfig ∧ dmx.dmxPacket = initialPacket := by
  unfold DMXController.construct at h
  obtain ⟨lightConfig, hparse, h⟩ := bind_eq_ok.mp h
  obtain rfl := Except.ok.inj h
  exact ⟨hparse, rfl⟩

end Valoserveri
