import Valoserveri.Proofs.FrameProofs

/-!
# When lights do not interfere

The number of channels of a light is read from the configuration, but `setLightColor` stores a fixed
number of bytes for each type. Lights with disjoint channels are therefore independent only if the
bytes stored for a light lie in its channels.
-/

namespace Valoserveri

open FixedStore

/-- The colour that sets every active byte to its highest value. -/
def white : Color := { red := 255, green := 255, blue := 255 }

section NonInterference

variable {initial : DMXController} {i j : UInt32} {light other : Light}

theorem setLightColor_getElem? {dmx : DMXController} (hl : dmx.lightConfig.lights.lookup i = some light)
    (color : Color) (b : Nat) :
    (dmx.setLightColor i color).dmxPacket[b]? =
      dmx.dmxPacket[b]?.map fun v => (lastWrite (light.writes color) b).getD v := by
  rw [setLightColor_dmxPacket, callWrites_of_lookup hl]
  exact (listStore UInt8).get_putAll dmx.dmxPacket (light.writes color) b

/-- A byte where no light is active is zero in every frame. -/
theorem setLightColors_inactive (hinit : initial.dmxPacket = initialPacket)
    (calls : List (UInt32 × Color)) {b : Nat} (h1 : 3 < b) (h2 : b < 516)
    (hb : ∀ k other, initial.lightConfig.lights.lookup k = some other → ¬ other.Active b) :
    (initial.setLightColors calls).dmxPacket[b]? = some 0 := by
  have hget := (listStore UInt8).get_putAll initial.dmxPacket (initial.lightConfig.writes calls) b
  rw [setLightColors_dmxPacket]
  refine Eq.trans hget ?_
  have h0 : (listStore UInt8).get initial.dmxPacket b = some 0 := by
    rw [hinit]
    exact initialPacket_getElem? h1 h2
  rw [h0, Option.map_some]
  cases hlast : lastWrite (initial.lightConfig.writes calls) b with
  | none => rfl
  | some v =>
    -- the last store at `b` belongs to a light that is not active there
    obtain ⟨⟨k, color⟩, -, hw⟩ := List.mem_flatMap.mp (mem_of_lastWrite_eq_some hlast)
    unfold LightsConfig.callWrites at hw
    cases hk : initial.lightConfig.lights.lookup k with
    | none => simp [hk] at hw
    | some other =>
      simp only [hk] at hw
      have hwrites := (mem_writes_iff other color b).mp (List.mem_map_of_mem hw)
      rw [writes_value_of_not_active hw (hb k other hk)]
      rfl

/-- A light that fits changes nothing outside its channels. -/
theorem setLightColor_outside_of_fits (hinit : initial.dmxPacket = initialPacket)
    (hl : initial.lightConfig.lights.lookup i = some light) (hfit : initial.lightConfig.Fits light)
    (color : Color) (calls : List (UInt32 × Color)) {b : Nat} (hb : ¬ light.Declares b) :
    ((initial.setLightColors calls).setLightColor i color).dmxPacket[b]? =
      (initial.setLightColors calls).dmxPacket[b]? := by
  rw [setLightColor_getElem? (by rw [setLightColors_lightConfig]; exact hl)]
  by_cases hw : light.Writes b
  · obtain hd | ⟨hna, hothers⟩ := hfit b hw
    · exact absurd hd hb
    · obtain ⟨h1, h2⟩ := writes_in_frame hw
      rw [setLightColors_inactive hinit calls h1 h2 hothers, lastWrite_writes_of_not_active hw hna]
      rfl
  · rw [lastWrite_writes_eq_none hw]
    simp

/-- The stores of two lights that fit and have disjoint channels agree where they overlap. -/
theorem lastWrite_comm_of_fits (hvalid : initial.lightConfig.Valid) (hij : i ≠ j)
    (hl : initial.lightConfig.lights.lookup i = some light)
    (ho : initial.lightConfig.lights.lookup j = some other)
    (hfit : initial.lightConfig.Fits light) (hfit' : initial.lightConfig.Fits other) (c d : Color)
    (b : Nat) :
    lastWrite (light.writes c) b = none ∨ lastWrite (other.writes d) b = none ∨
      lastWrite (light.writes c) b = lastWrite (other.writes d) b := by
  by_cases hw : light.Writes b
  · by_cases hw' : other.Writes b
    · refine Or.inr (Or.inr ?_)
      have hboth : ¬ light.Active b ∧ ¬ other.Active b := by
        rcases hfit b hw with hd | ⟨hna, hothers⟩
        · rcases hfit' b hw' with hd' | ⟨hna', hothers'⟩
          · exact absurd hd' (hvalid.disjoint i j light other hij hl ho b hd)
          · exact ⟨hothers' i light hl, hna'⟩
        · exact ⟨hna, hothers j other ho⟩
      rw [lastWrite_writes_of_not_active hw hboth.1, lastWrite_writes_of_not_active hw' hboth.2]
    · exact Or.inr (Or.inl (lastWrite_writes_eq_none hw'))
  · exact Or.inl (lastWrite_writes_eq_none hw)

/-- A light that changes nothing outside its channels fits. -/
theorem fits_of_outside (hinit : initial.dmxPacket = initialPacket)
    (hl : initial.lightConfig.lights.lookup i = some light)
    (h : ∀ c calls b, ¬ light.Declares b →
      ((initial.setLightColors calls).setLightColor i c).dmxPacket[b]? =
        (initial.setLightColors calls).dmxPacket[b]?) : initial.lightConfig.Fits light := by
  intro b hw
  by_cases hd : light.Declares b
  · exact Or.inl hd
  · refine Or.inr ?_
    obtain ⟨h1, h2⟩ := writes_in_frame hw
    have hzero : initial.dmxPacket[b]? = some 0 := by rw [hinit]; exact initialPacket_getElem? h1 h2
    -- setting the light to white in the initial frame leaves the byte zero
    have hna : ¬ light.Active b := by
      intro ha
      have hset := h white [] b hd
      rw [setLightColor_getElem? (by rw [setLightColors_lightConfig]; exact hl),
        show (initial.setLightColors []).dmxPacket[b]? = some 0 from hzero] at hset
      rw [white, lastWrite_writes_white ha] at hset
      exact absurd hset (by decide)
    refine ⟨hna, fun k other hk ha => ?_⟩
    -- and so does clearing the byte after another light has been set to white
    have hset := h white [(k, white)] b hd
    have hbyte : (initial.setLightColors [(k, white)]).dmxPacket[b]? = some 255 := by
      show (initial.setLightColor k white).dmxPacket[b]? = some 255
      rw [setLightColor_getElem? hk, hzero, white, lastWrite_writes_white ha]
      rfl
    rw [setLightColor_getElem? (by rw [setLightColors_lightConfig]; exact hl), hbyte,
      lastWrite_writes_of_not_active hw hna] at hset
    exact absurd hset (by decide)

end NonInterference

/-- In a valid configuration, the lights do not interfere exactly if every light, as long as there is
    another one, fits its channels. -/
theorem nonInterfering_iff (config : Config) (fd : Int) (initial : DMXController)
    (h : DMXController.construct config fd = .ok initial) (hvalid : initial.lightConfig.Valid) :
    initial.NonInterfering ↔
      ∀ i j light other, i ≠ j → initial.lightConfig.lights.lookup i = some light →
        initial.lightConfig.lights.lookup j = some other → initial.lightConfig.Fits light := by
  have hinit := (construct_eq_ok h).2
  constructor
  · intro hni i j light other hij hl ho
    exact fits_of_outside hinit hl fun c calls b hb => (hni i j light other hij hl ho c c calls).1 b hb
  · intro hfits i j light other hij hl ho c d calls dmx
    have hfit := hfits i j light other hij hl ho
    have hfit' := hfits j i other light hij.symm ho hl
    have hout : ∀ b, ¬ light.Declares b →
        (dmx.setLightColor i c).dmxPacket[b]? = dmx.dmxPacket[b]? := fun b hb =>
      setLightColor_outside_of_fits hinit hl hfit c calls hb
    refine ⟨hout, fun b hb => hout b ?_, ?_⟩
    · exact hvalid.disjoint j i other light hij.symm ho hl b hb
    · have hcfg : dmx.lightConfig = initial.lightConfig := setLightColors_lightConfig initial calls
      simp only [setLightColor_dmxPacket, setLightColor_lightConfig, hcfg, callWrites_of_lookup hl,
        callWrites_of_lookup ho]
      exact (listStore UInt8).putAll_comm
        (lastWrite_comm_of_fits hvalid hij hl ho hfit hfit' c d)

theorem fits_of_width_le {config : LightsConfig} {light : Light}
    (h : light.type.width ≤ light.numChannels.toNat) : config.Fits light := by
  intro b hw
  exact Or.inl ⟨hw.1, by have := hw.2; omega⟩

/-- The configuration with the lights 0 and 1. -/
def pairConfig (light other : Light) : LightsConfig where
  lights := (Finmap.insert 0 light ∅).insert 1 other

theorem lookup_pairConfig {light other l : Light} {i : UInt32}
    (hl : (pairConfig light other).lights.lookup i = some l) :
    (i = 0 ∧ l = light) ∨ (i = 1 ∧ l = other) := by
  unfold pairConfig at hl
  by_cases h1 : i = 1
  · subst h1
    rw [Finmap.lookup_insert] at hl
    exact Or.inr ⟨rfl, (Option.some.inj hl).symm⟩
  · rw [Finmap.lookup_insert_of_ne _ h1] at hl
    by_cases h0 : i = 0
    · subst h0
      rw [Finmap.lookup_insert] at hl
      exact Or.inl ⟨rfl, (Option.some.inj hl).symm⟩
    · rw [Finmap.lookup_insert_of_ne _ h0, Finmap.lookup_empty] at hl
      cases hl

theorem valid_pairConfig {light other : Light} (hpos : 1 ≤ light.address) (hpos' : 1 ≤ other.address)
    (hle : light.address.toNat + light.numChannels.toNat ≤ other.address.toNat)
    (hle' : other.address.toNat + other.numChannels.toNat ≤ 256) :
    (pairConfig light other).Valid := by
  have hp := UInt8.le_iff_toNat_le.mp hpos
  have hp' := UInt8.le_iff_toNat_le.mp hpos'
  simp only [UInt8.toNat_one] at hp hp'
  constructor
  · intro i l hl ch h1 h2
    rcases lookup_pairConfig hl with ⟨-, rfl⟩ | ⟨-, rfl⟩ <;> omega
  · intro i j l o hij hl ho b hd hd'
    unfold Light.Declares at hd hd'
    rcases lookup_pairConfig hl with ⟨rfl, rfl⟩ | ⟨rfl, rfl⟩ <;>
      rcases lookup_pairConfig ho with ⟨rfl, rfl⟩ | ⟨rfl, rfl⟩
    · exact hij rfl
    · omega
    · omega
    · exact hij rfl

/-- The lights of the default configuration do not interfere. -/
theorem nonInterfering_distConfig :
    ∃ initial, DMXController.construct distConfig 3 = .ok initial ∧ initial.lightConfig.Valid ∧
      initial.NonInterfering := by
  have hvalid : (pairConfig ⟨.RGB, 1, 5⟩ ⟨.UV, 6, 2⟩).Valid :=
    valid_pairConfig (by decide) (by decide) (by decide) (by decide)
  refine ⟨_, rfl, hvalid, (nonInterfering_iff distConfig 3 _ rfl hvalid).mpr ?_⟩
  intro i j light other _ hl _
  rcases lookup_pairConfig hl with ⟨-, rfl⟩ | ⟨-, rfl⟩
  · exact fits_of_width_le (by decide)
  · exact fits_of_width_le (by decide)

/-- Two coloured lights that declare three channels each. -/
def narrowConfig : Config := .ofEntries [("global=lights", "2"), ("light0=address", "1"),
  ("light0=numchannels", "3"), ("light1=address", "4"), ("light1=numchannels", "3")]

/-- Setting the first of two lights with three channels each changes a channel of the second. -/
theorem interfering_narrowConfig :
    ¬ ∀ (config : Config) (fd : Int) (initial : DMXController),
      DMXController.construct config fd = .ok initial → initial.lightConfig.Valid →
        initial.NonInterfering := by
  intro h
  have hvalid : (pairConfig ⟨.RGB, 1, 3⟩ ⟨.RGB, 4, 3⟩).Valid :=
    valid_pairConfig (by decide) (by decide) (by decide) (by decide)
  have hni := h narrowConfig 3 _ rfl hvalid
  have hbyte := (hni 0 1 ⟨.RGB, 1, 3⟩ ⟨.RGB, 4, 3⟩ (by decide) rfl rfl white white []).2.1 8 (by decide)
  exact absurd hbyte (by decide)

end Valoserveri
