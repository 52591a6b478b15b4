import Valoserveri.Proofs.StateProofs
import Valoserveri.Proofs.InterferenceProofs

/-!
# The frame and the monitor state agree

`lightPacket` keeps the colour of a light twice: in the frame, under the light's address, and in
`currentState`, under its index. For a light that shares no byte with another one, both always hold
the same colour.
-/

namespace Valoserveri

open FixedStore ExceptRun

/-- What the monitors are shown of light `k` is what the frame shows. -/
def Serveri.Agrees (s : Serveri) (k : UInt32) (light : Light) : Prop :=
  ∃ color, s.currentState.lights.lookup k = some color ∧ light.Shows color s.dmx.dmxPacket

/-! ## One light in the frame -/

section Shows

variable {light : Light} {color : Color} {packet packet' : List UInt8}

/-- The brightness of an ultraviolet light fits in a byte. -/
theorem toNat_intensity (color : Color) : (UInt8.ofNat (intensity color)).toNat =
    (77 * color.red.toNat + 150 * color.green.toNat + 29 * color.blue.toNat) / 256 := by
  have hr := color.red.toNat_lt
  have hg := color.green.toNat_lt
  have hb := color.blue.toNat_lt
  rw [UInt8.toNat_ofNat', intensity, Nat.shiftRight_eq_div_pow]
  exact Nat.mod_eq_of_lt (by omega)

/-- Setting a light makes the frame show its colour. -/
theorem shows_putAll_writes (hlen : packet.length = 517) :
    light.Shows color ((listStore UInt8).putAll packet (light.writes color)) := by
  have haddr := light.address.toNat_lt
  have hget : ∀ b v, b < 517 → lastWrite (light.writes color) b = some v →
      ((listStore UInt8).putAll packet (light.writes color))[b]? = some v := by
    intro b v hb hv
    have h := (listStore UInt8).get_putAll packet (light.writes color) b
    rw [hv] at h
    refine Eq.trans h ?_
    show packet[b]?.map _ = some v
    rw [List.getElem?_eq_getElem (by omega)]
    rfl
  unfold Light.Shows
  unfold Light.writes at hget ⊢
  cases hty : light.type with
  | RGB =>
    simp only [hty] at hget
    exact ⟨hget _ _ (by omega) (by simp [lastWrite]), hget _ _ (by omega) (by simp [lastWrite]),
      hget _ _ (by omega) (by simp [lastWrite])⟩
  | UV =>
    simp only [hty] at hget
    exact ⟨_, hget _ _ (by omega) (by simp [lastWrite]), toNat_intensity color⟩

theorem Light.Shows.congr (h : light.Shows color packet)
    (heq : ∀ b, light.Writes b → packet'[b]? = packet[b]?) : light.Shows color packet' := by
  unfold Light.Shows at h ⊢
  unfold Light.Writes LightType.width at heq
  cases hty : light.type with
  | RGB =>
    simp only [hty] at h heq ⊢
    rw [heq _ (by omega), heq _ (by omega), heq _ (by omega)]
    exact h
  | UV =>
    simp only [hty] at h heq ⊢
    rw [heq _ (by omega)]
    exact h

theorem shows_initialPacket : light.Shows {} initialPacket := by
  have haddr := light.address.toNat_lt
  unfold Light.Shows
  cases light.type with
  | RGB =>
    exact ⟨initialPacket_getElem? (by omega) (by omega), initialPacket_getElem? (by omega) (by omega),
      initialPacket_getElem? (by omega) (by omega)⟩
  | UV => exact ⟨0, initialPacket_getElem? (by omega) (by omega), rfl⟩

end Shows

/-! ## One command -/

/-- A call for another light does not store to a byte of a separate light. -/
theorem LightsConfig.Separate.notMem_callWrites {lights : LightsConfig} {k : UInt32} {light : Light}
    (h : lights.Separate k light) {b : Nat} (hb : light.Writes b) {call : UInt32 × Color}
    (hne : call.1 ≠ k) : b ∉ (lights.callWrites call).map Prod.fst := by
  intro hmem
  unfold LightsConfig.callWrites at hmem
  cases hother : lights.lights.lookup call.1 with
  | none => simp [hother] at hmem
  | some other =>
    simp only [hother] at hmem
    exact h call.1 other hne hother b hb ((mem_writes_iff other call.2 b).mp hmem)

theorem length_foldl_applyLight (s : Serveri) (ls : List LightColor) :
    (ls.foldl Serveri.applyLight s).dmx.dmxPacket.length = s.dmx.dmxPacket.length := by
  induction ls generalizing s with
  | nil => rfl
  | cons l ls ih =>
    rw [List.foldl_cons, ih]
    show (s.dmx.setLightColor l.index l.color).dmxPacket.length = _
    rw [setLightColor_dmxPacket, length_listStore_putAll]

section Agrees

variable {config : Config} {s t : Serveri} {k : UInt32} {light : Light}

/-- A command for the light itself sets both copies, and one for another light neither. -/
theorem Serveri.Agrees.applyLight (h : s.Agrees k light) (hlen : s.dmx.dmxPacket.length = 517)
    (hl : s.dmx.lightConfig.lights.lookup k = some light) (hsep : s.dmx.lightConfig.Separate k light)
    (l : LightColor) : (s.applyLight l).Agrees k light := by
  obtain ⟨color, hcolor, hshows⟩ := h
  have hdmx : (s.applyLight l).dmx.dmxPacket = _ := setLightColor_dmxPacket s.dmx l.index l.color
  have hput := (mapStore UInt32 Color).get_put s.currentState.lights l.index l.color k
  rw [show (mapStore UInt32 Color).get s.currentState.lights k = some color from hcolor] at hput
  have hlookup : (s.applyLight l).currentState.lights.lookup k =
      if k = l.index then some l.color else some color := hput
  by_cases hk : k = l.index
  · refine ⟨l.color, by rw [hlookup, if_pos hk], ?_⟩
    rw [hdmx, callWrites_of_lookup (hk ▸ hl)]
    exact shows_putAll_writes hlen
  · refine ⟨color, by rw [hlookup, if_neg hk], hshows.congr fun b hb => ?_⟩
    rw [hdmx]
    exact (listStore UInt8).get_putAll_of_notMem (hsep.notMem_callWrites hb (Ne.symm hk))

theorem Serveri.Agrees.foldl_applyLight (ls : List LightColor) (h : s.Agrees k light)
    (hlen : s.dmx.dmxPacket.length = 517) (hl : s.dmx.lightConfig.lights.lookup k = some light)
    (hsep : s.dmx.lightConfig.Separate k light) : (ls.foldl Serveri.applyLight s).Agrees k light := by
  induction ls generalizing s with
  | nil => exact h
  | cons l ls ih =>
    have hconfig : (s.applyLight l).dmx.lightConfig = s.dmx.lightConfig :=
      setLightColor_lightConfig s.dmx l.index l.color
    refine ih (h.applyLight hlen hl hsep l) ?_ (by rw [hconfig]; exact hl) (by rw [hconfig]; exact hsep)
    exact (length_foldl_applyLight s [l]).trans hlen

/-! ## Runs -/

theorem Serveri.Invariant.frame_length (h : s.Invariant config) : s.dmx.dmxPacket.length = 517 := by
  obtain ⟨fd, initial, calls, hinit, hdmx⟩ := h.dmx
  rw [hdmx, setLightColors_length, (construct_eq_ok hinit).2, initialPacket_length]

/-- In every state of the server, a separate light is shown to the monitors as it is in the frame. -/
theorem Serveri.Reachable.agrees {lights : LightsConfig} (h : s.Reachable config)
    (hparse : LightsConfig.parse config = .ok lights) (hl : lights.lights.lookup k = some light)
    (hsep : lights.Separate k light) : s.Agrees k light := by
  have hconfig : ∀ {s : Serveri}, s.Reachable config → s.dmx.lightConfig = lights := fun h =>
    Except.ok.inj (h.invariant.parse_eq.symm.trans hparse)
  induction h with
  | @initial ttyFd udpFd dmx hinit =>
    have hlights : dmx.lightConfig = lights :=
      hconfig (@Serveri.Reachable.initial config ttyFd udpFd dmx hinit)
    refine ⟨{}, ?_, ?_⟩
    · show dmx.lightConfig.initialColors.lookup k = _
      rw [lookup_initialColors, hlights, hl]
      rfl
    · show light.Shows {} dmx.dmxPacket
      rw [(construct_eq_ok hinit).2]
      exact shows_initialPacket
  | quiet hs hstep ih =>
    cases hstep with
    | packet buf hpacket =>
      obtain ⟨packet, -, rfl⟩ := lightPacket_eq_ok.mp hpacket
      refine Serveri.Agrees.foldl_applyLight packet.lights ?_ hs.invariant.frame_length ?_ ?_
      · exact ih
      · show (Serveri.dmx _).lightConfig.lights.lookup k = _
        rw [hconfig hs, hl]
      · show (Serveri.dmx _).lightConfig.Separate k light
        rw [hconfig hs]
        exact hsep
    | descriptors pollfds => exact ih
    | monitors connections => exact ih
  | cleaned _ ih => exact ih
  | updated hs hstep ih =>
    obtain ⟨message, rfl⟩ := hs.invariant.eq_of_updated hstep
    exact ih

end Agrees

/-! ## The lights of both copies -/

theorem lightPacket_total (s : Serveri) {buf : StdString} (h : buf.length < 2 ^ 31) :
    s.lightPacket buf = .ok (s.applyPacket (decodePacket buf)) :=
  lightPacket_eq_ok.mpr ⟨_, parseLightPacket_eq_decodePacket h, rfl⟩

/-- Both copies of the lights have exactly the keys below `n`. -/
def Serveri.LightsBelow (s : Serveri) (n : Nat) : Prop :=
  (∀ k, k ∈ s.currentState.lights ↔ k.toNat < n) ∧ ∀ k, k ∈ s.dmx.lightConfig.lights ↔ k.toNat < n

section LightsBelow

variable {s : Serveri} {n : Nat}

theorem applyLight_lights (s : Serveri) (l : LightColor) : (s.applyLight l).currentState.lights =
    (mapStore UInt32 Color).put s.currentState.lights l.index l.color := rfl

theorem Serveri.LightsBelow.applyLight (h : s.LightsBelow n) (l : LightColor) :
    (s.applyLight l).LightsBelow n := by
  refine ⟨fun k => ?_, fun k => ?_⟩
  · have hkeys := keys_mapStore_putAll s.currentState.lights [(l.index, l.color)]
    rw [← h.1 k, applyLight_lights, ← Finmap.mem_keys, ← Finmap.mem_keys]
    exact Finset.ext_iff.mp hkeys k
  · rw [← h.2 k]
    show k ∈ (s.dmx.setLightColor l.index l.color).lightConfig.lights ↔ _
    rw [setLightColor_lightConfig]

theorem Serveri.LightsBelow.foldl_applyLight (h : s.LightsBelow n) (ls : List LightColor) :
    (ls.foldl Serveri.applyLight s).LightsBelow n := by
  induction ls generalizing s with
  | nil => exact h
  | cons l ls ih => exact ih (h.applyLight l)

/-- A command for a configured light is carried out on both copies: the frame shows the colour and is
    otherwise the same. -/
theorem Serveri.LightsBelow.applyLight_of_lt (h : s.LightsBelow n) (hlen : s.dmx.dmxPacket.length = 517)
    {l : LightColor} (hl : l.index.toNat < n) :
    ∃ light, s.dmx.lightConfig.lights.lookup l.index = some light ∧
      (s.applyLight l).dmx.dmxPacket =
        (listStore UInt8).putAll s.dmx.dmxPacket (light.writes l.color) ∧
      light.Shows l.color (s.applyLight l).dmx.dmxPacket ∧
      (∀ b, ¬ light.Writes b → (s.applyLight l).dmx.dmxPacket[b]? = s.dmx.dmxPacket[b]?) ∧
      (s.applyLight l).currentState.lights = s.currentState.lights.insert l.index l.color := by
  obtain ⟨light, hlight⟩ := Finmap.mem_iff.mp ((h.2 l.index).mpr hl)
  have hframe : (s.applyLight l).dmx.dmxPacket =
      (listStore UInt8).putAll s.dmx.dmxPacket (light.writes l.color) := by
    show (s.dmx.setLightColor l.index l.color).dmxPacket = _
    rw [setLightColor_dmxPacket, callWrites_of_lookup hlight]
  refine ⟨light, hlight, hframe, ?_, fun b hb => ?_, if_pos ((h.1 l.index).mpr hl)⟩
  · rw [hframe]
    exact shows_putAll_writes hlen
  · rw [hframe]
    exact (listStore UInt8).get_putAll_of_notMem fun hmem => hb ((mem_writes_iff light l.color b).mp hmem)

/-- A command for any other light is carried out on none. -/
theorem Serveri.LightsBelow.applyLight_of_ge (h : s.LightsBelow n) {l : LightColor}
    (hl : n ≤ l.index.toNat) : s.applyLight l = s := by
  have hdmx : s.dmx.setLightColor l.index l.color = s.dmx := by
    have hnone : s.dmx.lightConfig.lights.lookup l.index = none :=
      Finmap.lookup_eq_none.mpr fun hmem => absurd ((h.2 l.index).mp hmem) (by omega)
    unfold DMXController.setLightColor
    rw [hnone]
  have hlights : l.index ∉ s.currentState.lights := fun hmem =>
    absurd ((h.1 l.index).mp hmem) (by omega)
  unfold Serveri.applyLight
  simp only [hdmx, if_neg hlights]

end LightsBelow

/-- The configured lights are numbered from zero, and in every state of the server both copies have
    these lights and no others. At every record of a packet, a command changes both copies or none, and
    building the monitor message inserts no light. Behind a command for a configured light the frame shows
    its colour, and the bytes that the light is not stored to are as they were. -/
theorem lights_stay_aligned (config : Config) (lights : LightsConfig)
    (hparse : LightsConfig.parse config = .ok lights) :
    ∃ n, config.getUnsigned (lit "global") (lit "lights") 0 = .ok n ∧
      (∀ k, k ∈ lights.lights ↔ k.toNat < n) ∧
      ∀ s : Serveri, s.Reachable config → s.LightsBelow n ∧
        (∀ (tag : StdString) (before : List LightColor) (l : LightColor),
          let u := before.foldl Serveri.applyLight
            { s with currentState := { s.currentState with tag } }
          u.LightsBelow n ∧
          (l.index.toNat < n → ∃ light, u.dmx.lightConfig.lights.lookup l.index = some light ∧
            (u.applyLight l).dmx.dmxPacket =
              (listStore UInt8).putAll u.dmx.dmxPacket (light.writes l.color) ∧
            light.Shows l.color (u.applyLight l).dmx.dmxPacket ∧
            (∀ b, ¬ light.Writes b → (u.applyLight l).dmx.dmxPacket[b]? = u.dmx.dmxPacket[b]?) ∧
            (u.applyLight l).currentState.lights = u.currentState.lights.insert l.index l.color) ∧
          (n ≤ l.index.toNat → u.applyLight l = u)) ∧
        s.currentState.toJson.1 = s.currentState.lights := by
  obtain ⟨n, hn, hcount, hnum⟩ := parse_numbered hparse
  refine ⟨n, hcount, hnum.mem_iff hn, fun s hs => ?_⟩
  have hinv := hs.invariant
  have hconfig : s.dmx.lightConfig = lights := Except.ok.inj (hinv.parse_eq.symm.trans hparse)
  have hstate : Numbered n s.currentState.lights := by
    unfold Numbered
    rw [hinv.keys, hconfig, hnum]
  have hbelow : s.LightsBelow n := by
    refine ⟨hstate.mem_iff hn, fun k => ?_⟩
    rw [hconfig]
    exact hnum.mem_iff hn k
  refine ⟨hbelow, fun tag before l => ?_, toJson_lights hn hstate⟩
  -- the tag does not matter
  have hstart : ({ s with currentState := { s.currentState with tag } } : Serveri).LightsBelow n := hbelow
  have hmid := hstart.foldl_applyLight before
  have hlen := (length_foldl_applyLight { s with currentState := { s.currentState with tag } } before).trans
    hinv.frame_length
  exact ⟨hmid, hmid.applyLight_of_lt hlen, hmid.applyLight_of_ge⟩

theorem parse_distConfig :
    LightsConfig.parse distConfig = .ok (pairConfig ⟨.RGB, 1, 5⟩ ⟨.UV, 6, 2⟩) := rfl

/-- The default configuration has the lights 0 and 1. A packet has set light 1 and named light 7, which is
    not configured, and the next one has commands for the same two. -/
theorem lights_stay_aligned_distConfig :
    ∃ dmx s u, DMXController.construct distConfig 3 = .ok dmx ∧
      (Serveri.initial dmx 4).lightPacket (asChars (encodePacket [101] [⟨1, white⟩, ⟨7, white⟩])) = .ok s ∧
      u = { s with currentState := { s.currentState with tag := lit "valo" } } ∧ s.LightsBelow 2 ∧
      Light.Shows ⟨.UV, 6, 2⟩ { red := 9 } (u.applyLight ⟨1, { red := 9 }⟩).dmx.dmxPacket ∧
      (u.applyLight ⟨1, { red := 9 }⟩).dmx.dmxPacket[5]? = u.dmx.dmxPacket[5]? ∧
      u.applyLight ⟨7, white⟩ = u := by
  obtain ⟨dmx, hdmx⟩ := construct_distConfig
  have hlength : (asChars (encodePacket [101] [⟨1, white⟩, ⟨7, white⟩])).length < 2 ^ 31 := by decide
  have htotal := lightPacket_total (Serveri.initial dmx 4) hlength
  have hreach := Serveri.Reachable.quiet (.initial hdmx) (.packet _ htotal)
  obtain ⟨n, hcount, -, haligned⟩ := lights_stay_aligned distConfig _ parse_distConfig
  have htwo : distConfig.getUnsigned (lit "global") (lit "lights") 0 = .ok 2 := rfl
  obtain rfl := Except.ok.inj (hcount.symm.trans htwo)
  obtain ⟨hbelow, hcommands, -⟩ := haligned _ hreach
  obtain ⟨light, hlight, -, hshows, hothers, -⟩ :=
    (hcommands (lit "valo") [] ⟨1, { red := 9 }⟩).2.1 (by decide)
  have hconfig := Except.ok.inj (hreach.invariant.parse_eq.symm.trans parse_distConfig)
  obtain rfl : ⟨.UV, 6, 2⟩ = light := by
    refine Option.some.inj (Eq.trans ?_ hlight)
    exact (congrArg (fun lights : LightsConfig => lights.lights.lookup 1) hconfig).symm
  refine ⟨dmx, _, _, hdmx, htotal, rfl, hbelow, hshows, hothers 5 (by decide), ?_⟩
  exact (hcommands (lit "valo") [] ⟨7, white⟩).2.2 (by decide)

/-! ## Sequences of packets -/

theorem serveriConstruct_eq_ok {config : Config} {boot : Boot} {s : Serveri}
    (h : Serveri.construct config boot = .ok s) :
    ∃ dmx, DMXController.construct config boot.ttyFd = .ok dmx ∧
      (Serveri.initial dmx boot.udpFd).updateMonitorMessage = .ok s := by
  unfold Serveri.construct at h
  obtain ⟨dmx, hdmx, h⟩ := bind_eq_ok.mp h
  obtain ⟨_port, -, h⟩ := bind_eq_ok.mp h
  split_ifs at h with hbind
  obtain ⟨s', hs', h⟩ := bind_eq_ok.mp h
  obtain ⟨_wsPort, -, h⟩ := bind_eq_ok.mp h
  obtain rfl := Except.ok.inj h
  exact ⟨dmx, hdmx, hs'⟩

theorem reachable_construct {config : Config} {boot : Boot} {s : Serveri}
    (h : Serveri.construct config boot = .ok s) : s.Reachable config := by
  obtain ⟨dmx, hdmx, hupdate⟩ := serveriConstruct_eq_ok h
  exact .updated (.initial hdmx) hupdate

theorem reachable_lightPackets {config : Config} {s t : Serveri} {packets : List StdString}
    (hs : s.Reachable config) (h : packets.foldlM Serveri.lightPacket s = .ok t) : t.Reachable config :=
  foldlM_invariant (fun s => s.Reachable config)
    (fun _ buf _ hs hstep => hs.quiet (.packet buf hstep)) hs h

/-- After any sequence of packets, a light that shares no byte with another one has the same colour in
    the frame as in what the monitors are shown. Packets of less than `2^31` bytes are all taken. -/
theorem lightPackets_agree (config : Config) (boot : Boot) (s₀ : Serveri) (lights : LightsConfig)
    (packets : List StdString) (k : UInt32) (light : Light)
    (hparse : LightsConfig.parse config = .ok lights) (h₀ : Serveri.construct config boot = .ok s₀)
    (hl : lights.lights.lookup k = some light) (hsep : lights.Separate k light) :
    ((∀ p ∈ packets, p.length < 2 ^ 31) → ∃ s, packets.foldlM Serveri.lightPacket s₀ = .ok s) ∧
    ∀ s, packets.foldlM Serveri.lightPacket s₀ = .ok s →
      ∃ color, s.currentState.lights.lookup k = some color ∧ light.Shows color s.dmx.dmxPacket := by
  refine ⟨fun hsize => ?_, fun s hs => ?_⟩
  · obtain ⟨s, hs, -⟩ := foldlM_total (fun _ => True) packets
      (fun s _ p hp => ⟨_, lightPacket_total s (hsize p hp), trivial⟩) (s := s₀) trivial
    exact ⟨s, hs⟩
  · exact (reachable_lightPackets (reachable_construct h₀) hs).agrees hparse hl hsep

/-- The server with the default configuration can have the tag `a`, while light 0 is white. -/
theorem exists_reachable_tag :
    ∃ s : Serveri, s.Reachable distConfig ∧ s.currentState.tag = lit "a" ∧
      s.currentState.lights.lookup 0 = some white ∧ s.currentState.lights.keys.card = 2 := by
  have hok : ((DMXController.construct distConfig 3).bind fun dmx =>
      ((Serveri.initial dmx 4).lightPacket (asChars (encodePacket [97] [⟨0, white⟩]))).map fun s =>
        (s.currentState.tag, s.currentState.lights.lookup 0, s.currentState.lights.keys.card)) =
          .ok (lit "a", some white, 2) := by
    decide +kernel
  obtain ⟨dmx, hdmx, hok⟩ := except_bind_eq_ok.mp hok
  obtain ⟨s, hs, hshown⟩ := map_eq_ok hok
  obtain ⟨htag, hshown⟩ := Prod.mk.inj hshown
  obtain ⟨hwhite, hcard⟩ := Prod.mk.inj hshown
  exact ⟨s, .quiet (.initial hdmx) (.packet _ hs), htag, hwhite, hcard⟩

/-- The system calls of the constructor succeed, and libwebsockets makes no callbacks. -/
def plainBoot : Boot := { ttyFd := 3, udpFd := 4, bindResult := 0, callbacks := [] }

theorem construct_plainBoot : ∃ s, Serveri.construct distConfig plainBoot = .ok s := ⟨_, rfl⟩

theorem world_construct_plainBoot :
    ∃ w, World.construct distConfig plainBoot = .ok w ∧ w.buffer.length = 2048 := by
  obtain ⟨s, hs⟩ := construct_plainBoot
  refine ⟨World.start s, ?_, ?_⟩
  · unfold World.construct
    rw [hs]
    rfl
  · show (List.replicate s.buflen (0 : Int8)).length = 2048
    rw [List.length_replicate, (reachable_construct hs).buflen_eq]

/-- The two lights of the default configuration share no bytes. -/
theorem separate_distConfig {k : UInt32} {light : Light}
    (hl : (pairConfig ⟨.RGB, 1, 5⟩ ⟨.UV, 6, 2⟩).lights.lookup k = some light) :
    (pairConfig ⟨.RGB, 1, 5⟩ ⟨.UV, 6, 2⟩).Separate k light := by
  rintro j other hj hother b ⟨hfirst, hlast⟩ ⟨hfirst', hlast'⟩
  rcases lookup_pairConfig hl with ⟨rfl, rfl⟩ | ⟨rfl, rfl⟩ <;>
    rcases lookup_pairConfig hother with ⟨rfl, rfl⟩ | ⟨rfl, rfl⟩
  · exact hj rfl
  · simp [LightType.width] at hlast hfirst'
    omega
  · simp [LightType.width] at hfirst hlast'
    omega
  · exact hj rfl

/-- The ultraviolet light of the default configuration, after a packet for it. -/
theorem lightPackets_agree_distConfig :
    ∃ s₀ s color, Serveri.construct distConfig plainBoot = .ok s₀ ∧
      [asChars (encodePacket [101] [⟨1, white⟩])].foldlM Serveri.lightPacket s₀ = .ok s ∧
      s.currentState.lights.lookup 1 = some color ∧ Light.Shows ⟨.UV, 6, 2⟩ color s.dmx.dmxPacket := by
  obtain ⟨s₀, h₀⟩ := construct_plainBoot
  obtain ⟨htotal, hagree⟩ := lightPackets_agree distConfig plainBoot s₀
    (pairConfig ⟨.RGB, 1, 5⟩ ⟨.UV, 6, 2⟩) [asChars (encodePacket [101] [⟨1, white⟩])] 1 ⟨.UV, 6, 2⟩
    parse_distConfig h₀ rfl (separate_distConfig rfl)
  obtain ⟨s, hs⟩ := htotal (by decide)
  obtain ⟨color, hcolor, hshows⟩ := hagree s hs
  exact ⟨s₀, s, color, h₀, hs, hcolor, hshows⟩

end Valoserveri
