import Valoserveri.Proofs.AgreementProofs

/-!
# The tag

`lightPacket` stores the tag of every packet it is given, sifted through the whitelist. The tag is
therefore always safe to serialize. But the whitelist misses a letter, and a packet that is rejected
clears the tag.
-/

namespace Valoserveri

open ExceptRun

/-- What `lightPacket` stores as the tag. -/
theorem lightPacket_tag {config : Config} {s t : Serveri} {buf : StdString} (hs : s.Invariant config)
    (h : s.lightPacket buf = .ok t) : ∃ packet, parseLightPacket buf = .ok packet ∧
      t.currentState.tag = packet.tag.filter fun c => tagWhitelist.contains c := by
  obtain ⟨packet, hparse, rfl⟩ := lightPacket_eq_ok.mp h
  refine ⟨packet, hparse, ?_⟩
  rw [applyPacket_eq]
  show s.sieveTag packet.tag = _
  rw [sieveTag_eq, hs.whitelist]
  refine List.filter_congr fun c hc => ?_
  -- the zero in the set of the constructor does not matter, since no tag has one
  have hne := parseLightPacket_tag_ne_zero hparse c hc
  rw [Bool.eq_iff_iff, List.contains_iff_mem, List.contains_iff_mem, mem_initialWhitelist]
  exact or_iff_left hne

/-- In every state of the server the tag is safe: it is valid UTF-8, its JSON literal is the tag itself
    between quotes, and the monitor message can be built. The tag after a packet consists of the
    characters of the packet's tag that are in the whitelist, and all packets of less than `2^31`
    bytes are taken. -/
theorem tag_safe_to_serialize (config : Config) (s : Serveri) (hs : s.Reachable config) :
    (∀ c ∈ s.currentState.tag, 32 ≤ c ∧ c < 127 ∧ c ≠ 34 ∧ c ≠ 92) ∧
    (s.currentState.tag.map Int8.toUInt8).toByteArray.IsValidUTF8 ∧
    dumpString s.currentState.tag = .ok (34 :: (s.currentState.tag ++ [34])) ∧
    (∃ t, s.updateMonitorMessage = .ok t) ∧
    (∀ buf, buf.length < 2 ^ 31 → ∃ t, s.lightPacket buf = .ok t) ∧
    (∀ buf t, s.lightPacket buf = .ok t → ∃ packet, parseLightPacket buf = .ok packet ∧
      t.currentState.tag = packet.tag.filter fun c => tagWhitelist.contains c) := by
  have hinv := hs.invariant
  obtain ⟨text, -, hupdate⟩ := hinv.updateMonitorMessage_eq
  exact ⟨hinv.tag, isValidUTF8_safe hinv.tag, dumpString_safe hinv.tag, ⟨_, hupdate⟩,
    fun buf hbuf => ⟨_, lightPacket_total s hbuf⟩, fun buf t h => lightPacket_tag hinv h⟩

/-! ## Ordinary tags -/

theorem lightPacket_taggedPacket (s : Serveri) {tag body : StdString} (htag : ∀ c ∈ tag, c ≠ 0)
    (hlen : (taggedPacket tag body).length < 2 ^ 31) :
    s.lightPacket (taggedPacket tag body) =
      .ok (s.applyPacket { tag, lights := decodeRecords body }) := by
  rw [taggedPacket_length] at hlen
  exact lightPacket_eq_ok.mpr ⟨_, parseLightPacket_terminated htag (by omega) (by omega), rfl⟩

/-- The whitelist has all letters, digits and the space, except for the capital `I`. -/
theorem mem_tagWhitelist_iff {c : Int8} (hc : OrdinaryChar c) : c ∈ tagWhitelist ↔ c ≠ 73 := by
  have h : ∀ c : Int8, OrdinaryChar c → (c ∈ tagWhitelist ↔ c ≠ 73) := forall_char (by decide +kernel)
  exact h c hc

theorem ordinary_ne_zero {tag : StdString} (h : ∀ c ∈ tag, OrdinaryChar c) : ∀ c ∈ tag, c ≠ 0 := by
  rintro c hc rfl
  exact absurd (h 0 hc) (by decide)

theorem filter_tagWhitelist_eq_self_iff {tag : StdString} (htag : ∀ c ∈ tag, OrdinaryChar c) :
    tag.filter (fun c => tagWhitelist.contains c) = tag ↔ 73 ∉ tag := by
  rw [List.filter_eq_self]
  constructor
  · intro h hI
    have hmem := List.contains_iff_mem.mp (h 73 hI)
    exact (mem_tagWhitelist_iff (htag 73 hI)).mp hmem rfl
  · intro h c hc
    refine List.contains_iff_mem.mpr ((mem_tagWhitelist_iff (htag c hc)).mpr ?_)
    rintro rfl
    exact h hc

/-- The tag of a packet is stored without the characters that are not in the whitelist. -/
theorem lightPacket_taggedPacket_tag {config : Config} {s : Serveri} {tag body : StdString}
    (hs : s.Invariant config) (htag : ∀ c ∈ tag, c ≠ 0)
    (hlen : (taggedPacket tag body).length < 2 ^ 31) :
    ∃ t, s.lightPacket (taggedPacket tag body) = .ok t ∧
      t.currentState.tag = tag.filter fun c => tagWhitelist.contains c := by
  have hpacket := lightPacket_taggedPacket s htag hlen
  refine ⟨_, hpacket, ?_⟩
  obtain ⟨packet, hparse, hfilter⟩ := lightPacket_tag hs hpacket
  rw [taggedPacket_length] at hlen
  have hterm := parseLightPacket_terminated htag (by omega) (le_of_lt hlen)
  obtain rfl := Except.ok.inj (hparse.symm.trans hterm)
  exact hfilter

/-- A tag of letters, digits and spaces is stored as it was sent exactly if it has no capital `I`. -/
theorem ordinary_tag_survives_iff (config : Config) (s : Serveri) (tag body : StdString)
    (hs : s.Reachable config) (htag : ∀ c ∈ tag, OrdinaryChar c)
    (hlen : (taggedPacket tag body).length < 2 ^ 31) :
    (∃ t, s.lightPacket (taggedPacket tag body) = .ok t ∧ t.currentState.tag = tag) ↔ 73 ∉ tag := by
  obtain ⟨t, ht, hstored⟩ := lightPacket_taggedPacket_tag hs.invariant (ordinary_ne_zero htag) hlen
  rw [← filter_tagWhitelist_eq_self_iff htag]
  constructor
  · rintro ⟨t', ht', heq⟩
    obtain rfl : t = t' := Except.ok.inj (ht.symm.trans ht')
    exact hstored.symm.trans heq
  · intro hkept
    exact ⟨t, ht, hstored.trans hkept⟩

/-- The tag `Valo 9` is stored as it is. -/
theorem ordinary_tag_survives_valo :
    ∃ dmx t, DMXController.construct distConfig 3 = .ok dmx ∧
      (Serveri.initial dmx 4).lightPacket (taggedPacket (lit "Valo 9") []) = .ok t ∧
      t.currentState.tag = lit "Valo 9" := by
  obtain ⟨dmx, hdmx⟩ := construct_distConfig
  have h := (ordinary_tag_survives_iff distConfig (Serveri.initial dmx 4) (lit "Valo 9") []
    (.initial hdmx) (by decide) (by decide)).mpr (by decide)
  obtain ⟨t, ht, htag⟩ := h
  exact ⟨dmx, t, hdmx, ht, htag⟩

/-- The tag `Instanssi` loses its first letter. -/
theorem ordinary_tag_loses_letter :
    ¬ ∀ (config : Config) (s : Serveri) (tag body : StdString), s.Reachable config → tag ≠ [] →
      (∀ c ∈ tag, OrdinaryChar c) → (taggedPacket tag body).length < 2 ^ 31 →
      ∃ t, s.lightPacket (taggedPacket tag body) = .ok t ∧ t.currentState.tag = tag := by
  intro h
  obtain ⟨dmx, hdmx⟩ := construct_distConfig
  have hs : (Serveri.initial dmx 4).Reachable distConfig := .initial hdmx
  have hordinary : ∀ c ∈ lit "Instanssi", OrdinaryChar c := by decide
  have hlen : (taggedPacket (lit "Instanssi") []).length < 2 ^ 31 := by decide
  obtain ⟨t, ht, htag⟩ := h distConfig _ (lit "Instanssi") [] hs (by decide) hordinary hlen
  obtain ⟨t', ht', hstored⟩ :=
    lightPacket_taggedPacket_tag hs.invariant (ordinary_ne_zero hordinary) hlen
  obtain rfl : t = t' := Except.ok.inj (ht.symm.trans ht')
  have hI := (filter_tagWhitelist_eq_self_iff hordinary).mp (hstored.symm.trans htag)
  exact absurd hI (by decide)

/-! ## Rejected packets -/

/-- A packet that is rejected clears the tag and leaves everything else that is shown. -/
theorem lightPacket_rejected (s : Serveri) {buf : StdString} (h : Rejected buf) :
    s.lightPacket buf =
      .ok { s with currentState := { s.currentState with tag := [] }, lightsDirty := true } := by
  rcases parseLightPacket_cases buf with ⟨-, hparse⟩ | ⟨hnot, -⟩
  · exact lightPacket_eq_ok.mpr ⟨{}, hparse, rfl⟩
  · exact absurd h hnot

/-- A packet that is rejected changes nothing that is shown exactly if the tag was empty before. -/
theorem lightPacket_rejected_unchanged_iff (s : Serveri) (buf : StdString) (h : Rejected buf) :
    (∃ t, s.lightPacket buf = .ok t ∧ t.dmx.dmxPacket = s.dmx.dmxPacket ∧
      t.currentState.lights = s.currentState.lights ∧ t.currentState.tag = s.currentState.tag) ↔
    s.currentState.tag = [] := by
  rw [lightPacket_rejected s h]
  constructor
  · rintro ⟨t, ht, -, -, htag⟩
    obtain rfl := Except.ok.inj ht
    exact htag.symm
  · intro htag
    exact ⟨_, rfl, rfl, rfl, htag.symm⟩

/-- The tag of a reachable state is safe. -/
theorem tag_safe_to_serialize_distConfig :
    ∃ s : Serveri, s.Reachable distConfig ∧ s.currentState.tag = lit "a" ∧
      dumpString s.currentState.tag = .ok (lit "\"a\"") := by
  obtain ⟨s, hs, htag, -⟩ := exists_reachable_tag
  have hdump := (tag_safe_to_serialize distConfig s hs).2.2.1
  refine ⟨s, hs, htag, ?_⟩
  rw [hdump, htag]
  rfl

/-- An empty datagram has cleared the tag while light 0 is white, and a packet of another version then
    leaves everything as it is. -/
theorem lightPacket_rejected_unchanged_version :
    ∃ s t u : Serveri, s.Reachable distConfig ∧ s.lightPacket [] = .ok t ∧ t.currentState.tag = [] ∧
      t.currentState.lights.lookup 0 = some white ∧ t.lightPacket [2, 0, 97, 0] = .ok u ∧
      u.dmx.dmxPacket = t.dmx.dmxPacket ∧ u.currentState.lights = t.currentState.lights ∧
      u.currentState.tag = t.currentState.tag := by
  obtain ⟨s, hs, -, hwhite, -⟩ := exists_reachable_tag
  have hempty : Rejected [] := by decide
  obtain ⟨t, ht, htag, hlights⟩ : ∃ t, s.lightPacket [] = .ok t ∧ t.currentState.tag = [] ∧
      t.currentState.lights.lookup 0 = some white := ⟨_, lightPacket_rejected s hempty, rfl, hwhite⟩
  obtain ⟨u, hu, hsame⟩ := (lightPacket_rejected_unchanged_iff t [2, 0, 97, 0] (by decide)).mpr htag
  exact ⟨s, t, u, hs, ht, htag, hlights, hu, hsame⟩

/-- An empty datagram clears the tag of the last client. -/
theorem lightPacket_rejected_clears_tag :
    ¬ ∀ (config : Config) (s : Serveri) (buf : StdString), s.Reachable config → Rejected buf →
      ∃ t, s.lightPacket buf = .ok t ∧ t.dmx.dmxPacket = s.dmx.dmxPacket ∧
        t.currentState.lights = s.currentState.lights ∧ t.currentState.tag = s.currentState.tag := by
  intro h
  obtain ⟨s, hs, htag, -⟩ := exists_reachable_tag
  obtain ⟨t, ht, -, -, hsame⟩ := h distConfig s [] hs (by decide)
  rw [lightPacket_rejected s (by decide)] at ht
  obtain rfl := Except.ok.inj ht
  have hempty : [] = lit "a" := hsame.trans htag
  exact absurd hempty (by decide)

end Valoserveri
