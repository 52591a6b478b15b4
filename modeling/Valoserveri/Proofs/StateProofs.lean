import Valoserveri.Proofs.JsonProofs
import Valoserveri.Proofs.DMXControllerProofs
import Valoserveri.Proofs.LightPacketProofs

/-!
# The invariant of the server

The lights of the configuration are numbered from zero, and `currentState` has an entry for each of
them and for nothing else. The tag holds only safe characters. All states the server can get into
satisfy this.
-/

namespace Valoserveri

open FixedStore ExceptRun EraseLoop

/-! ## Light packets -/

theorem foldl_applyLight (s : Serveri) (ls : List LightColor) :
    ls.foldl Serveri.applyLight s =
      { s with
        dmx := s.dmx.setLightColors (ls.map fun l => (l.index, l.color))
        currentState := { s.currentState with
          lights := (mapStore UInt32 Color).putAll s.currentState.lights
            (ls.map fun l => (l.index, l.color)) } } := by
  induction ls generalizing s with
  | nil => rfl
  | cons l ls ih => exact ih (s.applyLight l)

/-- A packet replaces the tag and carries out its commands, on the frame and on the colours that the
    monitors are shown. -/
theorem applyPacket_eq (s : Serveri) (packet : LightPacket) :
    s.applyPacket packet =
      { s with
        dmx := s.dmx.setLightColors packet.calls
        currentState := {
          tag := s.sieveTag packet.tag
          lights := (mapStore UInt32 Color).putAll s.currentState.lights packet.calls }
        lightsDirty := true } := by
  simp only [Serveri.applyPacket, foldl_applyLight]
  rfl

theorem lightPacket_eq_ok {s t : Serveri} {buf : StdString} :
    s.lightPacket buf = .ok t ↔ ∃ packet, parseLightPacket buf = .ok packet ∧ s.applyPacket packet = t := by
  unfold Serveri.lightPacket
  rw [except_bind_eq_ok]
  simp only [Except.ok.injEq]

theorem sieveTag_eq (s : Serveri) (tag : StdString) :
    s.sieveTag tag = tag.filter fun c => s.whitelist.contains c := by
  unfold Serveri.sieveTag
  rw [eraseAll_eq_filter]
  simp

theorem mem_foldl_insert (cs set : List Int8) (c : Int8) :
    c ∈ cs.foldl (fun set c => set.insert c) set ↔ c ∈ cs ∨ c ∈ set := by
  induction cs generalizing set with
  | nil => simp
  | cons d cs ih =>
    rw [List.foldl_cons, ih, List.mem_insert_iff, List.mem_cons]
    tauto

/-- The set of the constructor has the characters of the literal, and the zero at its end. -/
theorem mem_initialWhitelist {c : Int8} : c ∈ initialWhitelist ↔ c ∈ tagWhitelist ∨ c = 0 := by
  unfold initialWhitelist
  rw [mem_foldl_insert]
  simp

theorem keys_mapStore_putAll (lights : UnorderedMap UInt32 Color) (calls : List (UInt32 × Color)) :
    ((mapStore UInt32 Color).putAll lights calls).keys = lights.keys := by
  ext k
  have h := (mapStore UInt32 Color).isSome_get_putAll lights calls k
  simp only [Finmap.mem_keys, ← Finmap.lookup_isSome]
  exact Bool.eq_iff_iff.mp h

/-! ## The numbering of the lights -/

/-- The keys of a map are the numbers below `n`. -/
def Numbered {ν : Type} (n : Nat) (m : UnorderedMap UInt32 ν) : Prop :=
  m.keys = (Finset.range n).image UInt32.ofNat

theorem keys_emplace {ν : Type} (m : UnorderedMap UInt32 ν) (key : UInt32) (value : ν) :
    (emplace m key value).keys = insert key m.keys := by
  ext k
  unfold emplace
  split_ifs with h
  · simp only [Finset.mem_insert, Finmap.mem_keys]
    exact ⟨Or.inr, by rintro (rfl | hk) <;> assumption⟩
  · simp [Finmap.mem_keys, Finmap.mem_insert]

theorem Numbered.mem {ν : Type} {n i : Nat} {m : UnorderedMap UInt32 ν} (h : Numbered n m)
    (hi : i < n) : UInt32.ofNat i ∈ m := by
  rw [← Finmap.mem_keys, h]
  exact Finset.mem_image_of_mem _ (Finset.mem_range.mpr hi)

theorem Numbered.card {ν : Type} {n : Nat} {m : UnorderedMap UInt32 ν} (h : Numbered n m)
    (hn : n < 2 ^ 31) : m.keys.card = n := by
  rw [h, Finset.card_image_of_injOn, Finset.card_range]
  intro i hi j hj hij
  have hi' := Finset.mem_range.mp hi
  have hj' := Finset.mem_range.mp hj
  have hmod : i % 2 ^ 32 = j % 2 ^ 32 := by simpa using congrArg UInt32.toNat hij
  omega

/-- The number of the lights fits in an `unsigned int`. -/
theorem Numbered.count {ν : Type} {n : Nat} {m : UnorderedMap UInt32 ν} (h : Numbered n m)
    (hn : n < 2 ^ 31) : toUInt (m.keys.card : Int) = n := by
  rw [h.card hn]
  unfold toUInt
  omega

theorem Numbered.mem_iff {ν : Type} {n : Nat} {m : UnorderedMap UInt32 ν} (h : Numbered n m)
    (hn : n < 2 ^ 31) (k : UInt32) : k ∈ m ↔ k.toNat < n := by
  rw [← Finmap.mem_keys, h, Finset.mem_image]
  constructor
  · rintro ⟨i, hi, rfl⟩
    have hi' := Finset.mem_range.mp hi
    rw [UInt32.toNat_ofNat', Nat.mod_eq_of_lt (by omega)]
    exact hi'
  · intro hk
    exact ⟨k.toNat, Finset.mem_range.mpr hk, UInt32.ofNat_toNat⟩

theorem getUnsigned_lt {config : Config} {section_ key : StdString} {d n : Nat} (hd : d < 2 ^ 31)
    (h : config.getUnsigned section_ key d = .ok n) : n < 2 ^ 31 := by
  unfold Config.getUnsigned at h
  simp only at h
  split_ifs at h with hempty
  · obtain rfl := Except.ok.inj h
    exact hd
  · obtain ⟨parsed, hparsed, h⟩ := except_bind_eq_ok.mp h
    split_ifs at h with hneg
    obtain rfl := Except.ok.inj h
    unfold stoi at hparsed
    simp only at hparsed
    split_ifs at hparsed <;> · obtain rfl := Except.ok.inj hparsed; omega

theorem addLight_numbered {config : Config} {n : Nat} {l : LightsConfig}
    (h : (List.range n).foldlM (LightsConfig.addLight config) {} = .ok l) : Numbered n l.lights := by
  induction n generalizing l with
  | zero =>
    obtain rfl := Except.ok.inj h
    rfl
  | succ n ih =>
    rw [List.range_succ, foldlM_concat_eq_ok] at h
    obtain ⟨l', hl', hadd⟩ := h
    obtain ⟨light, -, hadd⟩ := bind_eq_ok.mp hadd
    obtain rfl := Except.ok.inj hadd
    unfold Numbered
    rw [keys_emplace, ih hl', Finset.range_add_one, Finset.image_insert]

/-- The configured number of lights is read, and the lights are numbered up to it. -/
theorem parse_numbered {config : Config} {l : LightsConfig} (h : LightsConfig.parse config = .ok l) :
    ∃ n < 2 ^ 31, config.getUnsigned (lit "global") (lit "lights") 0 = .ok n ∧
      Numbered n l.lights := by
  obtain ⟨n, hn, h⟩ := bind_eq_ok.mp h
  exact ⟨n, getUnsigned_lt (by decide) hn, hn, addLight_numbered h⟩

/-! ## The monitor message -/

theorem indexOrInsert_snd {m : UnorderedMap UInt32 Color} {key : UInt32} (h : key ∈ m) (value : Color) :
    (indexOrInsert m key value).2 = m := by
  obtain ⟨v, hv⟩ := Finmap.mem_iff.mp h
  simp [indexOrInsert, hv]

theorem foldl_addLightEntry_lights (acc : UnorderedMap UInt32 Color × Json) (is : List Nat)
    (h : ∀ i ∈ is, UInt32.ofNat i ∈ acc.1) : (is.foldl addLightEntry acc).1 = acc.1 := by
  induction is generalizing acc with
  | nil => rfl
  | cons i is ih =>
    have hstep : (addLightEntry acc i).1 = acc.1 := indexOrInsert_snd (h i (by simp)) {}
    have := ih (addLightEntry acc i) fun j hj => by
      rw [hstep]
      exact h j (List.mem_cons_of_mem _ hj)
    rw [List.foldl_cons, this, hstep]

/-- Building the message reads the colours of the lights and inserts none. -/
theorem toJson_lights {state : LightState} {n : Nat} (hn : n < 2 ^ 31) (h : Numbered n state.lights) :
    state.toJson.1 = state.lights := by
  refine foldl_addLightEntry_lights _ _ fun i hi => h.mem ?_
  rwa [h.count hn, List.mem_range] at hi

/-! ## The initial state -/

theorem foldl_emplace_lookup (entries : List (Sigma fun _ : UInt32 => Light))
    (colors : UnorderedMap UInt32 Color) (i : UInt32) :
    (entries.foldl (fun colors entry => emplace colors entry.1 {}) colors).lookup i =
      (colors.lookup i).or (if i ∈ entries.keys then some {} else none) := by
  induction entries generalizing colors with
  | nil => simp
  | cons entry entries ih =>
    rw [List.foldl_cons, ih]
    unfold emplace
    by_cases hi : i = entry.1
    · subst hi
      by_cases hmem : entry.1 ∈ colors
      · obtain ⟨v, hv⟩ := Finmap.mem_iff.mp hmem
        simp [hmem, hv]
      · simp [hmem, Finmap.lookup_eq_none.mpr hmem]
    · by_cases hmem : entry.1 ∈ colors
      · simp [hmem, hi, List.keys_cons]
      · simp [hmem, hi, List.keys_cons, Finmap.lookup_insert_of_ne _ hi]

/-- Every configured light starts out black. -/
theorem lookup_initialColors (config : LightsConfig) (i : UInt32) :
    config.initialColors.lookup i = (config.lights.lookup i).map fun _ => {} := by
  obtain ⟨lights⟩ := config
  induction lights using Finmap.induction_on with
  | H entries =>
    have h := foldl_emplace_lookup entries.entries ∅ i
    simp only [Finmap.lookup_empty, Option.none_or] at h
    refine Eq.trans h ?_
    show _ = (entries.lookup i).map _
    by_cases hi : i ∈ entries.entries.keys
    · obtain ⟨light, hlight⟩ := Option.isSome_iff_exists.mp (AList.lookup_isSome.mpr hi)
      rw [hlight, if_pos hi]
      rfl
    · have hnone : entries.lookup i = none := AList.lookup_eq_none.mpr hi
      rw [hnone, if_neg hi]
      rfl

theorem keys_initialColors (config : LightsConfig) :
    config.initialColors.keys = config.lights.keys := by
  ext i
  simp [Finmap.mem_keys, ← Finmap.lookup_isSome, lookup_initialColors]

/-! ## The invariant -/

/-- What holds in every state of the server. -/
structure Serveri.Invariant (config : Config) (s : Serveri) : Prop where
  whitelist : s.whitelist = initialWhitelist
  dmx : ∃ fd initial calls, DMXController.construct config fd = .ok initial ∧
    s.dmx = initial.setLightColors calls
  keys : s.currentState.lights.keys = s.dmx.lightConfig.lights.keys
  tag : Safe s.currentState.tag

namespace Serveri.Invariant

variable {config : Config} {s t : Serveri}

theorem parse_eq (h : s.Invariant config) : LightsConfig.parse config = .ok s.dmx.lightConfig := by
  obtain ⟨fd, initial, calls, hinit, hdmx⟩ := h.dmx
  rw [hdmx, setLightColors_lightConfig]
  exact (construct_eq_ok hinit).1

theorem numbered (h : s.Invariant config) : ∃ n < 2 ^ 31, Numbered n s.currentState.lights := by
  obtain ⟨n, hn, -, hnum⟩ := parse_numbered h.parse_eq
  refine ⟨n, hn, ?_⟩
  unfold Numbered
  rw [h.keys, hnum]

theorem initial {ttyFd udpFd : Int} {dmx : DMXController}
    (h : DMXController.construct config ttyFd = .ok dmx) : (Serveri.initial dmx udpFd).Invariant config where
  whitelist := by simp only [Serveri.initial]
  dmx := ⟨ttyFd, dmx, [], h, rfl⟩
  keys := keys_initialColors dmx.lightConfig
  tag := by intro c hc; cases hc

/-- The whitelist has the terminating zero in it, but is safe otherwise. -/
theorem sieveTag_safe (h : s.Invariant config) {tag : StdString} (htag : ∀ c ∈ tag, c ≠ 0) :
    Safe (s.sieveTag tag) := by
  have hlist : Safe tagWhitelist := by decide +kernel
  intro c hc
  rw [sieveTag_eq, h.whitelist, List.mem_filter, List.contains_iff_mem, mem_initialWhitelist] at hc
  exact hlist c (hc.2.resolve_right (htag c hc.1))

theorem quiet (h : s.Invariant config) (hstep : s.Quiet t) : t.Invariant config := by
  cases hstep with
  | packet buf hpacket =>
    obtain ⟨packet, hparse, rfl⟩ := lightPacket_eq_ok.mp hpacket
    rw [applyPacket_eq]
    obtain ⟨fd, initial, calls, hinit, hdmx⟩ := h.dmx
    refine ⟨h.whitelist, ⟨fd, initial, calls ++ packet.calls, hinit, ?_⟩, ?_, ?_⟩
    · show s.dmx.setLightColors packet.calls = _
      rw [hdmx]
      exact (List.foldl_append ..).symm
    · show ((mapStore UInt32 Color).putAll _ _).keys = (s.dmx.setLightColors _).lightConfig.lights.keys
      rw [keys_mapStore_putAll, setLightColors_lightConfig, h.keys]
    · exact h.sieveTag_safe (parseLightPacket_tag_ne_zero hparse)
  | descriptors pollfds => exact ⟨h.whitelist, h.dmx, h.keys, h.tag⟩
  | monitors connections => exact ⟨h.whitelist, h.dmx, h.keys, h.tag⟩

theorem cleaned (h : s.Invariant config) : ({ s with lightsDirty := false } : Serveri).Invariant config :=
  ⟨h.whitelist, h.dmx, h.keys, h.tag⟩

/-- The monitor message is built from the state without changing it. -/
theorem updateMonitorMessage_eq (h : s.Invariant config) :
    ∃ text, s.currentState.serialize = .ok text ∧ s.updateMonitorMessage = .ok { s with
      monitorMessage :=
        (resize s.monitorMessage (LWS_PRE + text.length)).take LWS_PRE ++ text.map Int8.toUInt8 } := by
  obtain ⟨text, htext⟩ := serialize_safe h.tag
  obtain ⟨n, hn, hnum⟩ := h.numbered
  refine ⟨text, htext, ?_⟩
  unfold Serveri.updateMonitorMessage
  rw [htext, ok_bind, toJson_lights hn hnum]

theorem eq_of_updated (h : s.Invariant config) (hstep : s.updateMonitorMessage = .ok t) :
    ∃ message, t = { s with monitorMessage := message } := by
  obtain ⟨text, -, hupdate⟩ := h.updateMonitorMessage_eq
  exact ⟨_, Except.ok.inj (hstep.symm.trans hupdate)⟩

theorem updated (h : s.Invariant config) (hstep : s.updateMonitorMessage = .ok t) :
    t.Invariant config := by
  obtain ⟨message, rfl⟩ := h.eq_of_updated hstep
  exact ⟨h.whitelist, h.dmx, h.keys, h.tag⟩

end Serveri.Invariant

/-- Every state of the server satisfies the invariant. -/
theorem Serveri.Reachable.invariant {config : Config} {s : Serveri} (h : s.Reachable config) :
    s.Invariant config := by
  induction h with
  | initial h => exact .initial h
  | quiet _ hstep ih => exact ih.quiet hstep
  | cleaned _ ih => exact ih.cleaned
  | updated _ hstep ih => exact ih.updated hstep

theorem Serveri.Reachable.buflen_eq {config : Config} {s : Serveri} (h : s.Reachable config) :
    s.buflen = 2048 := by
  induction h with
  | initial _ => rfl
  | quiet _ hstep ih =>
    cases hstep with
    | packet buf hpacket =>
      obtain ⟨packet, -, rfl⟩ := lightPacket_eq_ok.mp hpacket
      rw [applyPacket_eq]
      exact ih
    | descriptors pollfds => exact ih
    | monitors connections => exact ih
  | cleaned _ ih => exact ih
  | updated hs hstep ih =>
    obtain ⟨message, rfl⟩ := hs.invariant.eq_of_updated hstep
    exact ih

end Valoserveri
