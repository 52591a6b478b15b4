import Valoserveri.Proofs.TagProofs

/-!
# Packets that are split or repeated

What a packet leaves in the frame and in the state for the monitors is determined by its last write to
each byte and to each colour. A packet can therefore be split between two records, and it can be
delivered twice, without a difference. Both hold for lights that share bytes, too.
-/

namespace Valoserveri

open FixedStore ExceptRun

/-! ## Applying packets -/

theorem setLightColors_eq (dmx : DMXController) (calls : List (UInt32 × Color)) :
    dmx.setLightColors calls = { dmx with
      dmxPacket := (listStore UInt8).putAll dmx.dmxPacket (dmx.lightConfig.writes calls) } := by
  have hfd : (dmx.setLightColors calls).fd = dmx.fd := by
    unfold DMXController.setLightColors
    induction calls generalizing dmx with
    | nil => rfl
    | cons call calls ih =>
      rw [List.foldl_cons, ih]
      unfold DMXController.setLightColor
      split <;> rfl
  have hpacket := setLightColors_dmxPacket dmx calls
  have hconfig := setLightColors_lightConfig dmx calls
  cases h : dmx.setLightColors calls with
  | mk fd packet config =>
    rw [h] at hfd hpacket hconfig
    rw [← hfd, ← hpacket, ← hconfig]

/-- A sequence of calls that is made once more changes nothing. -/
theorem setLightColors_twice (dmx : DMXController) (calls : List (UInt32 × Color)) :
    (dmx.setLightColors calls).setLightColors calls = dmx.setLightColors calls := by
  rw [setLightColors_eq (dmx.setLightColors calls) calls, setLightColors_lightConfig,
    setLightColors_dmxPacket, Store.putAll_putAll_self]
  rw [setLightColors_eq dmx calls]

/-- A packet that is applied once more changes nothing. -/
theorem applyPacket_twice (s : Serveri) (packet : LightPacket) :
    (s.applyPacket packet).applyPacket packet = s.applyPacket packet := by
  rw [applyPacket_eq (s.applyPacket packet) packet, applyPacket_eq s packet]
  simp only [setLightColors_twice, Store.putAll_putAll_self]
  rfl

/-- Two packets with the same tag do what one packet with the commands of both does. -/
theorem applyPacket_append (s : Serveri) (tag : StdString) (as bs : List LightColor) :
    (s.applyPacket { tag, lights := as }).applyPacket { tag, lights := bs } =
      s.applyPacket { tag, lights := as ++ bs } := by
  have hcalls : LightPacket.calls { tag, lights := as ++ bs } =
      LightPacket.calls { tag, lights := as } ++ LightPacket.calls { tag, lights := bs } :=
    List.map_append
  have hdmx : ∀ dmx : DMXController, ∀ cs ds : List (UInt32 × Color),
      (dmx.setLightColors cs).setLightColors ds = dmx.setLightColors (cs ++ ds) :=
    fun dmx cs ds => (List.foldl_append ..).symm
  rw [applyPacket_eq (s.applyPacket { tag, lights := as }), applyPacket_eq s { tag, lights := as },
    applyPacket_eq s { tag, lights := as ++ bs }, hcalls]
  simp only [hdmx, ← Store.putAll_append]
  rfl

/-! ## Duplicates -/

/-- A packet that is delivered twice in a row does what it does once. -/
theorem lightPacket_twice (s : Serveri) (buf : StdString) :
    (s.lightPacket buf).bind (fun t => t.lightPacket buf) = s.lightPacket buf := by
  unfold Serveri.lightPacket
  cases parseLightPacket buf with
  | error e => rfl
  | ok packet =>
    show Except.ok ((s.applyPacket packet).applyPacket packet) = Except.ok (s.applyPacket packet)
    rw [applyPacket_twice]

/-! ## Splits -/

/-- The commands behind complete records are those of the rest. -/
theorem decodeRecords_flatten_append {rs : List StdString} (h : ∀ r ∈ rs, r.length = 6)
    (body : StdString) :
    decodeRecords (rs.flatten ++ body) = decodeRecords rs.flatten ++ decodeRecords body := by
  induction rs with
  | nil => rfl
  | cons r rs ih =>
    have hrest := ih fun r hr => h r (List.mem_cons_of_mem _ hr)
    have hr : r.length = 6 := h r (by simp)
    obtain ⟨type, index, extension, red, green, blue, rest, rfl⟩ := exists_record r (by omega)
    obtain rfl : rest = [] := List.length_eq_zero_iff.mp (by simpa using hr)
    show decodeRecords (type :: index :: extension :: red :: green :: blue :: (rs.flatten ++ body)) =
      decodeRecords (type :: index :: extension :: red :: green :: blue :: rs.flatten) ++ _
    rw [decodeRecords, decodeRecords, hrest]
    split_ifs
    · rfl
    · rfl

/-- A packet does what two packets do that have its tag and share its body between them, if the first of
    them has complete records. -/
theorem lightPacket_split (s : Serveri) (tag : StdString) (as : List StdString) (body : StdString)
    (htag : ∀ c ∈ tag, c ≠ 0) (has : ∀ r ∈ as, r.length = 6)
    (hlen : (taggedPacket tag (as.flatten ++ body)).length < 2 ^ 31) :
    ∃ t, s.lightPacket (taggedPacket tag (as.flatten ++ body)) = .ok t ∧
      (s.lightPacket (taggedPacket tag as.flatten)).bind
        (fun u => u.lightPacket (taggedPacket tag body)) = .ok t := by
  have hlength := hlen
  rw [taggedPacket_length, List.length_append] at hlength
  have hfirst : (taggedPacket tag as.flatten).length < 2 ^ 31 := by
    rw [taggedPacket_length]
    omega
  have hsecond : (taggedPacket tag body).length < 2 ^ 31 := by
    rw [taggedPacket_length]
    omega
  refine ⟨_, lightPacket_taggedPacket s htag hlen, ?_⟩
  rw [lightPacket_taggedPacket s htag hfirst, ok_bind, lightPacket_taggedPacket _ htag hsecond,
    applyPacket_append, decodeRecords_flatten_append has]

/-- Two commands to light 0, in one packet or in two. -/
theorem lightPacket_split_distConfig :
    ∃ dmx t, DMXController.construct distConfig 3 = .ok dmx ∧
      (Serveri.initial dmx 4).lightPacket [1, 0, 97, 0, 1, 0, 0, 9, 9, 9, 1, 0, 0, 5, 5, 5] = .ok t ∧
      ((Serveri.initial dmx 4).lightPacket [1, 0, 97, 0, 1, 0, 0, 9, 9, 9]).bind
        (fun u => u.lightPacket [1, 0, 97, 0, 1, 0, 0, 5, 5, 5]) = .ok t := by
  obtain ⟨dmx, hdmx⟩ := construct_distConfig
  obtain ⟨t, hwhole, hsplit⟩ := lightPacket_split (Serveri.initial dmx 4) [97] [[1, 0, 0, 9, 9, 9]]
    [1, 0, 0, 5, 5, 5] (by simp) (by simp) (by decide)
  exact ⟨dmx, t, hdmx, hwhole, hsplit⟩

end Valoserveri
