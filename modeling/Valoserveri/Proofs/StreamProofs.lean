import Valoserveri.Proofs.TraceProofs

/-!
# From the network to the serial device

Seen from outside, packets go in and frames come out. What comes out is a function of the packets of each
round and of how much the device takes of each frame; nothing else that happens in a run matters.
-/

namespace Valoserveri

open FixedStore ExceptRun

/-- The frame of the server is that of the given calls. -/
structure Serveri.Frames (s : Serveri) (lights : LightsConfig) (calls : List (UInt32 × Color)) : Prop where
  lightConfig : s.dmx.lightConfig = lights
  dmxPacket : s.dmx.dmxPacket = lights.frame calls

theorem frame_append (lights : LightsConfig) (calls more : List (UInt32 × Color)) :
    lights.frame (calls ++ more) = (listStore UInt8).putAll (lights.frame calls) (lights.writes more) := by
  unfold LightsConfig.frame LightsConfig.writes
  rw [List.flatMap_append, Store.putAll_append]

theorem Serveri.Frames.follows {s t : Serveri} {lights : LightsConfig} {calls : List (UInt32 × Color)}
    {packets : List LightPacket} (h : s.Frames lights calls) (hfollows : s.Follows packets t) :
    t.Frames lights (calls ++ packets.flatMap LightPacket.calls) := by
  refine ⟨?_, ?_⟩
  · rw [hfollows.dmx, setLightColors_lightConfig, h.lightConfig]
  · rw [hfollows.dmx, setLightColors_dmxPacket, h.lightConfig, h.dmxPacket, frame_append]

/-- The frame shows a separate light with the colour of the last call for it, and black before there is
    any. -/
theorem shows_frame {lights : LightsConfig} {k : UInt32} {light : Light}
    (hl : lights.lights.lookup k = some light) (hsep : lights.Separate k light)
    (calls : List (UInt32 × Color)) :
    light.Shows ((lastWrite calls k).getD {}) (lights.frame calls) := by
  induction calls using List.reverseRecOn with
  | nil =>
    have hblack : lights.frame [] = initialPacket := (listStore UInt8).putAll_nil initialPacket
    rw [hblack]
    exact shows_initialPacket
  | append_singleton calls call ih =>
    obtain ⟨index, color⟩ := call
    have hwrites : lights.writes [(index, color)] = lights.callWrites (index, color) :=
      List.flatMap_singleton _ _
    rw [frame_append, hwrites, lastWrite_append]
    by_cases hk : index = k
    · subst hk
      have hlast : lastWrite [(index, color)] index = some color := by simp [lastWrite]
      rw [hlast, callWrites_of_lookup hl]
      refine shows_putAll_writes ?_
      unfold LightsConfig.frame
      rw [length_listStore_putAll, initialPacket_length]
    · have hlast : lastWrite [(index, color)] k = none := by
        refine lastWrite_eq_none_iff.mpr fun hmem => hk ?_
        exact (List.mem_singleton.mp hmem).symm
      rw [hlast]
      refine ih.congr fun b hb => ?_
      exact (listStore UInt8).get_putAll_of_notMem (hsep.notMem_callWrites hb hk)

/-- As many buffers are empty as packets are. -/
theorem isEmpty_of_forall₂ {α β : Type} {R : α → β → Prop} {as : List α} {bs : List β}
    (h : List.Forall₂ R as bs) : as.isEmpty = bs.isEmpty := by
  cases h <;> rfl

theorem run_stream {config : Config} {w v : World} {rounds : List Round} {lights : LightsConfig}
    {calls : List (UInt32 × Color)} (hw : w.serveri.Reachable config) (hbuffer : w.buffer.length < 2 ^ 31)
    (hframes : w.serveri.Frames lights calls) (h : w.run rounds = .ok v) :
    ∃ heard : List (List LightPacket),
      List.Forall₂ (List.Forall₂ fun buf packet => parseLightPacket buf = .ok packet) (w.hearings rounds)
        heard ∧
      v.tty = w.tty ++ lights.output w.serveri.lightsDirty calls (heard.zip (rounds.map Round.written)) := by
  induction rounds generalizing w calls with
  | nil =>
    obtain rfl := Except.ok.inj h
    exact ⟨[], .nil, (List.append_nil _).symm⟩
  | cons r rounds ih =>
    obtain ⟨u, hu, h⟩ := foldlM_cons_eq_ok.mp h
    obtain ⟨u', processFDs, hreceive, hround⟩ := round_answers hw hbuffer hu
    obtain ⟨packets, hparsed, hfollows⟩ := hround.hears
    have hnext := hframes.follows hfollows
    obtain ⟨heard, hheard, htty⟩ :=
      ih (reachable_round hw hu) (by rw [hround.buffer]; exact hbuffer) hnext h
    refine ⟨packets :: heard, ?_, ?_⟩
    · rw [World.hearings, hreceive, hu]
      exact .cons hparsed hheard
    · rw [htty, hround.tty, hround.clean, hnext.dmxPacket, isEmpty_of_forall₂ hparsed, List.append_assoc]
      rfl

/-- The server is determined by what goes in and out. In every run, the bytes that the serial device has
    been given are those that the packets of the rounds put out: one frame for each round in which packets
    came in, and one for the first round, each with the calls of all packets up to then and cut off where
    the device stopped taking it. A frame shows a light that shares none of its bytes with the colour of
    the last call for it. -/
theorem run_output (config : Config) (boot : Boot) (rounds : List Round) (lights : LightsConfig)
    (w v : World) (hparse : LightsConfig.parse config = .ok lights)
    (hw : World.construct config boot = .ok w) (hrun : w.run rounds = .ok v) :
    ∃ (before : List LightPacket) (heard : List (List LightPacket)),
      List.Forall₂ (fun buf packet => parseLightPacket buf = .ok packet) boot.heard before ∧
      List.Forall₂ (List.Forall₂ fun buf packet => parseLightPacket buf = .ok packet) (w.hearings rounds)
        heard ∧
      v.tty = lights.output true (before.flatMap LightPacket.calls) (heard.zip (rounds.map Round.written)) ∧
      ∀ k light, lights.lights.lookup k = some light → lights.Separate k light → ∀ calls,
        light.Shows ((lastWrite calls k).getD {}) (lights.frame calls) := by
  obtain ⟨s, -, hlights, hpacket, -, ⟨before, hbefore, hfollows⟩, hbuffer⟩ := construct_hears hparse hw
  have hstart : s.Frames lights [] := by
    refine ⟨hlights, ?_⟩
    unfold LightsConfig.frame LightsConfig.writes
    rw [hpacket, List.flatMap_nil, Store.putAll_nil]
  have hframes := hstart.follows hfollows
  rw [List.nil_append] at hframes
  obtain ⟨heard, hheard, htty⟩ := run_stream (reachable_start hw).1 (by omega) hframes hrun
  obtain ⟨hdirty, hempty⟩ := construct_lightsDirty hw
  rw [hempty, List.nil_append, hdirty] at htty
  exact ⟨before, heard, hbefore, hheard, htty, fun _ _ => shows_frame⟩

/-- A run of two rounds, in each of which a packet for light 0 comes in, and in the second of which the
    device takes ten bytes. -/
theorem run_output_udpRound :
    ∃ w v : World, World.construct distConfig plainBoot = .ok w ∧
      w.run [udpRound 517, udpRound 10] = .ok v ∧
      let lights := pairConfig ⟨.RGB, 1, 5⟩ ⟨.UV, 6, 2⟩
      v.tty = (lights.frame [(0, white)]).take 517 ++ (lights.frame [(0, white), (0, white)]).take 10 ∧
      Light.Shows ⟨.RGB, 1, 5⟩ white (lights.frame [(0, white)]) := by
  have hok : ((World.construct distConfig plainBoot).bind fun w =>
      (w.run [udpRound 517, udpRound 10]).map fun _ => w.hearings [udpRound 517, udpRound 10]) =
        .ok [[asChars (encodePacket [97] [⟨0, white⟩])], [asChars (encodePacket [97] [⟨0, white⟩])]] := by
    decide +kernel
  obtain ⟨w, hw, hok⟩ := except_bind_eq_ok.mp hok
  obtain ⟨v, hrun, hhearings⟩ := map_eq_ok hok
  obtain ⟨before, heard, hbefore, hheard, htty, hshows⟩ :=
    run_output distConfig plainBoot [udpRound 517, udpRound 10] _ w v parse_distConfig hw hrun
  obtain rfl := List.forall₂_nil_left_iff.mp hbefore
  rw [hhearings] at hheard
  simp only [List.forall₂_cons_left_iff, List.forall₂_nil_left_iff, parseLightPacket_white,
    Except.ok.injEq] at hheard
  obtain ⟨_, _, ⟨_, _, rfl, rfl, rfl⟩, ⟨_, _, ⟨_, _, rfl, rfl, rfl⟩, rfl, rfl⟩, rfl⟩ := hheard
  refine ⟨w, v, hw, hrun, ?_, ?_⟩
  · rw [htty]
    rfl
  · exact hshows 0 ⟨.RGB, 1, 5⟩ rfl (separate_distConfig rfl) [(0, white)]

end Valoserveri
