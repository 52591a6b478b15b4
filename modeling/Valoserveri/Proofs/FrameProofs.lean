import Valoserveri.Proofs.DMXControllerProofs

/-!
# The frame stays well formed

`Frame` is the type of the frames that the interface accepts. The controller starts with one, and
`setLightColor` takes every one to another, whatever the configuration says.
-/

namespace Valoserveri

open FixedStore

/-- A frame of the serial interface: four header bytes, which give the length of what follows in
    little-endian order, 512 bytes and a terminator. -/
structure Frame where
  bytes : List UInt8
  length_eq : bytes.length = 517
  header : bytes.take 4 = [0x7e, 0x06, 0x00, 0x02]
  terminator : bytes[516]? = some 0xe7

namespace Frame

/-- The frame the constructor builds. -/
def initial : Frame where
  bytes := initialPacket
  length_eq := initialPacket_length
  header := by decide +kernel
  terminator := by decide +kernel

/-- Bytes with the length, the header and the terminator of a frame are one. -/
def ofOutside (frame : Frame) (bytes : List UInt8) (hlen : bytes.length = frame.bytes.length)
    (hout : ∀ b, b ≤ 3 ∨ 516 ≤ b → bytes[b]? = frame.bytes[b]?) : Frame where
  bytes := bytes
  length_eq := by rw [hlen, frame.length_eq]
  header := by
    rw [← frame.header]
    refine List.ext_getElem? fun b => ?_
    rw [List.getElem?_take, List.getElem?_take]
    split_ifs with hb
    · exact hout b (Or.inl (by omega))
    · rfl
  terminator := by rw [hout 516 (Or.inr (Nat.le_refl _)), frame.terminator]

theorem header_length (frame : Frame) :
    (frame.bytes.getD 2 0).toNat + 256 * (frame.bytes.getD 3 0).toNat = frame.bytes.length - 5 := by
  have h : ∀ b, b < 4 → frame.bytes[b]? = ([0x7e, 0x06, 0x00, 0x02] : List UInt8)[b]? := by
    intro b hb
    rw [← frame.header, List.getElem?_take, if_pos hb]
  rw [List.getD_eq_getElem?_getD, List.getD_eq_getElem?_getD, h 2 (by decide), h 3 (by decide),
    frame.length_eq]
  decide

end Frame

/-- The frame after a sequence of calls, starting from a controller that holds a frame. -/
def Frame.setLightColors (frame : Frame) (dmx : DMXController) (h : dmx.dmxPacket = frame.bytes)
    (calls : List (UInt32 × Color)) : Frame :=
  frame.ofOutside (dmx.setLightColors calls).dmxPacket (by rw [setLightColors_length, h])
    fun b hb => by rw [setLightColors_header dmx calls hb, h]

/-- Every sequence of calls on a new controller leaves a well-formed frame, whose header gives its
    length. All stores lie inside the frame, strictly between the header and the terminator, and the
    bytes of no light keep the value the constructor gave them. -/
theorem setLightColors_wellFormed (config : Config) (fd : Int) (initial : DMXController)
    (calls : List (UInt32 × Color)) (h : DMXController.construct config fd = .ok initial) :
    let packet := (initial.setLightColors calls).dmxPacket
    packet.length = 517 ∧
    packet.take 4 = [0x7e, 0x06, 0x00, 0x02] ∧
    (packet.getD 2 0).toNat + 256 * (packet.getD 3 0).toNat = packet.length - 5 ∧
    packet[516]? = some 0xe7 ∧
    (∀ i light color, initial.lightConfig.lights.lookup i = some light →
      ∀ w ∈ light.writes color, w.1 < packet.length ∧ 3 < w.1 ∧ w.1 < 516) ∧
    (∀ b, (∀ i light, initial.lightConfig.lights.lookup i = some light → ¬ light.Writes b) →
      packet[b]? = initial.dmxPacket[b]?) := by
  have hinit : initial.dmxPacket = Frame.initial.bytes := (construct_eq_ok h).2
  let frame := Frame.initial.setLightColors initial hinit calls
  have hframe : (initial.setLightColors calls).dmxPacket = frame.bytes := rfl
  refine ⟨frame.length_eq, frame.header, frame.header_length, frame.terminator, ?_, ?_⟩
  · intro i light color _ w hw
    have hin := writes_in_frame ((mem_writes_iff light color w.1).mp (List.mem_map_of_mem hw))
    rw [hframe, frame.length_eq]
    omega
  · intro b hb
    exact setLightColors_outside initial calls hb

/-- The lights of the configuration file that comes with the server. -/
def distConfig : Config := .ofEntries [("global=lights", "2"), ("light0=type", "rgb"),
  ("light0=address", "1"), ("light1=type", "uv"), ("light1=address", "6")]

theorem construct_distConfig : ∃ initial, DMXController.construct distConfig 3 = .ok initial :=
  ⟨_, rfl⟩

/-- The frame after setting a light of the default configuration and one that does not exist. -/
theorem setLightColors_wellFormed_distConfig :
    ∃ initial, DMXController.construct distConfig 3 = .ok initial ∧
      (initial.setLightColors [(0, { red := 255 }), (7, {})]).dmxPacket.take 4 =
        [0x7e, 0x06, 0x00, 0x02] := by
  obtain ⟨initial, h⟩ := construct_distConfig
  exact ⟨initial, h, (setLightColors_wellFormed distConfig 3 initial _ h).2.1⟩

end Valoserveri
