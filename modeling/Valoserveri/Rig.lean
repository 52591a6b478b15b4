import Valoserveri.DMXController

/-!
# The bytes of a light

Which bytes of the frame belong to a light, in two ways: the bytes that `setLightColor` stores to, and
the channels that the configuration declares. A light at address `a` is stored from byte `a + 4` on.
-/

namespace Valoserveri

/-- The number of bytes `setLightColor` stores for a light of the given type. -/
def LightType.width : LightType → Nat
  | .RGB => 5
  | .UV => 2

/-- Byte `b` is stored to when the light is set. -/
def Light.Writes (light : Light) (b : Nat) : Prop :=
  light.address.toNat + 4 ≤ b ∧ b < light.address.toNat + 4 + light.type.width

/-- Byte `b` is stored to with a value that is not always zero: every byte of the light but the
    last. -/
def Light.Active (light : Light) (b : Nat) : Prop :=
  light.address.toNat + 4 ≤ b ∧ b + 1 < light.address.toNat + 4 + light.type.width

/-- The channel of byte `b` is declared to be the light's. -/
def Light.Declares (light : Light) (b : Nat) : Prop :=
  light.address.toNat + 4 ≤ b ∧ b < light.address.toNat + 4 + light.numChannels.toNat

instance (light : Light) (b : Nat) : Decidable (light.Writes b) := instDecidableAnd
instance (light : Light) (b : Nat) : Decidable (light.Active b) := instDecidableAnd
instance (light : Light) (b : Nat) : Decidable (light.Declares b) := instDecidableAnd

/-- The validity of a configuration that `LightsConfig` leaves to be implemented: the channels are
    valid and do not overlap. -/
structure LightsConfig.Valid (config : LightsConfig) : Prop where
  channels : ∀ i light, config.lights.lookup i = some light → ∀ ch, light.address.toNat ≤ ch →
    ch < light.address.toNat + light.numChannels.toNat → 1 ≤ ch ∧ ch ≤ 255
  disjoint : ∀ i j light other, i ≠ j → config.lights.lookup i = some light →
    config.lights.lookup j = some other → ∀ b, light.Declares b → ¬ other.Declares b

/-- Every byte a light stores to is one of its channels, except perhaps the zero it stores last, as
    long as no light ever stores anything else there. -/
def LightsConfig.Fits (config : LightsConfig) (light : Light) : Prop :=
  ∀ b, light.Writes b → light.Declares b ∨
    ¬ light.Active b ∧ ∀ k other, config.lights.lookup k = some other → ¬ other.Active b

/-- A sequence of calls of `setLightColor`. -/
def DMXController.setLightColors (dmx : DMXController) (calls : List (UInt32 × Color)) :
    DMXController :=
  calls.foldl (fun dmx call => dmx.setLightColor call.1 call.2) dmx

/-- The stores of one call of `setLightColor`. -/
def LightsConfig.callWrites (config : LightsConfig) (call : UInt32 × Color) : List (Nat × UInt8) :=
  match config.lights.lookup call.1 with
  | none => []
  | some light => light.writes call.2

/-- The stores of a sequence of calls. -/
def LightsConfig.writes (config : LightsConfig) (calls : List (UInt32 × Color)) :
    List (Nat × UInt8) :=
  calls.flatMap config.callWrites

/-- The lights do not interfere: setting light `i` changes only its declared channels, hence none of
    another light `j`, and the order in which two lights are set does not matter. -/
def DMXController.NonInterfering (initial : DMXController) : Prop :=
  ∀ i j light other, i ≠ j → initial.lightConfig.lights.lookup i = some light →
    initial.lightConfig.lights.lookup j = some other → ∀ c d calls,
    let dmx := initial.setLightColors calls
    (∀ b, ¬ light.Declares b → (dmx.setLightColor i c).dmxPacket[b]? = dmx.dmxPacket[b]?) ∧
    (∀ b, other.Declares b → (dmx.setLightColor i c).dmxPacket[b]? = dmx.dmxPacket[b]?) ∧
    ((dmx.setLightColor i c).setLightColor j d).dmxPacket =
      ((dmx.setLightColor j d).setLightColor i c).dmxPacket

end Valoserveri
