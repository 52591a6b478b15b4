import Valoserveri.Config
import Valoserveri.Library.FixedStore

/-!
# The lights and their DMX frame

`LightsConfig::parse` reads the lights from the configuration. `DMXController` keeps the frame of 517
bytes that is written to the serial device, and `setLightColor` stores the channels of one light in
it.
-/

namespace Valoserveri

open FixedStore

/-- The kinds of light. -/
inductive LightType where
  | RGB
  | UV
deriving Repr, DecidableEq

/-- One configured light. -/
structure Light where
  type : LightType
  address : UInt8
  numChannels : UInt8
deriving Repr, DecidableEq

/-- A colour as the clients send it. -/
structure Color where
  red : UInt8 := 0
  green : UInt8 := 0
  blue : UInt8 := 0
deriving Repr, DecidableEq

/-- A `std::unordered_map`. -/
abbrev UnorderedMap (κ ν : Type) := Finmap fun _ : κ => ν

/-- The configured lights, by index. -/
structure LightsConfig where
  lights : UnorderedMap UInt32 Light := ∅

/-! ## Parsing the configuration -/

/-- The names of the light types, in the order of `LightType`. -/
def lightTypeStrings : List (StdString × LightType) := [(lit "rgb", .RGB), (lit "uv", .UV)]

/-- `parseLightType`. -/
def parseLightType (str : StdString) : Except Halt LightType :=
  match lightTypeStrings.find? (fun entry => str == entry.1) with
  | some entry => .ok entry.2
  | none => .error (.runtimeError (lit "Bad light type \"" ++ str ++ lit "\""))

/-- The number of channels of a light whose section does not give it. -/
def defaultNumChannels : LightType → Nat
  | .UV => 2
  | .RGB => 5

/-- The body of the loop of `LightsConfig::parse`: the light of section `light<i>`. -/
def parseLight (config : Config) (i : Nat) : Except Halt Light := do
  let section_ := lit "light" ++ stdToString i
  let address ← config.getUnsigned section_ (lit "address") 0
  let type ← parseLightType (config.get section_ (lit "type") (lit "rgb"))
  let numChannels ← config.getUnsigned section_ (lit "numChannels") (defaultNumChannels type)
  -- both numbers are narrowed to `uint8_t`
  return { type, address := UInt8.ofNat address, numChannels := UInt8.ofNat numChannels }

/-- `map.emplace(key, value)`: an entry that is already there stays. -/
def emplace {κ ν : Type} [DecidableEq κ] (m : UnorderedMap κ ν) (key : κ) (value : ν) :
    UnorderedMap κ ν :=
  if key ∈ m then m else m.insert key value

/-- One pass of the loop of `LightsConfig::parse`. -/
def LightsConfig.addLight (config : Config) (l : LightsConfig) (i : Nat) :
    Except Halt LightsConfig := do
  let light ← parseLight config i
  return { lights := emplace l.lights (UInt32.ofNat i) light }

/-- `LightsConfig::parse`. -/
def LightsConfig.parse (config : Config) : Except Halt LightsConfig := do
  let numLights ← config.getUnsigned (lit "global") (lit "lights") 0
  (List.range numLights).foldlM (LightsConfig.addLight config) {}

/-! ## The frame -/

/-- The state of a `DMXController`. -/
structure DMXController where
  fd : Int
  dmxPacket : List UInt8
  lightConfig : LightsConfig

/-- The frame the constructor builds: the header of the interface, 512 zero bytes and the
    terminator. -/
def initialPacket : List UInt8 :=
  (listStore UInt8).putAll (List.replicate 517 0)
    [(0, 0x7e), (1, 0x06), (2, 0x00), (3, 0x02), (516, 0xe7)]

/-- `DMXController::DMXController`, where `open` on the serial device returns `fd`. -/
def DMXController.construct (config : Config) (fd : Int) : Except Halt DMXController := do
  let lightConfig ← LightsConfig.parse config
  return { fd, dmxPacket := initialPacket, lightConfig }

/-- The brightness of an ultraviolet light that is given a colour. -/
def intensity (color : Color) : Nat :=
  (77 * color.red.toNat + 150 * color.green.toNat + 29 * color.blue.toNat) >>> 8

/-- The stores `setLightColor` makes for a light, in order: positions in the frame and the bytes
    stored there. The lists the stores are made in drop a store outside the frame;
    `writes_in_frame` shows that there is none. -/
def Light.writes (light : Light) (color : Color) : List (Nat × UInt8) :=
  let offset := light.address.toNat + 4
  match light.type with
  | .RGB => [(offset + 0, color.red), (offset + 1, color.green), (offset + 2, color.blue),
      (offset + 3, 255), (offset + 4, 0)]
  | .UV => [(offset + 0, UInt8.ofNat (intensity color)), (offset + 1, 0)]

/-- `DMXController::setLightColor`. -/
def DMXController.setLightColor (dmx : DMXController) (index : UInt32) (color : Color) :
    DMXController :=
  match dmx.lightConfig.lights.lookup index with
  | none => dmx
  | some light =>
    { dmx with dmxPacket := (listStore UInt8).putAll dmx.dmxPacket (light.writes color) }

end Valoserveri
