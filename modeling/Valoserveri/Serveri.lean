import Valoserveri.LightPacket
import Valoserveri.Json
import Valoserveri.Library.EraseLoop

/-!
# The server

The state of `Serveri` and what its member functions do to it. The loop that calls them is in
`Run.lean`.
-/

namespace Valoserveri

open EraseLoop

/-- An entry of the array that is passed to `poll`. -/
structure Pollfd where
  fd : Int
  events : Int
  revents : Int := 0
deriving Repr, DecidableEq

/-- What the monitors are shown. -/
structure LightState where
  tag : StdString := []
  lights : UnorderedMap UInt32 Color := ∅

/-- A connection of libwebsockets, the pointer to its `struct lws`. -/
abbrev Wsi := Nat

/-- The state of the server. The entries of `monitorConnections` stand in the order in which they are
    iterated over. -/
structure Serveri where
  UDPfd : Int
  dmx : DMXController
  whitelist : List Int8
  currentState : LightState
  buflen : Nat
  monitorConnections : List (Wsi × StdString)
  monitorMessage : List UInt8
  pollfds : List Pollfd
  lightsDirty : Bool

/-! ## Light packets -/

/-- The characters a tag may have. -/
def tagWhitelist : StdString :=
  lit "abcdefghijklmnopqrstuvwxyzABCDEFGHJKLMNOPQRSTUVWXYZ 0123456789!#%&/()[]\x7b\x7d=?+-*,.;:|<>"

/-- The set the constructor builds: it runs over `sizeof(tagWhitelist)` characters, so it takes in
    the terminating NUL. -/
def initialWhitelist : List Int8 := (tagWhitelist ++ [0]).foldl (fun set c => set.insert c) []

/-- The loop of `lightPacket` over the tag: characters that are not in the whitelist are erased. -/
def Serveri.sieveTag (s : Serveri) (tag : StdString) : StdString :=
  eraseAll (fun c => !s.whitelist.contains c) tag

/-- The body of the loop of `lightPacket` over the lights of a packet. -/
def Serveri.applyLight (s : Serveri) (l : LightColor) : Serveri :=
  let lights := s.currentState.lights
  { s with
    dmx := s.dmx.setLightColor l.index l.color
    -- only update if found
    currentState := { s.currentState with
      lights := if l.index ∈ lights then lights.insert l.index l.color else lights } }

/-- What `lightPacket` does with a packet it has parsed. -/
def Serveri.applyPacket (s : Serveri) (packet : LightPacket) : Serveri :=
  let s := { s with currentState := { s.currentState with tag := s.sieveTag packet.tag } }
  { packet.lights.foldl Serveri.applyLight s with lightsDirty := true }

/-- `Serveri::lightPacket`. -/
def Serveri.lightPacket (s : Serveri) (buf : StdString) : Except Halt Serveri :=
  (parseLightPacket buf).bind fun packet => .ok (s.applyPacket packet)

/-! ## Poll descriptors -/

/-- `Serveri::addFD`. The events of an entry are a `short`. -/
def Serveri.addFD (s : Serveri) (fd events : Int) : Serveri :=
  { s with pollfds := s.pollfds ++ [{ fd, events := toShort events }] }

/-- `Serveri::deleteFD`. -/
def Serveri.deleteFD (s : Serveri) (fd : Int) : Serveri :=
  { s with pollfds := eraseAll (fun p => p.fd == fd) s.pollfds }

/-- `Serveri::setFDEvents`. -/
def Serveri.setFDEvents (s : Serveri) (fd events : Int) : Serveri :=
  { s with pollfds := s.pollfds.map fun p => if p.fd = fd then { p with events := toShort events } else p }

/-! ## Monitors -/

/-- The room libwebsockets wants in front of a message. -/
def LWS_PRE : Nat := 16

/-- `map[key]`, which inserts a default value if there is none. -/
def indexOrInsert {κ ν : Type} [DecidableEq κ] (m : UnorderedMap κ ν) (key : κ) (value : ν) :
    ν × UnorderedMap κ ν :=
  match m.lookup key with
  | some v => (v, m)
  | none => (value, m.insert key value)

/-- A colour as six hexadecimal digits. -/
def hexColor (c : Color) : StdString := hex2 c.red ++ hex2 c.green ++ hex2 c.blue

/-- The body of the loop of `updateMonitorMessage`. -/
def addLightEntry (acc : UnorderedMap UInt32 Color × Json) (i : Nat) :
    UnorderedMap UInt32 Color × Json :=
  let entry := indexOrInsert acc.1 (UInt32.ofNat i) {}
  (entry.2, Json.set (lit "light" ++ stdToString i) (.string (hexColor entry.1)) acc.2)

/-- The object `updateMonitorMessage` builds, and the lights after the loop that builds it. -/
def LightState.toJson (state : LightState) : UnorderedMap UInt32 Color × Json :=
  let numLights := toUInt state.lights.keys.card
  let j := Json.set (lit "tag") (.string state.tag) (Json.set (lit "numLights") (.number numLights) [])
  (List.range numLights).foldl addLightEntry (state.lights, j)

/-- The text of a state. -/
def LightState.serialize (state : LightState) : Except Halt StdString := Json.dump state.toJson.2

/-- `v.resize(n, 0)`. -/
def resize (v : List UInt8) (n : Nat) : List UInt8 := v.take n ++ List.replicate (n - v.length) 0

/-- `Serveri::updateMonitorMessage`. -/
def Serveri.updateMonitorMessage (s : Serveri) : Except Halt Serveri :=
  s.currentState.serialize.bind fun text =>
    let message := resize s.monitorMessage (LWS_PRE + text.length)
    .ok { s with
      currentState := { s.currentState with lights := s.currentState.toJson.1 }
      -- `memcpy` to what lies behind the first `LWS_PRE` bytes
      monitorMessage := message.take LWS_PRE ++ text.map Int8.toUInt8 }

/-- What is sent of the monitor message: the bytes behind the first `LWS_PRE`. -/
def Serveri.payload (s : Serveri) : List UInt8 := s.monitorMessage.drop LWS_PRE

/-- The address of a connection, as it is read out of the buffer of 16 zero bytes that
    `lws_get_peer_simple` has written at most 15 characters to. -/
def peerAddress (peer : StdString) : StdString := (peer.take 15).takeWhile (· ≠ 0)

/-- `Serveri::addMonitor`. -/
def Serveri.addMonitor (s : Serveri) (wsi : Wsi) (peer : StdString) : Serveri :=
  if s.monitorConnections.any (·.1 == wsi) then s
  else { s with monitorConnections := s.monitorConnections ++ [(wsi, peerAddress peer)] }

/-- `Serveri::deleteMonitor`. -/
def Serveri.deleteMonitor (s : Serveri) (wsi : Wsi) : Serveri :=
  { s with monitorConnections := s.monitorConnections.filter (·.1 != wsi) }

end Valoserveri
