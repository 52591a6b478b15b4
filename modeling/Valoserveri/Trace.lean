import Valoserveri.Reachable

/-!
# What the server hears, and what it shows for it

The packets that come in in a run are the datagrams and the messages of the light protocol. To the
people who send them, the server is a board with a tag and a colour for each light, on which each packet
writes its own.
-/

namespace Valoserveri

open FixedStore

/-! ## The packets of a run -/

/-- The message of the light protocol that a callback hands over, if it hands over any. -/
def LwsEvent.message? (e : LwsEvent) : Option StdString :=
  match e.protocol, e.reason with
  | .light, .RECEIVE data => some data
  | _, _ => none

instance (w : World) (r : Round) (i : Nat) : Decidable (w.ReceivesAt r i) :=
  decidable_of_iff ((w.serveri.pollfds[i]?.any fun p => p.fd = w.serveri.UDPfd) = true ∧ r.revents i ≠ 0 ∧
      (((List.range i).countP fun j => r.revents j ≠ 0 : Nat) : Int) < r.pollresult) <| by
    unfold World.ReceivesAt
    simp [Option.any_eq_true]

/-- The datagrams that are taken for packets in a round, cut off where the buffer ends. -/
def World.datagrams (w : World) (r : Round) : List StdString :=
  ((List.range w.serveri.pollfds.length).filter fun i => decide (w.ReceivesAt r i)).filterMap fun i =>
    (r.recv i).map fun datagram => datagram.take w.buffer.length

/-- The messages that are handed over in a round in which `ready` descriptors are serviced. -/
def Round.messages (r : Round) (ready : Nat) : List StdString :=
  ((List.range ready).flatMap r.callbacks).filterMap LwsEvent.message?

/-- The packets of a run, round by round. -/
def World.hearings : World → List Round → List (List StdString)
  | _, [] => []
  | w, r :: rounds =>
    match w.receive r, w.round r with
    | .ok (_, processFDs), .ok v => (w.datagrams r ++ r.messages processFDs.length) :: v.hearings rounds
    | _, _ => []

/-- The packets of a run, in the order in which they are handled. -/
def World.heard (w : World) (rounds : List Round) : List StdString := (w.hearings rounds).flatten

/-- The packets that come in while the server is constructed. -/
def Boot.heard (boot : Boot) : List StdString := boot.callbacks.filterMap LwsEvent.message?

/-- A packet has a record for light `k`. -/
def mentionsLight (k : UInt32) (buf : StdString) : Bool :=
  match parseLightPacket buf with
  | .ok packet => packet.lights.any fun l => l.index = k
  | .error _ => false

/-! ## The board -/

/-- The tag, and the colour of every light there is. -/
structure Board where
  tag : StdString
  color : UInt32 → Option Color

/-- A packet leaves its tag, without the characters that are not allowed, and the last colour it has
    for each light. -/
def Board.hear (b : Board) (packet : LightPacket) : Board where
  tag := packet.tag.filter fun c => tagWhitelist.contains c
  color k := (b.color k).map fun old => (lastWrite packet.calls k).getD old

/-- The board of a rig on which all lights are black. -/
def LightsConfig.board (lights : LightsConfig) : Board where
  tag := []
  color k := (lights.lights.lookup k).map fun _ => {}

/-- The board of the server. -/
def Serveri.board (s : Serveri) : Board where
  tag := s.currentState.tag
  color k := s.currentState.lights.lookup k

/-! ## The serial device -/

/-- The frame after a sequence of calls of `setLightColor`. -/
def LightsConfig.frame (lights : LightsConfig) (calls : List (UInt32 × Color)) : List UInt8 :=
  (listStore UInt8).putAll initialPacket (lights.writes calls)

/-- What comes out at the serial device if the given packets come in, round by round, where each round
    comes with the number of bytes that the device takes. A round in which packets come in puts out one
    frame, with the calls of all packets up to then; so does the first round in any case. -/
def LightsConfig.output (lights : LightsConfig) :
    Bool → List (UInt32 × Color) → List (List LightPacket × Int) → List UInt8
  | _, _, [] => []
  | dirty, calls, (packets, written) :: rest =>
    let calls := calls ++ packets.flatMap LightPacket.calls
    (if dirty || !packets.isEmpty then (lights.frame calls).take written.toNat else []) ++
      lights.output false calls rest

end Valoserveri
