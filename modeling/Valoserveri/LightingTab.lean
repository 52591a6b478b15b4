import Valoserveri.Clients
import Valoserveri.MonitorSocket

/-!
# The connections of `websocket.html`

Every click on the button to connect makes a socket, and once that is open, an array and a loop of its
own. The loops do not send to the socket that started them but to the one that the variable `socket` of
the page refers to, which is that of the last click. A socket that is replaced is not closed.
-/

namespace Valoserveri

/-- A socket, and the variables that its handlers share. -/
structure Connection where
  page : LightingPage
  readyState : ReadyState := .CONNECTING
  /-- The array, when `onopen` has made it. -/
  data : List UInt8 := []
  packets : Nat := 0
  /-- Whether `timeout` refers to a call of `lightingLoop` that waits. -/
  timeout : Bool := false
deriving Repr, DecidableEq

/-- `close` of the socket. -/
def Connection.close (c : Connection) : Connection :=
  if c.readyState = .CLOSED then c else { c with readyState := .CLOSING }

/-- A message, with the loop that has sent it and the socket that has taken it. -/
structure Sending where
  loop : Nat
  socket : Nat
  message : List UInt8
deriving Repr, DecidableEq

/-- The page, as far as its connections are concerned. -/
structure LightingTab where
  /-- The variable `socket`: a position in `connections`. -/
  socket : Option Nat := none
  /-- The text of the element `tagivirhe`. -/
  tagivirhe : StdString := []
  /-- What the clicks have left, in order. -/
  connections : List Connection := []
  sent : List Sending := []
deriving Repr, DecidableEq

namespace LightingTab

variable (t : LightingTab)

/-- `yhdista`, with what the fields of the page hold. The constructor of the WebSocket throws if they do
    not give a URL, and nothing is then assigned. -/
def yhdista (page : LightingPage) (url : Bool) : LightingTab :=
  if page.tagi = [] then { t with tagivirhe := lit "Kirjoita tagi!" }
  else if url then
    { t with socket := some t.connections.length, connections := t.connections ++ [{ page := page }] }
  else t

/-- `katkaise`. -/
def katkaise : LightingTab :=
  match t.socket with
  | none => t
  | some i =>
    { t with socket := none, connections := t.connections.modify i Connection.close }

/-- `lightingLoop` of connection `j`, whose variables are `c`. -/
def lightingLoop (j : Nat) (c : Connection) (tick : Tick) : LightingTab :=
  match t.socket with
  | none => { t with connections := t.connections.set j { c with timeout := false } }
  | some i =>
    let data := c.page.lightingLoop c.data tick
    let c := { c with data, packets := c.packets + 1 }
    match t.connections[i]?.map Connection.readyState with
    | some .CONNECTING =>
      -- `send` throws
      { t with connections := t.connections.set j { c with timeout := false } }
    | some .OPEN =>
      { t with
        connections := t.connections.set j { c with timeout := true }
        sent := t.sent ++ [⟨j, i, data⟩] }
    | _ =>
      -- `send` drops what it is given
      { t with connections := t.connections.set j { c with timeout := true } }

/-- `onopen` of connection `j`, whose variables are `c`. -/
def onopen (j : Nat) (c : Connection) (tick : Tick) : LightingTab :=
  let c := { c with readyState := .OPEN, data := c.page.onopen, packets := 0 }
  lightingLoop { t with connections := t.connections.set j c } j c tick

end LightingTab

/-- What can happen to the page. -/
inductive LightingEvent where
  /-- A click on the button to connect. -/
  | yhdista (page : LightingPage) (url : Bool)
  /-- A click on the button to disconnect. -/
  | katkaise
  /-- The `open` event of a socket. -/
  | opened (j : Nat) (tick : Tick)
  /-- The server begins to close a connection. -/
  | closing (j : Nat)
  /-- The `close` event of a socket. -/
  | closed (j : Nat)
  /-- A call of `lightingLoop` is due. -/
  | timer (j : Nat) (tick : Tick)

namespace LightingTab

/-- What an event does, if it can happen. -/
def step (t : LightingTab) : LightingEvent → Option LightingTab
  | .yhdista page url => some (t.yhdista page url)
  | .katkaise => some t.katkaise
  | .opened j tick =>
    (t.connections[j]?.filter (·.readyState = .CONNECTING)).map fun c => t.onopen j c tick
  | .closing j =>
    (t.connections[j]?.filter (·.readyState = .OPEN)).map fun c =>
      { t with connections := t.connections.set j { c with readyState := .CLOSING } }
  | .closed j =>
    (t.connections[j]?.filter (·.readyState ≠ .CLOSED)).map fun c =>
      { t with connections := t.connections.set j { c with readyState := .CLOSED, timeout := false } }
  | .timer j tick => (t.connections[j]?.filter (·.timeout)).map fun c => t.lightingLoop j c tick

/-- The page after a sequence of events. -/
def run (t : LightingTab) (events : List LightingEvent) : Option LightingTab := events.foldlM step t

/-! ## Loops and sockets -/

/-- The number of loops that go on. -/
def loops (t : LightingTab) : Nat := t.connections.countP (·.timeout)

/-- The sockets whose `close` event has not come yet. -/
def unclosed (t : LightingTab) : Nat := t.connections.countP (·.readyState ≠ .CLOSED)

end LightingTab

namespace LightingEvent

/-- The fields of the page, at a click that makes a socket. -/
def page? : LightingEvent → Option LightingPage
  | .yhdista page url => if page.tagi ≠ [] ∧ url = true then some page else none
  | _ => none

/-- The numbers for a pass of a loop. -/
def tick? : LightingEvent → Option Tick
  | .opened _ tick => some tick
  | .timer _ tick => some tick
  | _ => none

end LightingEvent

/-! ## What is meant -/

/-- The packet of one pass of `lightingLoop`. -/
def LightingPage.packet (page : LightingPage) (tick : Tick) : List UInt8 :=
  encodePacket (page.tagi.map UInt8.ofNat) (tick.commands page.lightCount)

/-- The colour that a pass of `lightingLoop` gives to a light. -/
def Tick.colorOf (tick : Tick) (i : Nat) : Color := if i = tick.v then tick.color else tick.colors i

/-- The server decodes the packets of a page as they are meant. -/
structure LightingPage.Fits (page : LightingPage) : Prop where
  tagi : ∀ x ∈ page.tagi, UInt8.ofNat x ≠ 0
  lightCount : page.lightCount ≤ 128
  length : page.headerLength + 6 * page.lightCount < 2 ^ 31

end Valoserveri
