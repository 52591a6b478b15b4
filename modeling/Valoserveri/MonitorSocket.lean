import Valoserveri.Machine

/-!
# The connection of the monitor page

`monitor.html` opens a WebSocket when it is loaded, opens another three seconds after one has been
closed, and has a button to connect and one to disconnect. A socket that is told to close stays around
until its `close` event comes, and the handler of that event does not look which socket it is for.
-/

namespace Valoserveri

/-- The property `readyState` of a WebSocket. -/
inductive ReadyState where
  | CONNECTING
  | OPEN
  | CLOSING
  | CLOSED
deriving Repr, DecidableEq

/-- The page, as far as its connection is concerned. -/
structure Tab where
  /-- The variable `socket`: a position in `sockets`. -/
  socket : Option Nat := none
  autoReconnect : Bool := true
  /-- The text of the element `status`. -/
  status : StdString := lit "(status)"
  /-- All sockets that have been created, in order. -/
  sockets : List ReadyState := []
  /-- How many calls of `setTimeout` wait. -/
  timers : Nat := 0
deriving Repr, DecidableEq

/-- `close` of a WebSocket. -/
def Tab.close (t : Tab) (i : Nat) : Tab :=
  match t.sockets[i]? with
  | some .CONNECTING => { t with sockets := t.sockets.set i .CLOSING }
  | some .OPEN => { t with sockets := t.sockets.set i .CLOSING }
  | _ => t

/-- The part of `yhdista` behind the check of `socket`. The constructor of the WebSocket throws if the
    fields of the page do not give a URL, and nothing is then assigned. -/
def Tab.connect (t : Tab) (url : Bool) : Tab :=
  let t := { t with status := lit "Connecting" }
  if url then { t with socket := some t.sockets.length, sockets := t.sockets ++ [.CONNECTING] } else t

/-- `yhdista`. -/
def Tab.yhdista (t : Tab) (force url : Bool) : Tab :=
  match t.socket with
  | some i => if force then (t.close i).connect url else t
  | none => t.connect url

/-- `katkaise`. -/
def Tab.katkaise (t : Tab) : Tab :=
  match t.socket with
  | some i => { Tab.close { t with autoReconnect := false } i with socket := none }
  | none => t

/-- The handler `onclose`, the same for all sockets. -/
def Tab.onclose (t : Tab) : Tab :=
  let t := { t with status := lit "Closed", socket := none }
  if t.autoReconnect then { t with timers := t.timers + 1 } else t

/-- What can happen to the page. `url` says whether the fields give a URL at the time. -/
inductive TabEvent where
  /-- A click on the button to connect. -/
  | yhdista (url : Bool)
  /-- A click on the button to disconnect. -/
  | katkaise
  /-- A call of `setTimeout` is due. -/
  | timer (url : Bool)
  /-- The `open` event of a socket. -/
  | opened (i : Nat)
  /-- The `close` event of a socket. -/
  | closed (i : Nat)
deriving Repr, DecidableEq

/-- What an event does, if it can happen. -/
def Tab.step (t : Tab) : TabEvent → Option Tab
  | .yhdista url => some (t.yhdista true url)
  | .katkaise => some t.katkaise
  | .timer url =>
    if t.timers = 0 then none else some (Tab.yhdista { t with timers := t.timers - 1 } false url)
  | .opened i =>
    if t.sockets[i]? = some .CONNECTING then
      some { t with sockets := t.sockets.set i .OPEN, status := lit "Open" }
    else none
  | .closed i =>
    match t.sockets[i]? with
    | none => none
    | some .CLOSED => none
    | some _ => some (Tab.onclose { t with sockets := t.sockets.set i .CLOSED })

/-- The page after it is loaded. -/
def Tab.load (url : Bool) : Tab := Tab.yhdista {} false url

/-- The page after a sequence of events. -/
def Tab.run (t : Tab) (events : List TabEvent) : Option Tab := events.foldlM Tab.step t

/-! ## Counts -/

/-- The sockets whose `close` event has not come yet. -/
def Tab.unclosed (t : Tab) : Nat := t.sockets.countP (· ≠ .CLOSED)

/-- The sockets that are open. -/
def Tab.opened (t : Tab) : Nat := t.sockets.countP (· = .OPEN)

/-- A click on the button to connect. -/
def TabEvent.connects : TabEvent → Bool
  | .yhdista _ => true
  | _ => false

/-- A `close` event, or a call that is due. -/
def TabEvent.ends : TabEvent → Bool
  | .closed _ => true
  | .timer _ => true
  | _ => false

/-- The fields give a URL whenever one is needed. -/
def TabEvent.HasUrl : TabEvent → Prop
  | .yhdista url => url = true
  | .timer url => url = true
  | _ => True

end Valoserveri
