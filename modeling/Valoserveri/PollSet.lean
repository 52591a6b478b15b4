import Valoserveri.Run
import Valoserveri.Library.ExceptRun
import Valoserveri.Library.Registry
import Mathlib.Logic.Relation

/-!
# The poll set

libwebsockets says through callbacks which descriptors are to be polled, and for what. The callbacks
come while the server is constructed and while it services the descriptors that were ready, so that
the poll entries change under the list of those that are still waiting. A `Moment` is a point in such a
run, together with what has been asked of the poll set so far.
-/

namespace Valoserveri

open ExceptRun Registry Relation

/-- The poll entries as a registry of descriptors and their events. -/
def Serveri.registry (s : Serveri) : List (Int × Int) := s.pollfds.map fun p => (p.fd, p.events)

/-- What a callback asks of the poll set. The events are taken as the `short` that an entry holds. -/
def Reason.command : Reason → Option (Command Int Int)
  | .ADD_POLL_FD fd events => some (.add fd (toShort events))
  | .CHANGE_MODE_POLL_FD fd events => some (.change fd (toShort events))
  | .DEL_POLL_FD fd => some (.delete fd)
  | _ => none

/-- A point in a run: the world, the history of the poll set, and the entries that were ready in this
    round, split into those for which `lws_service_fd` has been called and those that are waiting. -/
structure Moment where
  world : World
  log : List (Command Int Int) := []
  serviced : List Pollfd := []
  waiting : List Pollfd := []

namespace Moment

/-- The server has been constructed, and libwebsockets is about to be set up. -/
def start (s : Serveri) : Moment := { world := World.start s }

/-- `poll` returns, and the entries are scanned. -/
def poll (m : Moment) (r : Round) : Except Halt Moment :=
  (m.world.receive r).bind fun v => .ok { m with world := v.1, serviced := [], waiting := v.2 }

/-- `lws_service_fd` is called for the first entry that is waiting. -/
def next (m : Moment) : Moment :=
  { m with serviced := m.serviced ++ m.waiting.take 1, waiting := m.waiting.drop 1 }

/-- A callback of libwebsockets. -/
def deliver (m : Moment) (e : LwsEvent) : Except Halt Moment :=
  (m.world.deliver e).bind fun w =>
    .ok { m with world := w, log := m.log ++ e.reason.command.toList }

/-- The end of a round. -/
def flush (m : Moment) (written : Int) : Except Halt Moment :=
  (m.world.flush written).bind fun w => .ok { m with world := w }

/-! ## What libwebsockets promises -/

/-- What libwebsockets promises of the callbacks for the poll set: they come on its first protocol and
    are about descriptors of its own, a descriptor is not added again before it is deleted, and one that
    is waiting is not deleted while another one is serviced. -/
def Allows (m : Moment) (e : LwsEvent) : Prop :=
  match e.reason with
  | .ADD_POLL_FD fd _ =>
    e.protocol = .light ∧ fd ≠ m.world.serveri.UDPfd ∧ ¬ Registered m.log fd
  | .CHANGE_MODE_POLL_FD fd _ => e.protocol = .light ∧ fd ≠ m.world.serveri.UDPfd
  | .DEL_POLL_FD fd =>
    e.protocol = .light ∧ fd ≠ m.world.serveri.UDPfd ∧ ∀ p ∈ m.waiting, p.fd ≠ fd
  | _ => True

/-- One step of a run. Callbacks may come at any time. -/
inductive Step (m : Moment) : Moment → Prop
  | poll {m' : Moment} (r : Round) (hidle : m.waiting = []) (h : m.poll r = .ok m') : Step m m'
  | service (h : m.waiting ≠ []) : Step m m.next
  | callback {m' : Moment} (e : LwsEvent) (hallows : m.Allows e) (h : m.deliver e = .ok m') : Step m m'
  | flush {m' : Moment} (written : Int) (hidle : m.waiting = []) (h : m.flush written = .ok m') :
      Step m m'

/-- The points of the runs of a server. -/
def Reachable (config : Config) (boot : Boot) (m : Moment) : Prop :=
  ∃ s, Serveri.construct config boot = .ok s ∧ ReflTransGen Step (start s) m

/-! ## The runs of the loop -/

/-- One call of `lws_service_fd`. -/
def lwsServiceFd (callbacks : Nat → List LwsEvent) (m : Moment) (j : Nat) : Except Halt Moment :=
  (callbacks j).foldlM deliver m.next

/-- The calls of `lws_service_fd` in one round. -/
def service (m : Moment) (r : Round) : Except Halt Moment :=
  (List.range m.waiting.length).foldlM (lwsServiceFd r.callbacks) m

/-- One round of the loop. -/
def round (m : Moment) (r : Round) : Except Halt Moment :=
  (m.poll r).bind fun m => (m.service r).bind fun m => m.flush r.written

/-- A run of the loop. -/
def run (m : Moment) (rounds : List Round) : Except Halt Moment := rounds.foldlM round m

/-- The constructor, with the callbacks made by `lws_create_context` and `lws_service`. -/
def construct (config : Config) (boot : Boot) : Except Halt Moment :=
  (Serveri.construct config boot).bind fun s => boot.callbacks.foldlM deliver (start s)

/-- Callbacks that are made one after the other keep the promise. -/
def AllowsAll (m : Moment) (es : List LwsEvent) : Prop := Guarded Allows deliver m es

/-- The callbacks of a round keep the promise. -/
def AllowsRound (m : Moment) (r : Round) : Prop :=
  ∀ m', m.poll r = .ok m' → Guarded (fun m j => m.next.AllowsAll (r.callbacks j))
    (lwsServiceFd r.callbacks) m' (List.range m'.waiting.length)

/-- The callbacks of a run keep the promise. -/
def AllowsRun (m : Moment) (rounds : List Round) : Prop := Guarded AllowsRound round m rounds

end Moment

/-- The callbacks in the constructor keep the promise. -/
def Boot.Allows (boot : Boot) (config : Config) : Prop :=
  ∀ s, Serveri.construct config boot = .ok s → (Moment.start s).AllowsAll boot.callbacks

end Valoserveri
