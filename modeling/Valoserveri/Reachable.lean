import Valoserveri.Run
import Valoserveri.Rig

/-!
# The states the server can get into

A description of the server that leaves out the loop around it: light packets, descriptors and
monitors come in any order, and the monitor message is rebuilt at any time. `Proofs/RunProofs` shows
that the states of the loop are among the states reached this way.
-/

namespace Valoserveri

/-- The calls of `setLightColor` for a packet. -/
def LightPacket.calls (packet : LightPacket) : List (UInt32 × Color) :=
  packet.lights.map fun l => (l.index, l.color)

/-- What happens to the server while it collects its input: a light packet comes in, or descriptors or
    monitors come and go. -/
inductive Serveri.Quiet (s : Serveri) : Serveri → Prop
  | packet {t : Serveri} (buf : StdString) (h : s.lightPacket buf = .ok t) : Quiet s t
  | descriptors (pollfds : List Pollfd) : Quiet s { s with pollfds }
  | monitors (connections : List (Wsi × StdString)) :
      Quiet s { s with monitorConnections := connections }

/-- The states of a server with the given configuration. -/
inductive Serveri.Reachable (config : Config) : Serveri → Prop
  | initial {ttyFd udpFd : Int} {dmx : DMXController}
      (h : DMXController.construct config ttyFd = .ok dmx) : Reachable config (.initial dmx udpFd)
  | quiet {s t : Serveri} (hs : Reachable config s) (h : s.Quiet t) : Reachable config t
  | cleaned {s : Serveri} (hs : Reachable config s) : Reachable config { s with lightsDirty := false }
  | updated {s t : Serveri} (hs : Reachable config s) (h : s.updateMonitorMessage = .ok t) :
      Reachable config t

/-- A message of the light protocol that libwebsockets hands over in chunks. -/
def Serveri.receiveChunks (s : Serveri) (chunks : List StdString) : Except Halt Serveri :=
  chunks.foldlM (fun s chunk => callback s (.RECEIVE chunk)) s

/-- What the server shows: the frame and the state for the monitors. -/
def Serveri.shown (s : Serveri) : List UInt8 × LightState := (s.dmx.dmxPacket, s.currentState)

/-- A character that JSON strings hold as it is: printable ASCII other than the quote and the
    backslash. -/
def SafeChar (c : Int8) : Prop := 32 ≤ c ∧ c < 127 ∧ c ≠ 34 ∧ c ≠ 92

instance (c : Int8) : Decidable (SafeChar c) := instDecidableAnd

/-- A string whose characters are all safe. -/
def Safe (s : StdString) : Prop := ∀ c ∈ s, SafeChar c

instance (s : StdString) : Decidable (Safe s) := List.decidableBAll SafeChar s

/-- A letter, a digit or a space. -/
def OrdinaryChar (c : Int8) : Prop :=
  97 ≤ c ∧ c ≤ 122 ∨ 65 ≤ c ∧ c ≤ 90 ∨ 48 ≤ c ∧ c ≤ 57 ∨ c = 32

instance (c : Int8) : Decidable (OrdinaryChar c) := instDecidableOr

instance (tag : StdString) : Decidable (∀ c ∈ tag, OrdinaryChar c) := List.decidableBAll OrdinaryChar tag

/-- The frame shows the colour of a light: the components of a coloured light, the brightness of an
    ultraviolet one. -/
def Light.Shows (light : Light) (color : Color) (packet : List UInt8) : Prop :=
  let offset := light.address.toNat + 4
  match light.type with
  | .RGB => packet[offset]? = some color.red ∧ packet[offset + 1]? = some color.green ∧
      packet[offset + 2]? = some color.blue
  | .UV => ∃ v, packet[offset]? = some v ∧
      v.toNat = (77 * color.red.toNat + 150 * color.green.toNat + 29 * color.blue.toNat) / 256

/-- No byte that light `k` is stored to is stored to by another light. -/
def LightsConfig.Separate (config : LightsConfig) (k : UInt32) (light : Light) : Prop :=
  ∀ j other, j ≠ k → config.lights.lookup j = some other → ∀ b, light.Writes b → ¬ other.Writes b

/-! ## Rounds of the loop -/

/-- In a run from `w`, a round comes to its end with `v` and has something to write, and `write` then
    returns `written`. -/
def World.FlushesAt (w : World) (rounds : List Round) (v : World) (written : Int) : Prop :=
  ∃ before r after u, rounds = before ++ r :: after ∧ w.run before = .ok u ∧ u.collect r = .ok v ∧
    v.serveri.lightsDirty = true ∧ written = r.written

/-- What libwebsockets promises of its callbacks to the monitor protocol: a connection is established
    once, then closed once, and is writeable only in between. -/
def Lws.Admits (lws : Lws) (e : LwsEvent) : Prop :=
  match e.protocol, e.reason with
  | .monitor, .ESTABLISHED => e.wsi ∉ lws.established
  | .monitor, .CLOSED => e.wsi ∈ lws.established
  | .monitor, .SERVER_WRITEABLE => e.wsi ∈ lws.established
  | _, _ => True

/-- Callbacks that are made one after the other keep the promise. -/
def World.Admits : World → List LwsEvent → Prop
  | _, [] => True
  | w, e :: es => w.lws.Admits e ∧ ∀ v, w.deliver e = .ok v → v.Admits es

/-- The callbacks of a round keep the promise. -/
def World.AdmitsRound (w : World) (r : Round) : Prop :=
  ∀ v processFDs, w.receive r = .ok (v, processFDs) →
    v.Admits ((List.range processFDs.length).flatMap r.callbacks)

/-- The callbacks of a run keep the promise. -/
def World.AdmitsRun : World → List Round → Prop
  | _, [] => True
  | w, r :: rounds => w.AdmitsRound r ∧ ∀ v, w.round r = .ok v → v.AdmitsRun rounds

/-- What libwebsockets promises of all its callbacks: besides what it promises of the monitor protocol,
    a message is handed over in chunks that fit in the receive buffer. It does not promise that a
    connection is writeable only on request: it is also writeable when a ping has been answered. -/
def World.Promises (w : World) (e : LwsEvent) : Prop :=
  w.lws.Admits e ∧
    (e.protocol = .light → ∀ data, e.reason = .RECEIVE data → data.length ≤ w.serveri.buflen)

/-- Callbacks that are made one after the other keep all promises. -/
def World.PromisesAll : World → List LwsEvent → Prop
  | _, [] => True
  | w, e :: es => w.Promises e ∧ ∀ v, w.deliver e = .ok v → v.PromisesAll es

/-- The callbacks of a round keep all promises. -/
def World.PromisesRound (w : World) (r : Round) : Prop :=
  ∀ v processFDs, w.receive r = .ok (v, processFDs) →
    v.PromisesAll ((List.range processFDs.length).flatMap r.callbacks)

/-- The callbacks of a run keep all promises. -/
def World.PromisesRun : World → List Round → Prop
  | _, [] => True
  | w, r :: rounds => w.PromisesRound r ∧ ∀ v, w.round r = .ok v → v.PromisesRun rounds

/-- In a round, `recvfrom` is called for the entry at position `i`: it is that of the UDP socket, it is
    ready, and the scan gets there before it has seen `pollresult` entries that are ready. -/
def World.ReceivesAt (w : World) (r : Round) (i : Nat) : Prop :=
  (∃ p, w.serveri.pollfds[i]? = some p ∧ p.fd = w.serveri.UDPfd) ∧ r.revents i ≠ 0 ∧
    (((List.range i).countP fun j => r.revents j ≠ 0 : Nat) : Int) < r.pollresult

/-- A connection of the light protocol is writeable. `callback` takes it that this never happens. -/
def LwsEvent.LightWriteable (e : LwsEvent) : Prop := e.protocol = .light ∧ e.reason = .SERVER_WRITEABLE

instance (e : LwsEvent) : Decidable e.LightWriteable := inferInstanceAs (Decidable (_ ∧ _))

/-- In a round, the callback `e` is made: the datagrams are received, and `e` comes while one of the
    descriptors that are ready is serviced. -/
def World.CallsBack (w : World) (r : Round) (e : LwsEvent) : Prop :=
  ∃ v processFDs, w.receive r = .ok (v, processFDs) ∧
    e ∈ (List.range processFDs.length).flatMap r.callbacks

/-- The callbacks inside the constructor keep the promise, and no message is received there. -/
def Boot.Admissible (boot : Boot) (config : Config) : Prop :=
  (∀ e ∈ boot.callbacks, ∀ data, e.reason ≠ .RECEIVE data) ∧
    ∀ s, Serveri.construct config boot = .ok s → (World.start s).Admits boot.callbacks

end Valoserveri
