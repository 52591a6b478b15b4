import Valoserveri.Serveri

/-!
# The server's loop and its surroundings

`Serveri::run` waits in `poll`, takes a packet off the UDP socket, lets libwebsockets work on the
descriptors that are ready, and writes the frame and the monitor message if a packet has come in.
The operating system and libwebsockets answer as they like: what they answer in one round of the loop
is a `Round`. `World` is the server together with what has become of its answers outside.
-/

namespace Valoserveri

/-! ## libwebsockets -/

/-- The reasons for which libwebsockets calls back. -/
inductive Reason where
  | PROTOCOL_INIT
  | ESTABLISHED
  | CLOSED
  | SERVER_WRITEABLE
  | RECEIVE (data : StdString)
  | ADD_POLL_FD (fd events : Int)
  | DEL_POLL_FD (fd : Int)
  | CHANGE_MODE_POLL_FD (fd events : Int)
  | other (reason : Nat)
deriving Repr, DecidableEq

/-- The protocols that have a callback of the server. -/
inductive Protocol where
  | light
  | monitor
deriving Repr, DecidableEq

/-- One callback of libwebsockets. `peer` is what `lws_get_peer_simple` says of the connection. -/
structure LwsEvent where
  protocol : Protocol
  wsi : Wsi
  reason : Reason
  peer : StdString := []
deriving Repr, DecidableEq

/-- The monitor connections, as libwebsockets knows them: those that are open, those for which a
    writable callback is requested, and the last message sent on each. -/
structure Lws where
  established : Finset Wsi := ∅
  pending : Finset Wsi := ∅
  sent : Wsi → Option (List UInt8) := fun _ => none

/-- `lws_callback_on_writable`. -/
def Lws.callbackOnWritable (lws : Lws) (wsi : Wsi) : Except Halt Lws :=
  if wsi ∈ lws.established then .ok { lws with pending := insert wsi lws.pending }
  else .error .danglingConnection

/-- `lws_write`. -/
def Lws.write (lws : Lws) (wsi : Wsi) (message : List UInt8) : Lws :=
  { lws with sent := Function.update lws.sent wsi (some message) }

/-- What libwebsockets notes of a monitor connection before it calls back. -/
def Lws.enter (lws : Lws) (wsi : Wsi) : Reason → Lws
  | .ESTABLISHED =>
    { lws with
      established := insert wsi lws.established
      sent := Function.update lws.sent wsi none }
  | .SERVER_WRITEABLE => { lws with pending := lws.pending.erase wsi }
  | _ => lws

/-- What libwebsockets notes of a monitor connection after it has called back. -/
def Lws.leave (lws : Lws) (wsi : Wsi) : Reason → Lws
  | .CLOSED =>
    { lws with established := lws.established.erase wsi, pending := lws.pending.erase wsi }
  | _ => lws

/-! ## The callbacks -/

/-- `callback`, the callback of the light protocol. -/
def callback (s : Serveri) : Reason → Except Halt Serveri
  | .PROTOCOL_INIT => .ok s
  | .ESTABLISHED => .ok s
  | .CLOSED => .ok s
  | .SERVER_WRITEABLE => .error .assertion
  | .RECEIVE data => s.lightPacket data
  | .ADD_POLL_FD fd events => .ok (s.addFD fd events)
  | .DEL_POLL_FD fd => .ok (s.deleteFD fd)
  | .CHANGE_MODE_POLL_FD fd events => .ok (s.setFDEvents fd events)
  | .other _ => .ok s

/-- `callback_monitor`. -/
def callbackMonitor (s : Serveri) (lws : Lws) (wsi : Wsi) (peer : StdString) :
    Reason → Except Halt (Serveri × Lws)
  | .ESTABLISHED => (lws.callbackOnWritable wsi).bind fun lws => .ok (s.addMonitor wsi peer, lws)
  | .CLOSED => .ok (s.deleteMonitor wsi, lws)
  | .SERVER_WRITEABLE => .ok (s, lws.write wsi s.payload)
  | _ => .ok (s, lws)

/-! ## The world -/

/-- The server and its surroundings. -/
structure World where
  serveri : Serveri
  /-- The buffer of `run` that datagrams are received in. -/
  buffer : StdString
  lws : Lws := {}
  /-- The bytes the serial device has accepted. -/
  tty : List UInt8 := []

/-- A callback of libwebsockets. -/
def World.deliver (w : World) (e : LwsEvent) : Except Halt World :=
  match e.protocol with
  | .light => (callback w.serveri e.reason).bind fun s => .ok { w with serveri := s }
  | .monitor =>
    (callbackMonitor w.serveri (w.lws.enter e.wsi e.reason) e.wsi e.peer e.reason).bind fun r =>
      .ok { w with serveri := r.1, lws := r.2.leave e.wsi e.reason }

/-- The callbacks made inside one call of `lws_service_fd`. -/
def World.lwsServiceFd (w : World) (callbacks : List LwsEvent) : Except Halt World :=
  callbacks.foldlM World.deliver w

/-! ## One round of the loop -/

/-- The answers of the surroundings in one round of the loop. -/
structure Round where
  pollresult : Int
  /-- What `poll` stores in the entries, by position. -/
  revents : Nat → Int
  /-- What `recvfrom` gives when it is called for the entry at a position: a datagram, or an error. -/
  recv : Nat → Option StdString
  /-- The callbacks made while the descriptors that are ready are serviced, by position. -/
  callbacks : Nat → List LwsEvent
  written : Int

/-- `recvfrom`: its result, and the buffer after it. A datagram that is longer than the buffer is cut
    off. -/
def recvfrom (buffer : StdString) : Option StdString → Int × StdString
  | none => (-1, buffer)
  | some datagram =>
    let data := datagram.take buffer.length
    (data.length, data ++ buffer.drop data.length)

/-- What the scan of the poll entries works on. -/
structure ScanState where
  serveri : Serveri
  buffer : StdString
  processFDs : List Pollfd := []
  count : Int := 0

/-- The branch of the scan for the UDP socket. -/
def ScanState.receive (st : ScanState) (recv : Option StdString) : Except Halt ScanState :=
  let received := recvfrom st.buffer recv
  (spanFirst received.2 (toSize received.1)).bind fun packet =>
    (st.serveri.lightPacket packet).bind fun s =>
      .ok { st with serveri := s, buffer := received.2 }

/-- The scan of the poll entries from position `pos` on: the entries after it, and what it has worked
    on. The scan stops when it has seen `pollresult` entries that are ready. -/
def scan (r : Round) : List Pollfd → Nat → ScanState → Except Halt (List Pollfd × ScanState)
  | [], _, st => .ok ([], st)
  | fd :: fds, pos, st =>
    if r.pollresult ≤ st.count then .ok (fd :: fds, st)
    else if fd.revents ≠ 0 then
      (if fd.fd = st.serveri.UDPfd then st.receive (r.recv pos)
        else .ok { st with processFDs := st.processFDs ++ [fd] }).bind fun st =>
          (scan r fds (pos + 1) { st with count := st.count + 1 }).bind fun rest =>
            .ok ({ fd with revents := 0 } :: rest.1, rest.2)
    else (scan r fds (pos + 1) st).bind fun rest => .ok (fd :: rest.1, rest.2)

/-- The descriptors that are ready are serviced one after the other. -/
def World.service (w : World) (r : Round) (processFDs : List Pollfd) : Except Halt World :=
  (List.range processFDs.length).foldlM (fun w j => w.lwsServiceFd (r.callbacks j)) w

/-- `DMXController::update`: the device accepts the first `written` bytes of the frame, or none if
    `write` fails. -/
def World.update (w : World) (written : Int) : World :=
  { w with tty := w.tty ++ w.serveri.dmx.dmxPacket.take written.toNat }

/-- The loop that asks for a writable callback on every monitor connection. -/
def requestWritable (lws : Lws) (connections : List (Wsi × StdString)) : Except Halt Lws :=
  connections.foldlM (fun lws c => lws.callbackOnWritable c.1) lws

/-- The end of a round: if a light packet has come in, the frame is written, the monitor message is
    rebuilt and the monitors are told. -/
def World.flush (w : World) (written : Int) : Except Halt World :=
  if w.serveri.lightsDirty then
    let w := w.update written
    (Serveri.updateMonitorMessage { w.serveri with lightsDirty := false }).bind fun s =>
      (requestWritable w.lws s.monitorConnections).bind fun lws => .ok { w with serveri := s, lws }
  else .ok w

/-- The part of a round before libwebsockets is called: `poll` and the scan of its entries. It gives
    the descriptors that are ready. -/
def World.receive (w : World) (r : Round) : Except Halt (World × List Pollfd) :=
  if r.pollresult < 0 then .error .pollFailed
  else
    let polled := w.serveri.pollfds.mapIdx fun i p => { p with revents := r.revents i }
    (scan r polled 0 { serveri := w.serveri, buffer := w.buffer }).bind fun scanned =>
      let s := { scanned.2.serveri with pollfds := scanned.1 }
      .ok ({ w with serveri := s, buffer := scanned.2.buffer }, scanned.2.processFDs)

/-- The part of a round before its end. -/
def World.collect (w : World) (r : Round) : Except Halt World :=
  (w.receive r).bind fun v => v.1.service r v.2

/-- One round of the loop of `Serveri::run`, from one call of `poll` to the next. -/
def World.round (w : World) (r : Round) : Except Halt World :=
  (w.collect r).bind fun w => w.flush r.written

/-- A run of the loop, from its first call of `poll` to its last. -/
def World.run (w : World) (rounds : List Round) : Except Halt World := rounds.foldlM World.round w

/-! ## The constructor -/

/-- The answers of the surroundings while the server is constructed. -/
structure Boot where
  ttyFd : Int
  udpFd : Int
  bindResult : Int
  /-- The callbacks made by `lws_create_context` and `lws_service`. -/
  callbacks : List LwsEvent

/-- `POLLIN | POLLERR`. -/
def udpEvents : Int := 9

theorem emplace_comm {κ ν : Type} [DecidableEq κ] (m : UnorderedMap κ ν) (i j : κ) (value : ν) :
    emplace (emplace m i value) j value = emplace (emplace m j value) i value := by
  refine Finmap.ext_lookup fun k => ?_
  unfold emplace
  by_cases hij : i = j
  · rw [hij]
  · split_ifs <;> simp_all [Finmap.insert_insert_of_ne, Finmap.mem_insert]

/-- The state of the lights the constructor starts with: every configured light is black. The order in
    which the lights are visited does not matter. -/
def LightsConfig.initialColors (config : LightsConfig) : UnorderedMap UInt32 Color :=
  config.lights.foldl (fun colors i _ => emplace colors i {})
    (fun colors i _ j _ => emplace_comm colors i j {}) ∅

/-- The state of the server before libwebsockets is set up. -/
def Serveri.initial (dmx : DMXController) (udpFd : Int) : Serveri where
  UDPfd := udpFd
  dmx := dmx
  whitelist := initialWhitelist
  currentState := { lights := dmx.lightConfig.initialColors }
  buflen := 2048
  monitorConnections := []
  monitorMessage := []
  pollfds := [{ fd := udpFd, events := udpEvents }]
  lightsDirty := true

/-- `Serveri::Serveri`, up to the set-up of libwebsockets. -/
def Serveri.construct (config : Config) (boot : Boot) : Except Halt Serveri := do
  let dmx ← DMXController.construct config boot.ttyFd
  let _port ← config.getUnsigned (lit "global") (lit "udpPort") 9909
  if boot.bindResult ≠ 0 then .error (.runtimeError (lit "bind error"))
  else
    let s ← (Serveri.initial dmx boot.udpFd).updateMonitorMessage
    let _wsPort ← config.getUnsigned (lit "global") (lit "wsPort") 9910
    return s

/-- The surroundings of a new server. The buffer of `run` is set up here already. -/
def World.start (s : Serveri) : World := { serveri := s, buffer := List.replicate s.buflen 0 }

/-- The whole of `Serveri::Serveri`, followed by what `run` does before its loop. -/
def World.construct (config : Config) (boot : Boot) : Except Halt World :=
  (Serveri.construct config boot).bind fun s => boot.callbacks.foldlM World.deliver (World.start s)

end Valoserveri
