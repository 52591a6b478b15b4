import Valoserveri.Proofs.HaltProofs
import Valoserveri.Proofs.OutputProofs
import Valoserveri.Library.Broadcast

/-!
# Monitors never lose an update

The server and libwebsockets together broadcast the monitor message: a connection that is established
joins, one that is closed leaves, a writable callback sends the message, and the end of a round
publishes a new one. Every step of the loop is a step of this broadcast, or none.
-/

namespace Valoserveri

open ExceptRun Relation DirtyFlag

/-- The broadcast of the monitor message. -/
def World.broadcast (w : World) : Broadcast.State Wsi (List UInt8) where
  members := w.lws.established
  marked := w.lws.pending
  sent := w.lws.sent
  message := w.serveri.payload

/-- The connections that the server keeps are those that are established. -/
structure World.Connected (w : World) : Prop where
  nodup : (w.serveri.monitorConnections.map Prod.fst).Nodup
  mem_iff : ∀ wsi, wsi ∈ w.serveri.monitorConnections.map Prod.fst ↔ wsi ∈ w.lws.established

/-- The message that is sent to the monitors is that of the current state. -/
def messageTracker : Tracker Serveri LightState where
  dirty := Serveri.lightsDirty
  current := Serveri.currentState
  Published s state := ∃ text, state.serialize = .ok text ∧ s.payload = text.map Int8.toUInt8

/-! ## Steps that do not concern the monitors -/

/-- The monitors and their message are left alone. -/
def Serveri.SameMonitors (s t : Serveri) : Prop :=
  t.monitorConnections = s.monitorConnections ∧ t.monitorMessage = s.monitorMessage

section Same

variable {w v : World} {s t : Serveri}

theorem lightPacket_sameMonitors {buf : StdString} (h : s.lightPacket buf = .ok t) : s.SameMonitors t := by
  obtain ⟨packet, -, rfl⟩ := lightPacket_eq_ok.mp h
  rw [applyPacket_eq]
  exact ⟨rfl, rfl⟩

theorem packets_sameMonitors (h : ReflTransGen Serveri.TakesPacket s t) : s.SameMonitors t := by
  induction h with
  | refl => exact ⟨rfl, rfl⟩
  | tail _ hstep ih =>
    obtain ⟨buf, hbuf⟩ := hstep
    obtain ⟨hconn, hmsg⟩ := lightPacket_sameMonitors hbuf
    exact ⟨hconn.trans ih.1, hmsg.trans ih.2⟩

theorem callback_sameMonitors {reason : Reason} (h : callback s reason = .ok t) : s.SameMonitors t := by
  cases reason with
  | RECEIVE data => exact lightPacket_sameMonitors h
  | SERVER_WRITEABLE => cases h
  | PROTOCOL_INIT | ESTABLISHED | CLOSED | ADD_POLL_FD | DEL_POLL_FD | CHANGE_MODE_POLL_FD | other =>
    obtain rfl := Except.ok.inj h
    exact ⟨rfl, rfl⟩

theorem World.Connected.congr (h : w.Connected) (hs : w.serveri.SameMonitors v.serveri)
    (hlws : v.lws = w.lws) : v.Connected := by
  refine ⟨?_, fun wsi => ?_⟩
  · rw [hs.1]
    exact h.nodup
  · rw [hs.1, hlws]
    exact h.mem_iff wsi

theorem broadcast_congr (hs : w.serveri.SameMonitors v.serveri) (hlws : v.lws = w.lws) :
    v.broadcast = w.broadcast := by
  unfold World.broadcast Serveri.payload
  rw [hs.2, hlws]

end Same

/-! ## Callbacks -/

section Callbacks

variable {w v : World} {wsi : Wsi} {peer : StdString}

theorem deliver_established (w : World) (wsi : Wsi) (peer : StdString) :
    w.deliver ⟨.monitor, wsi, .ESTABLISHED, peer⟩ = .ok { w with
      serveri := w.serveri.addMonitor wsi peer
      lws := {
        established := insert wsi w.lws.established
        pending := insert wsi w.lws.pending
        sent := Function.update w.lws.sent wsi none } } := by
  have hmem : wsi ∈ (w.lws.enter wsi .ESTABLISHED).established := Finset.mem_insert_self _ _
  show (((w.lws.enter wsi .ESTABLISHED).callbackOnWritable wsi).bind _).bind _ = _
  unfold Lws.callbackOnWritable
  rw [if_pos hmem]
  rfl

theorem addMonitor_eq (s : Serveri) (wsi : Wsi) (peer : StdString)
    (h : wsi ∉ s.monitorConnections.map Prod.fst) :
    s.addMonitor wsi peer =
      { s with monitorConnections := s.monitorConnections ++ [(wsi, peerAddress peer)] } := by
  unfold Serveri.addMonitor
  refine if_neg fun hany => h ?_
  obtain ⟨c, hc, heq⟩ := List.any_eq_true.mp hany
  exact List.mem_map.mpr ⟨c, hc, by simpa using heq⟩

/-- A connection that is established joins. -/
theorem World.Connected.established (h : w.Connected) (hadmits : wsi ∉ w.lws.established)
    (hv : w.deliver ⟨.monitor, wsi, .ESTABLISHED, peer⟩ = .ok v) :
    v.Connected ∧ v.broadcast = w.broadcast.join wsi := by
  have hnew : wsi ∉ w.serveri.monitorConnections.map Prod.fst := mt (h.mem_iff wsi).mp hadmits
  rw [deliver_established, addMonitor_eq _ _ _ hnew] at hv
  obtain rfl := Except.ok.inj hv
  refine ⟨⟨?_, fun i => ?_⟩, rfl⟩
  · show ((w.serveri.monitorConnections ++ [(wsi, peerAddress peer)]).map Prod.fst).Nodup
    rw [List.map_append, List.map_singleton, List.nodup_append]
    refine ⟨h.nodup, List.nodup_singleton _, fun a ha b hb hab => hnew ?_⟩
    have hwsi : b = wsi := List.mem_singleton.mp hb
    rw [← hwsi, ← hab]
    exact ha
  · show i ∈ (w.serveri.monitorConnections ++ [(wsi, peerAddress peer)]).map Prod.fst ↔
      i ∈ insert wsi w.lws.established
    rw [List.map_append, List.mem_append, h.mem_iff, Finset.mem_insert]
    simp [or_comm]

/-- A connection that is closed leaves. -/
theorem World.Connected.closed (h : w.Connected)
    (hv : w.deliver ⟨.monitor, wsi, .CLOSED, peer⟩ = .ok v) :
    v.Connected ∧ v.broadcast = w.broadcast.leave wsi := by
  obtain rfl := Except.ok.inj hv
  refine ⟨⟨?_, fun i => ?_⟩, rfl⟩
  · exact h.nodup.sublist (List.filter_sublist.map _)
  · show i ∈ (w.serveri.monitorConnections.filter (·.1 != wsi)).map Prod.fst ↔
      i ∈ w.lws.established.erase wsi
    rw [Finset.mem_erase, ← h.mem_iff, List.mem_map, List.mem_map]
    constructor
    · rintro ⟨c, hc, rfl⟩
      obtain ⟨hmem, hne⟩ := List.mem_filter.mp hc
      exact ⟨by simpa using hne, c, hmem, rfl⟩
    · rintro ⟨hne, c, hc, rfl⟩
      exact ⟨c, List.mem_filter.mpr ⟨hc, by simpa using hne⟩, rfl⟩

/-- A callback that libwebsockets promises to make keeps the connections and is a step of the broadcast
    or none. It uses no connection that is closed. -/
theorem World.Connected.deliver {e : LwsEvent} (h : w.Connected) (hadmits : w.lws.Admits e) :
    Avoids .danglingConnection (w.deliver e) ∧ ∀ v, w.deliver e = .ok v →
      v.Connected ∧ ReflTransGen Broadcast.Step w.broadcast v.broadcast := by
  obtain ⟨protocol, wsi, reason, peer⟩ := e
  cases protocol with
  | light =>
    refine ⟨(avoids_callback _ _).bind fun s _ => avoids_ok _ _, fun v hv => ?_⟩
    obtain ⟨s, hs, hv⟩ := except_bind_eq_ok.mp hv
    obtain rfl := Except.ok.inj hv
    have hsame := callback_sameMonitors hs
    have hbroadcast : ({ w with serveri := s } : World).broadcast = w.broadcast :=
      broadcast_congr hsame rfl
    exact ⟨h.congr hsame rfl, hbroadcast ▸ .refl⟩
  | monitor =>
    cases reason with
    | ESTABLISHED =>
      refine ⟨by rw [deliver_established]; exact avoids_ok _ _, fun v hv => ?_⟩
      obtain ⟨hconn, hstep⟩ := h.established hadmits hv
      exact ⟨hconn, .single (hstep ▸ .join wsi)⟩
    | CLOSED =>
      refine ⟨avoids_ok _ _, fun v hv => ?_⟩
      obtain ⟨hconn, hstep⟩ := h.closed hv
      exact ⟨hconn, .single (hstep ▸ .leave wsi)⟩
    | SERVER_WRITEABLE =>
      refine ⟨avoids_ok _ _, fun v hv => ?_⟩
      obtain rfl := Except.ok.inj hv
      exact ⟨⟨h.nodup, h.mem_iff⟩, .single (.send wsi)⟩
    | PROTOCOL_INIT | RECEIVE | ADD_POLL_FD | DEL_POLL_FD | CHANGE_MODE_POLL_FD | other =>
      refine ⟨avoids_ok _ _, fun v hv => ?_⟩
      obtain rfl := Except.ok.inj hv
      exact ⟨h, .refl⟩

theorem World.Connected.delivers {es : List LwsEvent} (h : w.Connected) (hadmits : w.Admits es) :
    Avoids .danglingConnection (es.foldlM World.deliver w) ∧ ∀ v, es.foldlM World.deliver w = .ok v →
      v.Connected ∧ ReflTransGen Broadcast.Step w.broadcast v.broadcast := by
  induction es generalizing w with
  | nil =>
    refine ⟨avoids_ok _ _, fun v hv => ?_⟩
    obtain rfl := Except.ok.inj hv
    exact ⟨h, .refl⟩
  | cons e es ih =>
    obtain ⟨havoids, hstep⟩ := h.deliver hadmits.1
    refine ⟨havoids.bind fun u hu => (ih (hstep u hu).1 (hadmits.2 u hu)).1, fun v hv => ?_⟩
    obtain ⟨u, hu, hv⟩ := foldlM_cons_eq_ok.mp hv
    obtain ⟨hconn, hrun⟩ := hstep u hu
    obtain ⟨hconn', hrun'⟩ := (ih hconn (hadmits.2 u hu)).2 v hv
    exact ⟨hconn', hrun.trans hrun'⟩

end Callbacks

/-! ## The part of a round before its end -/

theorem World.Connected.receive {w v : World} {r : Round} {processFDs : List Pollfd} (h : w.Connected)
    (hv : w.receive r = .ok (v, processFDs)) : v.Connected ∧ v.broadcast = w.broadcast := by
  obtain ⟨s, fds, hpackets, hs, -, hlws⟩ := receive_eq_ok hv
  have hsame : w.serveri.SameMonitors v.serveri := by
    obtain ⟨hconn, hmsg⟩ := packets_sameMonitors hpackets
    rw [hs]
    exact ⟨hconn, hmsg⟩
  exact ⟨h.congr hsame hlws, broadcast_congr hsame hlws⟩

theorem World.Connected.collect {w : World} {r : Round} (h : w.Connected) (hadmits : w.AdmitsRound r) :
    Avoids .danglingConnection (w.collect r) ∧ ∀ v, w.collect r = .ok v →
      v.Connected ∧ ReflTransGen Broadcast.Step w.broadcast v.broadcast := by
  constructor
  · refine (avoids_receive w r).bind fun ⟨u, processFDs⟩ hu => ?_
    rw [service_eq]
    exact ((h.receive hu).1.delivers (hadmits u processFDs hu)).1
  · intro v hv
    obtain ⟨⟨u, processFDs⟩, hu, hservice⟩ := except_bind_eq_ok.mp hv
    rw [service_eq] at hservice
    obtain ⟨hconn, hsame⟩ := h.receive hu
    obtain ⟨hconn', hrun⟩ := (hconn.delivers (hadmits u processFDs hu)).2 v hservice
    exact ⟨hconn', hsame ▸ hrun⟩

/-! ## The end of a round -/

theorem requestWritable_eq (lws : Lws) (connections : List (Wsi × StdString))
    (h : ∀ wsi ∈ connections.map Prod.fst, wsi ∈ lws.established) :
    requestWritable lws connections =
      .ok { lws with pending := lws.pending ∪ (connections.map Prod.fst).toFinset } := by
  induction connections generalizing lws with
  | nil => simp [requestWritable, pure, Except.pure]
  | cons c connections ih =>
    have hstep : lws.callbackOnWritable c.1 = .ok { lws with pending := insert c.1 lws.pending } :=
      if_pos (h c.1 (by simp))
    unfold requestWritable at ih ⊢
    rw [List.foldlM_cons, hstep]
    refine Eq.trans (ih _ fun wsi hwsi => h wsi (by simp [List.mem_map.mp hwsi])) ?_
    congr 2
    ext wsi
    simp only [Finset.mem_union, Finset.mem_insert, List.map_cons, List.toFinset_cons]
    tauto

theorem resize_length (v : List UInt8) (n : Nat) : (resize v n).length = n := by
  unfold resize
  rw [List.length_append, List.length_take, List.length_replicate]
  omega

theorem updateMonitorMessage_published {config : Config} {s : Serveri} (h : s.Invariant config) :
    ∃ t, s.updateMonitorMessage = .ok t ∧ messageTracker.Published t t.currentState ∧
      t.monitorConnections = s.monitorConnections := by
  obtain ⟨text, htext, hupdate⟩ := h.updateMonitorMessage_eq
  refine ⟨_, hupdate, ⟨text, htext, ?_⟩, rfl⟩
  have hlen : ((resize s.monitorMessage (LWS_PRE + text.length)).take LWS_PRE).length = LWS_PRE := by
    rw [List.length_take, resize_length]
    omega
  exact List.drop_left' hlen

theorem messageTracker_careful (s t : Serveri) (h : s.Quiet t) : messageTracker.Careful s t := by
  refine h.dirty_or_same.imp_right fun ⟨hdirty, _, hstate, hmessage⟩ => ⟨hdirty, ?_⟩
  rintro ⟨text, htext, hpayload⟩
  refine ⟨text, ?_, ?_⟩
  · show t.currentState.serialize = .ok text
    rw [hstate]
    exact htext
  · unfold Serveri.payload at hpayload ⊢
    rw [hmessage]
    exact hpayload

/-- The end of a round always comes through, and publishes the message of the state if that may have
    changed. -/
theorem World.Connected.flush {config : Config} {w : World} (h : w.Connected)
    (hreach : w.serveri.Reachable config) (written : Int) :
    ∃ v, w.flush written = .ok v ∧ v.Connected ∧
      ReflTransGen Broadcast.Step w.broadcast v.broadcast ∧
      (messageTracker.UpToDate w.serveri →
        messageTracker.Published v.serveri v.serveri.currentState) := by
  unfold World.flush
  by_cases hdirty : w.serveri.lightsDirty = true
  · rw [if_pos hdirty]
    obtain ⟨s, hs, hpublished, hconn⟩ := updateMonitorMessage_published hreach.cleaned.invariant
    have hrequest := requestWritable_eq w.lws s.monitorConnections fun wsi hwsi => by
      rw [hconn] at hwsi
      exact (h.mem_iff wsi).mp hwsi
    have hmembers : (s.monitorConnections.map Prod.fst).toFinset = w.lws.established := by
      ext wsi
      rw [List.mem_toFinset, hconn]
      exact h.mem_iff wsi
    rw [hmembers] at hrequest
    refine ⟨{ w.update written with
        serveri := s
        lws := { w.lws with pending := w.lws.pending ∪ w.lws.established } },
      ?_, ⟨?_, ?_⟩, .single (.publish s.payload), fun _ => hpublished⟩
    · show (Serveri.updateMonitorMessage { w.serveri with lightsDirty := false }).bind _ = _
      rw [hs, ok_bind]
      show (requestWritable w.lws s.monitorConnections).bind _ = _
      rw [hrequest, ok_bind]
    · show (s.monitorConnections.map Prod.fst).Nodup
      rw [hconn]
      exact h.nodup
    · intro wsi
      show wsi ∈ s.monitorConnections.map Prod.fst ↔ wsi ∈ w.lws.established
      rw [hconn]
      exact h.mem_iff wsi
  · rw [if_neg hdirty]
    exact ⟨w, rfl, h, .refl, fun hup => hup.published (by simpa [messageTracker] using hdirty)⟩

/-! ## Runs -/

/-- What holds whenever `poll` is called. -/
structure World.Polls (config : Config) (w : World) : Prop where
  reachable : w.serveri.Reachable config
  connected : w.Connected
  published : messageTracker.Published w.serveri w.serveri.currentState
  noneLost : w.broadcast.NoneLost

theorem World.Polls.round {config : Config} {w : World} {r : Round} (h : w.Polls config)
    (hadmits : w.AdmitsRound r) :
    Avoids .danglingConnection (w.round r) ∧ ∀ v, w.round r = .ok v → v.Polls config := by
  obtain ⟨havoids, hcollect⟩ := h.connected.collect hadmits
  -- what the end of the round makes of what has been collected
  have hflush : ∀ u, w.collect r = .ok u → ∃ v, u.flush r.written = .ok v ∧ v.Connected ∧
      ReflTransGen Broadcast.Step w.broadcast v.broadcast ∧
      messageTracker.Published v.serveri v.serveri.currentState := by
    intro u hu
    obtain ⟨hconn, hrun⟩ := hcollect u hu
    have hup : messageTracker.UpToDate u.serveri :=
      Tracker.UpToDate.run messageTracker_careful (collect_quiet hu).1 (Or.inr h.published)
    obtain ⟨v, hv, hconn', hrun', hpublished⟩ :=
      hconn.flush (reachable_collect h.reachable hu) r.written
    exact ⟨v, hv, hconn', hrun.trans hrun', hpublished hup⟩
  constructor
  · refine havoids.bind fun u hu => ?_
    obtain ⟨v, hv, -⟩ := hflush u hu
    rw [hv]
    exact avoids_ok _ _
  · intro v hv
    obtain ⟨u, hu, hv'⟩ := except_bind_eq_ok.mp hv
    obtain ⟨v', hv'', hconn, hrun, hpublished⟩ := hflush u hu
    obtain rfl : v' = v := Except.ok.inj (hv''.symm.trans hv')
    exact ⟨reachable_round h.reachable hv, hconn, hpublished, Broadcast.NoneLost.run h.noneLost hrun⟩

theorem World.Polls.run {config : Config} {w : World} {rounds : List Round} (h : w.Polls config)
    (hadmits : w.AdmitsRun rounds) :
    Avoids .danglingConnection (w.run rounds) ∧ ∀ v, w.run rounds = .ok v → v.Polls config := by
  induction rounds generalizing w with
  | nil =>
    refine ⟨avoids_ok _ _, fun v hv => ?_⟩
    obtain rfl := Except.ok.inj hv
    exact h
  | cons r rounds ih =>
    obtain ⟨havoids, hround⟩ := h.round hadmits.1
    refine ⟨havoids.bind fun u hu => (ih (hround u hu) (hadmits.2 u hu)).1, fun v hv => ?_⟩
    obtain ⟨u, hu, hv⟩ := foldlM_cons_eq_ok.mp hv
    exact (ih (hround u hu) (hadmits.2 u hu)).2 v hv

/-! ## The constructor -/

/-- A callback other than the receipt of a message changes neither the state of the lights nor the
    monitor message. -/
theorem deliver_published {w v : World} {e : LwsEvent} (he : ∀ data, e.reason ≠ .RECEIVE data)
    (hw : messageTracker.Published w.serveri w.serveri.currentState) (h : w.deliver e = .ok v) :
    messageTracker.Published v.serveri v.serveri.currentState := by
  obtain ⟨protocol, wsi, reason, peer⟩ := e
  cases protocol with
  | light =>
    obtain ⟨s, hs, h⟩ := except_bind_eq_ok.mp h
    obtain rfl := Except.ok.inj h
    cases reason with
    | RECEIVE data => exact absurd rfl (he data)
    | SERVER_WRITEABLE => cases hs
    | PROTOCOL_INIT | ESTABLISHED | CLOSED | ADD_POLL_FD | DEL_POLL_FD | CHANGE_MODE_POLL_FD | other =>
      obtain rfl := Except.ok.inj hs
      exact hw
  | monitor =>
    cases reason with
    | ESTABLISHED =>
      rw [deliver_established] at h
      obtain rfl := Except.ok.inj h
      show messageTracker.Published (w.serveri.addMonitor wsi peer) _
      unfold Serveri.addMonitor
      split_ifs
      · exact hw
      · exact hw
    | PROTOCOL_INIT | CLOSED | SERVER_WRITEABLE | RECEIVE | ADD_POLL_FD | DEL_POLL_FD
    | CHANGE_MODE_POLL_FD | other =>
      obtain rfl := Except.ok.inj h
      exact hw

theorem deliver_foldlM_published {w v : World} {es : List LwsEvent}
    (hes : ∀ e ∈ es, ∀ data, e.reason ≠ .RECEIVE data)
    (hw : messageTracker.Published w.serveri w.serveri.currentState)
    (h : es.foldlM World.deliver w = .ok v) :
    messageTracker.Published v.serveri v.serveri.currentState := by
  induction es generalizing w with
  | nil =>
    obtain rfl := Except.ok.inj h
    exact hw
  | cons e es ih =>
    obtain ⟨u, hu, h⟩ := foldlM_cons_eq_ok.mp h
    exact ih (fun e he => hes e (List.mem_cons_of_mem _ he)) (deliver_published (hes e (by simp)) hw hu) h

/-- Before libwebsockets is set up, the message is built and there are no monitors. -/
theorem start_connected {config : Config} {boot : Boot} {s : Serveri}
    (h : Serveri.construct config boot = .ok s) :
    (World.start s).Connected ∧ messageTracker.Published s s.currentState := by
  obtain ⟨dmx, hdmx, hupdate⟩ := serveriConstruct_eq_ok h
  obtain ⟨t, ht, hpublished, hconn⟩ :=
    updateMonitorMessage_published (@Serveri.Invariant.initial config boot.ttyFd boot.udpFd dmx hdmx)
  obtain rfl : t = s := Except.ok.inj (ht.symm.trans hupdate)
  refine ⟨⟨?_, fun wsi => ?_⟩, hpublished⟩
  · show (t.monitorConnections.map Prod.fst).Nodup
    rw [hconn]
    exact List.nodup_nil
  · show wsi ∈ t.monitorConnections.map Prod.fst ↔ wsi ∈ (∅ : Finset Wsi)
    rw [hconn]
    exact iff_of_false List.not_mem_nil (Finset.notMem_empty wsi)

/-- The loop is entered with what holds whenever `poll` is called. -/
theorem polls_construct {config : Config} {boot : Boot} {w : World} (hboot : boot.Admissible config)
    (h : World.construct config boot = .ok w) : w.Polls config := by
  obtain ⟨hreach, -, s, hs, hdeliver⟩ := reachable_start h
  obtain ⟨hstart, hpublished⟩ := start_connected hs
  have hnone : (World.start s).broadcast.NoneLost := fun wsi hwsi => absurd hwsi (Finset.notMem_empty wsi)
  obtain ⟨hconnected, hrun⟩ := (hstart.delivers (hboot.2 s hs)).2 w hdeliver
  refine ⟨hreach, hconnected, ?_, Broadcast.NoneLost.run hnone hrun⟩
  exact deliver_foldlM_published hboot.1 hpublished hdeliver

/-- Whenever `poll` is called, the monitor message is that of the current state, the connections the
    server keeps are those that are established, and each of them has been sent the message last or
    is going to be. No closed connection is used on the way there. -/
theorem monitors_never_lose_update (config : Config) (boot : Boot) (w₀ : World) (rounds : List Round)
    (h₀ : World.construct config boot = .ok w₀) (hboot : boot.Admissible config)
    (hadmits : w₀.AdmitsRun rounds) :
    w₀.run rounds ≠ .error .danglingConnection ∧
    ∀ w, w₀.run rounds = .ok w →
      (∃ text, w.serveri.currentState.serialize = .ok text ∧
        w.serveri.payload = text.map Int8.toUInt8) ∧
      (w.serveri.monitorConnections.map Prod.fst).Nodup ∧
      (∀ wsi, wsi ∈ w.serveri.monitorConnections.map Prod.fst ↔ wsi ∈ w.lws.established) ∧
      (∀ wsi ∈ w.lws.established,
        w.lws.sent wsi = some w.serveri.payload ∨ wsi ∈ w.lws.pending) := by
  obtain ⟨havoids, hpolls⟩ := (polls_construct hboot h₀).run hadmits
  refine ⟨havoids, fun w hw => ?_⟩
  have h := hpolls w hw
  exact ⟨h.published, h.connected.nodup, h.connected.mem_iff, h.noneLost⟩

/-- A monitor connects while the server is constructed. -/
def monitorBoot : Boot :=
  { plainBoot with callbacks := [⟨.light, 0, .ADD_POLL_FD 5 1, []⟩, ⟨.monitor, 7, .ESTABLISHED, []⟩] }

theorem monitorBoot_admissible : monitorBoot.Admissible distConfig := by
  refine ⟨?_, fun s _ => ⟨trivial, fun v hv => ⟨?_, fun _ _ => trivial⟩⟩⟩
  · intro e he data
    rcases List.mem_cons.mp he with rfl | he
    · exact Reason.noConfusion
    · obtain rfl := List.mem_singleton.mp he
      exact Reason.noConfusion
  · obtain rfl := Except.ok.inj hv
    exact Finset.notMem_empty 7

/-- After a light packet, the monitor has the current message or is going to get it. -/
theorem monitors_never_lose_update_udpRound :
    ∃ w₀ w, World.construct distConfig monitorBoot = .ok w₀ ∧ w₀.run [udpRound 517] = .ok w ∧
      ∀ wsi ∈ w.lws.established,
        w.lws.sent wsi = some w.serveri.payload ∨ wsi ∈ w.lws.pending := by
  have hok : ((World.construct distConfig monitorBoot).bind fun w => w.run [udpRound 517]).isOk = true := by
    decide +kernel
  obtain ⟨w, hw⟩ := exists_ok_of_isOk hok
  obtain ⟨w₀, h₀, hrun⟩ := except_bind_eq_ok.mp hw
  have hadmits : w₀.AdmitsRun [udpRound 517] := by
    refine ⟨fun v processFDs _ => ?_, fun _ _ => trivial⟩
    have hnone : (List.range processFDs.length).flatMap (udpRound 517).callbacks = [] :=
      List.flatMap_eq_nil_iff.mpr fun j _ => rfl
    rw [hnone]
    exact trivial
  have h := monitors_never_lose_update distConfig monitorBoot w₀ [udpRound 517] h₀
    monitorBoot_admissible hadmits
  exact ⟨w₀, w, h₀, hrun, (h.2 w hrun).2.2.2⟩

end Valoserveri
