import Valoserveri.Proofs.AgreementProofs
import Valoserveri.Library.DirtyFlag

/-!
# The loop of the server

The part of a round before its end consists of quiet steps of the server, whatever poll, the network
and libwebsockets do, and writes nothing to the serial device.
-/

namespace Valoserveri

open ExceptRun Relation

variable {w v : World} {r : Round}

/-! ## Quiet steps -/

/-- Only light packets change what is shown, and they raise the flag. -/
theorem Serveri.Quiet.dirty_or_same {s t : Serveri} (h : s.Quiet t) :
    t.lightsDirty = true ∨ (t.lightsDirty = s.lightsDirty ∧ t.dmx = s.dmx ∧
      t.currentState = s.currentState ∧ t.monitorMessage = s.monitorMessage) := by
  cases h with
  | packet buf h =>
    obtain ⟨packet, -, rfl⟩ := lightPacket_eq_ok.mp h
    exact Or.inl rfl
  | descriptors pollfds => exact Or.inr ⟨rfl, rfl, rfl, rfl⟩
  | monitors connections => exact Or.inr ⟨rfl, rfl, rfl, rfl⟩

theorem lightsDirty_of_quiet {s t : Serveri} (h : ReflTransGen Serveri.Quiet s t)
    (hs : s.lightsDirty = true) : t.lightsDirty = true := by
  induction h with
  | refl => exact hs
  | tail _ hstep ih =>
    rcases hstep.dirty_or_same with hdirty | ⟨hdirty, -⟩
    · exact hdirty
    · exact hdirty.trans ih

/-! ## Callbacks -/

theorem callback_quiet {s t : Serveri} {reason : Reason} (h : callback s reason = .ok t) :
    ReflTransGen Serveri.Quiet s t := by
  cases reason with
  | RECEIVE data => exact .single (.packet data h)
  | SERVER_WRITEABLE => cases h
  | ADD_POLL_FD fd events =>
    obtain rfl := Except.ok.inj h
    exact .single (.descriptors _)
  | DEL_POLL_FD fd =>
    obtain rfl := Except.ok.inj h
    exact .single (.descriptors _)
  | CHANGE_MODE_POLL_FD fd events =>
    obtain rfl := Except.ok.inj h
    exact .single (.descriptors _)
  | PROTOCOL_INIT | ESTABLISHED | CLOSED | other =>
    obtain rfl := Except.ok.inj h
    exact .refl

theorem addMonitor_quiet (s : Serveri) (wsi : Wsi) (peer : StdString) :
    ReflTransGen Serveri.Quiet s (s.addMonitor wsi peer) := by
  unfold Serveri.addMonitor
  split_ifs
  · exact .refl
  · exact .single (.monitors _)

theorem callbackMonitor_quiet {s t : Serveri} {lws lws' : Lws} {wsi : Wsi} {peer : StdString}
    {reason : Reason} (h : callbackMonitor s lws wsi peer reason = .ok (t, lws')) :
    ReflTransGen Serveri.Quiet s t := by
  cases reason with
  | ESTABLISHED =>
    obtain ⟨lws'', -, h⟩ := except_bind_eq_ok.mp h
    obtain rfl := (Prod.mk.inj (Except.ok.inj h)).1
    exact addMonitor_quiet s wsi peer
  | CLOSED =>
    obtain rfl := (Prod.mk.inj (Except.ok.inj h)).1
    exact .single (.monitors _)
  | PROTOCOL_INIT | SERVER_WRITEABLE | RECEIVE | ADD_POLL_FD | DEL_POLL_FD | CHANGE_MODE_POLL_FD | other =>
    obtain rfl := (Prod.mk.inj (Except.ok.inj h)).1
    exact .refl

theorem deliver_quiet {e : LwsEvent} (h : w.deliver e = .ok v) :
    ReflTransGen Serveri.Quiet w.serveri v.serveri ∧ v.tty = w.tty := by
  unfold World.deliver at h
  cases hp : e.protocol with
  | light =>
    rw [hp] at h
    obtain ⟨s, hs, h⟩ := except_bind_eq_ok.mp h
    obtain rfl := Except.ok.inj h
    exact ⟨callback_quiet hs, rfl⟩
  | monitor =>
    rw [hp] at h
    obtain ⟨⟨s, lws⟩, hs, h⟩ := except_bind_eq_ok.mp h
    obtain rfl := Except.ok.inj h
    exact ⟨callbackMonitor_quiet hs, rfl⟩

theorem deliver_buffer {e : LwsEvent} (h : w.deliver e = .ok v) : v.buffer = w.buffer := by
  unfold World.deliver at h
  split at h
  · obtain ⟨s, -, h⟩ := except_bind_eq_ok.mp h
    obtain rfl := Except.ok.inj h
    rfl
  · obtain ⟨s, -, h⟩ := except_bind_eq_ok.mp h
    obtain rfl := Except.ok.inj h
    rfl

theorem deliver_foldlM_quiet {es : List LwsEvent} (h : es.foldlM World.deliver w = .ok v) :
    ReflTransGen Serveri.Quiet w.serveri v.serveri ∧ v.tty = w.tty := by
  refine foldlM_invariant
    (fun v => ReflTransGen Serveri.Quiet w.serveri v.serveri ∧ v.tty = w.tty) ?_ ⟨.refl, rfl⟩ h
  rintro u e v ⟨hquiet, htty⟩ hstep
  obtain ⟨hquiet', htty'⟩ := deliver_quiet hstep
  exact ⟨hquiet.trans hquiet', htty'.trans htty⟩

/-! ## The scan -/

/-- A light packet comes in. -/
def Serveri.TakesPacket (s t : Serveri) : Prop := ∃ buf, s.lightPacket buf = .ok t

theorem scanReceive_packet {st st' : ScanState} {recv : Option StdString}
    (h : st.receive recv = .ok st') : Serveri.TakesPacket st.serveri st'.serveri := by
  obtain ⟨packet, -, h⟩ := except_bind_eq_ok.mp h
  obtain ⟨s, hs, h⟩ := except_bind_eq_ok.mp h
  obtain rfl := Except.ok.inj h
  exact ⟨packet, hs⟩

/-- To receive a datagram leaves alone what the scan has collected. -/
theorem scanReceive_eq_ok {st st' : ScanState} {recv : Option StdString}
    (h : st.receive recv = .ok st') :
    st'.serveri.UDPfd = st.serveri.UDPfd ∧ st'.processFDs = st.processFDs ∧ st'.count = st.count := by
  obtain ⟨buf, -, h⟩ := except_bind_eq_ok.mp h
  obtain ⟨s, hs, h⟩ := except_bind_eq_ok.mp h
  obtain rfl := Except.ok.inj h
  obtain ⟨packet, -, rfl⟩ := lightPacket_eq_ok.mp hs
  refine ⟨?_, rfl, rfl⟩
  show (st.serveri.applyPacket packet).UDPfd = _
  rw [applyPacket_eq]

/-- What the scan can do with an entry: stop in front of it, receive a datagram for it, collect it, or
    pass over it. -/
theorem scan_cons_eq_ok {fd : Pollfd} {fds fds' : List Pollfd} {pos : Nat} {st st' : ScanState}
    (h : scan r (fd :: fds) pos st = .ok (fds', st')) :
    (r.pollresult ≤ st.count ∧ fds' = fd :: fds ∧ st' = st) ∨
      (st.count < r.pollresult ∧ ∃ st₁ rest, scan r fds (pos + 1) st₁ = .ok (rest, st') ∧
        fds' = { fd with revents := 0 } :: rest ∧
        ((fd.revents ≠ 0 ∧ fd.fd = st.serveri.UDPfd ∧ ∃ st₂, st.receive (r.recv pos) = .ok st₂ ∧
            st₁ = { st₂ with count := st₂.count + 1 }) ∨
          (fd.revents ≠ 0 ∧ fd.fd ≠ st.serveri.UDPfd ∧
            st₁ = { st with processFDs := st.processFDs ++ [fd], count := st.count + 1 }) ∨
          (fd.revents = 0 ∧ st₁ = st))) := by
  rw [scan] at h
  split_ifs at h with hcount hready hudp
  · obtain ⟨rfl, rfl⟩ := Prod.mk.inj (Except.ok.inj h)
    exact Or.inl ⟨hcount, rfl, rfl⟩
  · obtain ⟨st₂, hst₂, h⟩ := except_bind_eq_ok.mp h
    obtain ⟨⟨rest, st₃⟩, hrest, h⟩ := except_bind_eq_ok.mp h
    obtain ⟨rfl, rfl⟩ := Prod.mk.inj (Except.ok.inj h)
    exact Or.inr ⟨not_le.mp hcount, _, rest, hrest, rfl, Or.inl ⟨hready, hudp, st₂, hst₂, rfl⟩⟩
  · rw [ok_bind] at h
    obtain ⟨⟨rest, st₃⟩, hrest, h⟩ := except_bind_eq_ok.mp h
    obtain ⟨rfl, rfl⟩ := Prod.mk.inj (Except.ok.inj h)
    exact Or.inr ⟨not_le.mp hcount, _, rest, hrest, rfl, Or.inr (Or.inl ⟨hready, hudp, rfl⟩)⟩
  · have hidle : fd.revents = 0 := not_not.mp hready
    obtain ⟨⟨rest, st₃⟩, hrest, h⟩ := except_bind_eq_ok.mp h
    obtain ⟨rfl, rfl⟩ := Prod.mk.inj (Except.ok.inj h)
    refine Or.inr ⟨not_le.mp hcount, st, rest, hrest, ?_, Or.inr (Or.inr ⟨hidle, rfl⟩)⟩
    rw [← hidle]

/-- What every receipt of a datagram keeps holds at the end of the scan. -/
theorem scan_invariant (P : Serveri → StdString → Prop)
    (hreceive : ∀ (st st' : ScanState) recv, P st.serveri st.buffer → st.receive recv = .ok st' →
      P st'.serveri st'.buffer)
    {fds fds' : List Pollfd} {pos : Nat} {st st' : ScanState} (hst : P st.serveri st.buffer)
    (h : scan r fds pos st = .ok (fds', st')) : P st'.serveri st'.buffer := by
  induction fds generalizing fds' pos st with
  | nil =>
    obtain rfl := (Prod.mk.inj (Except.ok.inj h)).2
    exact hst
  | cons fd fds ih =>
    rcases scan_cons_eq_ok h with ⟨-, -, rfl⟩ | ⟨-, st₁, rest, hrest, -, hst₁⟩
    · exact hst
    · refine ih ?_ hrest
      rcases hst₁ with ⟨-, -, st₂, hst₂, rfl⟩ | ⟨-, -, rfl⟩ | ⟨-, rfl⟩
      · exact hreceive st st₂ _ hst hst₂
      · exact hst
      · exact hst

/-- The scan changes the server only by the packets it receives. -/
theorem scan_packets {fds fds' : List Pollfd} {pos : Nat} {st st' : ScanState}
    (h : scan r fds pos st = .ok (fds', st')) :
    ReflTransGen Serveri.TakesPacket st.serveri st'.serveri := by
  refine scan_invariant (fun s _ => ReflTransGen Serveri.TakesPacket st.serveri s) ?_ .refl h
  intro st₁ st₂ recv hrun hreceive
  exact hrun.tail (scanReceive_packet hreceive)

/-! ## A round -/

theorem service_eq (w : World) (r : Round) (processFDs : List Pollfd) :
    w.service r processFDs =
      ((List.range processFDs.length).flatMap r.callbacks).foldlM World.deliver w := by
  unfold World.service
  generalize List.range processFDs.length = js
  induction js generalizing w with
  | nil => rfl
  | cons j js ih =>
    rw [List.foldlM_cons, List.flatMap_cons, List.foldlM_append]
    exact congrArg _ (funext fun u => ih u)

/-- Up to the first callback, a round only receives packets and sets the poll entries. -/
theorem receive_eq_ok {processFDs : List Pollfd} (h : w.receive r = .ok (v, processFDs)) :
    ∃ s fds, ReflTransGen Serveri.TakesPacket w.serveri s ∧ v.serveri = { s with pollfds := fds } ∧
      v.tty = w.tty ∧ v.lws = w.lws := by
  unfold World.receive at h
  split_ifs at h
  obtain ⟨⟨fds, st⟩, hscan, h⟩ := except_bind_eq_ok.mp h
  obtain ⟨rfl, -⟩ := Prod.mk.inj (Except.ok.inj h)
  have hrun := scan_packets hscan
  exact ⟨st.serveri, fds, hrun, rfl, rfl, rfl⟩

theorem receive_quiet {processFDs : List Pollfd} (h : w.receive r = .ok (v, processFDs)) :
    ReflTransGen Serveri.Quiet w.serveri v.serveri ∧ v.tty = w.tty := by
  obtain ⟨s, fds, hpackets, hs, htty, -⟩ := receive_eq_ok h
  have hpacket : Serveri.TakesPacket ≤ Serveri.Quiet := fun s t ⟨buf, h⟩ => .packet buf h
  refine ⟨?_, htty⟩
  rw [hs]
  exact (ReflTransGen.mono hpacket _ _ hpackets).tail (.descriptors fds)

/-- Before its end, a round is a sequence of quiet steps. -/
theorem collect_quiet (h : w.collect r = .ok v) :
    ReflTransGen Serveri.Quiet w.serveri v.serveri ∧ v.tty = w.tty := by
  obtain ⟨⟨u, processFDs⟩, hu, h⟩ := except_bind_eq_ok.mp h
  obtain ⟨hquiet, htty⟩ := receive_quiet hu
  rw [service_eq] at h
  obtain ⟨hquiet', htty'⟩ := deliver_foldlM_quiet h
  exact ⟨hquiet.trans hquiet', htty'.trans htty⟩

/-- The end of a round: either nothing has to be written, or the frame is written, the message
    rebuilt and the monitors told. -/
theorem flush_eq_ok {written : Int} (h : w.flush written = .ok v) :
    (w.serveri.lightsDirty = false ∧ v = w) ∨
      (w.serveri.lightsDirty = true ∧ ∃ s lws,
        Serveri.updateMonitorMessage { w.serveri with lightsDirty := false } = .ok s ∧
        requestWritable w.lws s.monitorConnections = .ok lws ∧
        v = { w.update written with serveri := s, lws }) := by
  unfold World.flush at h
  split_ifs at h with hdirty
  · obtain ⟨s, hs, h⟩ := except_bind_eq_ok.mp h
    obtain ⟨lws, hlws, h⟩ := except_bind_eq_ok.mp h
    exact Or.inr ⟨hdirty, s, lws, hs, hlws, (Except.ok.inj h).symm⟩
  · exact Or.inl ⟨by simpa using hdirty, (Except.ok.inj h).symm⟩

/-! ## Reachable states -/

theorem Serveri.Reachable.quiet_run {config : Config} {s t : Serveri} (hs : s.Reachable config)
    (h : ReflTransGen Serveri.Quiet s t) : t.Reachable config := by
  induction h with
  | refl => exact hs
  | tail _ hstep ih => exact ih.quiet hstep

theorem reachable_start {config : Config} {boot : Boot} {w : World}
    (h : World.construct config boot = .ok w) :
    w.serveri.Reachable config ∧ w.tty = [] ∧ ∃ s, Serveri.construct config boot = .ok s ∧
      boot.callbacks.foldlM World.deliver (World.start s) = .ok w := by
  obtain ⟨s, hs, h⟩ := except_bind_eq_ok.mp h
  obtain ⟨hquiet, htty⟩ := deliver_foldlM_quiet h
  exact ⟨(reachable_construct hs).quiet_run hquiet, htty, s, hs, h⟩

theorem reachable_collect {config : Config} (hw : w.serveri.Reachable config)
    (h : w.collect r = .ok v) : v.serveri.Reachable config :=
  hw.quiet_run (collect_quiet h).1

theorem reachable_flush {config : Config} {written : Int} (hw : w.serveri.Reachable config)
    (h : w.flush written = .ok v) : v.serveri.Reachable config := by
  rcases flush_eq_ok h with ⟨-, rfl⟩ | ⟨-, s, lws, hs, -, rfl⟩
  · exact hw
  · exact .updated hw.cleaned hs

theorem reachable_round {config : Config} (hw : w.serveri.Reachable config)
    (h : w.round r = .ok v) : v.serveri.Reachable config := by
  obtain ⟨u, hu, hflush⟩ := except_bind_eq_ok.mp h
  exact reachable_flush (reachable_collect hw hu) hflush

/-- The states of the loop are states the server can get into. -/
theorem reachable_run {config : Config} {rounds : List Round} (hw : w.serveri.Reachable config)
    (h : w.run rounds = .ok v) : v.serveri.Reachable config :=
  foldlM_invariant (fun w => w.serveri.Reachable config) (fun _ _ _ hw h => reachable_round hw h) hw h

end Valoserveri
