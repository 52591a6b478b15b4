import Valoserveri.Proofs.MonitorProofs
import Valoserveri.Proofs.ScanProofs

/-!
# What stops the server

Whatever packets hold, a round of the loop comes to its end: packets of any content are parsed, the
monitor message can be built, and no closed connection is used. Two things stop the server. The result
of `recvfrom` is not looked at, so an error there is taken for the length of a packet. And the callback
of the light protocol asserts that no connection is ever writeable, which one is after it has been sent
a ping.
-/

namespace Valoserveri

open ExceptRun Relation

/-! ## What keeps a round from being stopped -/

/-- What holds between any two callbacks and whenever `poll` is called: the monitors that are noted are
    connected, and the length of the buffer is one that an `int` can have. -/
structure World.Ready (config : Config) (w : World) : Prop where
  reachable : w.serveri.Reachable config
  connected : w.Connected
  buffer : w.buffer.length < 2 ^ 31

section Steps

variable {config : Config} {w v : World} {e : LwsEvent} {r : Round}

theorem World.Ready.receive {processFDs : List Pollfd} (h : w.Ready config)
    (hv : w.receive r = .ok (v, processFDs)) : v.Ready config := by
  have hconn := (h.connected.receive hv).1
  have hreach := h.reachable.quiet_run (receive_quiet hv).1
  unfold World.receive at hv
  split_ifs at hv
  obtain ⟨⟨fds, st⟩, hscan, hv⟩ := except_bind_eq_ok.mp hv
  obtain ⟨rfl, -⟩ := Prod.mk.inj (Except.ok.inj hv)
  exact ⟨hreach, hconn, (scan_buffer_length hscan).trans_lt h.buffer⟩

/-- A callback comes to its end unless a connection of the light protocol is writeable. -/
theorem World.Ready.deliver_iff (h : w.Ready config) (he : w.Promises e) :
    (∃ v, w.deliver e = .ok v) ↔ ¬ e.LightWriteable := by
  obtain ⟨protocol, wsi, reason, peer⟩ := e
  cases protocol with
  | light =>
    cases reason with
    | SERVER_WRITEABLE =>
      refine iff_of_false ?_ (not_not.mpr ⟨rfl, rfl⟩)
      rintro ⟨v, hv⟩
      cases hv
    | RECEIVE data =>
      have hlength := he.2 rfl data rfl
      rw [h.reachable.buflen_eq] at hlength
      refine iff_of_true ⟨{ w with serveri := w.serveri.applyPacket (decodePacket data) }, ?_⟩
        fun hwriteable => by cases hwriteable.2
      show (w.serveri.lightPacket data).bind _ = _
      rw [lightPacket_total w.serveri (by omega), ok_bind]
    | PROTOCOL_INIT | ESTABLISHED | CLOSED | ADD_POLL_FD | DEL_POLL_FD | CHANGE_MODE_POLL_FD | other =>
      exact iff_of_true ⟨_, rfl⟩ fun hwriteable => by cases hwriteable.2
  | monitor =>
    refine iff_of_true ?_ fun hwriteable => by cases hwriteable.1
    cases reason with
    | ESTABLISHED => exact ⟨_, deliver_established w wsi peer⟩
    | PROTOCOL_INIT | CLOSED | SERVER_WRITEABLE | RECEIVE | ADD_POLL_FD | DEL_POLL_FD
    | CHANGE_MODE_POLL_FD | other => exact ⟨_, rfl⟩

theorem World.Ready.deliver (h : w.Ready config) (hadmits : w.lws.Admits e) (hv : w.deliver e = .ok v) :
    v.Ready config := by
  refine ⟨h.reachable.quiet_run (deliver_quiet hv).1, ((h.connected.deliver hadmits).2 v hv).1, ?_⟩
  rw [deliver_buffer hv]
  exact h.buffer

/-- Callbacks come to their end exactly if none of them is a writable one of the light protocol. -/
theorem World.Ready.delivers {es : List LwsEvent} (h : w.Ready config) (hes : w.PromisesAll es) :
    ((∃ v, es.foldlM World.deliver w = .ok v) ↔ ∀ e ∈ es, ¬ e.LightWriteable) ∧
      ∀ v, es.foldlM World.deliver w = .ok v → v.Ready config := by
  induction es generalizing w with
  | nil =>
    refine ⟨iff_of_true ⟨w, rfl⟩ (by simp), fun v hv => ?_⟩
    obtain rfl := Except.ok.inj hv
    exact h
  | cons e es ih =>
    have hfirst := h.deliver_iff hes.1
    have hrest := fun u hu => ih (h.deliver hes.1.1 hu) (hes.2 u hu)
    rw [List.forall_mem_cons]
    refine ⟨⟨?_, ?_⟩, fun v hv => ?_⟩
    · rintro ⟨v, hv⟩
      obtain ⟨u, hu, hv⟩ := foldlM_cons_eq_ok.mp hv
      exact ⟨hfirst.mp ⟨u, hu⟩, (hrest u hu).1.mp ⟨v, hv⟩⟩
    · rintro ⟨he, hes⟩
      obtain ⟨u, hu⟩ := hfirst.mpr he
      obtain ⟨v, hv⟩ := (hrest u hu).1.mpr hes
      exact ⟨v, foldlM_cons_eq_ok.mpr ⟨u, hu, hv⟩⟩
    · obtain ⟨u, hu, hv⟩ := foldlM_cons_eq_ok.mp hv
      exact (hrest u hu).2 v hv

/-- The end of a round comes through. -/
theorem World.Ready.flush (h : w.Ready config) (written : Int) :
    ∃ v, w.flush written = .ok v ∧ v.Ready config := by
  obtain ⟨v, hv, hconn, -⟩ := h.connected.flush h.reachable written
  refine ⟨v, hv, ?_⟩
  have hreach := reachable_flush h.reachable hv
  rcases flush_eq_ok hv with ⟨-, rfl⟩ | ⟨-, s, lws, -, -, rfl⟩
  · exact h
  · exact ⟨hreach, hconn, h.buffer⟩

/-- A round comes to its end exactly if no call of `recvfrom` fails and no connection of the light protocol
    is writeable. -/
theorem World.Ready.round (h : w.Ready config) (hpromises : w.PromisesRound r) (hpoll : 0 ≤ r.pollresult) :
    ((∃ v, w.round r = .ok v) ↔ (∀ i, w.ReceivesAt r i → r.recv i ≠ none) ∧
      ∀ e, w.CallsBack r e → ¬ e.LightWriteable) ∧
      ∀ v, w.round r = .ok v → v.Ready config := by
  rw [← receive_ok_iff w r hpoll h.buffer]
  refine ⟨⟨?_, ?_⟩, fun v hv => ?_⟩
  · rintro ⟨v, hv⟩
    obtain ⟨u, hu, -⟩ := except_bind_eq_ok.mp hv
    obtain ⟨⟨u₁, processFDs⟩, hreceive, hservice⟩ := except_bind_eq_ok.mp hu
    refine ⟨⟨_, hreceive⟩, fun e he => ?_⟩
    obtain ⟨u₂, processFDs', hreceive', he⟩ := he
    obtain ⟨rfl, rfl⟩ := Prod.mk.inj (Except.ok.inj (hreceive.symm.trans hreceive'))
    rw [service_eq] at hservice
    exact ((h.receive hreceive).delivers (hpromises _ _ hreceive)).1.mp ⟨u, hservice⟩ e he
  · rintro ⟨⟨⟨u, processFDs⟩, hreceive⟩, hcallbacks⟩
    obtain ⟨hdelivers, hready⟩ := (h.receive hreceive).delivers (hpromises _ _ hreceive)
    obtain ⟨u', hu'⟩ := hdelivers.mpr fun e he => hcallbacks e ⟨u, processFDs, hreceive, he⟩
    obtain ⟨v, hv, -⟩ := (hready u' hu').flush r.written
    rw [← service_eq] at hu'
    exact ⟨v, except_bind_eq_ok.mpr ⟨u', except_bind_eq_ok.mpr ⟨_, hreceive, hu'⟩, hv⟩⟩
  · obtain ⟨u, hu, hv⟩ := except_bind_eq_ok.mp hv
    obtain ⟨⟨u₁, processFDs⟩, hreceive, hservice⟩ := except_bind_eq_ok.mp hu
    rw [service_eq] at hservice
    have hready := ((h.receive hreceive).delivers (hpromises _ _ hreceive)).2 u hservice
    obtain ⟨v', hv', hready'⟩ := hready.flush r.written
    obtain rfl := Except.ok.inj (hv'.symm.trans hv)
    exact hready'

end Steps

/-! ## Runs -/

theorem World.Ready.run {config : Config} {w : World} {rounds : List Round} (h : w.Ready config)
    (hpromises : w.PromisesRun rounds) (hpoll : ∀ r ∈ rounds, 0 ≤ r.pollresult) :
    (∃ v, w.run rounds = .ok v) ↔
      ∀ before r after u, rounds = before ++ r :: after → w.run before = .ok u →
        (∀ i, u.ReceivesAt r i → r.recv i ≠ none) ∧ ∀ e, u.CallsBack r e → ¬ e.LightWriteable := by
  induction rounds generalizing w with
  | nil =>
    refine iff_of_true ⟨w, rfl⟩ fun before r after u hrounds => ?_
    exact absurd hrounds (by simp)
  | cons r rounds ih =>
    obtain ⟨hround, hready⟩ := h.round hpromises.1 (hpoll r (by simp))
    have hrest := fun u hu => ih (hready u hu) (hpromises.2 u hu) fun r' hr' => hpoll r' (by simp [hr'])
    constructor
    · rintro ⟨v, hv⟩ before r' after u hrounds hbefore
      obtain ⟨w', hw', hv⟩ := foldlM_cons_eq_ok.mp hv
      cases before with
      | nil =>
        obtain ⟨rfl, -⟩ := List.cons.inj hrounds
        obtain rfl := Except.ok.inj hbefore
        exact hround.mp ⟨w', hw'⟩
      | cons r'' before =>
        obtain ⟨rfl, htail⟩ := List.cons.inj hrounds
        obtain ⟨w'', hw'', hbefore⟩ := foldlM_cons_eq_ok.mp hbefore
        obtain rfl : w' = w'' := Except.ok.inj (hw'.symm.trans hw'')
        exact (hrest w' hw').mp ⟨v, hv⟩ before r' after u htail hbefore
    · intro hall
      obtain ⟨w', hw'⟩ := hround.mpr (hall [] r rounds w rfl rfl)
      have hbehind : ∃ v, w'.run rounds = .ok v := by
        refine (hrest w' hw').mpr fun before r' after u hrounds hbefore => ?_
        refine hall (r :: before) r' after u (by rw [hrounds]; rfl) ?_
        exact foldlM_cons_eq_ok.mpr ⟨w', hw', hbefore⟩
      obtain ⟨v, hv⟩ := hbehind
      exact ⟨v, foldlM_cons_eq_ok.mpr ⟨w', hw', hv⟩⟩

/-- A start in which libwebsockets adds a descriptor. -/
def socketBoot : Boot := { plainBoot with callbacks := [⟨.light, 0, .ADD_POLL_FD 9 1, []⟩] }

end Valoserveri
