import Valoserveri.PollSet
import Valoserveri.Proofs.RunProofs

/-!
# The poll set is what libwebsockets asked for

At every point of a run the poll entries are that of the UDP socket, followed by one entry for each
descriptor that libwebsockets has added and not deleted since. Every entry that is waiting to be
serviced is among them.
-/

namespace Valoserveri

open ExceptRun EraseLoop Registry Relation

/-! ## The functions that change the entries -/

theorem registry_addFD (s : Serveri) (fd events : Int) :
    (s.addFD fd events).registry = Command.apply s.registry (.add fd (toShort events)) := by
  simp [Serveri.registry, Serveri.addFD, Command.apply]

theorem registry_deleteFD (s : Serveri) (fd : Int) :
    (s.deleteFD fd).registry = Command.apply s.registry (.delete fd) := by
  show (eraseAll (fun p => p.fd == fd) s.pollfds).map (fun p => (p.fd, p.events)) =
    (s.pollfds.map fun p => (p.fd, p.events)).filter fun e => e.1 ≠ fd
  rw [eraseAll_eq_filter, List.filter_map]
  congr 1
  refine List.filter_congr fun p _ => ?_
  by_cases hp : p.fd = fd
  · simp [hp]
  · simp [hp]

theorem registry_setFDEvents (s : Serveri) (fd events : Int) :
    (s.setFDEvents fd events).registry = Command.apply s.registry (.change fd (toShort events)) := by
  show (s.pollfds.map fun p => if p.fd = fd then { p with events := toShort events } else p).map
      (fun p => (p.fd, p.events)) = (s.pollfds.map fun p => (p.fd, p.events)).map
        fun e => if e.1 = fd then (fd, toShort events) else e
  rw [List.map_map, List.map_map]
  refine List.map_congr_left fun p _ => ?_
  by_cases hp : p.fd = fd
  · simp [hp]
  · simp [hp]

/-- The callback of the light protocol carries out what it is asked for. -/
theorem callback_registry {s t : Serveri} {reason : Reason} (h : callback s reason = .ok t) :
    t.UDPfd = s.UDPfd ∧
      t.registry = reason.command.elim s.registry fun c => c.apply s.registry := by
  cases reason with
  | SERVER_WRITEABLE => cases h
  | RECEIVE data =>
    obtain ⟨packet, -, rfl⟩ := lightPacket_eq_ok.mp h
    rw [applyPacket_eq]
    exact ⟨rfl, rfl⟩
  | ADD_POLL_FD fd events =>
    obtain rfl := Except.ok.inj h
    exact ⟨rfl, registry_addFD s fd events⟩
  | DEL_POLL_FD fd =>
    obtain rfl := Except.ok.inj h
    exact ⟨rfl, registry_deleteFD s fd⟩
  | CHANGE_MODE_POLL_FD fd events =>
    obtain rfl := Except.ok.inj h
    exact ⟨rfl, registry_setFDEvents s fd events⟩
  | PROTOCOL_INIT | ESTABLISHED | CLOSED | other reason =>
    obtain rfl := Except.ok.inj h
    exact ⟨rfl, rfl⟩

/-- The callback of the monitor protocol leaves the entries alone. -/
theorem callbackMonitor_registry {s : Serveri} {lws : Lws} {wsi : Wsi} {peer : StdString}
    {reason : Reason} {res : Serveri × Lws} (h : callbackMonitor s lws wsi peer reason = .ok res) :
    res.1.UDPfd = s.UDPfd ∧ res.1.registry = s.registry := by
  cases reason with
  | ESTABLISHED =>
    obtain ⟨lws', -, h⟩ := except_bind_eq_ok.mp h
    obtain rfl := Except.ok.inj h
    show (s.addMonitor wsi peer).UDPfd = _ ∧ (s.addMonitor wsi peer).registry = _
    unfold Serveri.addMonitor
    split_ifs
    · exact ⟨rfl, rfl⟩
    · exact ⟨rfl, rfl⟩
  | PROTOCOL_INIT | CLOSED | SERVER_WRITEABLE | RECEIVE data | ADD_POLL_FD fd events
  | DEL_POLL_FD fd | CHANGE_MODE_POLL_FD fd events | other reason =>
    obtain rfl := Except.ok.inj h
    exact ⟨rfl, rfl⟩

theorem deliver_registry {w v : World} {e : LwsEvent} (h : w.deliver e = .ok v)
    (hlight : e.reason.command = none ∨ e.protocol = .light) :
    v.serveri.UDPfd = w.serveri.UDPfd ∧ v.serveri.registry =
      e.reason.command.elim w.serveri.registry fun c => c.apply w.serveri.registry := by
  unfold World.deliver at h
  cases hprotocol : e.protocol with
  | light =>
    rw [hprotocol] at h
    obtain ⟨s, hs, h⟩ := except_bind_eq_ok.mp h
    obtain rfl := Except.ok.inj h
    exact callback_registry hs
  | monitor =>
    rw [hprotocol] at h
    obtain ⟨res, hres, h⟩ := except_bind_eq_ok.mp h
    obtain rfl := Except.ok.inj h
    rcases hlight with hnone | hlight
    · rw [hnone]
      exact callbackMonitor_registry hres
    · cases hprotocol.symm.trans hlight

theorem flush_registry {w v : World} {written : Int} (h : w.flush written = .ok v) :
    v.serveri.UDPfd = w.serveri.UDPfd ∧ v.serveri.registry = w.serveri.registry := by
  rcases flush_eq_ok h with ⟨-, rfl⟩ | ⟨-, s, lws, hs, -, rfl⟩
  · exact ⟨rfl, rfl⟩
  · obtain ⟨text, -, hs⟩ := except_bind_eq_ok.mp hs
    obtain rfl := Except.ok.inj hs
    exact ⟨rfl, rfl⟩

theorem serveriConstruct_pollfds {config : Config} {boot : Boot} {s : Serveri}
    (h : Serveri.construct config boot = .ok s) :
    s.UDPfd = boot.udpFd ∧ s.pollfds = [{ fd := boot.udpFd, events := udpEvents }] := by
  obtain ⟨dmx, -, hupdate⟩ := serveriConstruct_eq_ok h
  obtain ⟨text, -, hs⟩ := except_bind_eq_ok.mp hupdate
  obtain rfl := Except.ok.inj hs
  exact ⟨rfl, rfl⟩

/-! ## The scan -/

/-- The scan only changes what `poll` has set, and collects some of the entries in their order, but
    never that of the UDP socket. -/
theorem scan_registry {r : Round} {fds fds' : List Pollfd} {pos : Nat} {st st' : ScanState}
    (h : scan r fds pos st = .ok (fds', st')) :
    st'.serveri.UDPfd = st.serveri.UDPfd ∧
      fds'.map (fun p => (p.fd, p.events)) = fds.map (fun p => (p.fd, p.events)) ∧
      ∃ ready, st'.processFDs = st.processFDs ++ ready ∧ ready.Sublist fds ∧
        ∀ p ∈ ready, p.fd ≠ st.serveri.UDPfd := by
  induction fds generalizing fds' pos st with
  | nil =>
    obtain ⟨rfl, rfl⟩ := Prod.mk.inj (Except.ok.inj h)
    exact ⟨rfl, rfl, [], (List.append_nil _).symm, List.Sublist.refl _, by simp⟩
  | cons fd fds ih =>
    rcases scan_cons_eq_ok h with ⟨-, rfl, rfl⟩ | ⟨-, st₁, rest, hrest, rfl, hst₁⟩
    · exact ⟨rfl, rfl, [], (List.append_nil _).symm, List.nil_sublist _, by simp⟩
    · obtain ⟨hudp, hmap, ready, hprocess, hsub, hne⟩ := ih hrest
      have hmap' : ({ fd with revents := 0 } :: rest).map (fun p => (p.fd, p.events)) =
          (fd :: fds).map fun p => (p.fd, p.events) := by
        rw [List.map_cons, List.map_cons, hmap]
      rcases hst₁ with ⟨-, -, st₂, hst₂, rfl⟩ | ⟨-, hother, rfl⟩ | ⟨-, rfl⟩
      · obtain ⟨hudp₂, hprocess₂, -⟩ := scanReceive_eq_ok hst₂
        rw [← hudp₂, ← hprocess₂]
        exact ⟨hudp, hmap', ready, hprocess, hsub.cons fd, hne⟩
      · refine ⟨hudp, hmap', fd :: ready, ?_, hsub.cons_cons fd, List.forall_mem_cons.mpr ⟨hother, hne⟩⟩
        rw [hprocess, List.append_assoc, List.singleton_append]
      · exact ⟨hudp, hmap', ready, hprocess, hsub.cons fd, hne⟩

/-- Up to the first callback, a round leaves the registry as it is. The descriptors that are ready are
    distinct and registered, if those in the registry are distinct. -/
theorem receive_registry {w v : World} {r : Round} {processFDs : List Pollfd}
    (h : w.receive r = .ok (v, processFDs)) :
    v.serveri.UDPfd = w.serveri.UDPfd ∧ v.serveri.registry = w.serveri.registry ∧
      (processFDs.map Pollfd.fd).Sublist (w.serveri.registry.map Prod.fst) ∧
      ∀ p ∈ processFDs, p.fd ≠ w.serveri.UDPfd := by
  unfold World.receive at h
  split_ifs at h
  obtain ⟨⟨fds, st⟩, hscan, h⟩ := except_bind_eq_ok.mp h
  obtain ⟨rfl, rfl⟩ := Prod.mk.inj (Except.ok.inj h)
  obtain ⟨hudp, hmap, ready, hprocess, hsub, hne⟩ := scan_registry hscan
  rw [List.nil_append] at hprocess
  have hpolled : (w.serveri.pollfds.mapIdx fun i p => { p with revents := r.revents i }).map
      (fun p => (p.fd, p.events)) = w.serveri.registry :=
    List.ext_getElem (by simp [Serveri.registry]) fun i h₁ h₂ => by simp [Serveri.registry]
  refine ⟨hudp, hmap.trans hpolled, ?_, ?_⟩
  · rw [hprocess, ← hpolled, List.map_map]
    exact hsub.map Pollfd.fd
  · rw [hprocess]
    exact hne

/-! ## The invariant -/

/-- The registry is the UDP socket, followed by what the history says. The entries of this round are
    distinct, and those that are waiting are registered. -/
structure Moment.Faithful (udpFd : Int) (m : Moment) : Prop where
  udp : m.world.serveri.UDPfd = udpFd
  entries : ∃ rest, m.world.serveri.registry = (udpFd, udpEvents) :: rest ∧ Reflects rest m.log
  notRegistered : ¬ Registered m.log udpFd
  waiting : ∀ p ∈ m.waiting, Registered m.log p.fd
  nodup : ((m.serviced ++ m.waiting).map Pollfd.fd).Nodup

/-- What is promised of a callback, in terms of the command it gives. -/
theorem Moment.Allows.command {m : Moment} {e : LwsEvent} (h : m.Allows e) :
    e.reason.command = none ∨ ∃ c, e.reason.command = some c ∧ e.protocol = .light ∧
      c.key ≠ m.world.serveri.UDPfd ∧ (∀ k, c.Adds k → ¬ Registered m.log k) ∧
      ∀ k, c = .delete k → ∀ p ∈ m.waiting, p.fd ≠ k := by
  obtain ⟨protocol, wsi, reason, peer⟩ := e
  cases reason with
  | ADD_POLL_FD fd events =>
    obtain ⟨hlight, hne, hnew⟩ := h
    refine Or.inr ⟨_, rfl, hlight, hne, ?_, ?_⟩
    · rintro k ⟨v, hk⟩
      obtain ⟨rfl, -⟩ := Command.add.inj hk
      exact hnew
    · intro k hk
      cases hk
  | CHANGE_MODE_POLL_FD fd events =>
    obtain ⟨hlight, hne⟩ := h
    refine Or.inr ⟨_, rfl, hlight, hne, ?_, ?_⟩
    · rintro k ⟨v, hk⟩
      cases hk
    · intro k hk
      cases hk
  | DEL_POLL_FD fd =>
    obtain ⟨hlight, hne, hwaiting⟩ := h
    refine Or.inr ⟨_, rfl, hlight, hne, ?_, ?_⟩
    · rintro k ⟨v, hk⟩
      cases hk
    · intro k hk
      obtain rfl := Command.delete.inj hk
      exact hwaiting
  | PROTOCOL_INIT | ESTABLISHED | CLOSED | SERVER_WRITEABLE | RECEIVE data | other reason =>
    exact Or.inl rfl

namespace Moment.Faithful

variable {udpFd : Int} {m m' : Moment}

theorem start {config : Config} {boot : Boot} {s : Serveri}
    (h : Serveri.construct config boot = .ok s) : (Moment.start s).Faithful boot.udpFd := by
  obtain ⟨hudp, hpollfds⟩ := serveriConstruct_pollfds h
  have hregistry : s.registry = [(boot.udpFd, udpEvents)] := by
    rw [Serveri.registry, hpollfds]
    rfl
  exact {
    udp := hudp
    entries := ⟨[], hregistry, reflects_nil⟩
    notRegistered := not_registered_nil _
    waiting := by simp [Moment.start]
    nodup := by simp [Moment.start] }

theorem poll (hm : m.Faithful udpFd) {r : Round} (h : m.poll r = .ok m') : m'.Faithful udpFd := by
  obtain ⟨⟨w, processFDs⟩, hreceive, h⟩ := except_bind_eq_ok.mp h
  obtain rfl := Except.ok.inj h
  obtain ⟨hudp, hregistry, hsub, hne⟩ := receive_registry hreceive
  obtain ⟨rest, hrest, hreflects⟩ := hm.entries
  rw [hrest, List.map_cons] at hsub
  rw [hm.udp] at hne
  have hnodup : (udpFd :: rest.map Prod.fst).Nodup :=
    List.nodup_cons.mpr ⟨mt (hreflects.mem_iff udpFd).mp hm.notRegistered, hreflects.nodup⟩
  exact {
    udp := hudp.trans hm.udp
    entries := ⟨rest, hregistry.trans hrest, hreflects⟩
    notRegistered := hm.notRegistered
    waiting := by
      intro p hp
      rcases List.mem_cons.mp (hsub.subset (List.mem_map_of_mem hp)) with heq | hmem
      · exact absurd heq (hne p hp)
      · exact (hreflects.mem_iff p.fd).mp hmem
    nodup := hnodup.sublist hsub }

theorem next (hm : m.Faithful udpFd) : m.next.Faithful udpFd where
  udp := hm.udp
  entries := hm.entries
  notRegistered := hm.notRegistered
  waiting p hp := hm.waiting p (List.mem_of_mem_drop hp)
  nodup := by
    show ((m.serviced ++ m.waiting.take 1 ++ m.waiting.drop 1).map Pollfd.fd).Nodup
    rw [List.append_assoc, List.take_append_drop]
    exact hm.nodup

theorem unchanged (hm : m.Faithful udpFd) {w : World}
    (hudp : w.serveri.UDPfd = m.world.serveri.UDPfd)
    (hregistry : w.serveri.registry = m.world.serveri.registry) :
    Faithful udpFd { m with world := w } := by
  obtain ⟨rest, hrest, hreflects⟩ := hm.entries
  exact ⟨hudp.trans hm.udp, ⟨rest, hregistry.trans hrest, hreflects⟩, hm.notRegistered, hm.waiting,
    hm.nodup⟩

theorem flush (hm : m.Faithful udpFd) {written : Int} (h : m.flush written = .ok m') :
    m'.Faithful udpFd := by
  obtain ⟨w, hflush, h⟩ := except_bind_eq_ok.mp h
  obtain rfl := Except.ok.inj h
  obtain ⟨hudp, hregistry⟩ := flush_registry hflush
  exact hm.unchanged hudp hregistry

/-- A command of libwebsockets is carried out on the registry. -/
theorem command (hm : m.Faithful udpFd) {w : World} {c : Command Int Int}
    (hudp : w.serveri.UDPfd = m.world.serveri.UDPfd)
    (hregistry : w.serveri.registry = c.apply m.world.serveri.registry) (hkey : c.key ≠ udpFd)
    (hadds : ∀ k, c.Adds k → ¬ Registered m.log k)
    (hdeletes : ∀ k, c = .delete k → ∀ p ∈ m.waiting, p.fd ≠ k) :
    Faithful udpFd { m with world := w, log := m.log ++ [c] } := by
  obtain ⟨rest, hrest, hreflects⟩ := hm.entries
  rw [hrest, apply_cons_of_ne hkey] at hregistry
  exact {
    udp := hudp.trans hm.udp
    entries := ⟨c.apply rest, hregistry, hreflects.apply c hadds⟩
    notRegistered := by
      intro h
      rcases registered_concat.mp h with ⟨v, rfl⟩ | ⟨h, -⟩
      · exact hkey rfl
      · exact hm.notRegistered h
    waiting := by
      intro p hp
      refine registered_concat.mpr (Or.inr ⟨hm.waiting p hp, ?_⟩)
      rintro rfl
      exact hdeletes p.fd rfl p hp rfl
    nodup := hm.nodup }

theorem deliver (hm : m.Faithful udpFd) {e : LwsEvent} (hallows : m.Allows e)
    (h : m.deliver e = .ok m') : m'.Faithful udpFd := by
  obtain ⟨w, hdeliver, h⟩ := except_bind_eq_ok.mp h
  obtain rfl := Except.ok.inj h
  rcases hallows.command with hnone | ⟨c, hc, hlight, hkey, hadds, hdeletes⟩
  · obtain ⟨hudp, hregistry⟩ := deliver_registry hdeliver (Or.inl hnone)
    rw [hnone] at hregistry ⊢
    rw [Option.toList_none, List.append_nil]
    exact hm.unchanged hudp hregistry
  · obtain ⟨hudp, hregistry⟩ := deliver_registry hdeliver (Or.inr hlight)
    rw [hm.udp] at hkey
    rw [hc] at hregistry ⊢
    exact hm.command hudp hregistry hkey hadds hdeletes

theorem step (hm : m.Faithful udpFd) (h : m.Step m') : m'.Faithful udpFd := by
  cases h with
  | poll r _ h => exact hm.poll h
  | service _ => exact hm.next
  | callback e hallows h => exact hm.deliver hallows h
  | flush written _ h => exact hm.flush h

theorem reachable {config : Config} {boot : Boot} (h : m.Reachable config boot) :
    m.Faithful boot.udpFd := by
  obtain ⟨s, hs, hrun⟩ := h
  induction hrun with
  | refl => exact start hs
  | tail _ hstep ih => exact ih.step hstep

end Moment.Faithful

/-- At every point of a run the poll entries are that of the UDP socket, followed by one for each
    descriptor that has been added and not deleted since, in the order in which they were added, with
    the events given last. The entry for which `lws_service_fd` is called next is registered, and no
    descriptor is serviced twice in a round. -/
theorem pollfds_faithful (config : Config) (boot : Boot) (m : Moment) (h : m.Reachable config boot) :
    (∃ rest, m.world.serveri.registry = (boot.udpFd, udpEvents) :: rest ∧ Reflects rest m.log) ∧
    (m.world.serveri.pollfds.map Pollfd.fd).Nodup ∧
    (∀ p ps, m.waiting = p :: ps →
      Registered m.log p.fd ∧ p.fd ∈ m.world.serveri.pollfds.map Pollfd.fd) ∧
    ((m.serviced ++ m.waiting).map Pollfd.fd).Nodup := by
  have hm := Moment.Faithful.reachable h
  obtain ⟨rest, hrest, hreflects⟩ := hm.entries
  have hfds : m.world.serveri.pollfds.map Pollfd.fd = boot.udpFd :: rest.map Prod.fst := by
    have hkeys := congrArg (List.map Prod.fst) hrest
    rw [Serveri.registry, List.map_map] at hkeys
    exact hkeys
  refine ⟨hm.entries, ?_, ?_, hm.nodup⟩
  · rw [hfds, List.nodup_cons]
    exact ⟨mt (hreflects.mem_iff boot.udpFd).mp hm.notRegistered, hreflects.nodup⟩
  · intro p ps hp
    have hregistered : Registered m.log p.fd := by
      apply hm.waiting
      rw [hp]
      exact List.mem_cons_self
    rw [hfds]
    exact ⟨hregistered, List.mem_cons_of_mem _ ((hreflects.mem_iff p.fd).mpr hregistered)⟩

/-- A round in which the entry at position 1 is ready. -/
def secondReadyRound : Round where
  pollresult := 1
  revents i := if i = 1 then 1 else 0
  recv _ := none
  callbacks _ := []
  written := 0

/-- A descriptor is added, is found ready, and is about to be serviced. -/
theorem pollfds_faithful_secondReady :
    ∃ m : Moment, m.Reachable distConfig plainBoot ∧ m.waiting = [⟨5, 1, 1⟩] ∧
      Registered m.log 5 := by
  obtain ⟨s, hs⟩ := construct_plainBoot
  obtain ⟨hudp, hpollfds⟩ := serveriConstruct_pollfds hs
  obtain ⟨UDPfd, dmx, whitelist, state, buflen, connections, message, pollfds, dirty⟩ := s
  obtain rfl : UDPfd = 4 := hudp
  obtain rfl : pollfds = [⟨4, 9, 0⟩] := hpollfds
  have hadd := Moment.Step.callback
    (m := .start ⟨4, dmx, whitelist, state, buflen, connections, message, [⟨4, 9, 0⟩], dirty⟩)
    ⟨.light, 0, .ADD_POLL_FD 5 1, []⟩ ⟨rfl, (by decide : (5 : Int) ≠ 4), not_registered_nil 5⟩ rfl
  have hreach : Moment.Reachable distConfig plainBoot _ :=
    ⟨_, hs, (ReflTransGen.single hadd).tail (.poll secondReadyRound rfl rfl)⟩
  exact ⟨_, hreach, rfl, ((pollfds_faithful distConfig plainBoot _ hreach).2.2.1 _ _ rfl).1⟩

/-! ## The runs of the loop -/

namespace Moment

variable {config : Config} {boot : Boot} {m m' : Moment} {r : Round}

theorem map_deliver (m : Moment) (e : LwsEvent) :
    (m.deliver e).map Moment.world = m.world.deliver e := by
  unfold Moment.deliver
  cases m.world.deliver e with
  | error e => rfl
  | ok w => rfl

theorem map_service (m : Moment) (r : Round) :
    (m.service r).map Moment.world = m.world.service r m.waiting := by
  refine map_foldlM (fun m j => ?_) m _
  exact map_foldlM map_deliver m.next (r.callbacks j)

theorem map_flush (m : Moment) (written : Int) :
    (m.flush written).map Moment.world = m.world.flush written := by
  unfold Moment.flush
  cases m.world.flush written with
  | error e => rfl
  | ok w => rfl

/-- Without what a moment adds to it, a round is one of the server's loop. -/
theorem map_round (m : Moment) (r : Round) :
    (m.round r).map Moment.world = m.world.round r := by
  unfold Moment.round Moment.poll World.round World.collect
  cases m.world.receive r with
  | error e => rfl
  | ok v =>
    rw [ok_bind, ok_bind, ok_bind]
    have hservice := map_service { m with world := v.1, serviced := [], waiting := v.2 } r
    rw [← hservice]
    cases Moment.service { m with world := v.1, serviced := [], waiting := v.2 } r with
    | error e => rfl
    | ok m' => exact map_flush m' r.written

theorem map_run (m : Moment) (rounds : List Round) :
    (m.run rounds).map Moment.world = m.world.run rounds :=
  map_foldlM map_round m rounds

theorem map_construct (config : Config) (boot : Boot) :
    (Moment.construct config boot).map Moment.world = World.construct config boot := by
  unfold Moment.construct World.construct
  cases Serveri.construct config boot with
  | error e => rfl
  | ok s => exact map_foldlM map_deliver (Moment.start s) boot.callbacks

/-- Callbacks that keep the promise are steps. -/
theorem AllowsAll.steps {es : List LwsEvent} (hallows : m.AllowsAll es)
    (h : es.foldlM deliver m = .ok m') : ReflTransGen Step m m' ∧ m'.waiting = m.waiting := by
  refine foldlM_guarded (fun t => ReflTransGen Step m t ∧ t.waiting = m.waiting) ?_ ⟨.refl, rfl⟩
    hallows h
  rintro t e u ⟨hsteps, hwaiting⟩ hallows hu
  refine ⟨hsteps.tail (.callback e hallows hu), ?_⟩
  obtain ⟨w, -, hu⟩ := except_bind_eq_ok.mp hu
  obtain rfl := Except.ok.inj hu
  exact hwaiting

/-- All entries that are waiting are serviced in turn. -/
theorem service_steps {callbacks : Nat → List LwsEvent} {js : List Nat}
    (hlength : m.waiting.length = js.length)
    (hallows : Guarded (fun m j => m.next.AllowsAll (callbacks j)) (lwsServiceFd callbacks) m js)
    (h : js.foldlM (lwsServiceFd callbacks) m = .ok m') :
    ReflTransGen Step m m' ∧ m'.waiting = [] := by
  induction js generalizing m with
  | nil =>
    obtain rfl := Except.ok.inj h
    exact ⟨.refl, List.eq_nil_of_length_eq_zero hlength⟩
  | cons j js ih =>
    obtain ⟨u, hu, h⟩ := foldlM_cons_eq_ok.mp h
    have hne : m.waiting ≠ [] := List.ne_nil_of_length_eq_add_one hlength
    obtain ⟨hsteps, hwaiting⟩ := hallows.1.steps hu
    have hlength' : u.waiting.length = js.length := by
      rw [hwaiting]
      show (m.waiting.drop 1).length = _
      rw [List.length_drop, hlength, List.length_cons, Nat.add_sub_cancel]
    obtain ⟨hrest, hidle⟩ := ih hlength' (hallows.2 u hu) h
    exact ⟨((ReflTransGen.single (.service hne)).trans hsteps).trans hrest, hidle⟩

theorem round_steps (hidle : m.waiting = []) (hallows : m.AllowsRound r) (h : m.round r = .ok m') :
    ReflTransGen Step m m' ∧ m'.waiting = [] := by
  obtain ⟨u, hpoll, h⟩ := except_bind_eq_ok.mp h
  obtain ⟨v, hservice, hflush⟩ := except_bind_eq_ok.mp h
  obtain ⟨hsteps, hidle'⟩ := service_steps List.length_range.symm (hallows u hpoll) hservice
  refine ⟨((ReflTransGen.single (.poll r hidle hpoll)).trans hsteps).tail
    (.flush r.written hidle' hflush), ?_⟩
  obtain ⟨w, -, hflush⟩ := except_bind_eq_ok.mp hflush
  obtain rfl := Except.ok.inj hflush
  exact hidle'

theorem run_steps {rounds : List Round} (hidle : m.waiting = []) (hallows : m.AllowsRun rounds)
    (h : m.run rounds = .ok m') : ReflTransGen Step m m' ∧ m'.waiting = [] := by
  refine foldlM_guarded (fun t => ReflTransGen Step m t ∧ t.waiting = []) ?_ ⟨.refl, hidle⟩ hallows h
  rintro t r u ⟨hsteps, hidle⟩ hallows hu
  obtain ⟨hround, hidle'⟩ := round_steps hidle hallows hu
  exact ⟨hsteps.trans hround, hidle'⟩

/-- The states of the loop are those of points of runs, if the callbacks keep the promise. -/
theorem exists_reachable_of_run {w₀ w : World} {rounds : List Round}
    (h₀ : World.construct config boot = .ok w₀) (h : w₀.run rounds = .ok w)
    (hboot : boot.Allows config)
    (hallows : ∀ m₀, Moment.construct config boot = .ok m₀ → m₀.AllowsRun rounds) :
    ∃ m : Moment, m.Reachable config boot ∧ m.world = w ∧ m.waiting = [] := by
  obtain ⟨m₀, hm₀, rfl⟩ := map_eq_ok ((map_construct config boot).trans h₀)
  obtain ⟨m, hm, rfl⟩ := map_eq_ok ((map_run m₀ rounds).trans h)
  have hrounds := hallows m₀ hm₀
  obtain ⟨s, hs, hm₀⟩ := except_bind_eq_ok.mp hm₀
  obtain ⟨hstart, hidle⟩ := (hboot s hs).steps hm₀
  obtain ⟨hsteps, hidle'⟩ := run_steps hidle hrounds hm
  exact ⟨m, ⟨s, hs, hstart.trans hsteps⟩, rfl, hidle'⟩

end Moment

end Valoserveri
