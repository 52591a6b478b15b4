import Valoserveri.Trace
import Valoserveri.Proofs.ScanProofs
import Valoserveri.Proofs.RepeatProofs
import Valoserveri.Proofs.OutputProofs

/-!
# The last writer wins

Whatever poll, the network and libwebsockets do in a run, what the server shows is determined by the
packets it has heard: a light has the colour of the last record for it, in whichever packet it came and
from whichever side, and the tag is that of the last packet.
-/

namespace Valoserveri

open FixedStore ExceptRun

/-! ## Packets -/

/-- A server shows what another shows after the given packets. -/
structure Serveri.Follows (s : Serveri) (packets : List LightPacket) (t : Serveri) : Prop where
  board : t.board = packets.foldl Board.hear s.board
  dmx : t.dmx = s.dmx.setLightColors (packets.flatMap LightPacket.calls)
  whitelist : t.whitelist = s.whitelist

/-- The same after the packets in the given buffers. -/
def Serveri.Hears (s : Serveri) (bufs : List StdString) (t : Serveri) : Prop :=
  ∃ packets, List.Forall₂ (fun buf packet => parseLightPacket buf = .ok packet) bufs packets ∧
    s.Follows packets t

variable {s t u : Serveri}

theorem Serveri.Hears.nil (hdmx : t.dmx = s.dmx) (hstate : t.currentState = s.currentState)
    (hwhitelist : t.whitelist = s.whitelist) : s.Hears [] t := by
  refine ⟨[], .nil, ?_, hdmx, hwhitelist⟩
  unfold Serveri.board
  rw [hstate]
  rfl

theorem Serveri.Hears.append {bufs bufs' : List StdString} (h : s.Hears bufs t) (h' : t.Hears bufs' u) :
    s.Hears (bufs ++ bufs') u := by
  obtain ⟨packets, hparse, hfollows⟩ := h
  obtain ⟨packets', hparse', hfollows'⟩ := h'
  refine ⟨packets ++ packets', List.rel_append hparse hparse', ?_, ?_, ?_⟩
  · rw [hfollows'.board, hfollows.board, List.foldl_append]
  · rw [hfollows'.dmx, hfollows.dmx, List.flatMap_append]
    exact (List.foldl_append ..).symm
  · rw [hfollows'.whitelist, hfollows.whitelist]

/-- A packet is written on the board. -/
theorem Serveri.Hears.packet {buf : StdString} (hs : s.whitelist = initialWhitelist)
    (h : s.lightPacket buf = .ok t) : s.Hears [buf] t := by
  obtain ⟨packet, hparse, rfl⟩ := lightPacket_eq_ok.mp h
  have htag : s.sieveTag packet.tag = packet.tag.filter fun c => tagWhitelist.contains c := by
    rw [sieveTag_eq, hs]
    refine List.filter_congr fun c hc => ?_
    have hne := parseLightPacket_tag_ne_zero hparse c hc
    rw [Bool.eq_iff_iff, List.contains_iff_mem, List.contains_iff_mem, mem_initialWhitelist]
    exact ⟨fun h => h.resolve_right hne, Or.inl⟩
  refine ⟨[packet], .cons hparse .nil, ?_⟩
  rw [applyPacket_eq]
  refine ⟨?_, ?_, rfl⟩
  · show Board.mk (s.sieveTag packet.tag) _ = Board.mk _ _
    rw [htag]
    exact congrArg _ (funext fun k => (mapStore UInt32 Color).get_putAll _ _ k)
  · rw [List.flatMap_singleton]

theorem Serveri.Hears.whitelist_eq {bufs : List StdString} (h : s.Hears bufs t)
    (hs : s.whitelist = initialWhitelist) : t.whitelist = initialWhitelist := by
  obtain ⟨packets, -, hfollows⟩ := h
  exact hfollows.whitelist.trans hs

/-- The same within a round, where a packet also makes the server write something in the end. -/
structure Serveri.Collects (s : Serveri) (bufs : List StdString) (t : Serveri) : Prop where
  hears : s.Hears bufs t
  dirty : t.lightsDirty = (s.lightsDirty || !bufs.isEmpty)

theorem Serveri.Collects.nil (hdmx : t.dmx = s.dmx) (hstate : t.currentState = s.currentState)
    (hwhitelist : t.whitelist = s.whitelist) (hdirty : t.lightsDirty = s.lightsDirty) : s.Collects [] t :=
  ⟨.nil hdmx hstate hwhitelist, by simpa using hdirty⟩

theorem Serveri.Collects.append {bufs bufs' : List StdString} (h : s.Collects bufs t)
    (h' : t.Collects bufs' u) : s.Collects (bufs ++ bufs') u := by
  refine ⟨h.hears.append h'.hears, ?_⟩
  rw [h'.dirty, h.dirty, Bool.or_assoc]
  cases bufs <;> simp

theorem Serveri.Collects.packet {buf : StdString} (hs : s.whitelist = initialWhitelist)
    (h : s.lightPacket buf = .ok t) : s.Collects [buf] t := by
  refine ⟨.packet hs h, ?_⟩
  obtain ⟨packet, -, rfl⟩ := lightPacket_eq_ok.mp h
  exact (Bool.or_true _).symm

/-! ## Callbacks -/

section Callbacks

variable {w v : World}

theorem callback_collects {reason : Reason} {wsi : Wsi} {peer : StdString}
    (hs : s.whitelist = initialWhitelist) (h : callback s reason = .ok t) :
    s.Collects (LwsEvent.message? ⟨.light, wsi, reason, peer⟩).toList t := by
  cases reason with
  | RECEIVE data => exact .packet hs h
  | SERVER_WRITEABLE => cases h
  | PROTOCOL_INIT | ESTABLISHED | CLOSED | ADD_POLL_FD | DEL_POLL_FD | CHANGE_MODE_POLL_FD | other =>
    obtain rfl := Except.ok.inj h
    exact .nil rfl rfl rfl rfl

theorem callbackMonitor_collects {reason : Reason} {lws lws' : Lws} {wsi : Wsi} {peer : StdString}
    (h : callbackMonitor s lws wsi peer reason = .ok (t, lws')) : s.Collects [] t := by
  cases reason with
  | ESTABLISHED =>
    obtain ⟨_, -, h⟩ := except_bind_eq_ok.mp h
    obtain rfl := (Prod.mk.inj (Except.ok.inj h)).1
    unfold Serveri.addMonitor
    split_ifs
    · exact .nil rfl rfl rfl rfl
    · exact .nil rfl rfl rfl rfl
  | CLOSED | PROTOCOL_INIT | SERVER_WRITEABLE | RECEIVE | ADD_POLL_FD | DEL_POLL_FD | CHANGE_MODE_POLL_FD
      | other =>
    obtain rfl := (Prod.mk.inj (Except.ok.inj h)).1
    exact .nil rfl rfl rfl rfl

/-- A callback is heard if it hands over a message of the light protocol. -/
theorem deliver_collects {e : LwsEvent} (hw : w.serveri.whitelist = initialWhitelist)
    (h : w.deliver e = .ok v) : w.serveri.Collects e.message?.toList v.serveri := by
  obtain ⟨protocol, wsi, reason, peer⟩ := e
  cases protocol with
  | light =>
    obtain ⟨s, hs, h⟩ := except_bind_eq_ok.mp h
    obtain rfl := Except.ok.inj h
    exact callback_collects hw hs
  | monitor =>
    obtain ⟨⟨s, lws⟩, hs, h⟩ := except_bind_eq_ok.mp h
    obtain rfl := Except.ok.inj h
    exact callbackMonitor_collects hs

theorem deliver_foldlM_collects {es : List LwsEvent} (hw : w.serveri.whitelist = initialWhitelist)
    (h : es.foldlM World.deliver w = .ok v) :
    w.serveri.Collects (es.filterMap LwsEvent.message?) v.serveri := by
  induction es generalizing w with
  | nil =>
    obtain rfl := Except.ok.inj h
    exact .nil rfl rfl rfl rfl
  | cons e es ih =>
    obtain ⟨u, hu, h⟩ := foldlM_cons_eq_ok.mp h
    have hfirst := deliver_collects hw hu
    have hrest := ih (hfirst.hears.whitelist_eq hw) h
    have hcons : (e :: es).filterMap LwsEvent.message? =
        e.message?.toList ++ es.filterMap LwsEvent.message? := by
      rw [List.filterMap_cons]
      cases e.message? <;> rfl
    rw [hcons]
    exact hfirst.append hrest

end Callbacks

/-! ## Datagrams -/

section Datagrams

variable {r : Round}

/-- A datagram is taken as far as it fits in the buffer. -/
theorem scanReceive_collects {st st' : ScanState} {recv : Option StdString}
    (hs : st.serveri.whitelist = initialWhitelist) (hbuffer : st.buffer.length < 2 ^ 31)
    (h : st.receive recv = .ok st') :
    ∃ datagram, recv = some datagram ∧ st.serveri.Collects [datagram.take st.buffer.length] st'.serveri ∧
      st'.buffer.length = st.buffer.length := by
  cases recv with
  | none => exact absurd h (scanReceive_none st st' hbuffer)
  | some datagram =>
    obtain ⟨packet, hpacket, h⟩ := except_bind_eq_ok.mp h
    obtain ⟨s, hs', h⟩ := except_bind_eq_ok.mp h
    obtain rfl := Except.ok.inj h
    have hlength : (datagram.take st.buffer.length).length < 2 ^ 64 := by
      rw [List.length_take]
      omega
    have hsize : toSize (recvfrom st.buffer (some datagram)).1 =
        (datagram.take st.buffer.length).length := by
      show ((((datagram.take st.buffer.length).length : Nat) : Int) % 2 ^ 64).toNat = _
      omega
    obtain rfl : packet = datagram.take st.buffer.length := by
      unfold spanFirst at hpacket
      rw [hsize] at hpacket
      split_ifs at hpacket
      rw [← Except.ok.inj hpacket]
      exact List.take_left
    exact ⟨datagram, rfl, .packet hs hs', recvfrom_buffer_length st.buffer (some datagram)⟩

instance (r : Round) (fds : List Pollfd) (st : ScanState) (k : Nat) : Decidable (ScanReceives r fds st k) :=
  decidable_of_iff ((fds[k]?.any fun p => p.fd = st.serveri.UDPfd ∧ p.revents ≠ 0 ∧
      st.count + ((fds.take k).countP fun p => p.revents ≠ 0 : Nat) < r.pollresult) = true) <| by
    unfold ScanReceives
    simp [Option.any_eq_true]

/-- The datagrams that a scan takes from the entries that are left. -/
def scanDatagrams (r : Round) (fds : List Pollfd) (pos : Nat) (st : ScanState) : List StdString :=
  ((List.range fds.length).filter fun k => decide (ScanReceives r fds st k)).filterMap fun k =>
    (r.recv (pos + k)).map fun datagram => datagram.take st.buffer.length

/-- What is taken at the first entry, and what is taken from the others. -/
theorem scanDatagrams_cons {fd : Pollfd} {fds : List Pollfd} {pos : Nat} (st st' : ScanState)
    (hudp : st'.serveri.UDPfd = st.serveri.UDPfd)
    (hcount : st'.count = st.count + if fd.revents ≠ 0 then 1 else 0)
    (hbuffer : st'.buffer.length = st.buffer.length) :
    scanDatagrams r (fd :: fds) pos st =
      (if ScanReceives r (fd :: fds) st 0 then
        ((r.recv pos).map fun datagram => datagram.take st.buffer.length).toList else []) ++
        scanDatagrams r fds (pos + 1) st' := by
  have hrest : (((List.range fds.length).map Nat.succ).filter fun k =>
        decide (ScanReceives r (fd :: fds) st k)).filterMap
        (fun k => (r.recv (pos + k)).map fun datagram => datagram.take st.buffer.length) =
      scanDatagrams r fds (pos + 1) st' := by
    unfold scanDatagrams
    rw [List.filter_map, List.filterMap_map, hbuffer]
    have hfilter : (List.range fds.length).filter
          ((fun k => decide (ScanReceives r (fd :: fds) st k)) ∘ Nat.succ) =
        (List.range fds.length).filter fun k => decide (ScanReceives r fds st' k) :=
      List.filter_congr fun k _ => decide_eq_decide.mpr (scanReceives_succ hudp hcount)
    rw [hfilter]
    refine List.filterMap_congr fun k _ => ?_
    show (r.recv (pos + (k + 1))).map _ = _
    rw [show pos + 1 + k = pos + (k + 1) by omega]
  unfold scanDatagrams
  rw [List.length_cons, List.range_succ_eq_map, List.filter_cons]
  unfold scanDatagrams at hrest
  by_cases hfirst : ScanReceives r (fd :: fds) st 0
  · rw [if_pos (decide_eq_true hfirst), if_pos hfirst, List.filterMap_cons, Nat.add_zero, hrest]
    cases r.recv pos <;> rfl
  · rw [if_neg (by simpa using hfirst), if_neg hfirst, hrest, List.nil_append]

/-- The scan hears the datagrams it takes. -/
theorem scan_collects {fds fds' : List Pollfd} {pos : Nat} {st st' : ScanState}
    (hs : st.serveri.whitelist = initialWhitelist) (hbuffer : st.buffer.length < 2 ^ 31)
    (h : scan r fds pos st = .ok (fds', st')) :
    st.serveri.Collects (scanDatagrams r fds pos st) st'.serveri := by
  induction fds generalizing fds' pos st with
  | nil =>
    obtain rfl := (Prod.mk.inj (Except.ok.inj h)).2
    exact .nil rfl rfl rfl rfl
  | cons fd fds ih =>
    rcases scan_cons_eq_ok h with ⟨hstop, -, rfl⟩ | ⟨hgo, st₁, rest, hrest, -, hst₁⟩
    · -- nothing is taken behind the early exit
      have hnone : scanDatagrams r (fd :: fds) pos st' = [] := by
        have hfilter : (List.range (fd :: fds).length).filter
            (fun k => decide (ScanReceives r (fd :: fds) st' k)) = [] := by
          refine List.filter_eq_nil_iff.mpr fun k _ => ?_
          rw [decide_eq_true_eq]
          rintro ⟨p, -, -, -, hlt⟩
          omega
        unfold scanDatagrams
        rw [hfilter, List.filterMap_nil]
      rw [hnone]
      exact .nil rfl rfl rfl rfl
    · rcases hst₁ with ⟨hready, hudp, st₂, hst₂, rfl⟩ | ⟨hready, hudp, rfl⟩ | ⟨hidle, rfl⟩
      · obtain ⟨hudp', -, hcount⟩ := scanReceive_eq_ok hst₂
        obtain ⟨datagram, hrecv, hcollects, hlength⟩ := scanReceive_collects hs hbuffer hst₂
        have hfirst : ScanReceives r (fd :: fds) st 0 := scanReceives_zero.mpr ⟨hudp, hready, hgo⟩
        have hbehind : st₂.serveri.Collects (scanDatagrams r fds (pos + 1)
            { st₂ with count := st₂.count + 1 }) st'.serveri :=
          @ih rest (pos + 1) { st₂ with count := st₂.count + 1 } (hcollects.hears.whitelist_eq hs)
            (by rw [hlength]; exact hbuffer) hrest
        rw [scanDatagrams_cons st { st₂ with count := st₂.count + 1 } hudp'
          (by rw [if_pos hready, hcount]) hlength, if_pos hfirst, hrecv]
        exact hcollects.append hbehind
      · have hfirst : ¬ ScanReceives r (fd :: fds) st 0 := fun h => hudp (scanReceives_zero.mp h).1
        rw [scanDatagrams_cons st { st with processFDs := st.processFDs ++ [fd], count := st.count + 1 } rfl
          (by rw [if_pos hready]) rfl, if_neg hfirst]
        exact @ih rest (pos + 1) { st with processFDs := st.processFDs ++ [fd], count := st.count + 1 } hs
          hbuffer hrest
      · have hfirst : ¬ ScanReceives r (fd :: fds) st₁ 0 :=
          fun h => (scanReceives_zero.mp h).2.1 hidle
        rw [scanDatagrams_cons st₁ st₁ rfl (by simp [hidle]) rfl, if_neg hfirst]
        exact ih hs hbuffer hrest

end Datagrams

/-! ## Runs -/

section Runs

variable {w v : World} {r : Round}

theorem scanReceives_iff_receivesAt (w : World) (r : Round) (i : Nat) :
    ScanReceives r (w.serveri.pollfds.mapIdx fun j p => { p with revents := r.revents j })
      { serveri := w.serveri, buffer := w.buffer } i ↔ w.ReceivesAt r i := by
  unfold ScanReceives World.ReceivesAt
  constructor
  · rintro ⟨p, hp, hudp, hready, hcount⟩
    rw [List.getElem?_mapIdx, Option.map_eq_some_iff] at hp
    obtain ⟨q, hq, rfl⟩ := hp
    obtain ⟨hi, -⟩ := List.getElem?_eq_some_iff.mp hq
    rw [countP_polled _ _ hi.le] at hcount
    exact ⟨⟨q, hq, hudp⟩, hready, by simpa using hcount⟩
  · rintro ⟨⟨q, hq, hudp⟩, hready, hcount⟩
    obtain ⟨hi, -⟩ := List.getElem?_eq_some_iff.mp hq
    refine ⟨{ q with revents := r.revents i }, ?_, hudp, hready, ?_⟩
    · rw [List.getElem?_mapIdx, hq]
      rfl
    · rw [countP_polled _ _ hi.le]
      simpa using hcount

/-- Up to the first callback, a round hears its datagrams. -/
theorem receive_collects {processFDs : List Pollfd} (hw : w.serveri.whitelist = initialWhitelist)
    (hbuffer : w.buffer.length < 2 ^ 31) (h : w.receive r = .ok (v, processFDs)) :
    w.serveri.Collects (w.datagrams r) v.serveri ∧ v.buffer.length = w.buffer.length := by
  unfold World.receive at h
  split_ifs at h
  obtain ⟨⟨fds, st⟩, hscan, h⟩ := except_bind_eq_ok.mp h
  obtain ⟨rfl, -⟩ := Prod.mk.inj (Except.ok.inj h)
  have hdatagrams : scanDatagrams r
      (w.serveri.pollfds.mapIdx fun j p => { p with revents := r.revents j }) 0
      { serveri := w.serveri, buffer := w.buffer } = w.datagrams r := by
    unfold scanDatagrams World.datagrams
    rw [List.length_mapIdx]
    simp only [Nat.zero_add, scanReceives_iff_receivesAt]
  have hcollects := scan_collects hw hbuffer hscan
  rw [hdatagrams] at hcollects
  refine ⟨?_, scan_buffer_length hscan⟩
  have hend : st.serveri.Collects [] { st.serveri with pollfds := fds } := .nil rfl rfl rfl rfl
  have happend := hcollects.append hend
  rwa [List.append_nil] at happend

/-- What a round makes of the packets it hears: it shows them, and if there are any or there is something
    left to write, it writes the frame. -/
structure World.Answers (w : World) (bufs : List StdString) (written : Int) (v : World) : Prop where
  hears : w.serveri.Hears bufs v.serveri
  buffer : v.buffer.length = w.buffer.length
  clean : v.serveri.lightsDirty = false
  tty : v.tty = w.tty ++ if w.serveri.lightsDirty || !bufs.isEmpty then
    v.serveri.dmx.dmxPacket.take written.toNat else []

/-- The end of a round writes out what is shown, and changes nothing of it. -/
theorem flush_answers {config : Config} {written : Int} (hw : w.serveri.Reachable config)
    (h : w.flush written = .ok v) : w.Answers [] written v := by
  rcases flush_eq_ok h with ⟨hclean, rfl⟩ | ⟨hdirty, s, lws, hs, -, rfl⟩
  · exact ⟨.nil rfl rfl rfl, rfl, hclean, by simp [hclean]⟩
  · obtain ⟨message, rfl⟩ := hw.cleaned.invariant.eq_of_updated hs
    exact ⟨.nil rfl rfl rfl, rfl, rfl, by simp [hdirty, World.update]⟩

/-- A round hears its datagrams, then the messages that are handed over to it. -/
theorem round_answers {config : Config} (hw : w.serveri.Reachable config)
    (hbuffer : w.buffer.length < 2 ^ 31) (h : w.round r = .ok v) :
    ∃ u processFDs, w.receive r = .ok (u, processFDs) ∧
      w.Answers (w.datagrams r ++ r.messages processFDs.length) r.written v := by
  obtain ⟨u', hcollect, hflush⟩ := except_bind_eq_ok.mp h
  obtain ⟨⟨u, processFDs⟩, hreceive, hservice⟩ := except_bind_eq_ok.mp hcollect
  obtain ⟨hdatagrams, hlength⟩ := receive_collects hw.invariant.whitelist hbuffer hreceive
  rw [service_eq] at hservice
  have hmessages := deliver_foldlM_collects (hdatagrams.hears.whitelist_eq hw.invariant.whitelist) hservice
  have hall : w.serveri.Collects (w.datagrams r ++ r.messages processFDs.length) u'.serveri :=
    hdatagrams.append hmessages
  obtain ⟨hend, hbuffer', hclean, htty⟩ := flush_answers (reachable_collect hw hcollect) hflush
  have hservice' : u'.buffer = u.buffer :=
    foldlM_invariant (fun v => v.buffer = u.buffer) (fun _ _ _ hv h => (deliver_buffer h).trans hv) rfl
      hservice
  refine ⟨u, processFDs, hreceive, ?_, ?_, hclean, ?_⟩
  · have hround := hall.hears.append hend
    rwa [List.append_nil] at hround
  · rw [hbuffer', hservice', hlength]
  · rw [htty, (collect_quiet hcollect).2, hall.dirty, List.isEmpty_nil, Bool.not_true, Bool.or_false]

theorem run_hears {config : Config} {rounds : List Round} (hw : w.serveri.Reachable config)
    (hbuffer : w.buffer.length < 2 ^ 31) (h : w.run rounds = .ok v) :
    w.serveri.Hears (w.heard rounds) v.serveri := by
  induction rounds generalizing w with
  | nil =>
    obtain rfl := Except.ok.inj h
    exact .nil rfl rfl rfl
  | cons r rounds ih =>
    obtain ⟨u, hu, h⟩ := foldlM_cons_eq_ok.mp h
    obtain ⟨u', processFDs, hreceive, hround⟩ := round_answers hw hbuffer hu
    have hrest := ih (reachable_round hw hu) (by rw [hround.buffer]; exact hbuffer) h
    rw [World.heard, World.hearings, hreceive, hu]
    exact hround.hears.append hrest

/-! ## From the constructor on -/

/-- The server starts out with a black board. -/
theorem construct_hears {config : Config} {boot : Boot} {lights : LightsConfig}
    (hparse : LightsConfig.parse config = .ok lights) (hw : World.construct config boot = .ok w) :
    ∃ s : Serveri, s.board = lights.board ∧ s.dmx.lightConfig = lights ∧ s.dmx.dmxPacket = initialPacket ∧
      s.whitelist = initialWhitelist ∧ s.Hears boot.heard w.serveri ∧ w.buffer.length = 2048 := by
  obtain ⟨-, -, s, hs, hdeliver⟩ := reachable_start hw
  have hwhitelist := (reachable_construct hs).invariant.whitelist
  have hhears := (deliver_foldlM_collects (w := World.start s) hwhitelist hdeliver).hears
  obtain ⟨dmx, hdmx, hupdate⟩ := serveriConstruct_eq_ok hs
  obtain ⟨message, rfl⟩ := (Serveri.Invariant.initial hdmx).eq_of_updated hupdate
  obtain ⟨hconfig, hpacket⟩ := construct_eq_ok hdmx
  obtain rfl := Except.ok.inj (hparse.symm.trans hconfig)
  have hbuffer := foldlM_invariant (fun v => v.buffer.length = 2048)
    (fun _ _ _ hv h => (congrArg List.length (deliver_buffer h)).trans hv) List.length_replicate hdeliver
  refine ⟨{ Serveri.initial dmx boot.udpFd with monitorMessage := message }, ?_, rfl, hpacket, hwhitelist,
    hhears, hbuffer⟩
  show Board.mk [] (fun k => dmx.lightConfig.initialColors.lookup k) = dmx.lightConfig.board
  exact congrArg (Board.mk []) (funext (lookup_initialColors dmx.lightConfig))

/-- What a sequence of packets leaves on a board. -/
theorem foldl_hear (packets : List LightPacket) (b : Board) :
    packets.foldl Board.hear b =
      { tag := (packets.getLast?.map fun p => p.tag.filter fun c => tagWhitelist.contains c).getD b.tag
        color := fun k => (b.color k).map fun old =>
          (lastWrite (packets.flatMap LightPacket.calls) k).getD old } := by
  induction packets generalizing b with
  | nil => simp [lastWrite]
  | cons packet packets ih =>
    rw [List.foldl_cons, ih]
    refine congr (congrArg Board.mk ?_) (funext fun k => ?_)
    · rw [List.getLast?_cons]
      cases packets.getLast? <;> rfl
    · rw [List.flatMap_cons, lastWrite_append]
      show ((b.color k).map _).map _ = _
      rw [Option.map_map]
      refine congrArg (Option.map · (b.color k)) (funext fun old => ?_)
      show (lastWrite (packets.flatMap LightPacket.calls) k).getD ((lastWrite packet.calls k).getD old) = _
      cases lastWrite (packets.flatMap LightPacket.calls) k <;> rfl

/-- What the packets leave on the board and in the frame of a rig is shown by the server. -/
structure Serveri.Shown (s : Serveri) (lights : LightsConfig) (packets : List LightPacket) : Prop where
  board : s.board = packets.foldl Board.hear lights.board
  frame : s.dmx.dmxPacket =
    (listStore UInt8).putAll initialPacket (lights.writes (packets.flatMap LightPacket.calls))

theorem run_shown {config : Config} {boot : Boot} {rounds : List Round} {lights : LightsConfig}
    (hparse : LightsConfig.parse config = .ok lights) (hw : World.construct config boot = .ok w)
    (hrun : w.run rounds = .ok v) :
    ∃ packets : List LightPacket,
      List.Forall₂ (fun buf packet => parseLightPacket buf = .ok packet) (boot.heard ++ w.heard rounds)
        packets ∧ v.serveri.Shown lights packets := by
  obtain ⟨s, hboard, hlights, hpacket, hwhitelist, hboot, hbuffer⟩ := construct_hears hparse hw
  have hhears := hboot.append (run_hears (reachable_start hw).1 (by omega) hrun)
  obtain ⟨packets, hparsed, hfollows⟩ := hhears
  refine ⟨packets, hparsed, ?_, ?_⟩
  · rw [hfollows.board, hboard]
  · rw [hfollows.dmx, setLightColors_dmxPacket, hpacket, hlights]

theorem Serveri.Shown.tag {lights : LightsConfig} {packets : List LightPacket} (h : s.Shown lights packets) :
    s.currentState.tag =
      (packets.getLast?.map fun p => p.tag.filter fun c => tagWhitelist.contains c).getD [] :=
  congrArg Board.tag (h.board.trans (foldl_hear packets lights.board))

theorem Serveri.Shown.color {lights : LightsConfig} {packets : List LightPacket} (h : s.Shown lights packets)
    (k : UInt32) : s.currentState.lights.lookup k = (lights.lights.lookup k).map fun _ =>
      (lastWrite (packets.flatMap LightPacket.calls) k).getD {} := by
  have hk := congrFun (congrArg Board.color (h.board.trans (foldl_hear packets lights.board))) k
  refine Eq.trans hk ?_
  show ((lights.lights.lookup k).map _).map _ = _
  rw [Option.map_map]
  rfl

theorem parseLightPacket_white : parseLightPacket (asChars (encodePacket [97] [⟨0, white⟩])) =
    .ok { tag := [97], lights := [⟨0, white⟩] } := by
  decide

/-- The packets with a record for light `k` are those in the buffers that mention it. -/
theorem filter_mentions {bufs : List StdString} {packets : List LightPacket} (k : UInt32)
    (h : List.Forall₂ (fun buf packet => parseLightPacket buf = .ok packet) bufs packets) :
    packets.filter (fun packet => packet.lights.any fun l => l.index = k) =
      (bufs.filter (mentionsLight k)).filterMap fun buf => (parseLightPacket buf).toOption := by
  induction h with
  | nil => rfl
  | @cons buf packet bufs packets hparse _ ih =>
    have hmentions : mentionsLight k buf = packet.lights.any fun l => l.index = k := by
      unfold mentionsLight
      rw [hparse]
    rw [List.filter_cons, List.filter_cons, hmentions]
    split_ifs
    · rw [List.filterMap_cons, hparse, ih]
      rfl
    · exact ih

theorem notMem_calls {packet : LightPacket} {k : UInt32}
    (h : (packet.lights.any fun l => l.index = k) = false) : k ∉ packet.calls.map Prod.fst := by
  intro hmem
  obtain ⟨call, hcall, rfl⟩ := List.mem_map.mp hmem
  obtain ⟨l, hl, rfl⟩ := List.mem_map.mp hcall
  exact absurd (List.any_eq_false.mp h l hl) (by simp)

/-- What is stored at a byte of a separate light is determined by the calls for the light. -/
theorem lastWrite_writes_separate {lights : LightsConfig} {k : UInt32} {light : Light}
    (hsep : lights.Separate k light) {b : Nat} (hb : light.Writes b) (calls : List (UInt32 × Color)) :
    lastWrite (lights.writes (calls.filter fun call => call.1 = k)) b = lastWrite (lights.writes calls) b := by
  refine lastWrite_flatMap_filter lights.callWrites _ calls fun call _ hcall => ?_
  exact hsep.notMem_callWrites hb (by simpa using hcall)

/-- The calls for a light are made by the packets that mention it. -/
theorem filter_calls (packets : List LightPacket) (k : UInt32) :
    ((packets.filter fun packet => packet.lights.any fun l => l.index = k).flatMap
      LightPacket.calls).filter (fun call => call.1 = k) =
      (packets.flatMap LightPacket.calls).filter fun call => call.1 = k := by
  induction packets with
  | nil => rfl
  | cons packet packets ih =>
    rw [List.filter_cons, List.flatMap_cons, List.filter_append, ← ih]
    split_ifs with hmentions
    · rw [List.flatMap_cons, List.filter_append]
    · have hnone : packet.calls.filter (fun call => call.1 = k) = [] := by
        refine List.filter_eq_nil_iff.mpr fun call hcall hk => ?_
        refine notMem_calls (by simpa using hmentions) (List.mem_map.mpr ⟨call, hcall, ?_⟩)
        exact of_decide_eq_true hk
      rw [hnone, List.nil_append]

/-- The colour of a light depends only on the packets that mention it. However two runs with one
    configuration differ otherwise, and however they interleave what other clients send, they end with
    the same colour for the light if these packets come in in the same order, and with the same bytes in
    the frame if it shares none of its bytes. -/
theorem runs_agree_on_light (config : Config) (lights : LightsConfig) (boot boot' : Boot)
    (rounds rounds' : List Round) (w v w' v' : World) (k : UInt32)
    (hparse : LightsConfig.parse config = .ok lights)
    (hw : World.construct config boot = .ok w) (hrun : w.run rounds = .ok v)
    (hw' : World.construct config boot' = .ok w') (hrun' : w'.run rounds' = .ok v')
    (hsame : (boot.heard ++ w.heard rounds).filter (mentionsLight k) =
      (boot'.heard ++ w'.heard rounds').filter (mentionsLight k)) :
    v.serveri.currentState.lights.lookup k = v'.serveri.currentState.lights.lookup k ∧
      ∀ light, lights.lights.lookup k = some light → lights.Separate k light → ∀ b, light.Writes b →
        v.serveri.dmx.dmxPacket[b]? = v'.serveri.dmx.dmxPacket[b]? := by
  obtain ⟨packets, hparsed, hshown⟩ := run_shown hparse hw hrun
  obtain ⟨packets', hparsed', hshown'⟩ := run_shown hparse hw' hrun'
  have hpackets := (filter_mentions k hparsed).trans
    ((congrArg _ hsame).trans (filter_mentions k hparsed').symm)
  have hcalls : (packets.flatMap LightPacket.calls).filter (fun call => call.1 = k) =
      (packets'.flatMap LightPacket.calls).filter fun call => call.1 = k := by
    rw [← filter_calls packets, ← filter_calls packets', hpackets]
  have hlast : lastWrite (packets.flatMap LightPacket.calls) k =
      lastWrite (packets'.flatMap LightPacket.calls) k := by
    rw [← lastWrite_flatMap_filter LightPacket.calls
        (fun packet => packet.lights.any fun l => l.index = k) packets fun _ _ h => notMem_calls h,
      hpackets, lastWrite_flatMap_filter LightPacket.calls
        (fun packet => packet.lights.any fun l => l.index = k) packets' fun _ _ h => notMem_calls h]
  constructor
  · rw [hshown.color, hshown'.color, hlast]
  · intro light _ hsep b hb
    have hget :=
      (listStore UInt8).get_putAll initialPacket (lights.writes (packets.flatMap LightPacket.calls)) b
    have hget' :=
      (listStore UInt8).get_putAll initialPacket (lights.writes (packets'.flatMap LightPacket.calls)) b
    rw [← lastWrite_writes_separate hsep hb, hcalls, lastWrite_writes_separate hsep hb] at hget
    rw [hshown.frame, hshown'.frame]
    exact hget.trans hget'.symm

/-- A round in which another client sets light 1. -/
def otherRound : Round :=
  { udpRound 517 with recv := fun _ => some (asChars (encodePacket [98] [⟨1, white⟩])) }

/-- Light 0 after a run with one packet, which sets it, and one in which another client sets light 1
    before that. -/
theorem runs_agree_on_light_udpRound :
    ∃ w v v', World.construct distConfig plainBoot = .ok w ∧ w.run [udpRound 517] = .ok v ∧
      w.run [otherRound, udpRound 517] = .ok v' ∧
      (w.heard [otherRound, udpRound 517]).length = 2 ∧
      v.serveri.currentState.lights.lookup 0 = some white ∧
      v.serveri.currentState.lights.lookup 0 = v'.serveri.currentState.lights.lookup 0 := by
  have hok : ((World.construct distConfig plainBoot).bind fun w => (w.run [udpRound 517]).bind fun v =>
      (w.run [otherRound, udpRound 517]).map fun _ =>
        ((w.heard [udpRound 517]).filter (mentionsLight 0),
          (w.heard [otherRound, udpRound 517]).filter (mentionsLight 0),
          (w.heard [otherRound, udpRound 517]).length, v.serveri.currentState.lights.lookup 0)) =
        .ok ([asChars (encodePacket [97] [⟨0, white⟩])], [asChars (encodePacket [97] [⟨0, white⟩])], 2,
          some white) := by
    decide +kernel
  obtain ⟨w, hw, hok⟩ := except_bind_eq_ok.mp hok
  obtain ⟨v, hrun, hok⟩ := except_bind_eq_ok.mp hok
  obtain ⟨v', hrun', hheard⟩ := map_eq_ok hok
  simp only [Prod.mk.injEq] at hheard
  obtain ⟨hfirst, hsecond, hlength, hwhite⟩ := hheard
  refine ⟨w, v, v', hw, hrun, hrun', hlength, hwhite, ?_⟩
  refine (runs_agree_on_light distConfig _ plainBoot plainBoot _ _ w v w v' 0 parse_distConfig hw hrun hw
    hrun' ?_).1
  exact hfirst.trans hsecond.symm

end Runs

end Valoserveri
