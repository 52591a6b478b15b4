import Valoserveri.Proofs.ScanProofs

/-!
# The early exit of the scan

The scan of the poll entries stops when it has seen as many entries that are ready as `poll` has
counted. If the count is right, no entry behind that point is ready, and the scan has the effect of one
that visits all entries.
-/

namespace Valoserveri

open ExceptRun

/-- A scan of all entries. It is what `scan` would be without its early exit. -/
def scanWhole (r : Round) : List Pollfd → Nat → ScanState → Except Halt (List Pollfd × ScanState)
  | [], _, st => .ok ([], st)
  | fd :: fds, pos, st =>
    if fd.revents ≠ 0 then
      (if fd.fd = st.serveri.UDPfd then st.receive (r.recv pos)
        else .ok { st with processFDs := st.processFDs ++ [fd] }).bind fun st =>
          (scanWhole r fds (pos + 1) { st with count := st.count + 1 }).bind fun rest =>
            .ok ({ fd with revents := 0 } :: rest.1, rest.2)
    else (scanWhole r fds (pos + 1) st).bind fun rest => .ok (fd :: rest.1, rest.2)

variable {r : Round}

/-! ## The early exit -/

/-- A scan of entries none of which is ready does nothing. -/
theorem scanWhole_idle {fds : List Pollfd} (h : ∀ p ∈ fds, p.revents = 0) (pos : Nat) (st : ScanState) :
    scanWhole r fds pos st = .ok (fds, st) := by
  induction fds generalizing pos with
  | nil => rfl
  | cons fd fds ih =>
    rw [List.forall_mem_cons] at h
    rw [scanWhole, if_neg (not_not_intro h.1), ih h.2, ok_bind]

/-- As long as the count is right, the early exit makes no difference. -/
theorem scan_eq_scanWhole {fds : List Pollfd} {pos : Nat} {st : ScanState}
    (h : st.count + (fds.countP fun p => p.revents ≠ 0 : Nat) = r.pollresult) :
    scan r fds pos st = scanWhole r fds pos st := by
  induction fds generalizing pos st with
  | nil => rfl
  | cons fd fds ih =>
    rw [scan]
    by_cases hstop : r.pollresult ≤ st.count
    · -- all entries that are ready have been seen
      have hzero : (fd :: fds).countP (fun p => p.revents ≠ 0) = 0 := by omega
      have hidle : ∀ p ∈ fd :: fds, p.revents = 0 := by
        intro p hp
        simpa using List.countP_eq_zero.mp hzero p hp
      rw [if_pos hstop, scanWhole_idle hidle]
    · rw [if_neg hstop, scanWhole]
      by_cases hready : fd.revents ≠ 0
      · rw [List.countP_cons_of_pos (by simpa using hready)] at h
        rw [if_pos hready, if_pos hready]
        by_cases hudp : fd.fd = st.serveri.UDPfd
        · rw [if_pos hudp]
          cases hreceive : st.receive (r.recv pos) with
          | error e => rfl
          | ok st' =>
            obtain ⟨-, -, hcount⟩ := scanReceive_eq_ok hreceive
            have hleft : st'.count + 1 + (fds.countP fun p => p.revents ≠ 0 : Nat) = r.pollresult := by
              push_cast at h
              omega
            rw [ok_bind, ok_bind, ih hleft]
        · have hleft : st.count + 1 + (fds.countP fun p => p.revents ≠ 0 : Nat) = r.pollresult := by
            push_cast at h
            omega
          rw [if_neg hudp, ok_bind, ok_bind, ih hleft]
      · rw [List.countP_cons_of_neg (by simpa using hready)] at h
        rw [if_neg hready, if_neg hready, ih h]

/-! ## What a scan of all entries does -/

/-- The entries are visited: those that are ready are counted, and collected except for that of the UDP
    socket. -/
def ScanState.visit (st : ScanState) (fds : List Pollfd) : ScanState :=
  { st with
    processFDs := st.processFDs ++ fds.filter fun p => p.revents ≠ 0 ∧ p.fd ≠ st.serveri.UDPfd
    count := st.count + (fds.countP fun p => p.revents ≠ 0 : Nat) }

theorem visit_cons (st : ScanState) (fd : Pollfd) (fds : List Pollfd) :
    st.visit (fd :: fds) = (st.visit [fd]).visit fds := by
  have hcount : (fd :: fds).countP (fun p => p.revents ≠ 0) =
      [fd].countP (fun p => p.revents ≠ 0) + fds.countP fun p => p.revents ≠ 0 := by
    rw [← List.countP_append, List.singleton_append]
  have hfilter : (fd :: fds).filter (fun p => p.revents ≠ 0 ∧ p.fd ≠ st.serveri.UDPfd) =
      [fd].filter (fun p => p.revents ≠ 0 ∧ p.fd ≠ st.serveri.UDPfd) ++
        fds.filter fun p => p.revents ≠ 0 ∧ p.fd ≠ st.serveri.UDPfd := by
    rw [← List.filter_append, List.singleton_append]
  unfold ScanState.visit
  rw [hcount, hfilter, List.append_assoc]
  push_cast
  rw [Int.add_assoc]

/-- What is received does not depend on the entries that have been visited. -/
theorem scanReceive_visit (st : ScanState) (fds : List Pollfd) (recv : Option StdString) :
    (st.visit fds).receive recv = (st.receive recv).bind fun st' => .ok (st'.visit fds) := by
  have hserveri : (st.visit fds).serveri = st.serveri := rfl
  have hbuffer : (st.visit fds).buffer = st.buffer := rfl
  unfold ScanState.receive
  simp only [hserveri, hbuffer]
  cases spanFirst (recvfrom st.buffer recv).2 (toSize (recvfrom st.buffer recv).1) with
  | error e => rfl
  | ok buf =>
    rw [ok_bind, ok_bind]
    cases hs : st.serveri.lightPacket buf with
    | error e => rfl
    | ok s =>
      obtain ⟨packet, -, rfl⟩ := lightPacket_eq_ok.mp hs
      rw [ok_bind, ok_bind, ok_bind, applyPacket_eq]
      rfl

theorem scanWhole_cons_of_udp {fd : Pollfd} {st : ScanState} (hready : fd.revents ≠ 0)
    (hudp : fd.fd = st.serveri.UDPfd) (fds : List Pollfd) (pos : Nat) :
    scanWhole r (fd :: fds) pos st = (st.receive (r.recv pos)).bind fun st' =>
      (scanWhole r fds (pos + 1) (st'.visit [fd])).bind fun rest =>
        .ok ({ fd with revents := 0 } :: rest.1, rest.2) := by
  rw [scanWhole, if_pos hready, if_pos hudp]
  cases hreceive : st.receive (r.recv pos) with
  | error e => rfl
  | ok st' =>
    obtain ⟨hudp', -, -⟩ := scanReceive_eq_ok hreceive
    have hvisit : st'.visit [fd] = { st' with count := st'.count + 1 } := by
      simp [ScanState.visit, hready, hudp, hudp']
    rw [ok_bind, ok_bind, hvisit]

theorem scanWhole_cons_of_other {fd : Pollfd} {st : ScanState}
    (h : fd.fd = st.serveri.UDPfd → fd.revents = 0) (fds : List Pollfd) (pos : Nat) :
    scanWhole r (fd :: fds) pos st = (scanWhole r fds (pos + 1) (st.visit [fd])).bind fun rest =>
      .ok ({ fd with revents := 0 } :: rest.1, rest.2) := by
  rw [scanWhole]
  by_cases hready : fd.revents ≠ 0
  · have hudp : fd.fd ≠ st.serveri.UDPfd := mt h hready
    have hvisit : st.visit [fd] =
        { st with processFDs := st.processFDs ++ [fd], count := st.count + 1 } := by
      simp [ScanState.visit, hready, hudp]
    rw [if_pos hready, if_neg hudp, ok_bind, hvisit]
  · have hidle : fd.revents = 0 := not_not.mp hready
    have hvisit : st.visit [fd] = st := by
      simp [ScanState.visit, hidle]
    rw [if_neg hready, hvisit, ← hidle]

/-- If there is nothing to receive, the scan only visits the entries. -/
theorem scanWhole_of_no_datagram {fds : List Pollfd} (pos : Nat) (st : ScanState)
    (h : ∀ p ∈ fds, p.fd = st.serveri.UDPfd → p.revents = 0) :
    scanWhole r fds pos st = .ok (fds.map fun p => { p with revents := 0 }, st.visit fds) := by
  induction fds generalizing pos st with
  | nil => simp [scanWhole, ScanState.visit]
  | cons fd fds ih =>
    rw [List.forall_mem_cons] at h
    have hrest := ih (pos + 1) (st.visit [fd]) h.2
    rw [scanWhole_cons_of_other h.1, hrest, ok_bind, List.map_cons, visit_cons st fd fds]

/-- If the UDP socket is ready, a datagram is received once, and the entries are visited. -/
theorem scanWhole_of_datagram {fds : List Pollfd} {i : Nat} {p : Pollfd} (pos : Nat) (st : ScanState)
    (hdistinct : (fds.map Pollfd.fd).Nodup) (hp : fds[i]? = some p) (hudp : p.fd = st.serveri.UDPfd)
    (hready : p.revents ≠ 0) :
    scanWhole r fds pos st = (st.receive (r.recv (pos + i))).bind fun st' =>
      .ok (fds.map fun p => { p with revents := 0 }, st'.visit fds) := by
  induction fds generalizing pos i st with
  | nil => simp at hp
  | cons fd fds ih =>
    rw [List.map_cons, List.nodup_cons] at hdistinct
    obtain ⟨hnew, hdistinct⟩ := hdistinct
    cases i with
    | zero =>
      obtain rfl : fd = p := by simpa using hp
      rw [scanWhole_cons_of_udp hready hudp, Nat.add_zero]
      cases hreceive : st.receive (r.recv pos) with
      | error e => rfl
      | ok st' =>
        obtain ⟨hudp', -, -⟩ := scanReceive_eq_ok hreceive
        have hnone : ∀ q ∈ fds, q.fd = st'.serveri.UDPfd → q.revents = 0 := by
          intro q hq heq
          exact absurd (List.mem_map.mpr ⟨q, hq, heq.trans (hudp'.trans hudp.symm)⟩) hnew
        have hrest := scanWhole_of_no_datagram (r := r) (pos + 1) (st'.visit [fd]) hnone
        rw [ok_bind, ok_bind, hrest, ok_bind, List.map_cons, visit_cons st' fd fds]
    | succ i =>
      rw [List.getElem?_cons_succ] at hp
      have hother : fd.fd = st.serveri.UDPfd → fd.revents = 0 := by
        intro heq
        exact absurd (List.mem_map.mpr ⟨p, List.mem_of_getElem? hp, hudp.trans heq.symm⟩) hnew
      have hrest := ih (pos + 1) (st.visit [fd]) hdistinct hp hudp
      have hpos : pos + 1 + i = pos + (i + 1) := by omega
      rw [scanWhole_cons_of_other hother, hrest, scanReceive_visit, hpos]
      cases st.receive (r.recv (pos + (i + 1))) with
      | error e => rfl
      | ok st' => rw [ok_bind, ok_bind, ok_bind, ok_bind, List.map_cons, visit_cons st' fd fds]

/-- The early exit loses nothing: the scan has the effect of a scan of all entries. It collects the
    entries that are ready in their order, except that of the UDP socket, receives a datagram once if
    the UDP socket is ready and not otherwise, passes what `recvfrom` returns to `lightPacket`, and clears
    all entries. -/
theorem scan_early_exit (r : Round) (fds : List Pollfd) (serveri : Serveri) (buffer : StdString)
    (hdistinct : (fds.map Pollfd.fd).Nodup)
    (hpoll : r.pollresult = (fds.countP fun p => p.revents ≠ 0 : Nat)) :
    let st : ScanState := { serveri, buffer }
    let ready := fds.filter fun p => p.revents ≠ 0 ∧ p.fd ≠ serveri.UDPfd
    let cleared := fds.map fun p => { p with revents := 0 }
    scan r fds 0 st = scanWhole r fds 0 st ∧
    (∀ i p, fds[i]? = some p → p.fd = serveri.UDPfd → p.revents ≠ 0 →
      let received := recvfrom buffer (r.recv i)
      scan r fds 0 st =
        (spanFirst received.2 (toSize received.1)).bind fun packet =>
          (serveri.lightPacket packet).bind fun s =>
            .ok (cleared,
              { serveri := s, buffer := received.2, processFDs := ready, count := r.pollresult })) ∧
    ((∀ p ∈ fds, p.fd = serveri.UDPfd → p.revents = 0) →
      scan r fds 0 st = .ok (cleared, { st with processFDs := ready, count := r.pollresult })) := by
  intro st ready cleared
  have hwhole : scan r fds 0 st = scanWhole r fds 0 st := by
    apply scan_eq_scanWhole
    show 0 + _ = _
    rw [Int.zero_add, hpoll]
  have hvisit : ∀ st' : ScanState, st'.serveri.UDPfd = serveri.UDPfd → st'.processFDs = [] →
      st'.count = 0 → st'.visit fds = { st' with processFDs := ready, count := r.pollresult } := by
    intro st' hudp hprocess hcount
    unfold ScanState.visit
    rw [hudp, hprocess, hcount, Int.zero_add, ← hpoll]
    rfl
  refine ⟨hwhole, ?_, ?_⟩
  · intro i p hp hudp hready received
    rw [hwhole, scanWhole_of_datagram 0 st hdistinct hp hudp hready, Nat.zero_add, ScanState.receive]
    show ((spanFirst received.2 (toSize received.1)).bind _).bind _ = _
    cases spanFirst received.2 (toSize received.1) with
    | error e => rfl
    | ok packet =>
      rw [ok_bind, ok_bind]
      cases hs : serveri.lightPacket packet with
      | error e => rfl
      | ok s =>
        obtain ⟨-, -, rfl⟩ := lightPacket_eq_ok.mp hs
        rw [ok_bind, ok_bind, ok_bind]
        rw [hvisit _ (by rw [applyPacket_eq]) rfl rfl]
  · intro hnone
    rw [hwhole, scanWhole_of_no_datagram 0 st hnone, hvisit st rfl rfl rfl]

/-- Scans that end at their second entry, with one behind it that is not ready. In the first, the UDP
    socket is not ready; in the second, it is, and a packet for light 1 has come in. -/
theorem scan_early_exit_second :
    ∃ dmx s, DMXController.construct distConfig 3 = .ok dmx ∧
      (Serveri.initial dmx 4).lightPacket (asChars (encodePacket [101] [⟨1, white⟩])) = .ok s ∧
      let idle : Round := ⟨1, fun _ => 0, fun _ => none, fun _ => [], 0⟩
      let received : Round :=
        ⟨2, fun _ => 0, fun _ => some (asChars (encodePacket [101] [⟨1, white⟩])), fun _ => [], 0⟩
      let st : ScanState := { serveri := .initial dmx 4, buffer := List.replicate 16 0 }
      scan idle [⟨4, 9, 0⟩, ⟨5, 1, 1⟩, ⟨6, 1, 0⟩] 0 st =
        .ok ([⟨4, 9, 0⟩, ⟨5, 1, 0⟩, ⟨6, 1, 0⟩],
          { st with processFDs := [⟨5, 1, 1⟩], count := 1 }) ∧
      scan received [⟨4, 9, 1⟩, ⟨5, 1, 1⟩, ⟨6, 1, 0⟩] 0 st =
        .ok ([⟨4, 9, 0⟩, ⟨5, 1, 0⟩, ⟨6, 1, 0⟩],
          { serveri := s
            buffer := asChars (encodePacket [101] [⟨1, white⟩]) ++ List.replicate 6 0
            processFDs := [⟨5, 1, 1⟩]
            count := 2 }) := by
  obtain ⟨dmx, hdmx⟩ := construct_distConfig
  have hlength : (asChars (encodePacket [101] [⟨1, white⟩])).length < 2 ^ 31 := by decide
  have hs := lightPacket_total (Serveri.initial dmx 4) hlength
  refine ⟨dmx, _, hdmx, hs, ?_⟩
  intro idle received st
  constructor
  · have hidle : ∀ p ∈ ([⟨4, 9, 0⟩, ⟨5, 1, 1⟩, ⟨6, 1, 0⟩] : List Pollfd), p.fd = 4 → p.revents = 0 := by
      decide
    exact (scan_early_exit idle _ (.initial dmx 4) _ (by decide) (by decide)).2.2 hidle
  · have hscan := (scan_early_exit received [⟨4, 9, 1⟩, ⟨5, 1, 1⟩, ⟨6, 1, 0⟩] (.initial dmx 4)
      (List.replicate 16 0) (by decide) (by decide)).2.1 0 ⟨4, 9, 1⟩ rfl rfl (by decide)
    have hpacket : spanFirst (recvfrom (List.replicate 16 0) (received.recv 0)).2
        (toSize (recvfrom (List.replicate 16 0) (received.recv 0)).1) =
          .ok (asChars (encodePacket [101] [⟨1, white⟩])) := rfl
    simp only [hpacket, ok_bind, hs] at hscan
    exact hscan

end Valoserveri
