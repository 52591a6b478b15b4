import Valoserveri.Proofs.RunProofs

/-!
# The scan of the poll entries

Every datagram is taken as a packet, whatever it holds. An error of `recvfrom` is taken for a length
that no buffer has, and is the only thing that stops the scan.
-/

namespace Valoserveri

open ExceptRun

/-! ## The receive buffer -/

theorem recvfrom_buffer_length (buffer : StdString) (recv : Option StdString) :
    (recvfrom buffer recv).2.length = buffer.length := by
  cases recv with
  | none => rfl
  | some datagram =>
    show (datagram.take buffer.length ++ buffer.drop (datagram.take buffer.length).length).length = _
    rw [List.length_append, List.length_drop, List.length_take]
    omega

theorem recvfrom_some (buffer datagram : StdString) :
    ∃ n ≤ buffer.length, (recvfrom buffer (some datagram)).1 = (n : Int) := by
  refine ⟨(datagram.take buffer.length).length, ?_, rfl⟩
  rw [List.length_take]
  omega

theorem scan_buffer_length {r : Round} {fds fds' : List Pollfd} {pos : Nat} {st st' : ScanState}
    (h : scan r fds pos st = .ok (fds', st')) : st'.buffer.length = st.buffer.length := by
  refine scan_invariant (fun _ buffer => buffer.length = st.buffer.length) ?_ rfl h
  intro st₁ st₂ recv hlength hreceive
  obtain ⟨packet, -, hreceive⟩ := except_bind_eq_ok.mp hreceive
  obtain ⟨s, -, hreceive⟩ := except_bind_eq_ok.mp hreceive
  obtain rfl := Except.ok.inj hreceive
  exact (recvfrom_buffer_length st₁.buffer recv).trans hlength

/-! ## The scan -/

/-- A datagram is always taken as a packet. -/
theorem scanReceive_some (st : ScanState) (datagram : StdString) (hbuffer : st.buffer.length < 2 ^ 31) :
    ∃ st', st.receive (some datagram) = .ok st' ∧ st'.serveri.UDPfd = st.serveri.UDPfd ∧
      st'.buffer.length = st.buffer.length ∧ st'.count = st.count := by
  obtain ⟨n, hn, hresult⟩ := recvfrom_some st.buffer datagram
  have hlength := recvfrom_buffer_length st.buffer (some datagram)
  have hsize : toSize (recvfrom st.buffer (some datagram)).1 = n := by
    rw [hresult]
    unfold toSize
    omega
  have hfirst : spanFirst (recvfrom st.buffer (some datagram)).2
      (toSize (recvfrom st.buffer (some datagram)).1) =
        .ok ((recvfrom st.buffer (some datagram)).2.take n) := by
    rw [hsize]
    exact if_pos (by omega)
  have hpacket : ((recvfrom st.buffer (some datagram)).2.take n).length < 2 ^ 31 := by
    rw [List.length_take]
    omega
  have hreceive : st.receive (some datagram) = .ok { st with
      serveri := st.serveri.applyPacket (decodePacket ((recvfrom st.buffer (some datagram)).2.take n))
      buffer := (recvfrom st.buffer (some datagram)).2 } := by
    unfold ScanState.receive
    simp only
    rw [hfirst, ok_bind, lightPacket_total st.serveri hpacket, ok_bind]
  obtain ⟨hudp, -, hcount⟩ := scanReceive_eq_ok hreceive
  exact ⟨_, hreceive, hudp, hlength, hcount⟩

/-- An error of `recvfrom` is taken for a length that the buffer does not have. -/
theorem scanReceive_none (st st' : ScanState) (hbuffer : st.buffer.length < 2 ^ 31) :
    st.receive none ≠ .ok st' := by
  intro h
  obtain ⟨packet, hfirst, -⟩ := except_bind_eq_ok.mp h
  have hsize : toSize (recvfrom st.buffer none).1 = 2 ^ 64 - 1 := rfl
  unfold spanFirst at hfirst
  rw [hsize] at hfirst
  split_ifs at hfirst with hle
  rw [recvfrom_buffer_length] at hle
  omega

/-- The scan calls `recvfrom` for the entry at position `k` of those that are left. -/
def ScanReceives (r : Round) (fds : List Pollfd) (st : ScanState) (k : Nat) : Prop :=
  ∃ p, fds[k]? = some p ∧ p.fd = st.serveri.UDPfd ∧ p.revents ≠ 0 ∧
    st.count + ((fds.take k).countP fun p => p.revents ≠ 0 : Nat) < r.pollresult

theorem scanReceives_zero {r : Round} {fd : Pollfd} {fds : List Pollfd} {st : ScanState} :
    ScanReceives r (fd :: fds) st 0 ↔
      fd.fd = st.serveri.UDPfd ∧ fd.revents ≠ 0 ∧ st.count < r.pollresult := by
  simp [ScanReceives]

/-- What is asked of the entries behind the first one, once that has been dealt with. -/
theorem scanReceives_succ {r : Round} {fd : Pollfd} {fds : List Pollfd} {st st' : ScanState} {k : Nat}
    (hudp : st'.serveri.UDPfd = st.serveri.UDPfd)
    (hcount : st'.count = st.count + if fd.revents ≠ 0 then 1 else 0) :
    ScanReceives r (fd :: fds) st (k + 1) ↔ ScanReceives r fds st' k := by
  have hsum : (((fd :: fds).take (k + 1)).countP fun p => p.revents ≠ 0) =
      (fds.take k).countP (fun p => p.revents ≠ 0) + if fd.revents ≠ 0 then 1 else 0 := by
    rw [List.take_succ_cons, List.countP_cons]
    simp
  unfold ScanReceives
  rw [hsum, hudp, hcount, List.getElem?_cons_succ]
  refine exists_congr fun p => and_congr_right fun _ => and_congr_right fun _ =>
    and_congr_right fun _ => ?_
  split_ifs
  · push_cast
    omega
  · simp

/-- The scan comes to its end exactly if no call of `recvfrom` fails. -/
theorem scan_ok_iff (r : Round) (fds : List Pollfd) (pos : Nat) (st : ScanState)
    (hbuffer : st.buffer.length < 2 ^ 31) :
    (∃ res, scan r fds pos st = .ok res) ↔
      ∀ k, ScanReceives r fds st k → r.recv (pos + k) ≠ none := by
  induction fds generalizing pos st with
  | nil => simp [scan, ScanReceives]
  | cons fd fds ih =>
    -- the entries behind the first one
    have hrest : ∀ st' : ScanState, st'.serveri.UDPfd = st.serveri.UDPfd →
        st'.buffer.length = st.buffer.length →
        st'.count = st.count + (if fd.revents ≠ 0 then 1 else 0) →
        ((∃ res, scan r fds (pos + 1) st' = .ok res) ↔
          ∀ k, ScanReceives r (fd :: fds) st (k + 1) → r.recv (pos + (k + 1)) ≠ none) := by
      intro st' hudp hlength hcount
      rw [ih (pos + 1) st' (by omega)]
      refine forall_congr' fun k => ?_
      rw [scanReceives_succ hudp hcount, show pos + 1 + k = pos + (k + 1) by omega]
    rw [scan, ← Nat.and_forall_add_one, scanReceives_zero]
    by_cases hstop : r.pollresult ≤ st.count
    · rw [if_pos hstop]
      refine iff_of_true ⟨_, rfl⟩ ⟨fun h => absurd h.2.2 (by omega), fun k => ?_⟩
      rintro ⟨p, -, -, -, hlt⟩
      omega
    · rw [if_neg hstop]
      by_cases hready : fd.revents ≠ 0
      · rw [if_pos hready]
        by_cases hudp : fd.fd = st.serveri.UDPfd
        · rw [if_pos hudp]
          cases hrecv : r.recv pos with
          | none =>
            refine iff_of_false ?_ fun h => h.1 ⟨hudp, hready, by omega⟩ rfl
            rintro ⟨res, h⟩
            obtain ⟨st', hst', -⟩ := except_bind_eq_ok.mp h
            exact scanReceive_none st st' hbuffer hst'
          | some datagram =>
            obtain ⟨st', hst', hudp', hlength, hcount⟩ := scanReceive_some st datagram hbuffer
            have hbehind := hrest { st' with count := st'.count + 1 } hudp' hlength
              (by rw [if_pos hready, hcount])
            rw [hst', ok_bind, exists_bind_ok_iff, hbehind]
            simp
        · have hbehind := hrest
            { st with processFDs := st.processFDs ++ [fd], count := st.count + 1 } rfl rfl
            (by rw [if_pos hready])
          rw [if_neg hudp, ok_bind, exists_bind_ok_iff, hbehind]
          simp [hudp]
      · have hbehind := hrest st rfl rfl (by rw [if_neg hready, Int.add_zero])
        rw [if_neg hready, exists_bind_ok_iff, hbehind]
        simp [hready]

/-- `poll` sets the entries by their positions. -/
theorem countP_polled (pollfds : List Pollfd) (revents : Nat → Int) {i : Nat} (hi : i ≤ pollfds.length) :
    (((pollfds.mapIdx fun j p => { p with revents := revents j }).take i).countP
      fun p => p.revents ≠ 0) = (List.range i).countP fun j => revents j ≠ 0 := by
  have hmap : ((pollfds.mapIdx fun j p => { p with revents := revents j }).take i).map Pollfd.revents =
      (List.range i).map revents := by
    refine List.ext_getElem (by simp [hi]) fun j h₁ h₂ => ?_
    simp
  have hcount := congrArg (List.countP fun n => n ≠ 0) hmap
  rw [List.countP_map, List.countP_map] at hcount
  exact hcount

/-- A round gets as far as the callbacks exactly if no call of `recvfrom` fails. -/
theorem receive_ok_iff (w : World) (r : Round) (hpoll : 0 ≤ r.pollresult)
    (hbuffer : w.buffer.length < 2 ^ 31) :
    (∃ res, w.receive r = .ok res) ↔ ∀ i, w.ReceivesAt r i → r.recv i ≠ none := by
  unfold World.receive
  rw [if_neg (by omega)]
  refine exists_bind_ok_iff.trans ((scan_ok_iff r _ 0 _ hbuffer).trans (forall_congr' fun i => ?_))
  rw [Nat.zero_add]
  refine imp_congr_left ?_
  unfold ScanReceives World.ReceivesAt
  constructor
  · rintro ⟨p, hp, hudp, hready, hcount⟩
    rw [List.getElem?_mapIdx, Option.map_eq_some_iff] at hp
    obtain ⟨q, hq, rfl⟩ := hp
    obtain ⟨hi, -⟩ := List.getElem?_eq_some_iff.mp hq
    rw [countP_polled _ _ hi.le] at hcount
    exact ⟨⟨q, hq, hudp⟩, hready, by simpa using hcount⟩
  · rintro ⟨⟨q, hq, hudp⟩, hready, hcount⟩
    obtain ⟨hi, -⟩ := List.getElem?_eq_some_iff.mp hq
    refine ⟨{ q with revents := r.revents i }, ?_, hudp, hready, ?_⟩
    · rw [List.getElem?_mapIdx, hq]
      rfl
    · rw [countP_polled _ _ hi.le]
      simpa using hcount

end Valoserveri
