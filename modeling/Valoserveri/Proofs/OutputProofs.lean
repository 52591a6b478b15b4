import Valoserveri.Proofs.ScanProofs
import Valoserveri.Proofs.FrameProofs

/-!
# What is written to the serial device

`DMXController::update` does not look at what `write` returns. The device is given complete frames as
long as every write is taken as a whole. The loop then calls `poll` with nothing left to write, except
for the first time: the frame of the constructor is written only after `poll` has returned once.
-/

namespace Valoserveri

open ExceptRun Relation DirtyFlag

/-! ## Streams of frames -/

/-- A stream that consists of complete frames. -/
def Aligned (tty : List UInt8) : Prop := ∃ frames : List Frame, tty = (frames.map Frame.bytes).flatten

/-- A stream that consists of complete frames, the last of which is `packet`. -/
def EndsWith (tty packet : List UInt8) : Prop :=
  ∃ (frames : List Frame) (f : Frame), f.bytes = packet ∧ tty = (frames.map Frame.bytes).flatten ++ packet

theorem length_flatten_frames (frames : List Frame) :
    (frames.map Frame.bytes).flatten.length = 517 * frames.length := by
  induction frames with
  | nil => rfl
  | cons f frames ih =>
    simp only [List.map_cons, List.flatten_cons, List.length_append, ih, f.length_eq, List.length_cons]
    omega

theorem EndsWith.aligned {tty packet : List UInt8} (h : EndsWith tty packet) : Aligned tty := by
  obtain ⟨frames, f, hf, rfl⟩ := h
  exact ⟨frames ++ [f], by simp [hf]⟩

/-- In a stream of complete frames, a frame at the end is the last one. -/
theorem Aligned.endsWith {tty : List UInt8} (h : Aligned tty) {f : Frame} (hf : f.bytes <:+ tty) :
    EndsWith tty f.bytes := by
  obtain ⟨frames, rfl⟩ := h
  rcases List.eq_nil_or_concat' frames with rfl | ⟨init, g, rfl⟩
  · have hlen := hf.length_le
    rw [f.length_eq] at hlen
    simp at hlen
  · have hg : g.bytes <:+ ((init ++ [g]).map Frame.bytes).flatten := by simp
    have hlen : f.bytes.length = g.bytes.length := by rw [f.length_eq, g.length_eq]
    have heq := (List.suffix_of_suffix_length_le hf hg hlen.le).eq_of_length hlen
    exact ⟨init, f, rfl, by simp [heq]⟩

/-- A write that is taken keeps the stream a sequence of frames that ends with the frame written
    exactly if it is taken as a whole, or not at all and the frame was the last one already. -/
theorem endsWith_append_take_iff {tty : List UInt8} (h : Aligned tty) (f : Frame) (written : Int) :
    EndsWith (tty ++ f.bytes.take written.toNat) f.bytes ↔
      517 ≤ written ∨ written ≤ 0 ∧ f.bytes <:+ tty := by
  obtain ⟨frames, htty⟩ := h
  constructor
  · rintro ⟨frames', g, hg, heq⟩
    have hlen := congrArg List.length heq
    rw [htty, ← hg] at hlen
    simp only [List.length_append, length_flatten_frames, List.length_take, g.length_eq] at hlen
    rcases Nat.lt_or_ge written.toNat 517 with hlt | hge
    · -- the stream has grown by less than a frame, so it has not grown
      have hzero : written.toNat = 0 := by omega
      rw [hzero, List.take_zero, List.append_nil] at heq
      exact Or.inr ⟨by omega, heq ▸ List.suffix_append _ _⟩
    · exact Or.inl (by omega)
  · rintro (hwhole | ⟨hnone, hsuffix⟩)
    · refine ⟨frames, f, rfl, ?_⟩
      rw [List.take_of_length_le (by rw [f.length_eq]; omega), htty]
    · rw [Int.toNat_of_nonpos hnone, List.take_zero, List.append_nil]
      exact Aligned.endsWith ⟨frames, htty⟩ hsuffix

/-! ## The frame of the server -/

theorem Serveri.Invariant.exists_frame {config : Config} {s : Serveri} (h : s.Invariant config) :
    ∃ f : Frame, f.bytes = s.dmx.dmxPacket := by
  obtain ⟨fd, initial, calls, hinit, hdmx⟩ := h.dmx
  have hframe : initial.dmxPacket = Frame.initial.bytes := (construct_eq_ok hinit).2
  exact ⟨Frame.initial.setLightColors initial hframe calls, by rw [hdmx]; rfl⟩

/-- The device has been given complete frames, the last of which is the current one. -/
def World.WholeFrames (w : World) : Prop := EndsWith w.tty w.serveri.dmx.dmxPacket

variable {config : Config} {boot : Boot} {w v : World} {rounds : List Round}

theorem wholeFrames_update_iff (hv : v.serveri.Reachable config) (h : Aligned v.tty) (written : Int) :
    (v.update written).WholeFrames ↔
      517 ≤ written ∨ written ≤ 0 ∧ v.serveri.dmx.dmxPacket <:+ v.tty := by
  obtain ⟨f, hf⟩ := hv.invariant.exists_frame
  show EndsWith (v.tty ++ v.serveri.dmx.dmxPacket.take _) v.serveri.dmx.dmxPacket ↔ _
  rw [← hf]
  exact endsWith_append_take_iff h f written

/-! ## Runs -/

theorem round_tty {r : Round} {u : World} (h : w.round r = .ok u) :
    ∃ v, w.collect r = .ok v ∧ v.tty = w.tty ∧
      ((v.serveri.lightsDirty = false ∧ u = v) ∨
        (v.serveri.lightsDirty = true ∧ u.tty = (v.update r.written).tty)) := by
  obtain ⟨v, hv, hflush⟩ := except_bind_eq_ok.mp h
  refine ⟨v, hv, (collect_quiet hv).2, ?_⟩
  rcases flush_eq_ok hflush with ⟨hclean, rfl⟩ | ⟨hdirty, s, lws, -, -, rfl⟩
  · exact Or.inl ⟨hclean, rfl⟩
  · exact Or.inr ⟨hdirty, rfl⟩

theorem World.FlushesAt.mono {before after : List Round} {written : Int}
    (h : w.FlushesAt before v written) : w.FlushesAt (before ++ after) v written := by
  obtain ⟨pre, r, post, u, rfl, hu, hv, hdirty, hw⟩ := h
  exact ⟨pre, r, post ++ after, u, by simp, hu, hv, hdirty, hw⟩

/-- If every write leaves complete frames behind that finds complete frames, there are never any
    others. -/
theorem aligned_run (h₀ : Aligned w.tty)
    (hwrites : ∀ v written, w.FlushesAt rounds v written → Aligned v.tty →
      Aligned (v.update written).tty)
    {u : World} (h : w.run rounds = .ok u) : Aligned u.tty := by
  induction rounds using List.reverseRecOn generalizing u with
  | nil =>
    obtain rfl := Except.ok.inj h
    exact h₀
  | append_singleton rounds r ih =>
    obtain ⟨u', hu', hround⟩ := foldlM_concat_eq_ok.mp h
    have haligned := ih (fun v written hv => hwrites v written hv.mono) hu'
    obtain ⟨v, hcollect, htty, ⟨-, rfl⟩ | ⟨hdirty, hupdate⟩⟩ := round_tty hround
    · rw [htty]
      exact haligned
    · rw [hupdate]
      exact hwrites v r.written ⟨rounds, r, [], u', rfl, hu', hcollect, hdirty, rfl⟩
        (htty ▸ haligned)

theorem aligned_flushesAt (h₀ : Aligned w.tty) {written : Int}
    (hwrites : ∀ v written, w.FlushesAt rounds v written → Aligned v.tty →
      Aligned (v.update written).tty)
    (h : w.FlushesAt rounds v written) : Aligned v.tty := by
  obtain ⟨before, r, after, u, rfl, hu, hcollect, -, -⟩ := h
  rw [(collect_quiet hcollect).2]
  exact aligned_run h₀ (fun v written hv => hwrites v written hv.mono) hu

theorem reachable_flushesAt {written : Int} (hw : w.serveri.Reachable config)
    (h : w.FlushesAt rounds v written) : v.serveri.Reachable config := by
  obtain ⟨before, r, after, u, -, hu, hcollect, -, -⟩ := h
  exact reachable_collect (reachable_run hw hu) hcollect

/-- Before the loop is entered, the frame is marked to be written, but nothing is written. -/
theorem construct_lightsDirty (h : World.construct config boot = .ok w) :
    w.serveri.lightsDirty = true ∧ w.tty = [] := by
  obtain ⟨-, htty, s, hs, hdeliver⟩ := reachable_start h
  refine ⟨?_, htty⟩
  have hdirty : s.lightsDirty = true := by
    obtain ⟨dmx, -, hupdate⟩ := serveriConstruct_eq_ok hs
    obtain ⟨text, -, hupdate⟩ := except_bind_eq_ok.mp hupdate
    obtain rfl := Except.ok.inj hupdate
    rfl
  exact lightsDirty_of_quiet (deliver_foldlM_quiet hdeliver).1 hdirty

/-- In a run, every write leaves the device with complete frames that end with the current one exactly
    if every write is taken as a whole, or not at all when the device has the current frame already. -/
theorem flushes_wholeFrames_iff (config : Config) (boot : Boot) (w₀ : World) (rounds : List Round)
    (h₀ : World.construct config boot = .ok w₀) :
    (∀ v written, w₀.FlushesAt rounds v written → (v.update written).WholeFrames) ↔
      ∀ v written, w₀.FlushesAt rounds v written →
        517 ≤ written ∨ written ≤ 0 ∧ v.serveri.dmx.dmxPacket <:+ v.tty := by
  obtain ⟨hreach, htty, -⟩ := reachable_start h₀
  have hstart : Aligned w₀.tty := ⟨[], by rw [htty]; rfl⟩
  constructor
  · intro h v written hv
    have haligned := aligned_flushesAt hstart (fun v written hv _ => (h v written hv).aligned) hv
    exact (wholeFrames_update_iff (reachable_flushesAt hreach hv) haligned written).mp (h v written hv)
  · intro h v written hv
    have hwrites : ∀ v written, w₀.FlushesAt rounds v written → Aligned v.tty →
        (v.update written).WholeFrames := fun v written hv haligned =>
      (wholeFrames_update_iff (reachable_flushesAt hreach hv) haligned written).mpr (h v written hv)
    exact hwrites v written hv
      (aligned_flushesAt hstart (fun v written hv ha => (hwrites v written hv ha).aligned) hv)

/-- A round in which a client sets light 0 by a datagram and `write` returns `written`. -/
def udpRound (written : Int) : Round where
  pollresult := 1
  revents i := if i = 0 then 1 else 0
  recv _ := some (asChars (encodePacket [97] [⟨0, white⟩]))
  callbacks _ := []
  written := written

/-- The datagram of the round is received, and there are no callbacks. -/
theorem collect_udpRound (w : World) (written : Int) (hbuffer : w.buffer.length < 2 ^ 31) :
    ∃ v, w.collect (udpRound written) = .ok v := by
  have hrecv : ∀ i, w.ReceivesAt (udpRound written) i → (udpRound written).recv i ≠ none :=
    fun i _ => Option.some_ne_none _
  obtain ⟨⟨v, processFDs⟩, hv⟩ :=
    (receive_ok_iff w (udpRound written) (by simp [udpRound]) hbuffer).mpr hrecv
  have hnone : (List.range processFDs.length).flatMap (udpRound written).callbacks = [] :=
    List.flatMap_eq_nil_iff.mpr fun j _ => rfl
  refine ⟨v, ?_⟩
  unfold World.collect
  rw [hv, ok_bind, service_eq, hnone]
  rfl

/-- The first round of the server with the default configuration writes something. -/
theorem exists_flushesAt (written : Int) :
    ∃ w₀ v, World.construct distConfig plainBoot = .ok w₀ ∧
      w₀.FlushesAt [udpRound written] v written ∧ v.tty = [] := by
  obtain ⟨w₀, h₀, hbuffer⟩ := world_construct_plainBoot
  obtain ⟨v, hcollect⟩ := collect_udpRound w₀ written (by omega)
  obtain ⟨hdirty, htty⟩ := construct_lightsDirty h₀
  obtain ⟨hquiet, htty'⟩ := collect_quiet hcollect
  exact ⟨w₀, v, h₀, ⟨[], _, [], w₀, rfl, rfl, hcollect, lightsDirty_of_quiet hquiet hdirty, rfl⟩,
    htty'.trans htty⟩

/-- A write that is taken as a whole. -/
theorem flushes_wholeFrames_udpRound :
    ∃ w₀ v, World.construct distConfig plainBoot = .ok w₀ ∧ w₀.FlushesAt [udpRound 517] v 517 ∧
      (v.update 517).WholeFrames := by
  obtain ⟨w₀, v, h₀, hflush, -⟩ := exists_flushesAt 517
  refine ⟨w₀, v, h₀, hflush, ?_⟩
  refine (flushes_wholeFrames_iff distConfig plainBoot w₀ [udpRound 517] h₀).mpr ?_ v 517 hflush
  rintro v' written ⟨before, r, after, u, hrounds, -, -, -, rfl⟩
  have hr : r ∈ [udpRound 517] := by rw [hrounds]; simp
  obtain rfl := List.mem_singleton.mp hr
  exact Or.inl (Int.le_refl _)

/-- A write of which only 100 bytes are taken leaves an incomplete frame. -/
theorem flushes_truncated :
    ¬ ∀ (config : Config) (boot : Boot) (w₀ : World) (rounds : List Round),
      World.construct config boot = .ok w₀ →
      (∀ r ∈ rounds, -1 ≤ r.written ∧ r.written ≤ 517) →
      ∀ v written, w₀.FlushesAt rounds v written → (v.update written).WholeFrames := by
  intro h
  obtain ⟨w₀, v, h₀, hflush, htty⟩ := exists_flushesAt 100
  have hwhole := h distConfig plainBoot w₀ [udpRound 100] h₀ (by decide) v 100 hflush
  have hreach := reachable_flushesAt (reachable_start h₀).1 hflush
  have hcond := (wholeFrames_update_iff hreach ⟨[], by rw [htty]; rfl⟩ 100).mp hwhole
  omega

/-! ## Waiting in `poll` -/

/-- The frame is to be written to the device that has been given `tty`. -/
def frameTracker (tty : List UInt8) : Tracker Serveri (List UInt8) where
  dirty := Serveri.lightsDirty
  current s := s.dmx.dmxPacket
  Published _ packet := EndsWith tty packet

theorem frameTracker_careful (tty : List UInt8) (s t : Serveri) (h : s.Quiet t) :
    (frameTracker tty).Careful s t := by
  refine h.dirty_or_same.imp_right fun ⟨hdirty, hdmx, _, _⟩ => ⟨hdirty, fun hpublished => ?_⟩
  show EndsWith tty t.dmx.dmxPacket
  rw [hdmx]
  exact hpublished

/-- After a round whose write is taken as a whole, nothing is left to write. -/
theorem round_wholeFrames {r : Round} {u : World} (hw : w.serveri.Reachable config)
    (haligned : Aligned w.tty) (hpending : w.serveri.lightsDirty = true ∨ w.WholeFrames)
    (hwhole : 517 ≤ r.written) (h : w.round r = .ok u) :
    u.serveri.lightsDirty = false ∧ u.WholeFrames := by
  obtain ⟨v, hcollect, hflush⟩ := except_bind_eq_ok.mp h
  obtain ⟨hquiet, htty⟩ := collect_quiet hcollect
  have hreach := reachable_collect hw hcollect
  have hup : (frameTracker w.tty).UpToDate v.serveri :=
    Tracker.UpToDate.run (frameTracker_careful w.tty) hquiet hpending
  rcases flush_eq_ok hflush with ⟨hclean, rfl⟩ | ⟨-, s, lws, hs, -, rfl⟩
  · refine ⟨hclean, ?_⟩
    unfold World.WholeFrames
    rw [htty]
    exact hup.published hclean
  · obtain ⟨message, rfl⟩ := hreach.cleaned.invariant.eq_of_updated hs
    exact ⟨rfl, (wholeFrames_update_iff hreach (htty ▸ haligned) r.written).mpr (Or.inl hwhole)⟩

/-- If every write is taken as a whole, the loop calls `poll` with nothing left to write and the
    current frame written last exactly if it has been through a round before. -/
theorem poll_clean_iff (config : Config) (boot : Boot) (w₀ w : World) (rounds : List Round)
    (h₀ : World.construct config boot = .ok w₀) (hrun : w₀.run rounds = .ok w)
    (hwhole : ∀ r ∈ rounds, 517 ≤ r.written) :
    (w.serveri.lightsDirty = false ∧ w.WholeFrames) ↔ rounds ≠ [] := by
  obtain ⟨hdirty, htty⟩ := construct_lightsDirty h₀
  have hreach := (reachable_start h₀).1
  induction rounds using List.reverseRecOn generalizing w with
  | nil =>
    obtain rfl := Except.ok.inj hrun
    simp [hdirty]
  | append_singleton rounds r ih =>
    refine iff_of_true ?_ (by simp)
    obtain ⟨u, hu, hround⟩ := foldlM_concat_eq_ok.mp hrun
    have hbefore := ih u hu fun r hr => hwhole r (List.mem_append_left _ hr)
    have hstart : Aligned u.tty ∧ (u.serveri.lightsDirty = true ∨ u.WholeFrames) := by
      by_cases hnil : rounds = []
      · subst hnil
        obtain rfl := Except.ok.inj hu
        exact ⟨⟨[], by rw [htty]; rfl⟩, Or.inl hdirty⟩
      · have hclean := (hbefore.mpr hnil).2
        exact ⟨hclean.aligned, Or.inr hclean⟩
    exact round_wholeFrames (reachable_run hreach hu) hstart.1 hstart.2 (hwhole r (by simp)) hround

/-- After a first round, the frame is written. -/
theorem poll_clean_udpRound :
    ∃ w₀ w, World.construct distConfig plainBoot = .ok w₀ ∧ w₀.run [udpRound 517] = .ok w ∧
      w.serveri.lightsDirty = false ∧ w.WholeFrames := by
  have hok : ((World.construct distConfig plainBoot).bind fun w => w.run [udpRound 517]).isOk = true := by
    decide +kernel
  obtain ⟨w, hw⟩ := exists_ok_of_isOk hok
  obtain ⟨w₀, h₀, hrun⟩ := except_bind_eq_ok.mp hw
  exact ⟨w₀, w, h₀, hrun,
    (poll_clean_iff distConfig plainBoot w₀ w [udpRound 517] h₀ hrun (by decide)).mpr (by simp)⟩

/-- The first call of `poll` is made while the frame of the constructor is not written. -/
theorem first_poll_dirty :
    ¬ ∀ (config : Config) (boot : Boot) (w₀ w : World) (rounds : List Round),
      World.construct config boot = .ok w₀ → w₀.run rounds = .ok w →
      (∀ r ∈ rounds, 517 ≤ r.written) → w.serveri.lightsDirty = false ∧ w.WholeFrames := by
  intro h
  obtain ⟨w₀, h₀, -⟩ := world_construct_plainBoot
  have hclean := (h distConfig plainBoot w₀ w₀ [] h₀ rfl (by simp)).1
  rw [(construct_lightsDirty h₀).1] at hclean
  cases hclean

end Valoserveri
