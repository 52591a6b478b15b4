import Valoserveri.Proofs.TagProofs
import Mathlib.Data.List.SplitLengths

/-!
# Messages that arrive in chunks

libwebsockets hands over a message that is fragmented or longer than its buffer in several callbacks,
and every one of them is taken to be a packet of its own. The message has the effect of the whole
only if it arrives in one piece, or is too short to say anything.
-/

namespace Valoserveri

open ExceptRun

/-! ## Packets without effect -/

/-- The server with its tag cleared. -/
def Serveri.cleared (s : Serveri) : Serveri :=
  { s with currentState := { s.currentState with tag := [] }, lightsDirty := true }

/-- A packet of at most three bytes has no tag and no commands. -/
theorem lightPacket_short (s : Serveri) {buf : StdString} (h : buf.length ≤ 3) :
    s.lightPacket buf = .ok s.cleared := by
  have hdecode : decodePacket buf = {} := by
    rcases buf with _ | ⟨a, _ | ⟨b, _ | ⟨c, _ | ⟨d, rest⟩⟩⟩⟩
    case cons.cons.cons.nil =>
      by_cases hc : c = 0
      · simp [decodePacket, decodeRecords, hc]
      · simp [decodePacket, decodeRecords, Ne.symm hc]
    case cons.cons.cons.cons =>
      simp only [List.length_cons] at h
      omega
    all_goals rfl
  rw [lightPacket_total s (by omega), hdecode]
  rfl

theorem lightPacket_cleared (s : Serveri) (buf : StdString) :
    s.cleared.lightPacket buf = s.lightPacket buf := by
  unfold Serveri.lightPacket
  congr 1
  funext packet
  rw [applyPacket_eq, applyPacket_eq]
  rfl

/-! ## Chunks without effect -/

theorem receiveChunks_append {s : Serveri} {chunks : List StdString} {last : StdString} :
    s.receiveChunks (chunks ++ [last]) =
      (s.receiveChunks chunks).bind fun t => t.lightPacket last := by
  unfold Serveri.receiveChunks
  rw [List.foldlM_append]
  show Except.bind _ _ = _
  congr 1
  funext t
  show (t.lightPacket last).bind _ = _
  cases t.lightPacket last <;> rfl

/-- Chunks of at most three bytes leave the server as it is, or clear its tag. -/
theorem receiveChunks_short (s : Serveri) (chunks : List StdString)
    (h : ∀ chunk ∈ chunks, chunk.length ≤ 3) :
    s.receiveChunks chunks = .ok (if chunks = [] then s else s.cleared) := by
  induction chunks using List.reverseRecOn with
  | nil => rfl
  | append_singleton chunks last ih =>
    have hne : chunks ++ [last] ≠ [] := by simp
    have hlast : last.length ≤ 3 := h last (by simp)
    rw [receiveChunks_append, ih fun c hc => h c (List.mem_append_left _ hc), ok_bind, if_neg hne]
    split_ifs with hnil
    · exact lightPacket_short s hlast
    · rw [lightPacket_cleared, lightPacket_short s hlast]

/-- After empty chunks, the last one is taken as the whole message. -/
theorem receiveChunks_empty_last (s : Serveri) {chunks : List StdString} (last : StdString)
    (h : ∀ chunk ∈ chunks, chunk = []) :
    s.receiveChunks (chunks ++ [last]) = s.lightPacket (chunks ++ [last]).flatten := by
  have hflat : chunks.flatten = [] := List.flatten_eq_nil_iff.mpr h
  rw [receiveChunks_append, receiveChunks_short s chunks fun c hc => by simp [h c hc], ok_bind,
    List.flatten_append, hflat]
  split_ifs
  · simp
  · rw [lightPacket_cleared]
    simp

/-! ## Chunks that matter -/

theorem receiveChunks_total (s : Serveri) {chunks : List StdString}
    (h : ∀ chunk ∈ chunks, chunk.length < 2 ^ 31) : ∃ t, s.receiveChunks chunks = .ok t := by
  have hstep : ∀ u : Serveri, True → ∀ chunk ∈ chunks,
      ∃ t, callback u (.RECEIVE chunk) = .ok t ∧ True :=
    fun u _ chunk hchunk => ⟨_, lightPacket_total u (h chunk hchunk), trivial⟩
  obtain ⟨t, ht, -⟩ := foldlM_total (fun _ => True) chunks hstep (s := s) trivial
  exact ⟨t, ht⟩

theorem receiveChunks_rejected_last {s t : Serveri} {chunks : List StdString} {last : StdString}
    (hrej : Rejected last) (h : s.receiveChunks (chunks ++ [last]) = .ok t) :
    t.currentState.tag = [] := by
  rw [receiveChunks_append] at h
  obtain ⟨u, -, hlast⟩ := except_bind_eq_ok.mp h
  rw [lightPacket_rejected u hrej] at hlast
  obtain rfl := Except.ok.inj hlast
  rfl

/-- The message with the tag `a` and `n` bytes of padding. -/
def paddedMessage (n : Nat) : StdString := 1 :: 0 :: 97 :: 0 :: List.replicate n 0

/-- The end of the message is rejected as a packet of its own. -/
theorem rejected_of_append {before last : StdString} {n : Nat} (hne : before ≠ [])
    (h : before ++ last = paddedMessage n) : Rejected last := by
  unfold Rejected
  cases last with
  | nil => exact Or.inl (by simp)
  | cons c last =>
    refine Or.inr (Or.inl fun hc => ?_)
    obtain rfl : c = 1 := by simpa using hc
    cases before with
    | nil => exact hne rfl
    | cons b before =>
      have htail : before ++ 1 :: last = 0 :: 97 :: 0 :: List.replicate n 0 := (List.cons.inj h).2
      have hmem : (1 : Int8) ∈ 0 :: 97 :: 0 :: List.replicate n 0 := by rw [← htail]; simp
      simp [List.mem_replicate] at hmem

theorem lightPacket_paddedMessage {config : Config} {s : Serveri} (hs : s.Invariant config) {n : Nat}
    (hn : n + 4 < 2 ^ 31) :
    ∃ t, s.lightPacket (paddedMessage n) = .ok t ∧ t.currentState.tag = lit "a" := by
  have hlen : (paddedMessage n).length < 2 ^ 31 := by simpa [paddedMessage] using hn
  refine ⟨_, lightPacket_total s hlen, ?_⟩
  obtain ⟨packet, hparse, htag⟩ := lightPacket_tag hs (lightPacket_total s hlen)
  rw [parseLightPacket_eq_decodePacket hlen] at hparse
  obtain rfl := Except.ok.inj hparse
  have hdecoded : (decodePacket (paddedMessage n)).tag = lit "a" := by
    simp [decodePacket, paddedMessage]
    decide
  rw [htag, hdecoded]
  decide

/-- A message that is cut behind its first byte may lose its tag. -/
theorem receiveChunks_differs {config : Config} {s : Serveri} (hs : s.Invariant config)
    (chunks : List StdString) (last : StdString) {n : Nat} (hn : n + 4 < 2 ^ 31)
    (hcut : chunks.flatten ≠ []) (hflat : (chunks ++ [last]).flatten = paddedMessage n) :
    (s.receiveChunks (chunks ++ [last])).map Serveri.shown ≠
      (s.lightPacket (chunks ++ [last]).flatten).map Serveri.shown := by
  intro hsame
  have hlen : (chunks ++ [last]).flatten.length < 2 ^ 31 := by
    rw [hflat]
    simpa [paddedMessage] using hn
  obtain ⟨t, ht⟩ := receiveChunks_total s fun chunk hchunk =>
    lt_of_le_of_lt (List.sublist_flatten_of_mem hchunk).length_le hlen
  obtain ⟨u, hu, htag⟩ := lightPacket_paddedMessage hs hn
  have hrej : Rejected last := rejected_of_append hcut (by rw [← hflat]; simp)
  have hempty := receiveChunks_rejected_last hrej ht
  rw [hflat, ht, hu] at hsame
  have hstate : t.currentState = u.currentState := (Prod.mk.inj (Except.ok.inj hsame)).2
  have hbad : [] = lit "a" := by rw [← hempty, hstate, htag]
  exact absurd hbad (by decide)

/-! ## All ways of cutting -/

/-- A message that arrives in one piece, or is too short, has the effect of the whole. -/
theorem receiveChunks_same (s : Serveri) {chunks : List StdString} (hne : chunks ≠ [])
    (h : chunks.flatten.length ≤ 3 ∨ ∀ n ∈ (chunks.map List.length).dropLast, n = 0) :
    s.receiveChunks chunks = s.lightPacket chunks.flatten := by
  rcases h with hshort | hempty
  · have hchunks : ∀ chunk ∈ chunks, chunk.length ≤ 3 := fun chunk hchunk =>
      le_trans (List.sublist_flatten_of_mem hchunk).length_le hshort
    rw [lightPacket_short s hshort, receiveChunks_short s chunks hchunks, if_neg hne]
  · obtain ⟨init, last, rfl⟩ := (List.eq_nil_or_concat' chunks).resolve_left hne
    rw [List.map_append, List.map_singleton, List.dropLast_concat] at hempty
    refine receiveChunks_empty_last s last fun chunk hchunk => ?_
    exact List.length_eq_zero_iff.mp (hempty _ (List.mem_map_of_mem hchunk))

/-- The message with the tag `a` can be cut into chunks of any lengths. -/
theorem exists_cut {lengths : List Nat} (hlong : 3 < lengths.sum)
    (hcut : ∃ n ∈ lengths.dropLast, n ≠ 0) :
    ∃ init last, (init ++ [last]).map List.length = lengths ∧ init.flatten ≠ [] ∧
      (init ++ [last]).flatten = paddedMessage (lengths.sum - 4) := by
  have hlength : (paddedMessage (lengths.sum - 4)).length = lengths.sum := by
    simp only [paddedMessage, List.length_cons, List.length_replicate]
    omega
  have hmap := List.map_splitLengths_length (paddedMessage (lengths.sum - 4)) lengths (by omega)
  have hflat := List.flatten_splitLengths (paddedMessage (lengths.sum - 4)) lengths (by omega)
  generalize lengths.splitLengths (paddedMessage (lengths.sum - 4)) = chunks at hmap hflat
  obtain ⟨n, hmem, hn⟩ := hcut
  rcases List.eq_nil_or_concat' chunks with rfl | ⟨init, last, rfl⟩
  · rw [← hmap] at hmem
    cases hmem
  · refine ⟨init, last, hmap, fun hnil => hn ?_, hflat⟩
    rw [← hmap, List.map_append, List.map_singleton, List.dropLast_concat] at hmem
    obtain ⟨chunk, hchunk, rfl⟩ := List.mem_map.mp hmem
    rw [List.flatten_eq_nil_iff.mp hnil chunk hchunk]
    rfl

/-- A message that is handed over in chunks of the given lengths always has the effect of the whole if
    it has at most three bytes or all chunks but the last are empty. Below `2^31` bytes this is also
    necessary, in every state of the server. -/
theorem receiveChunks_same_iff (config : Config) (s : Serveri) (lengths : List Nat)
    (hs : s.Reachable config) (hne : lengths ≠ []) :
    let Same := ∀ chunks, chunks.map List.length = lengths →
      (s.receiveChunks chunks).map Serveri.shown = (s.lightPacket chunks.flatten).map Serveri.shown
    let InOnePiece := lengths.sum ≤ 3 ∨ ∀ n ∈ lengths.dropLast, n = 0
    (InOnePiece → Same) ∧ (lengths.sum < 2 ^ 31 → (Same ↔ InOnePiece)) := by
  intro Same InOnePiece
  have hif : InOnePiece → Same := by
    rintro hpiece chunks rfl
    have hchunks : chunks ≠ [] := by simpa using hne
    rw [receiveChunks_same s hchunks (by rw [List.length_flatten]; exact hpiece)]
  refine ⟨hif, fun hlt => ⟨fun hsame => ?_, hif⟩⟩
  by_contra hpiece
  obtain ⟨hlong, hcut⟩ : 3 < lengths.sum ∧ ∃ n ∈ lengths.dropLast, n ≠ 0 := by
    simpa [InOnePiece] using hpiece
  obtain ⟨init, last, hmap, hbefore, hflat⟩ := exists_cut hlong hcut
  exact receiveChunks_differs hs.invariant init last (by omega) hbefore hflat (hsame _ hmap)

/-- An empty chunk before the message does not matter. -/
theorem receiveChunks_same_distConfig :
    ∃ s : Serveri, s.Reachable distConfig ∧
      (s.receiveChunks [[], paddedMessage 6]).map Serveri.shown =
        (s.lightPacket (paddedMessage 6)).map Serveri.shown := by
  obtain ⟨dmx, hdmx⟩ := construct_distConfig
  have hs : (Serveri.initial dmx 4).Reachable distConfig := .initial hdmx
  have hsame := (receiveChunks_same_iff distConfig _ [0, 10] hs (by decide)).1 (Or.inr (by decide))
  exact ⟨_, hs, hsame [[], paddedMessage 6] (by decide)⟩

/-- The message `1, 0, a, 0` loses its tag if its last byte comes in a chunk of its own. -/
theorem receiveChunks_two_chunks_differ :
    ¬ ∀ (config : Config) (s : Serveri) (chunks : List StdString), s.Reachable config → chunks ≠ [] →
      (s.receiveChunks chunks).map Serveri.shown =
        (s.lightPacket chunks.flatten).map Serveri.shown := by
  intro h
  obtain ⟨dmx, hdmx⟩ := construct_distConfig
  have hs : (Serveri.initial dmx 4).Reachable distConfig := .initial hdmx
  exact receiveChunks_differs hs.invariant [[1, 0, 97]] [0] (n := 0) (by decide) (by decide) rfl
    (h distConfig _ [[1, 0, 97], [0]] hs (by decide))

end Valoserveri
