import Valoserveri.Proofs.RunProofs

/-!
# Light packets and closed connections

Parsing a packet can stop the server in several ways, but none of them is the use of a closed
connection.
-/

namespace Valoserveri

open ExceptRun

theorem avoids_spanAt (packet : StdString) (idx : Nat) :
    Avoids .danglingConnection (spanAt packet idx) := by
  unfold spanAt
  split
  · exact avoids_ok _ _
  · exact avoids_error (by decide)

theorem avoids_findTagEnd (packet : StdString) (fuel i : Nat) :
    Avoids .danglingConnection (findTagEnd packet fuel i) := by
  induction fuel generalizing i with
  | zero => exact avoids_error (by decide)
  | succ fuel ih =>
    rw [findTagEnd]
    split_ifs
    · refine (avoids_spanAt packet i).bind fun c _ => ?_
      split_ifs
      · exact avoids_ok _ _
      · exact ih _
    · exact avoids_ok _ _

theorem avoids_parseTag (packet : StdString) : Avoids .danglingConnection (parseTag packet) := by
  refine (avoids_findTagEnd packet _ _).bind fun found _ => ?_
  cases found with
  | none => exact avoids_ok _ _
  | some i =>
    refine Avoids.bind ?_ fun tag _ => avoids_ok _ _
    unfold stringRange
    split_ifs
    · exact avoids_error (by decide)
    · exact avoids_ok _ _

theorem avoids_recordByte (packet : StdString) (offset k : Int) :
    Avoids .danglingConnection (recordByte packet offset k) := by
  refine Avoids.bind ?_ fun idx _ => avoids_spanAt packet _
  unfold addInt
  split_ifs
  · exact avoids_ok _ _
  · exact avoids_error (by decide)

theorem avoids_parseRecord (packet : StdString) (offset : Int) :
    Avoids .danglingConnection (parseRecord packet offset) := by
  refine (avoids_recordByte packet offset 1).bind fun index _ => ?_
  refine (avoids_recordByte packet offset 3).bind fun red _ => ?_
  refine (avoids_recordByte packet offset 4).bind fun green _ => ?_
  exact (avoids_recordByte packet offset 5).bind fun blue _ => avoids_ok _ _

theorem avoids_recordLoop (packet : StdString) (base : Int) (n i : Nat) :
    Avoids .danglingConnection (recordLoop packet base n i) := by
  induction n generalizing i with
  | zero => exact avoids_ok _ _
  | succ n ih =>
    rw [recordLoop]
    refine (avoids_recordByte packet _ 0).bind fun type _ => ?_
    split_ifs
    · exact ih _
    · refine (avoids_parseRecord packet _).bind fun l _ => ?_
      exact (ih _).bind fun ls _ => avoids_ok _ _

theorem avoids_parseLightPacket (packet : StdString) :
    Avoids .danglingConnection (parseLightPacket packet) := by
  rcases parseLightPacket_cases packet with ⟨-, hparse⟩ | ⟨-, hparse⟩
  · rw [hparse]
    exact avoids_ok _ _
  · rw [hparse]
    refine (avoids_parseTag packet).bind fun tag _ => ?_
    exact (avoids_recordLoop packet _ _ _).bind fun lights _ => avoids_ok _ _

theorem avoids_lightPacket (s : Serveri) (buf : StdString) :
    Avoids .danglingConnection (s.lightPacket buf) :=
  (avoids_parseLightPacket buf).bind fun _ _ => avoids_ok _ _

theorem avoids_callback (s : Serveri) (reason : Reason) :
    Avoids .danglingConnection (callback s reason) := by
  cases reason with
  | RECEIVE data => exact avoids_lightPacket s data
  | SERVER_WRITEABLE => exact avoids_error (by decide)
  | PROTOCOL_INIT | ESTABLISHED | CLOSED | ADD_POLL_FD | DEL_POLL_FD | CHANGE_MODE_POLL_FD | other =>
    exact avoids_ok _ _

theorem avoids_scan (r : Round) (fds : List Pollfd) (pos : Nat) (st : ScanState) :
    Avoids .danglingConnection (scan r fds pos st) := by
  induction fds generalizing pos st with
  | nil => exact avoids_ok _ _
  | cons fd fds ih =>
    rw [scan]
    split_ifs
    · exact avoids_ok _ _
    · refine Avoids.bind ?_ fun st _ => (ih _ _).bind fun rest _ => avoids_ok _ _
      refine Avoids.bind ?_ fun packet _ => (avoids_lightPacket _ packet).bind fun s _ => avoids_ok _ _
      unfold spanFirst
      split_ifs
      · exact avoids_ok _ _
      · exact avoids_error (by decide)
    · exact (avoids_ok _ _).bind fun st _ => (ih _ _).bind fun rest _ => avoids_ok _ _
    · exact (ih _ _).bind fun rest _ => avoids_ok _ _

theorem avoids_receive (w : World) (r : Round) : Avoids .danglingConnection (w.receive r) := by
  unfold World.receive
  split_ifs
  · exact avoids_error (by decide)
  · exact (avoids_scan r _ _ _).bind fun scanned _ => avoids_ok _ _

end Valoserveri
