import Valoserveri.Proofs.ClientProofs
import Valoserveri.Proofs.TraceProofs

/-!
# From the clients to the lights

The lights of the server are as the last commands for them say, whichever clients these come from. The
program in `instanssiController.py` keeps all lights blue but one, which it turns green.
-/

namespace Valoserveri

open FixedStore ExceptRun

/-! ## Sessions -/

theorem parseLightPacket_chars (p : ClientPacket) :
    parseLightPacket p.chars = .ok (sentPacket p.tag p.commands) := by
  have hchars := asChars_ne_zero p.tag_ne_zero
  have hlen : (asChars p.tag).length = p.tag.length := by simp [asChars]
  have hlength := p.length_lt
  rw [encodePacket_length] at hlength
  unfold ClientPacket.chars
  rw [asChars_encodePacket,
    parseLightPacket_terminated hchars (by omega) (by rw [commandBody_length]; omega),
    decodeRecords_commandBody, (map_decodedCommand_eq_iff p.tag p.commands).mpr p.index_lt]
  rfl

/-- What is decoded from the packets of a session is what the clients meant to send. -/
theorem decoded_session {session : List ClientPacket} {packets : List LightPacket}
    (h : List.Forall₂ (fun buf packet => parseLightPacket buf = .ok packet)
      (session.map ClientPacket.chars) packets) :
    packets = session.map fun p => sentPacket p.tag p.commands := by
  rw [List.forall₂_map_left_iff] at h
  induction h with
  | nil => rfl
  | @cons p packet session packets hparse _ ih =>
    rw [List.map_cons, ← ih]
    exact congrArg (· :: packets) (Except.ok.inj (hparse.symm.trans (parseLightPacket_chars p)))

theorem calls_session (session : List ClientPacket) :
    (session.map fun p => sentPacket p.tag p.commands).flatMap LightPacket.calls =
      session.flatMap ClientPacket.assignments := by
  rw [List.flatMap_map]
  refine List.flatMap_congr fun p _ => ?_
  simp [LightPacket.calls, sentPacket, ClientPacket.assignments]

variable {config : Config} {boot : Boot} {rounds : List Round} {lights : LightsConfig} {w v : World}

/-- The lights do what the clients say. If the packets that a server hears are those of any clients, one
    after the other, then the tag is that of the last packet, and each light of the configuration has the
    colour of the last command for it, in the state and, if it shares none of its bytes, in the frame. -/
theorem session_shown {session : List ClientPacket} (hparse : LightsConfig.parse config = .ok lights)
    (hw : World.construct config boot = .ok w) (hrun : w.run rounds = .ok v)
    (hheard : boot.heard ++ w.heard rounds = session.map ClientPacket.chars) :
    v.serveri.currentState.tag =
        (session.getLast?.map fun p => (asChars p.tag).filter fun c => tagWhitelist.contains c).getD [] ∧
      ∀ k light, lights.lights.lookup k = some light →
        v.serveri.currentState.lights.lookup k =
            some ((lastWrite (session.flatMap ClientPacket.assignments) k).getD {}) ∧
          (lights.Separate k light →
            light.Shows ((lastWrite (session.flatMap ClientPacket.assignments) k).getD {})
              v.serveri.dmx.dmxPacket) := by
  obtain ⟨packets, hparsed, hshown⟩ := run_shown hparse hw hrun
  rw [hheard] at hparsed
  obtain rfl := decoded_session hparsed
  refine ⟨?_, fun k light hl => ?_⟩
  · rw [hshown.tag, List.getLast?_map, Option.map_map]
    rfl
  · have hcolor := hshown.color k
    rw [hl, Option.map_some, calls_session] at hcolor
    refine ⟨hcolor, fun hsep => ?_⟩
    obtain ⟨color, hlookup, hshows⟩ := (reachable_run (reachable_start hw).1 hrun).agrees hparse hl hsep
    obtain rfl := Option.some.inj (hlookup.symm.trans hcolor)
    exact hshows

theorem toNat_index {i : Nat} (hi : i < 128) : (UInt8.ofNat i).toUInt32.toNat = i := by
  rw [UInt8.toNat_toUInt32, UInt8.toNat_ofNat']
  omega

/-- A packet with one command for each of the first `n` lights. -/
theorem lastWrite_range {n : Nat} (hn : n ≤ 128) (color : Nat → Color) {k : UInt32} (hk : k.toNat < n) :
    lastWrite ((List.range n).map fun i => ((UInt8.ofNat i).toUInt32, color i)) k =
      some (color k.toNat) := by
  have hkey : (UInt8.ofNat k.toNat).toUInt32 = k := UInt32.toNat_inj.mp (toNat_index (by omega))
  refine lastWrite_eq_some_of_forall ?_ fun w hw hwk => ?_
  · exact List.mem_map.mpr ⟨k.toNat, List.mem_range.mpr hk, by rw [hkey]⟩
  · obtain ⟨i, hi, rfl⟩ := List.mem_map.mp hw
    have hi' := List.mem_range.mp hi
    rw [← hwk, toNat_index (by omega)]

/-! ## The program in `instanssiController.py` -/

theorem batches_append (waiting : List SetCall) (calls calls' : List InstanssiCall) :
    batches waiting (calls ++ calls') =
      ((batches waiting calls).1 ++ (batches (batches waiting calls).2 calls').1,
        (batches (batches waiting calls).2 calls').2) := by
  induction calls generalizing waiting with
  | nil => rfl
  | cons call calls ih =>
    cases call with
    | set s => exact ih (waiting ++ [s])
    | send sendto =>
      rw [List.cons_append, batches_send, batches_send]
      split_ifs
      · rw [ih]
        rfl
      · exact ih waiting

/-- All lights are set to blue. -/
def allBlue : List SetCall := (List.range 36).map fun i : Nat => ⟨i, 0, 0, 255⟩

/-- The calls that the program sends together. -/
def programBatches (n : Nat) (green : Bool) : List (List SetCall) :=
  [allBlue] ++ (List.range n).flatMap (fun i =>
      [[⟨(i % 36 : Nat), 0, 255, 0⟩], [⟨(i % 36 : Nat), 0, 0, 255⟩]]) ++
    if green then [[⟨(n % 36 : Nat), 0, 255, 0⟩]] else []

theorem validCall {i : Nat} (hi : i < 36) {g b : Int} (hg : 0 ≤ g ∧ g < 256) (hb : 0 ≤ b ∧ b < 256) :
    SetCall.Valid ⟨i, 0, g, b⟩ := by
  simp only [SetCall.Valid, List.forall_mem_cons]
  exact ⟨by omega, by omega, hg, hb, by simp⟩

theorem batches_rotate {i : Nat} (hi : i < 36) (second : Bool) :
    batches [] (rotate i second) =
      ([[⟨i, 0, 255, 0⟩]] ++ if second then [[⟨i, 0, 0, 255⟩]] else [], []) := by
  have hgreen : SetCall.Valid ⟨i, 0, 255, 0⟩ := validCall hi (by omega) (by omega)
  have hblue : SetCall.Valid ⟨i, 0, 0, 255⟩ := validCall hi (by omega) (by omega)
  cases second <;> simp [rotate, batches, hgreen, hblue]

theorem batches_rounds (n : Nat) :
    batches [] ((List.range n).flatMap fun i => rotate (i % 36) true) =
      ((List.range n).flatMap fun i =>
        [[⟨(i % 36 : Nat), 0, 255, 0⟩], [⟨(i % 36 : Nat), 0, 0, 255⟩]], []) := by
  induction n with
  | zero => rfl
  | succ n ih =>
    rw [List.range_succ, List.flatMap_append, List.flatMap_append, batches_append, ih, List.flatMap_singleton,
      List.flatMap_singleton, batches_rotate (Nat.mod_lt n (by omega))]
    rfl

theorem batches_allBlue :
    batches [] ((List.range 36).map (fun i : Nat => .set ⟨i, 0, 0, 255⟩) ++ [.send true]) =
      ([allBlue], []) := by
  decide +kernel

theorem batches_program (n : Nat) (green : Bool) :
    batches [] (instanssiProgram n green) = (programBatches n green, []) := by
  unfold instanssiProgram programBatches
  rw [batches_append, batches_append, batches_allBlue, batches_rounds]
  cases green with
  | false => rfl
  | true =>
    simp only [if_true]
    rw [batches_rotate (Nat.mod_lt n (by omega))]
    rfl

/-- The colour that a call assigns. -/
def SetCall.assignment (s : SetCall) : UInt32 × Color := (s.command.index.toUInt32, s.command.color)

/-- Calls for at most 36 lights that are sent together. -/
def FitsProgram (waiting : List SetCall) : Prop :=
  waiting.length ≤ 36 ∧ ∀ s ∈ waiting, ∃ i : Nat, i < 36 ∧ s.i = i

theorem programBatches_fit (n : Nat) (green : Bool) :
    ∀ waiting ∈ programBatches n green, FitsProgram waiting := by
  have hsingle : ∀ m r g b, FitsProgram [⟨(m % 36 : Nat), r, g, b⟩] := by
    intro m r g b
    refine ⟨by simp, fun s hs => ⟨m % 36, Nat.mod_lt m (by omega), ?_⟩⟩
    rw [List.mem_singleton.mp hs]
  have hblue : FitsProgram allBlue := by
    refine ⟨by simp [allBlue], fun s hs => ?_⟩
    obtain ⟨i, hi, rfl⟩ := List.mem_map.mp hs
    exact ⟨i, List.mem_range.mp hi, rfl⟩
  intro waiting hwaiting
  unfold programBatches at hwaiting
  rcases List.mem_append.mp hwaiting with hwaiting | hwaiting
  · rcases List.mem_append.mp hwaiting with hwaiting | hwaiting
    · rw [List.mem_singleton.mp hwaiting]
      exact hblue
    · obtain ⟨i, -, hi⟩ := List.mem_flatMap.mp hwaiting
      rcases List.mem_pair.mp hi with rfl | rfl
      · exact hsingle i 0 255 0
      · exact hsingle i 0 0 255
  · cases green with
    | false => simp at hwaiting
    | true =>
      rw [List.mem_singleton.mp hwaiting]
      exact hsingle n 0 255 0

theorem command_index {s : SetCall} {i : Nat} (hi : i < 36) (h : s.i = i) :
    s.command.index.toNat = i := by
  unfold SetCall.command
  rw [h, Int.toNat_natCast, UInt8.toNat_ofNat']
  omega

theorem instanssiNick_ne_zero : ∀ b ∈ instanssiNick.map UInt8.ofNat, b ≠ 0 := by decide +kernel

/-- The packet that calls of the program are sent in. -/
def programPacket (waiting : List SetCall) (h : FitsProgram waiting) : ClientPacket where
  tag := instanssiNick.map UInt8.ofNat
  commands := waiting.map SetCall.command
  tag_ne_zero := instanssiNick_ne_zero
  index_lt := by
    intro c hc
    obtain ⟨s, hs, rfl⟩ := List.mem_map.mp hc
    obtain ⟨i, hi, heq⟩ := h.2 s hs
    rw [UInt8.lt_iff_toNat_lt, command_index hi heq]
    exact hi.trans (by decide)
  length_lt := by
    have htag : (instanssiNick.map UInt8.ofNat).length = 15 := by decide
    have hlength := h.1
    rw [encodePacket_length, htag, List.length_map]
    omega

/-- The packets of the program are packets that the server decodes as they are meant. -/
theorem exists_session {sent : List (List SetCall)} (h : ∀ waiting ∈ sent, FitsProgram waiting) :
    ∃ session : List ClientPacket,
      session.map ClientPacket.chars = (sent.map (sentBytes instanssiNick)).map asChars ∧
      session.flatMap ClientPacket.assignments = sent.flatten.map SetCall.assignment ∧
      session.getLast?.map ClientPacket.tag = sent.getLast?.map fun _ => instanssiNick.map UInt8.ofNat := by
  induction sent with
  | nil => exact ⟨[], rfl, rfl, rfl⟩
  | cons waiting sent ih =>
    obtain ⟨session, hchars, hassignments, hlast⟩ := ih fun b hb => h b (List.mem_cons_of_mem _ hb)
    refine ⟨programPacket waiting (h waiting List.mem_cons_self) :: session, ?_, ?_, ?_⟩
    · rw [List.map_cons, hchars]
      rfl
    · rw [List.flatMap_cons, hassignments, List.flatten_cons, List.map_append]
      simp [programPacket, ClientPacket.assignments, SetCall.assignment]
    · rw [List.getLast?_cons, List.getLast?_cons, Option.map_some, Option.map_some]
      cases hsession : session.getLast? with
      | none => rfl
      | some q =>
        rw [hsession] at hlast
        obtain ⟨-, -, htag⟩ := Option.map_eq_some_iff.mp hlast.symm
        exact congrArg some htag.symm

/-- A single call, as light `k` sees it. -/
theorem lastWrite_call {i : Nat} (hi : i < 36) (k : UInt32) (g b : Int) :
    lastWrite [SetCall.assignment ⟨i, 0, g, b⟩] k =
      if k.toNat = i then some (SetCall.command ⟨i, 0, g, b⟩).color else none := by
  have hindex := command_index hi (rfl : (SetCall.mk i 0 g b).i = i)
  have hkey : (SetCall.assignment ⟨i, 0, g, b⟩).1 = k ↔ k.toNat = i := by
    rw [← UInt32.toNat_inj]
    show (SetCall.command ⟨i, 0, g, b⟩).index.toUInt32.toNat = _ ↔ _
    rw [UInt8.toNat_toUInt32, hindex]
    exact eq_comm
  simp only [lastWrite, Option.none_or, hkey]
  rfl

theorem programBatches_succ (n : Nat) : programBatches (n + 1) false = programBatches n false ++
    [[⟨(n % 36 : Nat), 0, 255, 0⟩], [⟨(n % 36 : Nat), 0, 0, 255⟩]] := by
  simp [programBatches, List.range_succ]

/-- Between two rounds, all lights are blue. -/
theorem lastWrite_rounds (n : Nat) {k : UInt32} (hk : k.toNat < 36) :
    lastWrite ((programBatches n false).flatten.map SetCall.assignment) k = some { blue := 255 } := by
  induction n with
  | zero =>
    have hblue : (programBatches 0 false).flatten.map SetCall.assignment =
        (List.range 36).map fun i => ((UInt8.ofNat i).toUInt32, { blue := 255 }) := by
      simp [programBatches, allBlue, SetCall.assignment, SetCall.command]
    rw [hblue]
    exact lastWrite_range (by decide) (fun _ => { blue := 255 }) hk
  | succ n ih =>
    have hn : n % 36 < 36 := Nat.mod_lt n (by omega)
    rw [programBatches_succ, List.flatten_append, List.map_append, lastWrite_append, ih]
    show (lastWrite ([SetCall.assignment ⟨(n % 36 : Nat), 0, 255, 0⟩] ++
      [SetCall.assignment ⟨(n % 36 : Nat), 0, 0, 255⟩]) k).or _ = _
    rw [lastWrite_append, lastWrite_call hn, lastWrite_call hn]
    split_ifs <;> rfl

/-- What the program leaves at light `k`. -/
theorem lastWrite_program (n : Nat) (green : Bool) {k : UInt32} (hk : k.toNat < 36) :
    lastWrite ((programBatches n green).flatten.map SetCall.assignment) k =
      some (if green = true ∧ k.toNat = n % 36 then { green := 255 } else { blue := 255 }) := by
  cases green with
  | false => simpa using lastWrite_rounds n hk
  | true =>
    have hlast : programBatches n true = programBatches n false ++ [[⟨(n % 36 : Nat), 0, 255, 0⟩]] := by
      simp [programBatches]
    rw [hlast, List.flatten_append, List.map_append, lastWrite_append, lastWrite_rounds n hk]
    show (lastWrite [SetCall.assignment ⟨(n % 36 : Nat), 0, 255, 0⟩] k).or _ = _
    rw [lastWrite_call (Nat.mod_lt n (by omega))]
    by_cases hn : k.toNat = n % 36
    · rw [if_pos hn, if_pos ⟨rfl, hn⟩]
      rfl
    · rw [if_neg hn, if_neg fun h => hn h.2]
      rfl

/-- The program in `instanssiController.py` turns one light after the other green. Whenever a server has
    heard the packets that the program has sent up to some moment, all lights up to number 35 are blue,
    but for the one that the current round of the loop has turned green. -/
theorem instanssiProgram_shown (config : Config) (boot : Boot) (rounds : List Round) (lights : LightsConfig)
    (w v : World) (n : Nat) (green : Bool) (hparse : LightsConfig.parse config = .ok lights)
    (hw : World.construct config boot = .ok w) (hrun : w.run rounds = .ok v)
    (hheard : boot.heard ++ w.heard rounds =
      ((Instanssi.construct instanssiNick).calls (instanssiProgram n green)).sent.map asChars) :
    v.serveri.currentState.tag = lit "instanssilainen" ∧
      ∀ k light, lights.lights.lookup k = some light → k.toNat < 36 →
        v.serveri.currentState.lights.lookup k =
            some (if green = true ∧ k.toNat = n % 36 then { green := 255 } else { blue := 255 }) ∧
          (lights.Separate k light →
            light.Shows (if green = true ∧ k.toNat = n % 36 then { green := 255 } else { blue := 255 })
              v.serveri.dmx.dmxPacket) := by
  have hnick : ∀ x ∈ instanssiNick, x < 256 := by decide
  have hsent := ((construct_waits instanssiNick).calls hnick (instanssiProgram n green)).sent_eq
  rw [List.nil_append, batches_program] at hsent
  obtain ⟨session, hchars, hassignments, hlast⟩ := exists_session (programBatches_fit n green)
  rw [hsent, ← hchars] at hheard
  obtain ⟨htag, hlights⟩ := session_shown hparse hw hrun hheard
  refine ⟨?_, fun k light hl hk => ?_⟩
  · cases hsession : session.getLast? with
    | none =>
      rw [hsession] at hlast
      simp [programBatches] at hlast
    | some p =>
      rw [hsession] at hlast htag
      obtain ⟨-, -, hp⟩ := Option.map_eq_some_iff.mp hlast.symm
      rw [htag, Option.map_some, Option.getD_some, ← hp]
      decide +kernel
  · obtain ⟨hcolor, hframe⟩ := hlights k light hl
    rw [hassignments, lastWrite_program n green hk] at hcolor hframe
    exact ⟨hcolor, hframe⟩

/-- A round in which the first packet of the program comes in. -/
def programRound : Round :=
  { udpRound 517 with recv := fun _ => some (asChars (sentBytes instanssiNick allBlue)) }

/-- Light 0 is blue when the program has sent its first packet. -/
theorem instanssiProgram_shown_first :
    ∃ w v, World.construct distConfig plainBoot = .ok w ∧ w.run [programRound] = .ok v ∧
      v.serveri.currentState.lights.lookup 0 = some { blue := 255 } ∧
      Light.Shows ⟨.RGB, 1, 5⟩ { blue := 255 } v.serveri.dmx.dmxPacket := by
  have hok : ((World.construct distConfig plainBoot).bind fun w => (w.run [programRound]).map fun _ =>
      plainBoot.heard ++ w.heard [programRound]) =
        .ok (((Instanssi.construct instanssiNick).calls (instanssiProgram 0 false)).sent.map asChars) := by
    decide +kernel
  obtain ⟨w, hw, hok⟩ := except_bind_eq_ok.mp hok
  obtain ⟨v, hrun, hheard⟩ := map_eq_ok hok
  obtain ⟨-, hlights⟩ := instanssiProgram_shown distConfig plainBoot [programRound]
    _ w v 0 false parse_distConfig hw hrun hheard
  obtain ⟨hblue, hshows⟩ := hlights 0 ⟨.RGB, 1, 5⟩ rfl (by decide)
  exact ⟨w, v, hw, hrun, hblue, hshows (separate_distConfig rfl)⟩

end Valoserveri
