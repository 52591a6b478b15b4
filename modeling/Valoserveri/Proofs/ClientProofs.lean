import Valoserveri.Clients
import Valoserveri.Proofs.RoundTripProofs

/-!
# What the clients send

What the clients send are the commands they are given, in order and complete, although one of them goes
on with the packet of a call that has failed, and the other with the array of the packet before.
-/

namespace Valoserveri

/-! ## `Instanssi` -/

/-- What the packet is while some calls wait. -/
def waitingPacket (nick : List Nat) (waiting : List SetCall) : List Int :=
  [1, 0] ++ nick.map Int.ofNat ++ [0] ++ waiting.flatMap fun s => [1, s.i, 0, s.r, s.g, s.b]

/-- What is sent of the calls that wait. -/
def sentBytes (nick : List Nat) (waiting : List SetCall) : List UInt8 :=
  encodePacket (nick.map UInt8.ofNat) (waiting.map SetCall.command)

theorem waitingPacket_bytes_iff (nick : List Nat) (waiting : List SetCall) :
    (∀ x ∈ waitingPacket nick waiting, 0 ≤ x ∧ x < 256) ↔
      (∀ c ∈ nick, c < 256) ∧ ∀ s ∈ waiting, s.Valid := by
  have hcall : ∀ s : SetCall, (∀ x ∈ [1, s.i, 0, s.r, s.g, s.b], 0 ≤ x ∧ x < 256) ↔ s.Valid := by
    intro s
    simp [SetCall.Valid]
  have hnick : (∀ x ∈ nick.map Int.ofNat, 0 ≤ x ∧ x < 256) ↔ ∀ c ∈ nick, c < 256 := by
    simp only [List.forall_mem_map, Int.ofNat_eq_natCast]
    exact forall₂_congr fun c _ => by omega
  unfold waitingPacket
  simp only [List.forall_mem_append, List.forall_mem_flatMap, hcall, hnick]
  simp

theorem bytearray_waitingPacket {nick : List Nat} {waiting : List SetCall} (hnick : ∀ c ∈ nick, c < 256)
    (h : ∀ s ∈ waiting, s.Valid) :
    bytearray (waitingPacket nick waiting) = some (sentBytes nick waiting) := by
  unfold bytearray
  rw [if_pos ((waitingPacket_bytes_iff nick waiting).mpr ⟨hnick, h⟩)]
  unfold waitingPacket sentBytes encodePacket
  simp [List.map_flatMap, List.flatMap_map, encodeCommand, SetCall.command]

/-- The client has sent some datagrams, and some calls wait. -/
structure Instanssi.Waits (c : Instanssi) (nick : List Nat) (sent : List (List UInt8))
    (waiting : List SetCall) : Prop where
  nick_eq : c.nick = nick
  packet_eq : c.packet = waitingPacket nick waiting
  sent_eq : c.sent = sent

theorem batches_send (waiting : List SetCall) (sendto : Bool) (calls : List InstanssiCall) :
    batches waiting (.send sendto :: calls) = if sendto = true ∧ ∀ s ∈ waiting, s.Valid then
      (waiting :: (batches [] calls).1, (batches [] calls).2) else batches waiting calls := rfl

section Instanssi

variable {c : Instanssi} {nick : List Nat} {sent : List (List UInt8)} {waiting : List SetCall}

theorem Instanssi.Waits.set (h : c.Waits nick sent waiting) (s : SetCall) :
    (c.set s).Waits nick sent (waiting ++ [s]) := by
  refine ⟨h.nick_eq, ?_, h.sent_eq⟩
  unfold Instanssi.set waitingPacket
  rw [h.packet_eq]
  simp [waitingPacket]

/-- The calls are sent. -/
theorem Instanssi.Waits.send (h : c.Waits nick sent waiting) (hnick : ∀ x ∈ nick, x < 256)
    (hvalid : ∀ s ∈ waiting, s.Valid) :
    (c.send true).Waits nick (sent ++ [sentBytes nick waiting]) [] := by
  unfold Instanssi.send
  rw [h.packet_eq, bytearray_waitingPacket hnick hvalid]
  refine ⟨h.nick_eq, ?_, congrArg (· ++ [_]) h.sent_eq⟩
  simp [Instanssi.reset, waitingPacket, h.nick_eq]

/-- Nothing is sent, and the calls go on waiting. -/
theorem Instanssi.Waits.send_fails (h : c.Waits nick sent waiting) {sendto : Bool}
    (hfails : ¬ (sendto = true ∧ (∀ x ∈ nick, x < 256) ∧ ∀ s ∈ waiting, s.Valid)) : c.send sendto = c := by
  unfold Instanssi.send
  rw [h.packet_eq]
  cases sendto with
  | false => split <;> rfl
  | true =>
    have hnone : bytearray (waitingPacket nick waiting) = none := by
      unfold bytearray
      rw [if_neg fun hbytes => hfails ⟨rfl, (waitingPacket_bytes_iff nick waiting).mp hbytes⟩]
    rw [hnone]

theorem Instanssi.Waits.calls (h : c.Waits nick sent waiting) (hnick : ∀ x ∈ nick, x < 256)
    (calls : List InstanssiCall) :
    (c.calls calls).Waits nick (sent ++ (batches waiting calls).1.map (sentBytes nick))
      (batches waiting calls).2 := by
  induction calls generalizing c sent waiting with
  | nil => simpa [batches, Instanssi.calls] using h
  | cons call calls ih =>
    cases call with
    | set s => exact ih (h.set s)
    | send sendto =>
      rw [batches_send]
      by_cases hsend : sendto = true ∧ ∀ s ∈ waiting, s.Valid
      · obtain ⟨rfl, hvalid⟩ := hsend
        rw [if_pos ⟨rfl, hvalid⟩, List.map_cons, List.append_cons]
        exact ih (h.send hnick hvalid)
      · rw [if_neg hsend]
        have hsame : c.send sendto = c := h.send_fails fun hall => hsend ⟨hall.1, hall.2.2⟩
        show (Instanssi.calls (c.send sendto) calls).Waits _ _ _
        rw [hsame]
        exact ih h

theorem batches_flatten (waiting : List SetCall) (calls : List InstanssiCall) :
    (batches waiting calls).1.flatten ++ (batches waiting calls).2 =
      waiting ++ calls.filterMap InstanssiCall.set? := by
  induction calls generalizing waiting with
  | nil => simp [batches]
  | cons call calls ih =>
    cases call with
    | set s => simpa [batches, InstanssiCall.set?] using ih (waiting ++ [s])
    | send sendto =>
      have hskip : (InstanssiCall.send sendto :: calls).filterMap InstanssiCall.set? =
          calls.filterMap InstanssiCall.set? := List.filterMap_cons_none rfl
      rw [batches_send, hskip]
      split_ifs
      · simpa using ih []
      · exact ih waiting

theorem batches_valid (waiting : List SetCall) (calls : List InstanssiCall) :
    ∀ s ∈ (batches waiting calls).1.flatten, s.Valid := by
  induction calls generalizing waiting with
  | nil => simp [batches]
  | cons call calls ih =>
    cases call with
    | set s => exact ih (waiting ++ [s])
    | send sendto =>
      rw [batches_send]
      split_ifs with hsend
      · intro s hs
        rcases List.mem_append.mp hs with hs | hs
        · exact hsend.2 s hs
        · exact ih [] s hs
      · exact ih waiting

/-- A client whose nick is not made of bytes never sends anything. -/
theorem Instanssi.Waits.calls_badNick (h : c.Waits nick sent waiting) (hnick : ¬ ∀ x ∈ nick, x < 256)
    (calls : List InstanssiCall) : (c.calls calls).sent = sent := by
  induction calls generalizing c waiting with
  | nil => exact h.sent_eq
  | cons call calls ih =>
    cases call with
    | set s => exact ih (h.set s)
    | send sendto =>
      have hsame : c.send sendto = c := h.send_fails fun hall => hnick hall.2.1
      show (Instanssi.calls (c.send sendto) calls).sent = sent
      rw [hsame]
      exact ih h

end Instanssi

theorem construct_waits (nick : List Nat) : (Instanssi.construct nick).Waits nick [] [] := by
  refine ⟨rfl, ?_, rfl⟩
  simp [Instanssi.construct, Instanssi.reset, waitingPacket]

/-- `Instanssi` neither loses nor reorders commands. Whenever `set` and `send` are called, and whichever
    of the calls of `send` throw, each datagram has the commands that were set since the one before it,
    and the commands that are in none wait in order. A value that is no byte stops the client: of the
    calls from it on, none is ever sent. With a nick that is not made of bytes nothing is sent at all. -/
theorem instanssi_sends_in_order (nick : List Nat) (calls : List InstanssiCall) :
    ((Instanssi.construct nick).calls calls).sent =
        (if ∀ x ∈ nick, x < 256 then (batches [] calls).1.map (sentBytes nick) else []) ∧
      (batches [] calls).1.flatten ++ (batches [] calls).2 = calls.filterMap InstanssiCall.set? ∧
      ∀ before s after, calls.filterMap InstanssiCall.set? = before ++ s :: after → ¬ s.Valid →
        (batches [] calls).1.flatten.length ≤ before.length := by
  have hall := batches_flatten [] calls
  rw [List.nil_append] at hall
  refine ⟨?_, hall, fun before s after hcalls hs => ?_⟩
  · split_ifs with hnick
    · exact ((construct_waits nick).calls hnick calls).sent_eq
    · exact (construct_waits nick).calls_badNick hnick calls
  · by_contra hlt
    push Not at hlt
    -- otherwise the call would be among those that are sent
    have hget : (batches [] calls).1.flatten[before.length]? = some s := by
      rw [← List.getElem?_append_left hlt, hall, hcalls]
      simp
    exact hs (batches_valid [] calls s (List.mem_of_getElem? hget))

/-! ## `websocket.html` -/

theorem set_append_cons {α : Type} {before : List α} {n : Nat} (h : before.length = n) (a b : α)
    (after : List α) : (before ++ a :: after).set n b = before ++ b :: after := by
  rw [List.set_append_right _ _ h.le, h, Nat.sub_self, List.set_cons_zero]

theorem flatMap_encodeCommand_length (commands : List LightCommand) :
    (commands.flatMap encodeCommand).length = 6 * commands.length := by
  have h := encodePacket_length [] commands
  simp only [encodePacket, List.length_append, List.length_cons, List.length_nil] at h
  omega

namespace LightingPage

variable (page : LightingPage)

/-- The part of the array in front of the records. -/
def header : List UInt8 := [1, 0] ++ page.tagi.map UInt8.ofNat ++ [0]

theorem header_length : page.header.length = page.headerLength := by
  simp only [header, headerLength, List.length_append, List.length_map, List.length_cons, List.length_nil]
  omega

/-- The loop over the characters of the tag has copied `k` of them. -/
theorem foldl_tag (k : Nat) (hk : k ≤ page.tagi.length) {before : List UInt8} (hbefore : before.length = 2)
    (rest : List UInt8) :
    (List.range k).foldl (fun data i => data.set (i + 2) (UInt8.ofNat (page.tagi.getD i 0)))
        (before ++ (List.replicate page.tagi.length 0 ++ rest)) =
      before ++ (page.tagi.take k).map UInt8.ofNat ++ (List.replicate (page.tagi.length - k) 0 ++ rest) := by
  induction k with
  | zero => simp
  | succ k ih =>
    have hlt : k < page.tagi.length := hk
    have hleft : page.tagi.length - k = page.tagi.length - (k + 1) + 1 := by omega
    have hlen : (before ++ (page.tagi.take k).map UInt8.ofNat).length = k + 2 := by
      rw [List.length_append, List.length_map, List.length_take, hbefore]
      omega
    rw [List.range_succ, List.foldl_concat, ih (by omega), hleft, List.replicate_succ, List.cons_append,
      set_append_cons hlen, List.take_succ_eq_append_getElem hlt, List.map_append]
    simp [hlt]

/-- Behind its header, the array is zero at first. -/
theorem onopen_eq : page.onopen = page.header ++ List.replicate (6 * page.lightCount) 0 := by
  have hzeros : List.replicate (page.headerLength + 6 * page.lightCount) (0 : UInt8) =
      0 :: 0 :: (List.replicate page.tagi.length 0 ++ 0 :: List.replicate (6 * page.lightCount) 0) := by
    have hlength : page.headerLength + 6 * page.lightCount =
        page.tagi.length + (6 * page.lightCount + 1) + 1 + 1 := by
      unfold headerLength
      omega
    rw [hlength, List.replicate_succ, List.replicate_succ, List.replicate_add, List.replicate_succ]
  have htwo : ([1, 0] : List UInt8).length = 2 := rfl
  have hloop := page.foldl_tag page.tagi.length le_rfl htwo (0 :: List.replicate (6 * page.lightCount) 0)
  rw [List.take_length, Nat.sub_self, List.replicate_zero, List.nil_append] at hloop
  have hlen : ([1, 0] ++ page.tagi.map UInt8.ofNat : List UInt8).length = 2 + page.tagi.length := by
    rw [List.length_append, List.length_map]
    rfl
  unfold onopen
  simp only
  rw [hzeros, List.set_cons_zero, List.set_cons_succ, List.set_cons_zero]
  refine Eq.trans (congrArg (List.set · _ _) hloop) ?_
  rw [set_append_cons hlen]
  simp [header]

/-- The six bytes of a light are written. -/
theorem writeLight_append {before chunk : List UInt8} {i : Nat}
    (hbefore : before.length = page.headerLength + 6 * i) (hchunk : chunk.length = 6) (color : Color)
    (after : List UInt8) :
    page.writeLight (before ++ (chunk ++ after)) i color =
      before ++ (encodeCommand ⟨UInt8.ofNat i, color⟩ ++ after) := by
  match chunk, hchunk with
  | [b₀, b₁, b₂, b₃, b₄, b₅], _ =>
    unfold writeLight
    rw [← hbefore]
    simp [encodeCommand]

/-- The first `k` records are written. -/
theorem foldl_writeLight (colors : Nat → Color) (body : List UInt8) (k : Nat) (hk : 6 * k ≤ body.length) :
    (List.range k).foldl (fun data i => page.writeLight data i (colors i)) (page.header ++ body) =
      page.header ++ ((List.range k).map fun i => LightCommand.mk (UInt8.ofNat i) (colors i)).flatMap
        encodeCommand ++ body.drop (6 * k) := by
  induction k with
  | zero => simp
  | succ k ih =>
    have hsplit : body.drop (6 * k) = (body.drop (6 * k)).take 6 ++ body.drop (6 * (k + 1)) := by
      rw [Nat.mul_succ, ← List.drop_drop, List.take_append_drop]
    have hchunk : ((body.drop (6 * k)).take 6).length = 6 := by
      rw [List.length_take, List.length_drop]
      omega
    have hlength : (page.header ++ ((List.range k).map fun i =>
        LightCommand.mk (UInt8.ofNat i) (colors i)).flatMap encodeCommand).length =
          page.headerLength + 6 * k := by
      rw [List.length_append, header_length, flatMap_encodeCommand_length, List.length_map, List.length_range]
    rw [List.range_succ, List.foldl_concat, ih (by omega), hsplit, page.writeLight_append hlength hchunk,
      List.map_append, List.flatMap_append]
    simp

theorem rewriteLight_append {before : List UInt8} {v : Nat}
    (hbefore : before.length = page.headerLength + 6 * v) (c : LightCommand) (color : Color)
    (after : List UInt8) :
    page.rewriteLight (before ++ (encodeCommand c ++ after)) v color =
      before ++ (encodeCommand ⟨UInt8.ofNat v, color⟩ ++ after) := by
  unfold rewriteLight
  rw [← hbefore]
  simp [encodeCommand]

/-- One of the records is written again, if there are so many. -/
theorem rewriteLight_eq (commands : List LightCommand) (v : Nat) (color : Color) :
    page.rewriteLight (page.header ++ commands.flatMap encodeCommand) v color =
      page.header ++ (commands.set v ⟨UInt8.ofNat v, color⟩).flatMap encodeCommand := by
  rcases Nat.lt_or_ge v commands.length with hv | hv
  · obtain ⟨before, c, after, rfl, hbefore⟩ : ∃ before c after, commands = before ++ c :: after ∧
        before.length = v := ⟨commands.take v, commands[v], commands.drop (v + 1), by simp, by simp; omega⟩
    have hstart : (page.header ++ before.flatMap encodeCommand).length = page.headerLength + 6 * v := by
      rw [List.length_append, header_length, flatMap_encodeCommand_length, hbefore]
    rw [set_append_cons hbefore, List.flatMap_append, List.flatMap_append, List.flatMap_cons,
      List.flatMap_cons, ← List.append_assoc, page.rewriteLight_append hstart, List.append_assoc]
  · have hbehind : ∀ i b, page.headerLength + 6 * v ≤ i →
        (page.header ++ commands.flatMap encodeCommand).set i b =
          page.header ++ commands.flatMap encodeCommand := by
      intro i b hi
      refine List.set_eq_of_length_le ?_
      rw [List.length_append, header_length, flatMap_encodeCommand_length]
      omega
    unfold rewriteLight
    simp only
    rw [hbehind _ _ (by omega), hbehind _ _ (by omega), hbehind _ _ (by omega), hbehind _ _ (by omega),
      List.set_eq_of_length_le hv]

/-- The commands of a pass, of which one is given twice. -/
theorem set_commands (tick : Tick) (n : Nat) :
    ((List.range n).map fun i => LightCommand.mk (UInt8.ofNat i) (tick.colors i)).set tick.v
      ⟨UInt8.ofNat tick.v, tick.color⟩ = tick.commands n := by
  refine List.ext_getElem? fun i => ?_
  unfold Tick.commands
  rw [List.getElem?_set, List.getElem?_map, List.length_map, List.length_range]
  by_cases hi : i < n
  · rw [List.getElem?_map, List.getElem?_range hi]
    by_cases hv : tick.v = i
    · simp [hv, hi]
    · simp [hv, Ne.symm hv]
  · rw [List.getElem?_map, List.getElem?_eq_none (by simpa using hi)]
    split_ifs with hv hlt
    · omega
    · rfl
    · rfl

/-- Whatever the records of the array were before, a pass leaves the packet with its commands. -/
theorem lightingLoop_eq {body : List UInt8} (hbody : body.length = 6 * page.lightCount) (tick : Tick) :
    page.lightingLoop (page.header ++ body) tick =
      encodePacket (page.tagi.map UInt8.ofNat) (tick.commands page.lightCount) := by
  unfold lightingLoop
  simp only
  rw [page.foldl_writeLight tick.colors body page.lightCount hbody.ge, List.drop_of_length_le hbody.le,
    List.append_nil, rewriteLight_eq, set_commands]
  rfl

/-- What one pass leaves is the array for the next. -/
theorem foldl_pass (ticks : List Tick) {body : List UInt8} (hbody : body.length = 6 * page.lightCount)
    (sent : List (List UInt8)) :
    (ticks.foldl page.pass (page.header ++ body, sent)).2 = sent ++ ticks.map fun tick =>
      encodePacket (page.tagi.map UInt8.ofNat) (tick.commands page.lightCount) := by
  induction ticks generalizing body sent with
  | nil => simp
  | cons tick ticks ih =>
    have hnext : ((tick.commands page.lightCount).flatMap encodeCommand).length = 6 * page.lightCount := by
      rw [flatMap_encodeCommand_length]
      simp [Tick.commands]
    rw [List.foldl_cons, pass, page.lightingLoop_eq hbody]
    refine Eq.trans (ih hnext _) ?_
    simp

end LightingPage

/-- All passes of the loop write to one array, and each of them sends a packet of its own: the tag, and a
    command for each light with the colour that was assigned last. Nothing is left of earlier passes. -/
theorem lightingPage_messages (page : LightingPage) (ticks : List Tick) :
    page.messages ticks = ticks.map fun tick =>
      encodePacket (page.tagi.map UInt8.ofNat) (tick.commands page.lightCount) := by
  unfold LightingPage.messages
  rw [page.onopen_eq]
  exact page.foldl_pass ticks List.length_replicate []

end Valoserveri
