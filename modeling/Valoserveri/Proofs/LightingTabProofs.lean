import Valoserveri.LightingTab
import Valoserveri.Proofs.CompletionProofs
import Valoserveri.Proofs.MonitorSocketProofs
import Valoserveri.Proofs.SessionProofs

/-!
# What the page `websocket.html` sends

Whatever is clicked and whichever sockets open and close in between, each message is the packet of one
pass of a loop and goes to the socket of the last click. A loop ends with the socket that started it. But
a click while loops go on adds one more, and all of them then send to the same socket.
-/

namespace Valoserveri

open FixedStore ExceptRun

/-! ## Passes -/

namespace LightingPage

variable (page : LightingPage)

/-- An array that `onopen` has made, with anything for its records. -/
def Made (data : List UInt8) : Prop :=
  ∃ body, data = page.header ++ body ∧ body.length = 6 * page.lightCount

theorem made_onopen : page.Made page.onopen := ⟨_, page.onopen_eq, List.length_replicate⟩

theorem made_packet (tick : Tick) : page.Made (page.packet tick) := by
  refine ⟨(tick.commands page.lightCount).flatMap encodeCommand, rfl, ?_⟩
  rw [flatMap_encodeCommand_length]
  simp [Tick.commands]

variable {page} in
theorem Made.lightingLoop {data : List UInt8} (h : page.Made data) (tick : Tick) :
    page.lightingLoop data tick = page.packet tick := by
  obtain ⟨body, rfl, hbody⟩ := h
  exact page.lightingLoop_eq hbody tick

end LightingPage

/-- A loop that goes on has its array, and its socket has been opened and is not yet closed. -/
structure Connection.Running (c : Connection) : Prop where
  made : c.page.Made c.data
  unclosed : c.readyState = .OPEN ∨ c.readyState = .CLOSING

/-- One pass of a loop: at most one message is sent, and the loop then goes on. -/
theorem lightingLoop_cases (t : LightingTab) (j : Nat) {c : Connection} (hc : c.Running) (tick : Tick) :
    ∃ c' : Connection, c'.page = c.page ∧ c'.readyState = c.readyState ∧
      (c'.timeout = true → c'.data = c.page.packet tick) ∧
      ∃ new : Option Sending, t.lightingLoop j c tick =
          { t with connections := t.connections.set j c', sent := t.sent ++ new.toList } ∧
        ∀ s, new = some s →
          c'.timeout = true ∧ ∃ i, t.socket = some i ∧ s = ⟨j, i, c.page.packet tick⟩ := by
  have hpass := hc.made.lightingLoop tick
  unfold LightingTab.lightingLoop
  split
  case h_1 hsocket =>
    exact ⟨{ c with timeout := false }, rfl, rfl, by simp, none, by simp, by simp⟩
  case h_2 i hsocket =>
    simp only [hpass, hsocket]
    split
    case h_1 =>
      exact ⟨{ c with data := c.page.packet tick, packets := c.packets + 1, timeout := false }, rfl, rfl,
        by simp, none, by simp, by simp⟩
    case h_2 =>
      refine ⟨{ c with data := c.page.packet tick, packets := c.packets + 1, timeout := true }, rfl, rfl,
        fun _ => rfl, some ⟨j, i, c.page.packet tick⟩, rfl, fun s hs => ⟨rfl, i, rfl, ?_⟩⟩
      exact (Option.some.inj hs).symm
    case h_3 =>
      exact ⟨{ c with data := c.page.packet tick, packets := c.packets + 1, timeout := true }, rfl, rfl,
        fun _ => rfl, none, by simp, by simp⟩

/-! ## Steps -/

theorem map_filter_eq_some {α β : Type} {o : Option α} {p : α → Bool} {f : α → β} {b : β}
    (h : (o.filter p).map f = some b) : ∃ a, o = some a ∧ p a = true ∧ f a = b := by
  obtain ⟨a, ha, hb⟩ := Option.map_eq_some_iff.mp h
  obtain ⟨ha, hp⟩ := Option.filter_eq_some_iff.mp ha
  exact ⟨a, ha, hp, hb⟩

theorem map_set_eq_self {α β : Type} {l : List α} {i : Nat} {a b : α} (f : α → β) (h : l[i]? = some a)
    (hab : f b = f a) : (l.set i b).map f = l.map f := by
  obtain ⟨hi, rfl⟩ := List.getElem?_eq_some_iff.mp h
  rw [List.map_set, hab, ← List.getElem_map f (h := by simpa using hi), List.set_getElem_self]

theorem Connection.close_fields (c : Connection) :
    c.close.page = c.page ∧ c.close.timeout = c.timeout ∧ (c.Running → c.close.Running) := by
  unfold Connection.close
  split_ifs with h
  · exact ⟨rfl, rfl, id⟩
  · exact ⟨rfl, rfl, fun hc => ⟨hc.made, Or.inr rfl⟩⟩

/-- What an event can do. -/
structure LightingTab.Effect (t : LightingTab) (e : LightingEvent) (t' : LightingTab) : Prop where
  pages : t'.connections.map Connection.page = t.connections.map Connection.page ++ e.page?.toList
  running : ∀ c ∈ t'.connections, c.timeout = true → c.Running
  /-- The variable `socket` refers to the same socket as before, or to a new one, or to none. -/
  socket : ∀ i, t'.socket = some i →
    t.socket = some i ∧ e.page? = none ∨ i + 1 = t'.connections.length
  sent : ∃ new : Option Sending, t'.sent = t.sent ++ new.toList ∧
    ∀ s, new = some s → ∃ c tick, t'.connections[s.loop]? = some c ∧ c.timeout = true ∧
      (e = .opened s.loop tick ∨ e = .timer s.loop tick) ∧ t.socket = some s.socket ∧
      s.message = c.page.packet tick

namespace LightingTab

variable {t t' : LightingTab} {e : LightingEvent}

/-- The connections stay as they are. -/
theorem Effect.idle (hrunning : ∀ c ∈ t.connections, c.timeout = true → c.Running)
    (he : e.page? = none) (hsocket : ∀ i, t'.socket = some i → t.socket = some i)
    (hconnections : t'.connections = t.connections) (hsent : t'.sent = t.sent) : t.Effect e t' := by
  refine ⟨?_, ?_, fun i hi => Or.inl ⟨hsocket i hi, he⟩, none, ?_, by simp⟩
  · rw [hconnections, he, Option.toList_none, List.append_nil]
  · rw [hconnections]
    exact hrunning
  · rw [hsent, Option.toList_none, List.append_nil]

/-- A connection is changed. -/
theorem Effect.changed {j : Nat} {c c' : Connection} {socket : Option Nat} {new : Option Sending}
    (hrunning : ∀ c ∈ t.connections, c.timeout = true → c.Running) (he : e.page? = none)
    (hc : t.connections[j]? = some c) (hpage : c'.page = c.page) (hc' : c'.timeout = true → c'.Running)
    (hsocket : ∀ i, socket = some i → t.socket = some i)
    (hnew : ∀ s, new = some s → c'.timeout = true ∧ ∃ i tick, t.socket = some i ∧
      (e = .opened j tick ∨ e = .timer j tick) ∧ s = ⟨j, i, c.page.packet tick⟩) :
    t.Effect e
      { t with socket, connections := t.connections.set j c', sent := t.sent ++ new.toList } := by
  refine ⟨?_, fun d hd => ?_, fun i hi => Or.inl ⟨hsocket i hi, he⟩, new, rfl, fun s hs => ?_⟩
  · rw [map_set_eq_self _ hc hpage, he, Option.toList_none, List.append_nil]
  · rcases List.mem_or_eq_of_mem_set hd with hd | rfl
    · exact hrunning d hd
    · exact hc'
  · obtain ⟨htimeout, i, tick, hi, he, rfl⟩ := hnew s hs
    refine ⟨c', tick, ?_, htimeout, he, hi, by rw [hpage]⟩
    exact List.getElem?_set_self (List.getElem?_eq_some_iff.mp hc).1

/-- A connection is changed, and nothing is sent. -/
theorem Effect.silent {j : Nat} {c c' : Connection} {socket : Option Nat}
    (hrunning : ∀ c ∈ t.connections, c.timeout = true → c.Running) (he : e.page? = none)
    (hc : t.connections[j]? = some c) (hpage : c'.page = c.page) (hc' : c'.timeout = true → c'.Running)
    (hsocket : ∀ i, socket = some i → t.socket = some i) :
    t.Effect e { t with socket, connections := t.connections.set j c' } := by
  have h : t.Effect e { t with
      socket, connections := t.connections.set j c', sent := t.sent ++ (none : Option Sending).toList } :=
    .changed hrunning he hc hpage hc' hsocket (by simp)
  simpa using h

/-- A pass of a loop, with the variables `c` of the connection. -/
theorem Effect.pass {j : Nat} {c₀ c : Connection} {tick : Tick}
    (hrunning : ∀ c ∈ t.connections, c.timeout = true → c.Running)
    (he : e = .opened j tick ∨ e = .timer j tick) (hc₀ : t.connections[j]? = some c₀)
    (hpage : c.page = c₀.page) (hc : c.Running) :
    t.Effect e (lightingLoop { t with connections := t.connections.set j c } j c tick) := by
  obtain ⟨c', hpage', hstate, hdata, new, hloop, hnew⟩ :=
    lightingLoop_cases { t with connections := t.connections.set j c } j hc tick
  have hnone : e.page? = none := by rcases he with rfl | rfl <;> rfl
  rw [hloop, List.set_set]
  refine .changed hrunning hnone hc₀ (hpage'.trans hpage) (fun h => ⟨?_, hstate ▸ hc.unclosed⟩)
    (fun _ => id) fun s hs => ?_
  · rw [hpage', hdata h]
    exact c.page.made_packet tick
  · obtain ⟨htimeout, i, hi, rfl⟩ := hnew s hs
    exact ⟨htimeout, i, tick, hi, he, by rw [hpage]⟩

theorem yhdista_effect (hrunning : ∀ c ∈ t.connections, c.timeout = true → c.Running)
    (page : LightingPage) (url : Bool) : t.Effect (.yhdista page url) (t.yhdista page url) := by
  unfold yhdista
  split_ifs with htagi hurl
  · exact .idle hrunning (if_neg fun h => h.1 htagi) (fun _ => id) rfl rfl
  · have he : (LightingEvent.yhdista page url).page? = some page := if_pos ⟨htagi, hurl⟩
    refine ⟨?_, fun c hc htimeout => ?_, fun i hi => Or.inr ?_, none, by simp, by simp⟩
    · rw [List.map_append, he]
      rfl
    · rcases List.mem_append.mp hc with hc | hc
      · exact hrunning c hc htimeout
      · rw [List.mem_singleton.mp hc] at htimeout
        cases htimeout
    · rw [← Option.some.inj hi, List.length_append]
      rfl
  · exact .idle hrunning (if_neg fun h => hurl h.2) (fun _ => id) rfl rfl

theorem katkaise_effect (hrunning : ∀ c ∈ t.connections, c.timeout = true → c.Running) :
    t.Effect .katkaise t.katkaise := by
  unfold katkaise
  split
  case h_1 => exact .idle hrunning rfl (fun _ => id) rfl rfl
  case h_2 i _ =>
    rw [List.modify_eq_set_getElem?]
    cases hc : t.connections[i]? with
    | none => exact .idle hrunning rfl (by simp) rfl rfl
    | some c =>
      obtain ⟨hpage, htimeout, hkept⟩ := c.close_fields
      refine .silent hrunning rfl hc hpage (fun h => hkept ?_) (by simp)
      exact hrunning c (List.mem_of_getElem? hc) (htimeout.symm.trans h)

theorem step_effect (hrunning : ∀ c ∈ t.connections, c.timeout = true → c.Running)
    (h : t.step e = some t') : t.Effect e t' := by
  cases e with
  | yhdista page url =>
    obtain rfl := Option.some.inj h
    exact yhdista_effect hrunning page url
  | katkaise =>
    obtain rfl := Option.some.inj h
    exact katkaise_effect hrunning
  | opened j tick =>
    obtain ⟨c, hc, -, rfl⟩ := map_filter_eq_some h
    exact .pass hrunning (Or.inl rfl) hc rfl ⟨c.page.made_onopen, Or.inl rfl⟩
  | closing j =>
    obtain ⟨c, hc, -, rfl⟩ := map_filter_eq_some h
    refine .silent hrunning rfl hc rfl (fun h => ⟨?_, Or.inr rfl⟩) (fun _ => id)
    exact (hrunning c (List.mem_of_getElem? hc) h).made
  | closed j =>
    obtain ⟨c, hc, -, rfl⟩ := map_filter_eq_some h
    exact .silent hrunning rfl hc rfl (fun h => Bool.noConfusion h) (fun _ => id)
  | timer j tick =>
    obtain ⟨c, hc, htimeout, rfl⟩ := map_filter_eq_some h
    have hself : t.connections.set j c = t.connections := by
      obtain ⟨hj, rfl⟩ := List.getElem?_eq_some_iff.mp hc
      exact List.set_getElem_self hj
    have heffect : t.Effect (.timer j tick)
        (lightingLoop { t with connections := t.connections.set j c } j c tick) :=
      .pass hrunning (Or.inr rfl) hc rfl (hrunning c (List.mem_of_getElem? hc) htimeout)
    rwa [hself] at heffect

end LightingTab

/-! ## Runs -/

/-- A message is the packet of a pass of its loop. -/
def Sending.Meant (s : Sending) (events : List LightingEvent) : Prop :=
  ∃ page tick, (events.filterMap LightingEvent.page?)[s.loop]? = some page ∧
    tick ∈ events.filterMap LightingEvent.tick? ∧ s.message = page.packet tick

theorem filterMap_concat {α β : Type} (f : α → Option β) (l : List α) (a : α) :
    (l ++ [a]).filterMap f = l.filterMap f ++ (f a).toList := by
  rw [List.filterMap_append]
  cases h : f a <;> simp [h]

theorem Sending.Meant.concat {s : Sending} {events : List LightingEvent} (h : s.Meant events)
    (e : LightingEvent) : s.Meant (events ++ [e]) := by
  obtain ⟨page, tick, hpage, htick, hmessage⟩ := h
  refine ⟨page, tick, ?_, ?_, hmessage⟩
  · rw [filterMap_concat]
    exact (List.getElem?_append_left (List.getElem?_eq_some_iff.mp hpage).1).trans hpage
  · rw [filterMap_concat]
    exact List.mem_append_left _ htick

/-- What holds of the page after the given events. -/
structure LightingTab.Accords (t : LightingTab) (events : List LightingEvent) : Prop where
  pages : t.connections.map Connection.page = events.filterMap LightingEvent.page?
  running : ∀ c ∈ t.connections, c.timeout = true → c.Running
  /-- There is no socket behind the one that is sent to. -/
  newest : ∀ i, t.socket = some i → i + 1 = t.connections.length
  meant : ∀ s ∈ t.sent, s.Meant events

namespace LightingTab

variable {t t' : LightingTab} {events : List LightingEvent}

theorem Accords.initial : ({} : LightingTab).Accords [] :=
  ⟨rfl, by simp, by simp, by simp⟩

theorem Accords.step {e : LightingEvent} (h : t.Accords events) (hstep : t.step e = some t') :
    t'.Accords (events ++ [e]) := by
  obtain ⟨hpages, hrunning, hsocket, new, hsent, hnew⟩ := step_effect h.running hstep
  have hpages' : t'.connections.map Connection.page = (events ++ [e]).filterMap LightingEvent.page? := by
    rw [hpages, h.pages, filterMap_concat]
  refine ⟨hpages', hrunning, fun i hi => ?_, fun s hs => ?_⟩
  · rcases hsocket i hi with ⟨hsame, he⟩ | hlast
    · have hlength : t'.connections.length = t.connections.length := by
        simpa [he] using congrArg List.length hpages
      exact (h.newest i hsame).trans hlength.symm
    · exact hlast
  · rw [hsent] at hs
    rcases List.mem_append.mp hs with hs | hs
    · exact (h.meant s hs).concat e
    · obtain ⟨c, tick, hc, -, he, -, hmessage⟩ := hnew s (by simpa using hs)
      refine ⟨c.page, tick, ?_, ?_, hmessage⟩
      · rw [← hpages', List.getElem?_map, hc]
        rfl
      · have htick : e.tick? = some tick := by rcases he with rfl | rfl <;> rfl
        rw [filterMap_concat, htick]
        exact List.mem_append_right _ List.mem_cons_self

theorem Accords.run (h : t.Accords events) {events' : List LightingEvent} (hrun : t.run events' = some t') :
    t'.Accords (events ++ events') := by
  induction events' generalizing t events with
  | nil =>
    obtain rfl := Option.some.inj hrun
    rwa [List.append_nil]
  | cons e events' ih =>
    obtain ⟨u, hu, hrun⟩ := Option.bind_eq_some_iff.mp hrun
    rw [List.append_cons]
    exact ih (h.step hu) hrun

theorem accords_of_run (h : LightingTab.run {} events = some t) : t.Accords events := by
  simpa using Accords.initial.run h

end LightingTab

/-- Whatever has happened to the page, an event sends nothing, or the packet of one pass of a loop. This
    goes to the socket of the last click, and the socket that started the loop is not closed yet. -/
theorem lightingTab_sends (events : List LightingEvent) (e : LightingEvent) (t t' : LightingTab)
    (hrun : LightingTab.run {} events = some t) (hstep : t.step e = some t') :
    t'.sent = t.sent ∨ ∃ j c tick, (e = .opened j tick ∨ e = .timer j tick) ∧
      (events.filterMap LightingEvent.page?)[j]? = some c.page ∧ t'.connections[j]? = some c ∧
      (c.readyState = .OPEN ∨ c.readyState = .CLOSING) ∧
      t'.sent = t.sent ++
        [⟨j, (events.filterMap LightingEvent.page?).length - 1, c.page.packet tick⟩] := by
  have haccords := LightingTab.accords_of_run hrun
  obtain ⟨hpages, hrunning, -, new, hsent, hnew⟩ := LightingTab.step_effect haccords.running hstep
  cases new with
  | none => exact Or.inl (by simpa using hsent)
  | some s =>
    obtain ⟨c, tick, hc, htimeout, he, hsocket, hmessage⟩ := hnew s rfl
    have hnone : e.page? = none := by rcases he with rfl | rfl <;> rfl
    rw [hnone, Option.toList_none, List.append_nil, haccords.pages] at hpages
    have hsocket' : s.socket = (events.filterMap LightingEvent.page?).length - 1 := by
      rw [← haccords.pages, List.length_map, ← haccords.newest _ hsocket]
      rfl
    refine Or.inr ⟨s.loop, c, tick, he, ?_, hc, (hrunning c (List.mem_of_getElem? hc) htimeout).unclosed, ?_⟩
    · rw [← hpages, List.getElem?_map, hc]
      rfl
    · rw [← hsocket', ← hmessage]
      exact hsent

/-- A page with the tag `v` and two lights. -/
def samplePage : LightingPage := { tagi := [118], lightCount := 2 }

/-- A pass that sets both lights, and the second one again. -/
def sampleTick : Tick := { colors := fun _ => { red := 9 }, v := 1, color := { blue := 7 } }

/-- Two clicks, after each of which a socket opens. -/
def sampleClicks : List LightingEvent :=
  [.yhdista samplePage true, .opened 0 sampleTick, .yhdista samplePage true, .opened 1 sampleTick]

/-- The loop of the first socket sends to the second. -/
theorem lightingTab_sends_second :
    ∃ t t', LightingTab.run {} sampleClicks = some t ∧ t.step (.timer 0 sampleTick) = some t' ∧
      t'.sent = t.sent ++ [⟨0, 1, samplePage.packet sampleTick⟩] := by
  have hok : ((LightingTab.run {} sampleClicks).bind fun t => (t.step (.timer 0 sampleTick)).map fun t' =>
      t'.sent.length - t.sent.length) = some 1 := by
    decide
  obtain ⟨t, hrun, hok⟩ := Option.bind_eq_some_iff.mp hok
  obtain ⟨t', hstep, hlength⟩ := Option.map_eq_some_iff.mp hok
  refine ⟨t, t', hrun, hstep, ?_⟩
  rcases lightingTab_sends sampleClicks _ t t' hrun hstep with hsame | ⟨j, c, tick, he, hpage, -, -, hsent⟩
  · rw [hsame] at hlength
    omega
  · rcases he with he | he
    · cases he
    · cases he
      rw [← (Option.some.inj hpage : samplePage = c.page)] at hsent
      exact hsent

/-! ## How many loops there are -/

/-- All connections are open, all loops go on, and the last socket is the one that is sent to. -/
structure LightingTab.Busy (t : LightingTab) : Prop where
  connections : ∀ c ∈ t.connections, c.readyState = .OPEN ∧ c.timeout = true ∧ c.page.Made c.data
  socket : ∀ c, t.connections.getLast? = some c → t.socket = some (t.connections.length - 1)

namespace LightingTab

variable {t : LightingTab}

theorem run_cons (e : LightingEvent) (events : List LightingEvent) :
    t.run (e :: events) = (t.step e).bind fun u => u.run events := rfl

/-- Another click, while all loops go on. -/
theorem Busy.click (h : t.Busy) {page : LightingPage} (hpage : page.tagi ≠ []) (tick : Tick) :
    ∃ t', t.run [.yhdista page true, .opened t.connections.length tick] = some t' ∧ t'.Busy ∧
      t'.connections.map Connection.page = t.connections.map Connection.page ++ [page] := by
  have hclick : t.step (.yhdista page true) = some { t with
      socket := some t.connections.length, connections := t.connections ++ [{ page := page }] } := by
    simp [LightingTab.step, yhdista, hpage]
  have hopened : LightingTab.step { t with
      socket := some t.connections.length, connections := t.connections ++ [{ page := page }] }
      (.opened t.connections.length tick) = some { t with
        socket := some t.connections.length
        connections := t.connections ++ [⟨page, .OPEN, page.packet tick, 1, true⟩]
        sent := t.sent ++ [⟨t.connections.length, t.connections.length, page.packet tick⟩] } := by
    simp [LightingTab.step, onopen, lightingLoop, page.made_onopen.lightingLoop tick]
  rw [run_cons, hclick, Option.bind_some, run_cons, hopened, Option.bind_some]
  refine ⟨_, rfl, ⟨fun c hc => ?_, fun c _ => by simp⟩, List.map_append⟩
  rcases List.mem_append.mp hc with hc | hc
  · exact h.connections c hc
  · obtain rfl := List.mem_singleton.mp hc
    exact ⟨rfl, rfl, page.made_packet tick⟩

theorem Busy.timer (h : t.Busy) {j : Nat} {c : Connection} (hc : t.connections[j]? = some c)
    (tick : Tick) : ∃ t', t.step (.timer j tick) = some t' ∧
      t'.sent = t.sent ++ [⟨j, t.connections.length - 1, c.page.packet tick⟩] := by
  obtain ⟨-, htimeout, hmade⟩ := h.connections c (List.mem_of_getElem? hc)
  have hne : t.connections ≠ [] := List.ne_nil_of_mem (List.mem_of_getElem? hc)
  obtain ⟨last, hlast⟩ := List.getLast?_isSome.mpr hne |> Option.isSome_iff_exists.mp
  have hsocket := h.socket last hlast
  have hopen := (h.connections last (List.mem_of_getLast? hlast)).1
  rw [List.getLast?_eq_getElem?] at hlast
  have hloop : t.step (.timer j tick) = some (t.lightingLoop j c tick) := by
    simp [LightingTab.step, hc, htimeout]
  refine ⟨_, hloop, ?_⟩
  unfold lightingLoop
  simp [hsocket, hlast, hopen, hmade.lightingLoop tick]

/-- There can be a loop for each of any clicks. -/
theorem exists_busy (pages : List LightingPage) (hpages : ∀ page ∈ pages, page.tagi ≠ []) (tick : Tick) :
    ∃ events t, LightingTab.run {} events = some t ∧ t.Busy ∧ t.connections.map Connection.page = pages := by
  induction pages using List.reverseRecOn with
  | nil => exact ⟨[], {}, rfl, ⟨by simp, by simp⟩, rfl⟩
  | append_singleton pages page ih =>
    obtain ⟨events, t, hrun, hbusy, hmap⟩ := ih fun p hp => hpages p (List.mem_append_left _ hp)
    obtain ⟨t', hclick, hbusy', hmap'⟩ := hbusy.click (hpages page (by simp)) tick
    refine ⟨events ++ [.yhdista page true, .opened t.connections.length tick], t', ?_, hbusy', ?_⟩
    · unfold LightingTab.run at hrun hclick ⊢
      rw [List.foldlM_append, hrun]
      exact hclick
    · rw [hmap', hmap]

end LightingTab

/-- There are never more loops than sockets that are not closed, and never more of these than clicks that
    made one. But the loops of any clicks can all go on at once, and then all of them send to the socket
    of the last click. -/
theorem lightingTab_loops_le :
    (∀ events t, LightingTab.run {} events = some t →
      t.loops ≤ t.unclosed ∧ t.unclosed ≤ (events.filterMap LightingEvent.page?).length) ∧
    ∀ pages : List LightingPage, (∀ page ∈ pages, page.tagi ≠ []) → ∀ tick, ∃ events t,
      LightingTab.run {} events = some t ∧ events.filterMap LightingEvent.page? = pages ∧
        t.loops = pages.length ∧ ∀ j page, pages[j]? = some page → ∃ t',
          t.step (.timer j tick) = some t' ∧
            t'.sent = t.sent ++ [⟨j, pages.length - 1, page.packet tick⟩] := by
  constructor
  · intro events t hrun
    have haccords := LightingTab.accords_of_run hrun
    constructor
    · refine List.countP_mono_left fun c hc htimeout => ?_
      have hopen := (haccords.running c hc htimeout).unclosed
      rcases hopen with hopen | hopen <;> simp [hopen]
    · rw [← haccords.pages, List.length_map]
      exact List.countP_le_length
  · intro pages hpages tick
    obtain ⟨events, t, hrun, hbusy, hmap⟩ := LightingTab.exists_busy pages hpages tick
    have haccords := LightingTab.accords_of_run hrun
    have hlength : t.connections.length = pages.length := by rw [← hmap, List.length_map]
    refine ⟨events, t, hrun, haccords.pages.symm.trans hmap, ?_, fun j page hpage => ?_⟩
    · rw [← hlength]
      exact List.countP_eq_length.mpr fun c hc => (hbusy.connections c hc).2.1
    · rw [← hmap, List.getElem?_map] at hpage
      obtain ⟨c, hc, rfl⟩ := Option.map_eq_some_iff.mp hpage
      rw [← hlength]
      exact hbusy.timer hc tick

/-! ## After a disconnection -/

namespace LightingTab

variable {t t' : LightingTab}

end LightingTab

theorem LightingPage.Fits.tag_ne_zero {page : LightingPage} (h : page.Fits) :
    ∀ b ∈ page.tagi.map UInt8.ofNat, b ≠ 0 := by
  intro b hb
  obtain ⟨x, hx, rfl⟩ := List.mem_map.mp hb
  exact h.tagi x hx

theorem LightingPage.Fits.index_lt {page : LightingPage} (h : page.Fits) (tick : Tick) :
    ∀ c ∈ tick.commands page.lightCount, c.index < 128 := by
  intro c hc
  obtain ⟨i, hi, rfl⟩ := List.mem_map.mp hc
  have hlt := (List.mem_range.mp hi).trans_le h.lightCount
  rw [UInt8.lt_iff_toNat_lt, UInt8.toNat_ofNat']
  exact (Nat.mod_le _ _).trans_lt hlt

theorem LightingPage.Fits.length_lt {page : LightingPage} (h : page.Fits) (tick : Tick) :
    (page.packet tick).length < 2 ^ 31 := by
  have hlength := h.length
  unfold LightingPage.packet
  rw [encodePacket_length, List.length_map]
  simp only [LightingPage.headerLength] at hlength
  simp only [Tick.commands, List.length_map, List.length_range]
  omega

/-- The packet of one pass, as one that the server decodes. -/
def LightingPage.clientPacket (page : LightingPage) (h : page.Fits) (tick : Tick) : ClientPacket where
  tag := page.tagi.map UInt8.ofNat
  commands := tick.commands page.lightCount
  tag_ne_zero := h.tag_ne_zero
  index_lt := h.index_lt tick
  length_lt := h.length_lt tick

theorem LightingPage.lastWrite_clientPacket {page : LightingPage} (h : page.Fits) (tick : Tick)
    {k : UInt32} (hk : k.toNat < page.lightCount) :
    lastWrite (page.clientPacket h tick).assignments k = some (tick.colorOf k.toNat) := by
  have hassignments : (page.clientPacket h tick).assignments =
      (List.range page.lightCount).map fun i => ((UInt8.ofNat i).toUInt32, tick.colorOf i) := by
    simp only [ClientPacket.assignments, LightingPage.clientPacket, Tick.commands, List.map_map]
    rfl
  rw [hassignments]
  exact lastWrite_range h.lightCount tick.colorOf hk

/-- From the page to the lights. If all that a server hears are messages of the page, in whichever order
    and whichever of them are lost, then its lights are those of one pass of a loop: the one whose packet
    has come in last. -/
theorem lightingTab_shown (events : List LightingEvent) (t : LightingTab) (config : Config) (boot : Boot)
    (rounds : List Round) (lights : LightsConfig) (w v : World) (buf : StdString)
    (hevents : LightingTab.run {} events = some t)
    (hfits : ∀ page ∈ events.filterMap LightingEvent.page?, page.Fits)
    (hparse : LightsConfig.parse config = .ok lights) (hw : World.construct config boot = .ok w)
    (hrun : w.run rounds = .ok v)
    (hheard : ∀ buf ∈ boot.heard ++ w.heard rounds, ∃ s ∈ t.sent, asChars s.message = buf)
    (hlast : (boot.heard ++ w.heard rounds).getLast? = some buf) :
    ∃ page ∈ events.filterMap LightingEvent.page?, ∃ tick ∈ events.filterMap LightingEvent.tick?,
      asChars (page.packet tick) = buf ∧
      v.serveri.currentState.tag =
        (asChars (page.tagi.map UInt8.ofNat)).filter (fun c => tagWhitelist.contains c) ∧
      ∀ k light, lights.lights.lookup k = some light → k.toNat < page.lightCount →
        v.serveri.currentState.lights.lookup k = some (tick.colorOf k.toNat) ∧
          (lights.Separate k light → light.Shows (tick.colorOf k.toNat) v.serveri.dmx.dmxPacket) := by
  have haccords := LightingTab.accords_of_run hevents
  have hpacket : ∀ buf ∈ boot.heard ++ w.heard rounds,
      ∃ page, ∃ hpage : page ∈ events.filterMap LightingEvent.page?,
        ∃ tick ∈ events.filterMap LightingEvent.tick?,
          (page.clientPacket (hfits page hpage) tick).chars = buf := by
    intro buf hbuf
    obtain ⟨s, hs, rfl⟩ := hheard buf hbuf
    obtain ⟨page, tick, hpage, htick, hmessage⟩ := haccords.meant s hs
    exact ⟨page, List.mem_of_getElem? hpage, tick, htick, by rw [hmessage]; rfl⟩
  obtain ⟨before, hbefore⟩ := List.getLast?_eq_some_iff.mp hlast
  rw [hbefore] at hpacket
  obtain ⟨page, hpage, tick, htick, hchars⟩ := hpacket buf (by simp)
  have hsession : before ∈ Set.range (List.map ClientPacket.chars) := by
    rw [Set.range_list_map]
    intro b hb
    obtain ⟨page, hpage, tick, -, hb⟩ := hpacket b (List.mem_append_left _ hb)
    exact ⟨_, hb⟩
  obtain ⟨session, rfl⟩ := hsession
  have hsession : boot.heard ++ w.heard rounds =
      (session ++ [page.clientPacket (hfits page hpage) tick]).map ClientPacket.chars := by
    rw [hbefore, List.map_append, List.map_singleton, hchars]
  obtain ⟨htag, hlights⟩ := session_shown hparse hw hrun hsession
  refine ⟨page, hpage, tick, htick, hchars, ?_, fun k light hl hk => ?_⟩
  · rw [htag, List.getLast?_append]
    rfl
  · obtain ⟨hcolor, hframe⟩ := hlights k light hl
    have hwrite : lastWrite ((session ++ [page.clientPacket (hfits page hpage) tick]).flatMap
        ClientPacket.assignments) k = some (tick.colorOf k.toNat) := by
      rw [List.flatMap_append, lastWrite_append, List.flatMap_singleton,
        page.lastWrite_clientPacket (hfits page hpage) tick hk]
      rfl
    rw [hwrite] at hcolor hframe
    exact ⟨hcolor, hframe⟩

/-- A round in which a message of the page comes in. -/
def messageRound : Round where
  pollresult := 1
  revents i := if i = 1 then 1 else 0
  recv _ := none
  callbacks _ := [⟨.light, 5, .RECEIVE (asChars (samplePage.packet sampleTick)), []⟩]
  written := 517

/-- The first message of the page is heard. -/
theorem lightingTab_shown_first :
    ∃ t w v, LightingTab.run {} (sampleClicks.take 2) = some t ∧
      World.construct distConfig socketBoot = .ok w ∧ w.run [messageRound] = .ok v ∧
      v.serveri.currentState.lights.lookup 0 = some { red := 9 } ∧
      Light.Shows ⟨.RGB, 1, 5⟩ { red := 9 } v.serveri.dmx.dmxPacket := by
  have hevents : (LightingTab.run {} (sampleClicks.take 2)).map LightingTab.sent =
      some [⟨0, 0, samplePage.packet sampleTick⟩] := by
    decide
  obtain ⟨t, ht, hsent⟩ := Option.map_eq_some_iff.mp hevents
  have hok : ((World.construct distConfig socketBoot).bind fun w => (w.run [messageRound]).map fun _ =>
      socketBoot.heard ++ w.heard [messageRound]) = .ok [asChars (samplePage.packet sampleTick)] := by
    decide +kernel
  obtain ⟨w, hw, hok⟩ := except_bind_eq_ok.mp hok
  obtain ⟨v, hrun, hheard⟩ := map_eq_ok hok
  have hfits : ∀ page ∈ (sampleClicks.take 2).filterMap LightingEvent.page?, page.Fits := by
    intro page hpage
    obtain rfl : page = samplePage := List.mem_singleton.mp hpage
    exact ⟨by decide, by decide, by decide⟩
  have hsubset : ∀ buf ∈ socketBoot.heard ++ w.heard [messageRound],
      ∃ s ∈ t.sent, asChars s.message = buf := by
    intro buf hbuf
    rw [hheard] at hbuf
    exact ⟨_, hsent ▸ List.mem_singleton_self _, (List.mem_singleton.mp hbuf).symm⟩
  obtain ⟨page, hpage, tick, htick, -, -, hlights⟩ := lightingTab_shown _ t distConfig socketBoot
    [messageRound] _ w v _ ht hfits parse_distConfig hw hrun hsubset
    (congrArg List.getLast? hheard)
  obtain rfl : page = samplePage := List.mem_singleton.mp hpage
  obtain rfl : tick = sampleTick := List.mem_singleton.mp htick
  obtain ⟨hred, hshows⟩ := hlights 0 ⟨.RGB, 1, 5⟩ rfl (by decide)
  exact ⟨t, w, v, ht, hw, hrun, hred, hshows (separate_distConfig rfl)⟩

end Valoserveri
