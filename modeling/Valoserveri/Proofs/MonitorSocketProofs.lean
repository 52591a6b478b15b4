import Valoserveri.MonitorSocket
import Mathlib.Data.List.Basic

/-!
# How many connections the monitor page keeps

A click on the button to connect leaves one socket behind that nothing closes: the `close` event of the
socket that is replaced makes the page forget the one that replaces it. So the page can have one more
socket for each click, and never more than that. As long as nobody disconnects, it always has a socket
or a call that will make one.
-/

namespace Valoserveri

/-! ## What the functions do to the counts -/

theorem countP_cons_toNat {α : Type} (p : α → Bool) (a : α) (l : List α) :
    (a :: l).countP p = l.countP p + (p a).toNat := by
  rw [List.countP_cons]
  cases p a <;> rfl

/-- One entry of a list is replaced. -/
theorem countP_set_add {α : Type} (p : α → Bool) {l : List α} {i : Nat} {a : α} (b : α)
    (h : l[i]? = some a) : (l.set i b).countP p + (p a).toNat = l.countP p + (p b).toNat := by
  induction l generalizing i with
  | nil => simp at h
  | cons c l ih =>
    cases i with
    | zero =>
      obtain rfl : c = a := by simpa using h
      rw [List.set_cons_zero, countP_cons_toNat, countP_cons_toNat]
      omega
    | succ i =>
      have htail := ih (by simpa using h)
      rw [List.set_cons_succ, countP_cons_toNat, countP_cons_toNat]
      omega

section Functions

variable (t : Tab)

theorem close_eq (i : Nat) : t.close i = t ∨
    ∃ state, t.sockets[i]? = some state ∧ (state = .CONNECTING ∨ state = .OPEN) ∧
      t.close i = { t with sockets := t.sockets.set i .CLOSING } := by
  unfold Tab.close
  split
  case h_1 h => exact Or.inr ⟨_, h, Or.inl rfl, rfl⟩
  case h_2 h => exact Or.inr ⟨_, h, Or.inr rfl, rfl⟩
  case h_3 => exact Or.inl rfl

theorem close_unclosed (i : Nat) : (t.close i).unclosed = t.unclosed := by
  rcases close_eq t i with h | ⟨state, hstate, hopen, h⟩
  · rw [h]
  · have hset := countP_set_add (· ≠ .CLOSED) .CLOSING hstate
    rw [h]
    rcases hopen with rfl | rfl
    · simpa [Tab.unclosed] using hset
    · simpa [Tab.unclosed] using hset

theorem close_fields (i : Nat) : (t.close i).socket = t.socket ∧ (t.close i).timers = t.timers ∧
    (t.close i).autoReconnect = t.autoReconnect ∧ (t.close i).sockets.length = t.sockets.length := by
  rcases close_eq t i with h | ⟨state, -, -, h⟩
  · simp [h]
  · simp [h]

/-- One socket is made, or none. -/
theorem connect_counts (url : Bool) : (t.connect url).unclosed = t.unclosed + url.toNat ∧
    (t.connect url).timers = t.timers ∧ (t.connect url).autoReconnect = t.autoReconnect ∧
    (t.connect url).sockets.length = t.sockets.length + url.toNat := by
  cases url <;> simp [Tab.connect, Tab.unclosed]

theorem yhdista_counts (force url : Bool) : ∃ n ≤ 1,
    (t.yhdista force url).unclosed = t.unclosed + n ∧ (t.yhdista force url).timers = t.timers ∧
    (t.yhdista force url).autoReconnect = t.autoReconnect ∧
    (t.yhdista force url).sockets.length = t.sockets.length + n := by
  unfold Tab.yhdista
  split
  case h_1 i _ =>
    cases force with
    | false => exact ⟨0, by omega, rfl, rfl, rfl, rfl⟩
    | true =>
      obtain ⟨-, htimers, hreconnect, hlength⟩ := close_fields t i
      obtain ⟨hunclosed', htimers', hreconnect', hlength'⟩ := connect_counts (t.close i) url
      rw [close_unclosed] at hunclosed'
      rw [hlength] at hlength'
      exact ⟨url.toNat, Bool.toNat_le url, hunclosed', htimers'.trans htimers,
        hreconnect'.trans hreconnect, hlength'⟩
  case h_2 => exact ⟨url.toNat, Bool.toNat_le url, connect_counts t url⟩

theorem katkaise_counts : t.katkaise.unclosed = t.unclosed ∧ t.katkaise.timers = t.timers ∧
    (t.katkaise.autoReconnect = true → t.autoReconnect = true) ∧
    t.katkaise.sockets.length = t.sockets.length := by
  unfold Tab.katkaise
  split
  case h_1 i _ =>
    obtain ⟨-, htimers, hreconnect, hlength⟩ := close_fields { t with autoReconnect := false } i
    exact ⟨close_unclosed { t with autoReconnect := false } i, htimers,
      fun h => absurd (hreconnect.symm.trans h) (by simp), hlength⟩
  case h_2 => exact ⟨rfl, rfl, id, rfl⟩

theorem onclose_socket : t.onclose.socket = none := by
  unfold Tab.onclose
  cases t.autoReconnect <;> rfl

theorem onclose_counts : t.onclose.unclosed = t.unclosed ∧
    t.onclose.timers = t.timers + t.autoReconnect.toNat ∧
    t.onclose.autoReconnect = t.autoReconnect ∧ t.onclose.sockets.length = t.sockets.length := by
  unfold Tab.onclose Tab.unclosed
  cases t.autoReconnect <;> simp

end Functions

/-! ## Steps -/

section Steps

variable {t t' : Tab}

theorem step_timer {url : Bool} (h : t.step (.timer url) = some t') :
    0 < t.timers ∧ t' = Tab.yhdista { t with timers := t.timers - 1 } false url := by
  simp only [Tab.step] at h
  split_ifs at h with htimers
  exact ⟨by omega, (Option.some.inj h).symm⟩

theorem step_opened {i : Nat} (h : t.step (.opened i) = some t') :
    t.sockets[i]? = some .CONNECTING ∧
      t' = { t with sockets := t.sockets.set i .OPEN, status := lit "Open" } := by
  simp only [Tab.step] at h
  split_ifs at h with hstate
  exact ⟨hstate, (Option.some.inj h).symm⟩

theorem step_closed {i : Nat} (h : t.step (.closed i) = some t') :
    ∃ state, t.sockets[i]? = some state ∧ state ≠ .CLOSED ∧
      t' = Tab.onclose { t with sockets := t.sockets.set i .CLOSED } := by
  simp only [Tab.step] at h
  split at h
  case h_1 | h_2 => cases h
  case h_3 state hne hstate => exact ⟨state, hstate, hne, (Option.some.inj h).symm⟩

/-- What an event can do to the counts. -/
structure Tab.Effect (t t' : Tab) (e : TabEvent) : Prop where
  /-- Sockets and calls together get more only by a click. -/
  total : t'.unclosed + t'.timers ≤ t.unclosed + t.timers + e.connects.toNat
  reconnect : t'.autoReconnect = true → t.autoReconnect = true
  kept : e ≠ .katkaise → t'.autoReconnect = t.autoReconnect
  /-- Without clicks and reconnections, a socket is made only by a call that is due. -/
  drains : t.autoReconnect = false → e.connects = false →
    2 * t'.timers + t'.unclosed + e.ends.toNat ≤ 2 * t.timers + t.unclosed ∧
      t'.sockets.length + t'.timers ≤ t.sockets.length + t.timers

theorem step_effect {e : TabEvent} (h : t.step e = some t') : t.Effect t' e := by
  cases e with
  | yhdista url =>
    obtain rfl := Option.some.inj h
    obtain ⟨n, hn, hunclosed, htimers, hreconnect, -⟩ := yhdista_counts t true url
    refine ⟨?_, fun h => hreconnect ▸ h, fun _ => hreconnect, fun _ h => Bool.noConfusion h⟩
    show _ ≤ _ + 1
    omega
  | katkaise =>
    obtain rfl := Option.some.inj h
    obtain ⟨hunclosed, htimers, hreconnect, hlength⟩ := katkaise_counts t
    refine ⟨by omega, hreconnect, fun h => absurd rfl h, fun _ _ => ⟨?_, by omega⟩⟩
    show _ + 0 ≤ _
    omega
  | timer url =>
    obtain ⟨hpos, rfl⟩ := step_timer h
    obtain ⟨n, hn, hunclosed, htimers, hreconnect, hlength⟩ :=
      yhdista_counts { t with timers := t.timers - 1 } false url
    have hsame : ({ t with timers := t.timers - 1 } : Tab).unclosed = t.unclosed := rfl
    simp only at htimers hlength
    refine ⟨by omega, fun h => hreconnect ▸ h, fun _ => hreconnect, fun _ _ => ⟨?_, by omega⟩⟩
    show _ + 1 ≤ _
    omega
  | opened i =>
    obtain ⟨hstate, rfl⟩ := step_opened h
    have hset := countP_set_add (· ≠ .CLOSED) .OPEN hstate
    have hunclosed : ({ t with sockets := t.sockets.set i .OPEN, status := lit "Open" } : Tab).unclosed =
        t.unclosed := by simpa [Tab.unclosed] using hset
    refine ⟨by rw [hunclosed]; exact Nat.le_add_right _ _, id, fun _ => rfl, fun _ _ => ⟨?_, ?_⟩⟩
    · rw [hunclosed]
      exact le_rfl
    · simp
  | closed i =>
    obtain ⟨state, hstate, hopen, rfl⟩ := step_closed h
    have hset := countP_set_add (· ≠ .CLOSED) .CLOSED hstate
    obtain ⟨hunclosed, htimers, hreconnect, hlength⟩ :=
      onclose_counts { t with sockets := t.sockets.set i .CLOSED }
    have hcount : ({ t with sockets := t.sockets.set i .CLOSED } : Tab).unclosed + 1 = t.unclosed := by
      simpa [Tab.unclosed, hopen] using hset
    have hbool := Bool.toNat_le t.autoReconnect
    simp only [List.length_set] at htimers hlength
    refine ⟨by omega, fun h => hreconnect ▸ h, fun _ => hreconnect, fun hfalse _ => ?_⟩
    have hzero : t.autoReconnect.toNat = 0 := congrArg Bool.toNat hfalse
    refine ⟨?_, by omega⟩
    show _ + 1 ≤ _
    omega

end Steps

/-! ## Runs -/

theorem run_total {t t' : Tab} {events : List TabEvent} (h : t.run events = some t') :
    t'.unclosed + t'.timers ≤ t.unclosed + t.timers + events.countP TabEvent.connects := by
  induction events generalizing t with
  | nil =>
    obtain rfl := Option.some.inj h
    simp
  | cons e events ih =>
    obtain ⟨u, hu, h⟩ := Option.bind_eq_some_iff.mp h
    have hstep := (step_effect hu).total
    have hrun := ih h
    rw [countP_cons_toNat]
    omega

theorem load_counts (url : Bool) : (Tab.load url).unclosed + (Tab.load url).timers ≤ 1 := by
  cases url <;> decide

/-- A click on the button to connect, and what comes of it if the calls that wait are due before there
    is another: the socket that is replaced is closed, and both its successors are opened. -/
def leakingClick (i n : Nat) : List TabEvent :=
  [.yhdista true, .opened n, .closed i, .timer true, .opened (n + 1)]

/-- The page has a socket that is open, and waits for nothing. -/
structure Tab.Settled (t : Tab) (i : Nat) : Prop where
  socket : t.socket = some i
  opened : t.sockets[i]? = some .OPEN
  reconnect : t.autoReconnect = true
  timers : t.timers = 0

theorem Tab.Settled.leakingClick {t : Tab} {i : Nat} (h : t.Settled i) :
    ∃ t', t.run (leakingClick i t.sockets.length) = some t' ∧ t'.Settled (t.sockets.length + 1) ∧
      t'.opened = t.opened + 1 := by
  obtain ⟨socket, autoReconnect, status, sockets, timers⟩ := t
  obtain ⟨rfl, hopen, rfl, rfl⟩ := h
  simp only at hopen ⊢
  have hi : i < sockets.length := (List.getElem?_eq_some_iff.mp hopen).1
  have hclick : Tab.step ⟨some i, true, status, sockets, 0⟩ (.yhdista true) =
      some ⟨some sockets.length, true, lit "Connecting", sockets.set i .CLOSING ++ [.CONNECTING], 0⟩ := by
    simp [Tab.step, Tab.yhdista, Tab.close, Tab.connect, hopen]
  have hopened : Tab.step ⟨some sockets.length, true, lit "Connecting",
        sockets.set i .CLOSING ++ [.CONNECTING], 0⟩ (.opened sockets.length) =
      some ⟨some sockets.length, true, lit "Open", sockets.set i .CLOSING ++ [.OPEN], 0⟩ := by
    simp [Tab.step]
  have hclosing : (sockets.set i .CLOSING ++ [.OPEN])[i]? = some ReadyState.CLOSING := by
    rw [List.getElem?_append_left (by simpa using hi), List.getElem?_set_self hi]
  -- the new socket is forgotten
  have hclosed : Tab.step ⟨some sockets.length, true, lit "Open", sockets.set i .CLOSING ++ [.OPEN], 0⟩
        (.closed i) =
      some ⟨none, true, lit "Closed", sockets.set i .CLOSED ++ [.OPEN], 1⟩ := by
    simp [Tab.step, Tab.onclose, hclosing, hi]
  have htimer : Tab.step ⟨none, true, lit "Closed", sockets.set i .CLOSED ++ [.OPEN], 1⟩ (.timer true) =
      some ⟨some (sockets.length + 1), true, lit "Connecting",
        sockets.set i .CLOSED ++ [.OPEN, .CONNECTING], 0⟩ := by
    simp [Tab.step, Tab.yhdista, Tab.connect]
  have hopened' : Tab.step ⟨some (sockets.length + 1), true, lit "Connecting",
        sockets.set i .CLOSED ++ [.OPEN, .CONNECTING], 0⟩ (.opened (sockets.length + 1)) =
      some ⟨some (sockets.length + 1), true, lit "Open", sockets.set i .CLOSED ++ [.OPEN, .OPEN], 0⟩ := by
    simp [Tab.step]
  refine ⟨⟨some (sockets.length + 1), true, lit "Open", sockets.set i .CLOSED ++ [.OPEN, .OPEN], 0⟩, ?_,
    ⟨rfl, ?_, rfl, rfl⟩, ?_⟩
  · unfold Tab.run Valoserveri.leakingClick
    simp only [List.foldlM_cons, List.foldlM_nil, hclick, hopened, hclosed, htimer, hopened',
      Option.bind_eq_bind, Option.bind_some, Option.pure_def]
  · simp
  · have hset := countP_set_add (· = .OPEN) .CLOSED hopen
    have hcount : (sockets.set i .CLOSED).countP (· = .OPEN) + 1 = sockets.countP (· = .OPEN) := by
      simpa using hset
    unfold Tab.opened
    rw [List.countP_append]
    simp only [List.countP_cons, List.countP_nil, decide_true, if_true]
    omega

/-- The page never has more sockets and waiting calls than there were clicks on the button to connect,
    and one more. For every number of clicks there is a run in which it has as many sockets, and all of
    them are open. -/
theorem page_connections_le (url : Bool) :
    (∀ events t, (Tab.load url).run events = some t →
      t.unclosed + t.timers ≤ events.countP TabEvent.connects + 1) ∧
    ∀ clicks, ∃ events t, (Tab.load true).run events = some t ∧
      events.countP TabEvent.connects = clicks ∧ t.opened = clicks + 1 := by
  constructor
  · intro events t h
    have hstart := load_counts url
    have hrun := run_total h
    omega
  · intro clicks
    have hclicks : ∃ events t i, (Tab.load true).run events = some t ∧
        events.countP TabEvent.connects = clicks ∧ t.Settled i ∧ t.opened = clicks + 1 := by
      induction clicks with
      | zero =>
        refine ⟨[.opened 0], ⟨some 0, true, lit "Open", [.OPEN], 0⟩, 0, ?_, rfl, ⟨rfl, rfl, rfl, rfl⟩, ?_⟩
        · decide
        · decide
      | succ clicks ih =>
        obtain ⟨events, t, i, hrun, hcount, hsettled, hopened⟩ := ih
        obtain ⟨t', hclick, hsettled', hopened'⟩ := hsettled.leakingClick
        refine ⟨events ++ leakingClick i t.sockets.length, t', _, ?_, ?_, hsettled', ?_⟩
        · unfold Tab.run at hrun hclick ⊢
          rw [List.foldlM_append, hrun]
          exact hclick
        · rw [List.countP_append, hcount]
          rfl
        · rw [hopened', hopened]
    obtain ⟨events, t, -, hrun, hcount, -, hopened⟩ := hclicks
    exact ⟨events, t, hrun, hcount, hopened⟩

/-! ## The page keeps trying -/

/-- The variable `socket` refers to a socket that is not closed, and unless the page is told not to, it
    has a socket or a call that will make one. -/
structure Tab.Trying (t : Tab) : Prop where
  unclosed : ∀ i, t.socket = some i → ∃ state, t.sockets[i]? = some state ∧ state ≠ .CLOSED
  tries : t.autoReconnect = true → 0 < t.unclosed + t.timers

theorem unclosed_pos {t : Tab} {i : Nat} {state : ReadyState} (h : t.sockets[i]? = some state)
    (hopen : state ≠ .CLOSED) : 0 < t.unclosed :=
  List.countP_pos_iff.mpr ⟨state, List.mem_of_getElem? h, by simpa using hopen⟩

/-- A page that has just made a socket. -/
theorem connect_trying (t : Tab) : (t.connect true).Trying := by
  have hlast : (t.connect true).sockets[t.sockets.length]? = some .CONNECTING := by simp [Tab.connect]
  refine ⟨fun i hi => ?_, fun _ => Nat.add_pos_left (unclosed_pos hlast (by decide)) _⟩
  obtain rfl : t.sockets.length = i := by simpa [Tab.connect] using hi
  exact ⟨_, hlast, by decide⟩

theorem Tab.Trying.step {t t' : Tab} {e : TabEvent} (h : t.Trying) (hurl : e.HasUrl)
    (hstep : t.step e = some t') : t'.Trying := by
  cases e with
  | yhdista url =>
    obtain rfl : url = true := hurl
    obtain rfl := Option.some.inj hstep
    unfold Tab.yhdista
    split
    case h_1 => exact connect_trying _
    case h_2 => exact connect_trying _
  | katkaise =>
    obtain rfl := Option.some.inj hstep
    unfold Tab.katkaise
    split
    case h_1 i _ =>
      refine ⟨fun j hj => absurd hj (by simp), fun hreconnect => ?_⟩
      exact absurd ((close_fields { t with autoReconnect := false } i).2.2.1.symm.trans hreconnect) (by simp)
    case h_2 => exact h
  | timer url =>
    obtain rfl : url = true := hurl
    obtain ⟨-, rfl⟩ := step_timer hstep
    unfold Tab.yhdista
    split
    case h_1 i hi =>
      -- the socket that is there makes up for the call
      obtain ⟨state, hstate, hopen⟩ := h.unclosed i hi
      exact ⟨h.unclosed, fun _ => Nat.add_pos_left (unclosed_pos hstate hopen) _⟩
    case h_2 => exact connect_trying _
  | opened i =>
    obtain ⟨hstate, rfl⟩ := step_opened hstep
    have hset : (t.sockets.set i .OPEN)[i]? = some .OPEN :=
      List.getElem?_set_self (List.getElem?_eq_some_iff.mp hstate).1
    refine ⟨fun j hj => ?_, fun _ => Nat.add_pos_left (unclosed_pos hset (by decide)) _⟩
    by_cases hij : i = j
    · subst hij
      exact ⟨_, hset, by decide⟩
    · obtain ⟨state, hstate', hopen⟩ := h.unclosed j hj
      exact ⟨state, (List.getElem?_set_ne hij).trans hstate', hopen⟩
  | closed i =>
    obtain ⟨state, hstate, hopen, rfl⟩ := step_closed hstep
    obtain ⟨-, htimers, hreconnect, -⟩ := onclose_counts { t with sockets := t.sockets.set i .CLOSED }
    refine ⟨fun j hj => ?_, fun h => ?_⟩
    · rw [onclose_socket] at hj
      cases hj
    · rw [htimers, ← hreconnect, h]
      exact Nat.add_pos_right _ (Nat.add_pos_right _ Nat.one_pos)

theorem Tab.Trying.run {t t' : Tab} {events : List TabEvent} (h : t.Trying)
    (hurl : ∀ e ∈ events, e.HasUrl) (hrun : t.run events = some t') : t'.Trying := by
  induction events generalizing t with
  | nil =>
    obtain rfl := Option.some.inj hrun
    exact h
  | cons e events ih =>
    obtain ⟨u, hu, hrun⟩ := Option.bind_eq_some_iff.mp hrun
    exact ih (h.step (hurl e (by simp)) hu) (fun e he => hurl e (List.mem_cons_of_mem _ he)) hrun

theorem run_autoReconnect {t t' : Tab} {events : List TabEvent} (h : .katkaise ∉ events)
    (hrun : t.run events = some t') : t'.autoReconnect = t.autoReconnect := by
  induction events generalizing t with
  | nil =>
    obtain rfl := Option.some.inj hrun
    rfl
  | cons e events ih =>
    obtain ⟨hne, hrest⟩ := not_or.mp (mt List.mem_cons.mpr h)
    obtain ⟨u, hu, hrun⟩ := Option.bind_eq_some_iff.mp hrun
    rw [ih hrest hrun, (step_effect hu).kept (Ne.symm hne)]

/-- Whatever happens to a page whose fields give a URL, the variable `socket` never refers to a socket that
    is closed. Unless the page has been disconnected by a click, it has a socket or a call that will make
    one. -/
theorem page_keeps_trying (events : List TabEvent) (t : Tab) (hurl : ∀ e ∈ events, e.HasUrl)
    (hrun : (Tab.load true).run events = some t) :
    (∀ i, t.socket = some i → ∃ state, t.sockets[i]? = some state ∧ state ≠ .CLOSED) ∧
      (t.autoReconnect = true → 0 < t.unclosed + t.timers) ∧
      (.katkaise ∉ events → t.autoReconnect = true) := by
  have htrying := (connect_trying {}).run hurl hrun
  exact ⟨htrying.unclosed, htrying.tries, fun h => run_autoReconnect h hrun⟩

/-- The server goes away twice. -/
theorem page_keeps_trying_closed :
    ∃ t, (Tab.load true).run [.opened 0, .closed 0, .timer true, .closed 1] = some t ∧
      0 < t.unclosed + t.timers := by
  have hrun : ((Tab.load true).run [.opened 0, .closed 0, .timer true, .closed 1]).isSome = true := by decide
  obtain ⟨t, ht⟩ := Option.isSome_iff_exists.mp hrun
  have hurl : ∀ e ∈ [TabEvent.opened 0, .closed 0, .timer true, .closed 1], e.HasUrl := by
    simp [TabEvent.HasUrl]
  obtain ⟨-, htries, hreconnect⟩ := page_keeps_trying _ t hurl ht
  exact ⟨t, ht, htries (hreconnect (by simp))⟩

/-! ## After a disconnection -/

theorem run_drains {t t' : Tab} {events : List TabEvent} (h : t.autoReconnect = false)
    (hclicks : ∀ e ∈ events, e.connects = false) (hrun : t.run events = some t') :
    t'.autoReconnect = false ∧
      2 * t'.timers + t'.unclosed + events.countP TabEvent.ends ≤ 2 * t.timers + t.unclosed ∧
      t'.sockets.length + t'.timers ≤ t.sockets.length + t.timers := by
  induction events generalizing t with
  | nil =>
    obtain rfl := Option.some.inj hrun
    exact ⟨h, le_rfl, le_rfl⟩
  | cons e events ih =>
    obtain ⟨u, hu, hrun⟩ := Option.bind_eq_some_iff.mp hrun
    have heffect := step_effect hu
    have hfalse : u.autoReconnect = false := by
      refine Bool.eq_false_iff.mpr fun htrue => ?_
      exact absurd (heffect.reconnect htrue) (by simp [h])
    obtain ⟨hreconnect, hcount, hlength⟩ :=
      ih hfalse (fun e he => hclicks e (List.mem_cons_of_mem _ he)) hrun
    obtain ⟨hcount', hlength'⟩ := heffect.drains h (hclicks e (by simp))
    refine ⟨hreconnect, ?_, by omega⟩
    rw [countP_cons_toNat]
    omega

/-- A page that has been disconnected comes to rest. Unless somebody connects it again, it makes no more
    sockets than there were calls waiting, and there is a bound for the events that are still to come;
    when that many have come, nothing is left. -/
theorem page_drains (t t' : Tab) (events : List TabEvent) (h : t.autoReconnect = false)
    (hclicks : ∀ e ∈ events, e.connects = false) (hrun : t.run events = some t') :
    t'.autoReconnect = false ∧ t'.sockets.length ≤ t.sockets.length + t.timers ∧
      events.countP TabEvent.ends ≤ 2 * t.timers + t.unclosed ∧
      (events.countP TabEvent.ends = 2 * t.timers + t.unclosed → t'.unclosed = 0 ∧ t'.timers = 0) := by
  obtain ⟨hreconnect, hcount, hlength⟩ := run_drains h hclicks hrun
  exact ⟨hreconnect, by omega, by omega, fun hall => ⟨by omega, by omega⟩⟩

/-- A call waits while the page is disconnected, and makes another socket. -/
theorem page_drains_waiting :
    ∃ t t', (Tab.load true).run [.closed 0, .yhdista true, .katkaise] = some t ∧ t.timers = 1 ∧
      t.run [.timer true, .closed 1, .closed 2] = some t' ∧ t'.sockets.length = 3 ∧ t'.unclosed = 0 := by
  have hrun : (((Tab.load true).run [.closed 0, .yhdista true, .katkaise]).bind fun t =>
      (t.run [.timer true, .closed 1, .closed 2]).map fun t' =>
        decide (t.autoReconnect = false ∧ t.timers = 1 ∧ t.unclosed = 1 ∧ t'.sockets.length = 3)) =
      some true := by
    decide
  obtain ⟨t, ht, hrun⟩ := Option.bind_eq_some_iff.mp hrun
  obtain ⟨t', ht', hrun⟩ := Option.map_eq_some_iff.mp hrun
  obtain ⟨hreconnect, htimers, hunclosed, hlength⟩ := of_decide_eq_true hrun
  have hclicks : ∀ e ∈ [TabEvent.timer true, .closed 1, .closed 2], e.connects = false := by
    simp [TabEvent.connects]
  obtain ⟨-, -, -, hall⟩ := page_drains t t' _ hreconnect hclicks ht'
  refine ⟨t, t', ht, htimers, ht', hlength, (hall ?_).1⟩
  rw [htimers, hunclosed]
  rfl

end Valoserveri
