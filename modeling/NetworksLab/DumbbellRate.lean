import NetworksLab.TcpVariants

/-! The data rate of the sending application. Packets are as far apart as their
bits take at the rate, but the bits are counted in 32 bits. -/
namespace Dumbbell
open EventQueue Transition
open TcpVariants (bytes Sized)

variable {α : Type} {sim : Simulator ℚ Callback} {start delay : ℚ} {n k : Nat}
  {w t : World sim α} {size : UInt32}

/-- The bytes handed to the socket up to `time`. -/
def handedBy (w : World sim α) (time : ℚ) : Nat :=
  ((w.calls.filter (·.1 ≤ time)).map fun c => bytes c.2).sum

/-- What is pending apart from stop events. -/
def World.own (w : World sim α) : List (ℚ × Callback) :=
  ((sim.pending w.queue).filter (·.callback ≠ .stopApplication)).map fun e => (e.time, e.callback)

/-- With any number of stop events at any times: the packets come at the times of
`firstSends`, and only the next one is pending. -/
inductive World.Paced (w : World sim α) (start delay : ℚ) (n : Nat) : Prop
  | waiting (config : w.Configured delay n) (sends : w.sends = [])
      (own : w.own.Sublist [(start, .startApplication)])
  | sending (config : w.Configured delay n) (k : Nat)
      (sends : w.sends = firstSends start delay (k + 1)) (sent : w.app.packetsSent.toNat = k + 1)
      (room : k = 0 ∨ k < n) (own : w.own.Sublist [(start + (k + 1 : Nat) * delay, .sendPkt)])
      (more : w.own ≠ [] → k + 1 < n)

theorem World.own_sublist_of_filter {w t : World sim α} {p : Event sim.Id ℚ Callback → Bool}
    (pending : sim.pending t.queue = (sim.pending w.queue).filter p) : t.own.Sublist w.own := by
  rw [own, own, pending]
  exact (List.filter_sublist.filter _).map _

theorem World.own_stop {w : World sim α} {e : Event sim.Id ℚ Callback} {q : sim.State}
    (due : Due (sim.pending w.queue) e (sim.pending q)) (stop : e.callback = .stopApplication) :
    World.own { w with queue := q } = w.own := by
  obtain ⟨before, after, whole, rest, _⟩ := due
  simp [own, whole, rest, stop]

/-- An event of its own is the only one. -/
theorem World.own_next {w : World sim α} {e : Event sim.Id ℚ Callback} {q : sim.State}
    {next : ℚ × Callback} (due : Due (sim.pending w.queue) e (sim.pending q))
    (other : e.callback ≠ .stopApplication) (only : w.own.Sublist [next]) :
    next = (e.time, e.callback) ∧ w.own ≠ [] ∧ World.own { w with queue := q } = [] := by
  obtain ⟨before, after, whole, rest, _⟩ := due
  let owned (es : List (Event sim.Id ℚ Callback)) :=
    (es.filter (·.callback ≠ .stopApplication)).map fun e => (e.time, e.callback)
  have here : w.own = owned before ++ (e.time, e.callback) :: owned after := by
    simp [owned, own, whole, other]
  have left : World.own { w with queue := q } = owned before ++ owned after := by
    simp [owned, own, rest]
  have one := only.length_le
  rw [here, List.length_append, List.length_cons, List.length_singleton] at one
  have none : owned before = [] ∧ owned after = [] :=
    ⟨List.length_eq_zero_iff.mp (by omega), List.length_eq_zero_iff.mp (by omega)⟩
  rw [here, none.1, none.2, List.nil_append, List.singleton_sublist, List.mem_singleton] at only
  exact ⟨only.symm, by simp [here], by rw [left, none.1, none.2, List.append_nil]⟩

/-- The packet after those before `k`, at its time and with nothing else pending. -/
theorem World.sendPkt_paced (config : w.Configured delay n) (sends : w.sends = firstSends start delay k)
    (sent : w.app.packetsSent.toNat = k) (now : sim.now w.queue = start + k * delay)
    (room : k = 0 ∨ k < n) (own : w.own = []) : w.sendPkt.Paced start delay n := by
  have small : n < 2 ^ 32 := config.nPackets ▸ w.app.nPackets.toNat_lt
  have one := World.sendPkt_sendsOne config (by omega)
  have sends' : w.sendPkt.sends = firstSends start delay (k + 1) := by
    rw [one.sends, sends, now, firstSends_succ]
  have sent' : w.sendPkt.app.packetsSent.toNat = k + 1 := by rw [one.sent, sent]
  rcases one.next with ⟨_, more, i, _, pending⟩ | ⟨_, pending⟩
  · rw [now, next_time] at pending
    have next : w.sendPkt.own = w.own ++ [(start + (k + 1 : Nat) * delay, .sendPkt)] := by
      simp [World.own, pending]
    refine .sending one.config k sends' sent' room ?_ fun _ => sent ▸ more
    rw [next, own]
    exact List.Sublist.refl _
  · have none : w.sendPkt.own = [] := by
      rw [← own, World.own, World.own, pending]
    exact .sending one.config k sends' sent' room (none ▸ List.nil_sublist _) fun some => absurd none some

theorem World.Configured.stop (config : w.Configured delay n) :
    w.stopApplication.Configured delay n := by
  have app := w.stopApplication_app
  refine ⟨?_, ?_, ?_⟩
  · rw [app]; exact config.socket
  · rw [app]; exact config.nPackets
  · rw [app]; exact config.tNext

theorem World.stopApplication_own (w : World sim α) : w.stopApplication.own.Sublist w.own := by
  have same : w.stopApplication.own = w.halted.own := by
    rw [World.own, World.own, w.stopApplication_halted.2.1]
  rw [same, World.halted]
  unfold World.cancelSend
  split
  · exact List.Sublist.refl _
  · split
    · exact World.own_sublist_of_filter (sim.cancel_pending _ _)
    · exact List.Sublist.refl _

theorem World.Paced.stop (h : w.Paced start delay n) : w.stopApplication.Paced start delay n := by
  have app := w.stopApplication_app
  have own := w.stopApplication_own
  have sends := w.stopApplication_sends
  cases h with
  | waiting config none next => exact .waiting config.stop (sends.trans none) (own.trans next)
  | sending config k before sent room next more =>
      refine .sending config.stop k (sends.trans before) ?_ room (own.trans next) ?_
      · rw [app]; exact sent
      · intro pending
        apply more
        intro none
        rw [none] at own
        exact pending (List.eq_nil_of_sublist_nil own)

theorem World.begun_sends (w : World sim α) : w.begun.sends = w.sends := by
  simp [World.begun, World.sends, World.call]

theorem World.Paced.step (h : w.Paced start delay n) (step : w.step () = some t) :
    t.Paced start delay n := by
  obtain ⟨⟨e, q⟩, next, rfl⟩ := Option.map_eq_some_iff.mp step
  obtain ⟨due, now⟩ := Simulator.next_due next
  by_cases stop : e.callback = .stopApplication
  · have same := World.own_stop due stop
    have kept : World.Paced { w with queue := q } start delay n := by
      cases h with
      | waiting config none only =>
          exact .waiting ⟨config.socket, config.nPackets, config.tNext⟩ none (same ▸ only)
      | sending config k before sent room only more =>
          exact .sending ⟨config.socket, config.nPackets, config.tNext⟩ k before sent room
            (same ▸ only) (same ▸ more)
    dsimp only
    rw [stop]
    exact kept.stop
  · cases h with
    | waiting config none only =>
        obtain ⟨event, _, idle⟩ := World.own_next due stop only
        obtain ⟨time, callback⟩ := Prod.mk.inj event
        dsimp only
        rw [← callback]
        change (World.begun { w with queue := q }).sendPkt.Paced start delay n
        refine World.sendPkt_paced (k := 0) ⟨config.socket, config.nPackets, config.tNext⟩ ?_ rfl ?_
          (.inl rfl) idle
        · exact (World.begun_sends _).trans none
        · rw [Nat.cast_zero, zero_mul, add_zero, time]
          exact now
    | sending config k before sent room only more =>
        obtain ⟨event, pending, idle⟩ := World.own_next due stop only
        obtain ⟨time, callback⟩ := Prod.mk.inj event
        dsimp only
        rw [← callback]
        exact World.sendPkt_paced (w := { w with queue := q })
          ⟨config.socket, config.nPackets, config.tNext⟩ before sent (now.trans time.symm)
          (.inr (more pending)) idle

theorem handedBy_eq (sized : Sized w size) (time : ℚ) :
    handedBy w time = (w.sends.filter (· ≤ time)).length * size.toNat := by
  have part : ∀ at' s, (at', SocketCall.send s) ∈ w.calls.filter (·.1 ≤ time) → s = size :=
    fun at' s mem => sized.sends at' s (List.mem_of_mem_filter mem)
  rw [handedBy, TcpVariants.sum_bytes part, World.sends, List.filterMap_filter,
    List.filter_filterMap]
  congr 2
  apply List.filterMap_congr
  rintro ⟨at', call⟩ _
  cases call with
  | send s => by_cases early : at' ≤ time <;> simp [early, Option.filter]
  | bind | connect | close => simp

/-- As many packets as there are intervals, and one. -/
theorem firstSends_by (positive : 0 ≤ delay) {time : ℚ} (later : start ≤ time) :
    ((firstSends start delay k).filter (· ≤ time)).length * delay ≤ time - start + delay := by
  induction k with
  | zero =>
      rw [firstSends, List.range_zero, List.map_nil, List.filter_nil, List.length_nil, Nat.cast_zero,
        zero_mul]
      linarith
  | succ k ih =>
      rw [firstSends_succ, List.filter_append]
      by_cases here : start + k * delay ≤ time
      · have most : ((firstSends start delay k).filter (· ≤ time)).length ≤ k := by
          apply (List.length_filter_le _ _).trans
          rw [firstSends_length]
        have count : (((firstSends start delay k).filter (· ≤ time)).length : ℚ) * delay ≤ k * delay := by
          gcongr
        rw [List.filter_cons_of_pos (by simpa using here), List.filter_nil, List.length_append,
          List.length_singleton]
        push_cast
        linarith
      · rw [List.filter_cons_of_neg (by simpa using here), List.filter_nil, List.append_nil]
        exact ih

theorem World.Paced.sends_eq (h : w.Paced start delay n) :
    ∃ k, w.sends = firstSends start delay k ∧ (k ≤ 1 ∨ k ≤ n) := by
  cases h with
  | waiting _ none => exact ⟨0, none, .inl (Nat.zero_le 1)⟩
  | sending _ k sends _ room => exact ⟨k + 1, sends, by omega⟩

/-- The bound, where the interval is long enough or there is none. -/
theorem rate_bound {rate : Nat} {time : ℚ} (sized : Sized w size) (paced : w.Paced start delay n)
    (positive : 0 ≤ delay) (later : start ≤ time)
    (enough : rate * delay = 8 * size.toNat ∨ w.sends.length ≤ 1) :
    (8 * handedBy w time : ℚ) ≤ rate * (time - start) + 8 * size.toNat := by
  have sizeNonneg : (0 : ℚ) ≤ size.toNat := Nat.cast_nonneg _
  have rateNonneg : (0 : ℚ) ≤ rate := Nat.cast_nonneg _
  rw [handedBy_eq sized]
  push_cast
  rcases enough with exact | one
  · obtain ⟨k, sends, _⟩ := paced.sends_eq
    have count := firstSends_by (k := k) positive later
    rw [← sends] at count
    have scaled := mul_le_mul_of_nonneg_left count rateNonneg
    calc (8 * (((w.sends.filter (· ≤ time)).length : ℚ) * size.toNat))
        = rate * ((w.sends.filter (· ≤ time)).length * delay) := by
          rw [mul_left_comm (rate : ℚ), exact]
          ring
      _ ≤ rate * (time - start + delay) := scaled
      _ = rate * (time - start) + 8 * size.toNat := by rw [mul_add, exact]
  · have few : ((w.sends.filter (· ≤ time)).length : ℚ) ≤ 1 := by
      exact_mod_cast (List.length_filter_le _ _).trans one
    have passed : 0 ≤ rate * (time - start) := mul_nonneg rateNonneg (sub_nonneg.mpr later)
    have single : ((w.sends.filter (· ≤ time)).length : ℚ) * size.toNat ≤ 1 * size.toNat := by
      gcongr
    linarith

/-- The start event and, if a stop time is set, the stop event behind it. -/
def Initialized (queue : sim.State) (start : ℚ) : Option ℚ → Prop
  | none => ∃ i, sim.pending queue = [⟨i, start, .startApplication⟩]
  | some stop => ∃ i j,
      sim.pending queue = [⟨i, start, .startApplication⟩, ⟨j, stop, .stopApplication⟩]

theorem Initialized.own {queue : sim.State} {stop : Option ℚ} (h : Initialized queue start stop)
    {peer : α} {nPackets : UInt32} {dataRate : Nat} :
    (World.ready queue peer size nPackets dataRate).own.Sublist [(start, .startApplication)] := by
  cases stop with
  | none =>
      obtain ⟨i, pending⟩ := h
      simp [World.own, World.ready, pending]
  | some stop =>
      obtain ⟨i, j, pending⟩ := h
      simp [World.own, World.ready, pending]

/-- The first packet, with the events that were pending behind the start event. -/
theorem World.startApplication_cases (config : w.Configured delay n) :
    w.startApplication.Configured delay n ∧
      w.startApplication.sends = w.sends ++ [sim.now w.queue] ∧
      w.startApplication.app.packetsSent.toNat = 1 ∧
      ((1 < n ∧ ∃ i, w.startApplication.app.sendEvent = some i ∧
          sim.pending w.startApplication.queue =
            sim.pending w.queue ++ [⟨i, sim.now w.queue + delay, .sendPkt⟩]) ∨
        ¬ 1 < n ∧ sim.pending w.startApplication.queue = sim.pending w.queue) := by
  have begun : w.begun.Configured delay n := ⟨config.socket, config.nPackets, config.tNext⟩
  have reset : w.begun.app.packetsSent.toNat = 0 := rfl
  have one := World.sendPkt_sendsOne begun (by rw [reset]; decide)
  refine ⟨one.config, World.begun_sends w ▸ one.sends, one.sent, ?_⟩
  rcases one.next with ⟨_, more, event⟩ | ⟨last, pending⟩
  · exact .inl ⟨more, event⟩
  · exact .inr ⟨fun more => last ⟨rfl, more⟩, pending⟩

/-- A stop event due after the start and no later than the second packet. -/
inductive World.CutShort (w : World sim α) (start stop delay : ℚ) (n : Nat) : Prop
  | waiting (config : w.Configured delay n) (sends : w.sends = []) {i j}
      (pending : sim.pending w.queue =
        [⟨i, start, .startApplication⟩, ⟨j, stop, .stopApplication⟩])
  | sending (one : w.sends.length ≤ 1) {j} (pending :
      sim.pending w.queue = [⟨j, stop, .stopApplication⟩] ∨
      ∃ i, w.app.sendEvent = some i ∧ sim.pending w.queue =
        [⟨j, stop, .stopApplication⟩, ⟨i, start + delay, .sendPkt⟩])
  | stopped (one : w.sends.length ≤ 1) (pending : sim.pending w.queue = [])

theorem World.CutShort.step {stop : ℚ} (h : w.CutShort start stop delay n) (order : start ≤ stop)
    (soon : stop ≤ start + delay) (step : w.step () = some t) : t.CutShort start stop delay n := by
  obtain ⟨⟨e, q⟩, next, rfl⟩ := Option.map_eq_some_iff.mp step
  cases h with
  | @waiting config none i j pending =>
      obtain ⟨q', ⟨_, next', rest, now⟩ | ⟨early, _⟩⟩ := Simulator.next_pair pending
      · cases next.symm.trans next'
        obtain ⟨_, sends, _, event⟩ := World.startApplication_cases (w := { w with queue := q })
          ⟨config.socket, config.nPackets, config.tNext⟩
        refine .sending (j := j) ?_ ?_
        · change (World.startApplication _).sends.length ≤ 1
          rw [sends]
          exact Nat.le_of_eq (congrArg (fun l => (l ++ [_]).length) none)
        · rcases event with ⟨_, i', event, later⟩ | ⟨_, later⟩
          · refine .inr ⟨i', event, later.trans ?_⟩
            rw [rest, now]
            rfl
          · exact .inl (later.trans rest)
      · exact absurd order (not_le.mpr early)
  | @sending one j pending =>
      have stopped (only : ∀ e ∈ sim.pending q, w.app.sendEvent = some e.id) :
          (World.stopApplication { w with queue := q }).CutShort start stop delay n := by
        refine .stopped ?_ (World.stopApplication_pending only)
        rw [World.stopApplication_sends]
        exact one
      rcases pending with pending | ⟨i, event, pending⟩
      · obtain ⟨q', next', rest, _⟩ := Simulator.next_single pending
        cases next.symm.trans next'
        exact stopped (by simp [rest])
      · obtain ⟨q', ⟨_, next', rest, _⟩ | ⟨early, _⟩⟩ := Simulator.next_pair pending
        · cases next.symm.trans next'
          exact stopped (by simp [rest, event])
        · exact absurd soon (not_le.mpr early)
  | stopped one idle =>
      rw [sim.next_none _ idle] at next
      cases next

theorem World.CutShort.one {stop : ℚ} (h : w.CutShort start stop delay n) : w.sends.length ≤ 1 := by
  cases h with
  | waiting _ none => rw [none]; exact Nat.zero_le 1
  | sending one | stopped one => exact one

/-- With no stop event up to the time of the second packet, it is sent. -/
theorem World.second_packet {i : sim.Id} {stops : List (Event sim.Id ℚ Callback)}
    (config : w.Configured delay n) (none : w.sends = []) (two : 1 < n) (positive : 0 ≤ delay)
    (pending : sim.pending w.queue = ⟨i, start, .startApplication⟩ :: stops)
    (late : ∀ e ∈ stops, start + delay < e.time) :
    ∃ u, Reach World.step anyStep w u ∧ u.sends = [start, start + delay] := by
  obtain ⟨e, q, next, due, now⟩ := sim.next_some w.queue (by rw [pending]; nofun)
  rw [pending, ← List.nil_append (_ :: stops)] at due
  obtain ⟨rfl, rest⟩ := due.least fun b mem => by
    have after := late b mem
    change start < b.time
    linarith
  have first := World.step_of_next next
  obtain ⟨config', sends, sent, event⟩ := World.startApplication_cases (w := { w with queue := q })
    ⟨config.socket, config.nPackets, config.tNext⟩
  obtain ⟨_, i', _, pending'⟩ := event.resolve_right fun no => no.1 two
  obtain ⟨e, q', next', due', now'⟩ := sim.next_some _ (by rw [pending']; simp)
  rw [pending'] at due'
  obtain ⟨rfl, _⟩ := due'.least fun b mem => by
    rw [List.append_nil] at mem
    have after := late b (rest.subset mem)
    change sim.now q + delay < b.time
    rw [now]
    exact after
  have second := World.step_of_next next'
  refine ⟨_, (Reach.single trivial first).tail trivial second, ?_⟩
  have one := World.sendPkt_sendsOne
    (w := { World.startApplication { w with queue := q } with queue := q' })
    ⟨config'.socket, config'.nPackets, config'.tNext⟩ (by rw [sent]; decide)
  have before : World.sends { World.startApplication { w with queue := q } with queue := q' } =
      [start] := by
    refine sends.trans ?_
    rw [now]
    exact congrArg (· ++ [start]) none
  change World.sends (World.sendPkt _) = _
  rw [one.sends, before, now']
  change [start] ++ [sim.now q + delay] = _
  rw [now]
  rfl

theorem World.stopApplication_idle (idle : w.app.sendEvent = none) :
    w.stopApplication.queue = w.queue := by
  rw [w.stopApplication_halted.2.1, World.halted, World.cancelSend, idle]

section Ready

variable {queue : sim.State} {peer : α} {packetSize nPackets : UInt32} {dataRate : Nat}
  {stop : Option ℚ}

/-- `delay` of an application after `setup`. -/
def readyDelay (packetSize : UInt32) (dataRate : Nat) : ℚ :=
  (8 * packetSize.toNat % 2 ^ 32 : Nat) / dataRate

theorem readyDelay_nonneg : 0 ≤ readyDelay packetSize dataRate :=
  div_nonneg (Nat.cast_nonneg _) (Nat.cast_nonneg _)

theorem rate_mul_readyDelay (rate : 0 < dataRate) :
    dataRate * readyDelay packetSize dataRate = (8 * packetSize.toNat % 2 ^ 32 : Nat) := by
  have nonzero : (dataRate : ℚ) ≠ 0 := Nat.cast_ne_zero.mpr rate.ne'
  exact mul_div_cancel₀ _ nonzero

theorem World.ready_paced (events : Initialized queue start stop)
    (run : Reach World.step anyStep (World.ready queue peer packetSize nPackets dataRate) w) :
    w.Paced start (readyDelay packetSize dataRate) nPackets.toNat := by
  have config := World.ready_configured queue peer packetSize nPackets dataRate
  apply run.invariant (I := fun u : World sim α => u.Paced start _ _)
    (.waiting config rfl events.own)
  intro u _ v paced _ step
  exact paced.step step

theorem World.ready_cutShort {T : ℚ} (events : Initialized queue start (some T))
    (order : start ≤ T) (soon : T ≤ start + readyDelay packetSize dataRate)
    (run : Reach World.step anyStep (World.ready queue peer packetSize nPackets dataRate) w) :
    w.sends.length ≤ 1 := by
  obtain ⟨i, j, pending⟩ := events
  have config := World.ready_configured queue peer packetSize nPackets dataRate
  have cut : w.CutShort start T (readyDelay packetSize dataRate) nPackets.toNat := by
    apply run.invariant (I := fun u : World sim α => u.CutShort start T _ _)
      (.waiting config rfl pending)
    intro u _ v before _ step
    exact before.step order soon step
  exact cut.one

variable (peer packetSize nPackets dataRate) in
theorem World.ready_second (events : Initialized queue start stop) (two : 1 < nPackets.toNat)
    (uncut : ∀ T, stop = some T → T < start ∨ start + readyDelay packetSize dataRate < T) :
    ∃ u, Reach World.step anyStep (World.ready queue peer packetSize nPackets dataRate) u ∧
      u.sends = [start, start + readyDelay packetSize dataRate] := by
  have config := World.ready_configured queue peer packetSize nPackets dataRate
  cases stop with
  | none =>
      obtain ⟨i, pending⟩ := events
      exact World.second_packet config rfl two readyDelay_nonneg pending nofun
  | some T =>
      obtain ⟨i, j, pending⟩ := events
      rcases uncut T rfl with early | late
      · obtain ⟨q, ⟨order, _⟩ | ⟨_, next, rest, _⟩⟩ := Simulator.next_pair pending
        · exact absurd early (not_lt.mpr order)
        · have first := World.step_of_next
            (w := World.ready queue peer packetSize nPackets dataRate) next
          have config' : World.Configured
              { World.ready queue peer packetSize nPackets dataRate with queue := q }
              (readyDelay packetSize dataRate) nPackets.toNat := ⟨rfl, rfl, config.tNext⟩
          obtain ⟨u, run, sends⟩ := World.second_packet config'.stop
            (World.stopApplication_sends _) two readyDelay_nonneg
            ((congrArg sim.pending (World.stopApplication_idle rfl)).trans rest) nofun
          exact ⟨u, (Reach.single trivial first).trans run, sends⟩
      · apply World.second_packet config rfl two readyDelay_nonneg pending
        intro e mem
        rw [List.mem_singleton.mp mem]
        exact late

theorem ready_sized
    (run : Reach World.step anyStep (World.ready queue peer packetSize nPackets dataRate) w) :
    Sized w packetSize := by
  have first : Sized (World.ready queue peer packetSize nPackets dataRate) packetSize := ⟨rfl, nofun⟩
  exact first.reach run

/-- The second packet is early by the bits that are lost. -/
theorem rate_exceeded (rate : 0 < dataRate) (large : 2 ^ 29 ≤ packetSize.toNat)
    (sized : Sized w packetSize)
    (sends : w.sends = [start, start + readyDelay packetSize dataRate]) :
    ¬ (8 * handedBy w (start + readyDelay packetSize dataRate) : ℚ) ≤
      dataRate * (start + readyDelay packetSize dataRate - start) + 8 * packetSize.toNat := by
  have both : handedBy w (start + readyDelay packetSize dataRate) = 2 * packetSize.toNat := by
    rw [handedBy_eq sized, sends, List.filter_eq_self.mpr]
    · rfl
    · simpa using readyDelay_nonneg
  intro bound
  rw [both, add_sub_cancel_left, rate_mul_readyDelay rate] at bound
  norm_cast at bound
  omega

/-- What the application hands to its socket stays within its data rate, with
one packet to spare, exactly when the bits of a packet fit in 32 bits or it
sends one packet alone. -/
theorem data_rate_kept (rate : 0 < dataRate) (events : Initialized queue start stop) :
    (∀ w, Reach World.step anyStep (World.ready queue peer packetSize nPackets dataRate) w →
      ∀ time, start ≤ time → (8 * handedBy w time : ℚ) ≤
        dataRate * (time - start) + 8 * packetSize.toNat) ↔
    packetSize.toNat < 2 ^ 29 ∨ nPackets.toNat ≤ 1 ∨ ∃ T, stop = some T ∧ start ≤ T ∧
      T ≤ start + readyDelay packetSize dataRate := by
  constructor
  · intro kept
    by_contra lost
    rw [not_or, not_or, Nat.not_lt, Nat.not_le] at lost
    obtain ⟨large, two, uncut⟩ := lost
    obtain ⟨u, run, sends⟩ := World.ready_second peer packetSize nPackets dataRate events
      two fun T set => by
        by_contra within
        rw [not_or, not_lt, not_lt] at within
        exact uncut ⟨T, set, within⟩
    exact rate_exceeded rate large (ready_sized run) sends
      (kept u run _ (le_add_of_nonneg_right readyDelay_nonneg))
  · intro condition w run time later
    have paced := World.ready_paced events run
    apply rate_bound (ready_sized run) paced readyDelay_nonneg later
    rcases condition with small | few | ⟨T, rfl, order, soon⟩
    · left
      rw [rate_mul_readyDelay rate, Nat.mod_eq_of_lt (by omega)]
      norm_cast
    · right
      obtain ⟨k, sends, most⟩ := paced.sends_eq
      rw [sends, firstSends_length]
      omega
    · exact .inr (World.ready_cutShort events order soon run)

end Ready

theorem twoSeconds_initialized : @Initialized (listSimulator ℚ Callback) twoSeconds 1 (some 3) :=
  ⟨(0 : Nat), (1 : Nat), rfl⟩

theorem data_rate_kept_twoSeconds :
    (∀ w : World (listSimulator ℚ Callback) Nat,
      Reach World.step anyStep (World.ready twoSeconds 9 1000 3 8000) w →
      ∀ time, 1 ≤ time → (8 * handedBy w time : ℚ) ≤
        (8000 : Nat) * (time - 1) + 8 * (1000 : UInt32).toNat) ∧
    ∃ w : World (listSimulator ℚ Callback) Nat,
      Reach World.step anyStep (World.ready twoSeconds 9 1000 3 8000) w ∧
      w.sends = [1, 2] := by
  refine ⟨(data_rate_kept (by decide) twoSeconds_initialized).mpr (.inl (by decide)), ?_⟩
  have delay : readyDelay 1000 8000 = 1 := by
    have bits : 8 * (1000 : UInt32).toNat % 2 ^ 32 = 8000 := rfl
    rw [readyDelay, bits]
    norm_num
  have uncut : ∀ T, some (3 : ℚ) = some T → T < 1 ∨ 1 + readyDelay 1000 8000 < T := by
    rintro T ⟨⟩
    rw [delay]
    norm_num
  obtain ⟨w, run, sends⟩ := World.ready_second (9 : Nat) 1000 3 8000 twoSeconds_initialized
    (by decide) uncut
  rw [delay, one_add_one_eq_two] at sends
  exact ⟨w, run, sends⟩

/-- Two packets of 512 MiB: their bits are 0 in 32 bits, and both go out at once. -/
theorem data_rate_exceeded : ¬ ∀ (packetSize nPackets : UInt32) (dataRate : Nat)
    (w : World (listSimulator ℚ Callback) Nat), 1 ≤ dataRate →
    Reach World.step anyStep (World.ready twoSeconds 9 packetSize nPackets dataRate) w →
    ∀ time, 1 ≤ time → (8 * handedBy w time : ℚ) ≤
      dataRate * (time - 1) + 8 * packetSize.toNat := by
  intro kept
  have wrapped : readyDelay 536870912 1 = 0 := by
    have bits : 8 * (536870912 : UInt32).toNat % 2 ^ 32 = 0 := rfl
    rw [readyDelay, bits, Nat.cast_zero, zero_div]
  have uncut : ∀ T, some (3 : ℚ) = some T → T < 1 ∨ 1 + readyDelay 536870912 1 < T := by
    rintro T ⟨⟩
    rw [wrapped]
    norm_num
  obtain ⟨w, run, sends⟩ := World.ready_second (9 : Nat) 536870912 2 1 twoSeconds_initialized
    (by decide) uncut
  exact rate_exceeded (by decide) (by decide) (ready_sized run) sends
    (kept _ _ 1 w le_rfl run _ (le_add_of_nonneg_right readyDelay_nonneg))

end Dumbbell
