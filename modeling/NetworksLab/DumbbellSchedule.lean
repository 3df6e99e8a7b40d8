import Mathlib.Tactic.Ring
import Mathlib.Tactic.Linarith
import NetworksLab.DumbbellApp
import NetworksLab.Firsts

/-! A whole run of the sending application: what it has sent and what is pending
between any two events. -/
namespace Dumbbell
open EventQueue Transition

variable {α : Type} {sim : Simulator ℚ Callback} {start stop delay : ℚ} {n : Nat}

/-- Packets `0` to `k - 1`. -/
def firstSends (start delay : ℚ) (k : Nat) : List ℚ := (List.range k).map fun j : Nat => start + j * delay

theorem firstSends_succ (start delay : ℚ) (k : Nat) :
    firstSends start delay (k + 1) = firstSends start delay k ++ [start + k * delay] :=
  Firsts.map_range_succ _ k

/-- From one packet to the next. -/
theorem next_time (start delay : ℚ) (k : Nat) :
    start + k * delay + delay = start + (k + 1 : Nat) * delay := by
  push_cast
  ring

/-- The first packet that does not fit between its predecessor and the end ends
the schedule. -/
theorem firstSends_eq_schedule {k : Nat} (positive : 0 ≤ delay) (room : k = 0 ∨ k < n)
    (early : start + k * delay < stop) (last : k + 1 < n → stop ≤ start + (k + 1 : Nat) * delay) :
    firstSends start delay (k + 1) = schedule start stop delay n := by
  have sent : ∀ j : Nat, j ≤ k → start + j * delay < stop := by
    intro j hj
    have le : (j : ℚ) * delay ≤ k * delay := by gcongr
    linarith
  have unsent : ∀ j : Nat, k + 1 ≤ j → j < n → stop ≤ start + j * delay := by
    intro j hj inside
    have le : ((k + 1 : Nat) : ℚ) * delay ≤ j * delay := by gcongr
    have := last (by omega)
    linarith
  have kept : (List.range n).filter (fun j : Nat => 1 ≤ j ∧ start + j * delay < stop) =
      List.range' 1 k := by
    cases n with
    | zero =>
        obtain rfl : k = 0 := by omega
        rfl
    | succ m =>
      have split : List.range (m + 1) = 0 :: (List.range' 1 k ++ List.range' (1 + k) (m - k)) := by
        rw [List.range_eq_range', List.range'_succ, List.range'_append_1,
          Nat.add_sub_of_le (by omega : k ≤ m)]
      rw [split, List.filter_cons_of_neg (by simp), List.filter_append,
        List.filter_eq_self.mpr, List.filter_eq_nil_iff.mpr, List.append_nil]
      · intro j hj chosen
        obtain ⟨low, high⟩ := List.mem_range'_1.mp hj
        have late := unsent j (by omega) (by omega)
        exact absurd (of_decide_eq_true chosen).2 (not_lt.mpr late)
      · intro j hj
        obtain ⟨low, high⟩ := List.mem_range'_1.mp hj
        exact decide_eq_true ⟨low, sent j (by omega)⟩
  rw [firstSends, schedule, kept, List.range_eq_range', List.range'_succ, List.map_cons,
    Nat.cast_zero, zero_mul, add_zero]

structure World.Configured (w : World sim α) (delay : ℚ) (n : Nat) : Prop where
  socket : w.app.socket = true
  nPackets : w.app.nPackets.toNat = n
  tNext : w.app.tNext = delay

structure World.Waiting (w : World sim α) (start stop : ℚ) : Prop where
  calls : w.calls = []
  sent : w.app.packetsSent = 0
  pending : ∃ i j,
    sim.pending w.queue = [⟨i, start, .startApplication⟩, ⟨j, stop, .stopApplication⟩] ∨
    sim.pending w.queue = [⟨j, stop, .stopApplication⟩, ⟨i, start, .startApplication⟩]

/-- Running, with the packets before `k` sent. -/
structure World.Sent (w : World sim α) (start delay : ℚ) (k : Nat) : Prop where
  sends : w.sends = firstSends start delay k
  sent : w.app.packetsSent.toNat = k
  running : w.app.running = true
  opened : ∀ time, (time, SocketCall.close) ∉ w.calls

/-- Between the event that sends packet `k` and the next one. -/
structure World.Sending (w : World sim α) (start stop delay : ℚ) (n k : Nat) : Prop where
  sent : w.Sent start delay (k + 1)
  now : sim.now w.queue = start + k * delay
  early : start + k * delay < stop
  room : k = 0 ∨ k < n
  pending : ∃ j,
    if k + 1 < n then ∃ i, w.app.sendEvent = some i ∧ sim.pending w.queue =
      [⟨j, stop, .stopApplication⟩, ⟨i, start + (k + 1 : Nat) * delay, .sendPkt⟩]
    else sim.pending w.queue = [⟨j, stop, .stopApplication⟩]

structure World.Stopped (w : World sim α) (start stop delay : ℚ) (n : Nat) : Prop where
  pending : sim.pending w.queue = []
  sends : w.sends = schedule start stop delay n
  sent : w.app.packetsSent.toNat = w.sends.length
  most : w.sends.length ≤ max 1 n

theorem World.sends_call (w : World sim α) (c : SocketCall α) :
    (w.call c).sends = w.sends ++ match c with
      | .send _ => [sim.now w.queue]
      | _ => [] := by
  cases c <;> simp [call, sends]

theorem World.sends_nil {w : World sim α} (h : w.calls = []) : w.sends = [] := by
  rw [sends, h]
  rfl

/-- `sendPkt` at the time of packet `k`, up to its test. -/
def World.counted (w : World sim α) : World sim α :=
  { w.call (.send w.app.packetSize) with
    app := { w.app with packetsSent := w.app.packetsSent + 1 } }

/-- What `sendPkt` does: a packet goes out, and another one is scheduled if the
counter allows it. -/
structure World.SendsOne (w t : World sim α) (delay : ℚ) (n : Nat) : Prop where
  config : t.Configured delay n
  calls : t.calls = w.calls ++ [(sim.now w.queue, .send w.app.packetSize)]
  now : sim.now t.queue = sim.now w.queue
  sent : t.app.packetsSent.toNat = w.app.packetsSent.toNat + 1
  running : t.app.running = w.app.running
  next : (w.app.running = true ∧ w.app.packetsSent.toNat + 1 < n ∧
      ∃ i, t.app.sendEvent = some i ∧ sim.pending t.queue =
        sim.pending w.queue ++ [⟨i, sim.now w.queue + delay, .sendPkt⟩]) ∨
    ¬ (w.app.running = true ∧ w.app.packetsSent.toNat + 1 < n) ∧
      sim.pending t.queue = sim.pending w.queue

theorem World.SendsOne.sends {w t : World sim α} (h : w.SendsOne t delay n) :
    t.sends = w.sends ++ [sim.now w.queue] := by
  rw [World.sends, h.calls, List.filterMap_append]
  rfl

theorem World.sendPkt_sendsOne {w : World sim α} (config : w.Configured delay n)
    (small : w.app.packetsSent.toNat + 1 < 2 ^ 32) : w.SendsOne w.sendPkt delay n := by
  have config' : w.counted.Configured delay n := ⟨config.socket, config.nPackets, config.tNext⟩
  have sent : w.counted.app.packetsSent.toNat = w.app.packetsSent.toNat + 1 := by
    change (w.app.packetsSent + 1).toNat = _
    rw [UInt32.toNat_add]
    exact Nat.mod_eq_of_lt small
  have more : w.counted.app.packetsSent < w.counted.app.nPackets ↔ w.app.packetsSent.toNat + 1 < n := by
    rw [UInt32.lt_iff_toNat_lt, sent, config'.nPackets]
  have unfolded : w.sendPkt = if w.app.packetsSent.toNat + 1 < n then w.counted.scheduleTx
      else w.counted := if_congr more rfl rfl
  by_cases goesOn : w.app.running = true ∧ w.app.packetsSent.toNat + 1 < n
  · have running : w.counted.app.running = true := goesOn.1
    have scheduled : w.sendPkt = { w.counted with
        queue := (sim.schedule w.queue delay .sendPkt).1
        app := { w.counted.app with
          sendEvent := some (sim.schedule w.queue delay .sendPkt).2 } } := by
      rw [unfolded, if_pos goesOn.2, World.scheduleTx, if_pos running, config'.tNext]
      rfl
    rw [scheduled]
    exact ⟨⟨config'.socket, config'.nPackets, config'.tNext⟩, rfl, sim.schedule_now .., sent, rfl,
      .inl ⟨goesOn.1, goesOn.2, _, rfl, sim.schedule_pending ..⟩⟩
  · have idle : w.sendPkt = w.counted := by
      rw [unfolded]
      split
      · next below =>
          rw [World.scheduleTx, if_neg]
          exact fun running => goesOn ⟨running, below⟩
      · rfl
    rw [idle]
    exact ⟨config', rfl, rfl, sent, rfl, .inr ⟨goesOn, rfl⟩⟩

theorem World.SendsOne.after {w t : World sim α} {k : Nat} (h : w.SendsOne t delay n)
    (before : w.Sent start delay k) (now : sim.now w.queue = start + k * delay) :
    t.Sent start delay (k + 1) where
  sends := by rw [h.sends, before.sends, now, firstSends_succ]
  sent := by rw [h.sent, before.sent]
  running := h.running.trans before.running
  opened := by
    intro time closed
    rw [h.calls] at closed
    rcases List.mem_append.mp closed with old | new
    · exact before.opened time old
    · cases List.mem_singleton.mp new

/-- The counter is 0 or below `nPackets`, so it does not wrap. -/
theorem World.sendPkt_sending {w : World sim α} {k : Nat} {j : sim.Id}
    (config : w.Configured delay n) (sent : w.Sent start delay k)
    (now : sim.now w.queue = start + k * delay) (early : start + k * delay < stop)
    (room : k = 0 ∨ k < n) (pending : sim.pending w.queue = [⟨j, stop, .stopApplication⟩]) :
    w.sendPkt.Configured delay n ∧ w.sendPkt.Sending start stop delay n k := by
  have small : n < 2 ^ 32 := config.nPackets ▸ w.app.nPackets.toNat_lt
  have count := sent.sent
  have one := World.sendPkt_sendsOne config (by omega)
  refine ⟨one.config, one.after sent now, one.now.trans now, early, room, j, ?_⟩
  rcases one.next with ⟨_, more, i, event, pending'⟩ | ⟨last, pending'⟩
  · rw [if_pos (count ▸ more)]
    refine ⟨i, event, ?_⟩
    rw [pending', pending, now, next_time]
    rfl
  · have none : ¬ k + 1 < n := fun more => last ⟨sent.running, count ▸ more⟩
    rw [if_neg none]
    exact pending'.trans pending

theorem World.step_of_next {w : World sim α} {e : Event sim.Id ℚ Callback} {q : sim.State}
    (next : sim.next w.queue = some (e, q)) :
    w.step () = some (World.fire { w with queue := q } e.callback) := by
  rw [World.step, next]
  rfl

/-- `startApplication` up to its call of `sendPkt`. -/
def World.begun (w : World sim α) : World sim α :=
  let reset := { w with app := { w.app with running := true, packetsSent := 0 } }
  (reset.call .bind).call (.connect w.app.peer)

theorem World.Waiting.step {w : World sim α} (h : w.Waiting start stop)
    (config : w.Configured delay n) (order : start < stop) :
    ∃ t, w.step () = some t ∧ t.Configured delay n ∧ t.Sending start stop delay n 0 := by
  obtain ⟨i, j, pending⟩ := h.pending
  obtain ⟨q, next, rest, now⟩ : ∃ q, sim.next w.queue = some (⟨i, start, .startApplication⟩, q) ∧
      sim.pending q = [⟨j, stop, .stopApplication⟩] ∧ sim.now q = start := by
    rcases pending with pending | pending
    · obtain ⟨q, ⟨_, next, rest, now⟩ | ⟨late, _⟩⟩ := Simulator.next_pair pending
      · exact ⟨q, next, rest, now⟩
      · exact absurd order (not_lt.mpr late.le)
    · obtain ⟨q, ⟨early, _⟩ | ⟨_, next, rest, now⟩⟩ := Simulator.next_pair pending
      · exact absurd order (not_lt.mpr early)
      · exact ⟨q, next, rest, now⟩
  refine ⟨_, World.step_of_next next, World.sendPkt_sending (w := World.begun { w with queue := q })
    ⟨config.socket, config.nPackets, config.tNext⟩ ?_ ?_ ?_ (.inl rfl) rest⟩
  · refine ⟨?_, rfl, rfl, ?_⟩
    · simp [World.begun, World.sends, World.call, h.calls, firstSends]
    · simp [World.begun, World.call, h.calls]
  · change sim.now q = _
    rw [now, Nat.cast_zero, zero_mul, add_zero]
  · rwa [Nat.cast_zero, zero_mul, add_zero]

/-- The next packet, if it comes before the stop event. -/
theorem World.Sending.step_send {w : World sim α} {k : Nat} (h : w.Sending start stop delay n k)
    (config : w.Configured delay n) (more : k + 1 < n)
    (early : start + (k + 1 : Nat) * delay < stop) :
    ∃ t, w.step () = some t ∧ t.Configured delay n ∧ t.Sending start stop delay n (k + 1) := by
  obtain ⟨j, pending⟩ := h.pending
  rw [if_pos more] at pending
  obtain ⟨i, _, pending⟩ := pending
  obtain ⟨q, ⟨late, _⟩ | ⟨_, next, rest, now⟩⟩ := Simulator.next_pair pending
  · exact absurd early (not_lt.mpr late)
  · exact ⟨_, World.step_of_next next, World.sendPkt_sending (w := { w with queue := q })
      ⟨config.socket, config.nPackets, config.tNext⟩
      ⟨h.sent.sends, h.sent.sent, h.sent.running, h.sent.opened⟩ now early (.inr more) rest⟩

theorem World.cancelSend_app (w : World sim α) : w.cancelSend.app = w.app := by
  unfold cancelSend
  split
  · rfl
  · split <;> rfl

theorem World.cancelSend_calls (w : World sim α) : w.cancelSend.calls = w.calls := by
  unfold cancelSend
  split
  · rfl
  · split <;> rfl

theorem World.cancelSend_pending {w : World sim α}
    (only : ∀ e ∈ sim.pending w.queue, w.app.sendEvent = some e.id) :
    sim.pending w.cancelSend.queue = [] := by
  unfold cancelSend
  split
  · next none =>
      apply List.eq_nil_iff_forall_not_mem.mpr
      intro e he
      cases none.symm.trans (only e he)
  · next id some =>
      split
      · rw [sim.cancel_pending, List.filter_eq_nil_iff]
        intro e he
        have same := Option.some.inj (some.symm.trans (only e he))
        simp [same]
      · next idle =>
          apply List.eq_nil_iff_forall_not_mem.mpr
          intro e he
          have same := Option.some.inj (some.symm.trans (only e he))
          exact idle ((sim.isRunning_iff _ _).mpr ⟨e, he, same.symm⟩)

/-- `stopApplication` up to its test of the socket. -/
def World.halted (w : World sim α) : World sim α :=
  World.cancelSend { w with app := { w.app with running := false } }

theorem World.stopApplication_halted (w : World sim α) :
    w.stopApplication.app = w.halted.app ∧ w.stopApplication.queue = w.halted.queue ∧
      w.stopApplication.sends = w.halted.sends := by
  change (if w.halted.app.socket then w.halted.call .close else w.halted).app = _ ∧
    (if w.halted.app.socket then w.halted.call .close else w.halted).queue = _ ∧
      (if w.halted.app.socket then w.halted.call .close else w.halted).sends = _
  split
  · exact ⟨rfl, rfl, (World.sends_call _ _).trans (List.append_nil _)⟩
  · exact ⟨rfl, rfl, rfl⟩

theorem World.stopApplication_sends (w : World sim α) : w.stopApplication.sends = w.sends := by
  rw [w.stopApplication_halted.2.2, World.sends, World.halted, World.cancelSend_calls]
  rfl

theorem World.stopApplication_app (w : World sim α) :
    w.stopApplication.app = { w.app with running := false } :=
  w.stopApplication_halted.1.trans (World.cancelSend_app _)

theorem World.stopApplication_pending {w : World sim α}
    (only : ∀ e ∈ sim.pending w.queue, w.app.sendEvent = some e.id) :
    sim.pending w.stopApplication.queue = [] := by
  rw [w.stopApplication_halted.2.1]
  exact World.cancelSend_pending (w := { w with app := { w.app with running := false } }) only

/-- The stop event cancels what is pending and sends nothing. -/
theorem World.stopApplication_stopped {w : World sim α}
    (only : ∀ e ∈ sim.pending w.queue, w.app.sendEvent = some e.id)
    (sends : w.sends = schedule start stop delay n)
    (sent : w.app.packetsSent.toNat = w.sends.length) (most : w.sends.length ≤ max 1 n) :
    w.stopApplication.Stopped start stop delay n := by
  have same := w.stopApplication_sends
  refine ⟨World.stopApplication_pending only, same.trans sends, ?_, same ▸ most⟩
  rw [same, ← sent, World.stopApplication_app]

theorem firstSends_length (start delay : ℚ) (k : Nat) : (firstSends start delay k).length = k := by
  simp [firstSends]

/-- No further packet before the stop event. -/
theorem World.Sending.step_stop {w : World sim α} {k : Nat} (h : w.Sending start stop delay n k)
    (positive : 0 ≤ delay)
    (last : k + 1 < n → stop ≤ start + (k + 1 : Nat) * delay) :
    ∃ t, w.step () = some t ∧ t.Stopped start stop delay n := by
  have sends := h.sent.sends.trans (firstSends_eq_schedule positive h.room h.early last)
  have count : w.app.packetsSent.toNat = w.sends.length := by
    rw [h.sent.sent, h.sent.sends, firstSends_length]
  obtain ⟨j, pending⟩ := h.pending
  obtain ⟨q, next, only⟩ : ∃ q, sim.next w.queue = some (⟨j, stop, .stopApplication⟩, q) ∧
      ∀ e ∈ sim.pending q, w.app.sendEvent = some e.id := by
    by_cases more : k + 1 < n
    · rw [if_pos more] at pending
      obtain ⟨i, event, pending⟩ := pending
      obtain ⟨q, ⟨_, next, rest, _⟩ | ⟨early, _⟩⟩ := Simulator.next_pair pending
      · refine ⟨q, next, ?_⟩
        intro e he
        rw [rest] at he
        rw [List.mem_singleton.mp he, event]
      · exact absurd (last more) (not_le.mpr early)
    · rw [if_neg more] at pending
      obtain ⟨q, next, rest, _⟩ := Simulator.next_single pending
      refine ⟨q, next, ?_⟩
      intro e he
      rw [rest] at he
      cases he
  exact ⟨_, World.step_of_next next, World.stopApplication_stopped (w := { w with queue := q }) only
    sends count (h.sent.sends ▸ firstSends_length .. ▸ by have := h.room; omega)⟩

/-- What holds between any two events. -/
inductive World.Phase (w : World sim α) (start stop delay : ℚ) (n : Nat) : Prop
  | waiting (config : w.Configured delay n) (h : w.Waiting start stop)
  | sending (config : w.Configured delay n) (k : Nat) (h : w.Sending start stop delay n k)
  | stopped (h : w.Stopped start stop delay n)

theorem World.Sending.step {w : World sim α} {k : Nat} (h : w.Sending start stop delay n k)
    (config : w.Configured delay n) (positive : 0 ≤ delay) :
    ∃ t, w.step () = some t ∧ (t.Stopped start stop delay n ∨
      k + 1 < n ∧ t.Configured delay n ∧ t.Sending start stop delay n (k + 1)) := by
  by_cases next : k + 1 < n ∧ start + (k + 1 : Nat) * delay < stop
  · obtain ⟨t, step, config', sending⟩ := h.step_send config next.1 next.2
    exact ⟨t, step, .inr ⟨next.1, config', sending⟩⟩
  · obtain ⟨t, step, stopped⟩ := h.step_stop positive fun more =>
      not_lt.mp fun early => next ⟨more, early⟩
    exact ⟨t, step, .inl stopped⟩

theorem World.Stopped.step {w : World sim α} (h : w.Stopped start stop delay n) :
    w.step () = none := by
  rw [World.step, sim.next_none _ h.pending]
  rfl

theorem World.Phase.step {w t : World sim α} (h : w.Phase start stop delay n) (order : start < stop)
    (positive : 0 ≤ delay) (step : w.step () = some t) : t.Phase start stop delay n := by
  cases h with
  | waiting config h =>
      obtain ⟨t', step', config', sending⟩ := h.step config order
      cases step.symm.trans step'
      exact .sending config' 0 sending
  | sending config k h =>
      obtain ⟨t', step', stopped | ⟨_, config', sending⟩⟩ := h.step config positive
      · cases step.symm.trans step'
        exact .stopped stopped
      · cases step.symm.trans step'
        exact .sending config' _ sending
  | stopped h => cases step.symm.trans h.step

/-- The run comes to its end: each event sends a packet of the finitely many left. -/
theorem World.Sending.ends {w : World sim α} {k : Nat} (h : w.Sending start stop delay n k)
    (config : w.Configured delay n) (positive : 0 ≤ delay) :
    ∃ t, Reach World.step anyStep w t ∧ t.Stopped start stop delay n := by
  induction left : n - k generalizing w k with
  | zero =>
      obtain ⟨t, step, stopped | ⟨more, _⟩⟩ := h.step config positive
      · exact ⟨t, .single trivial step, stopped⟩
      · omega
  | succ m ih =>
      obtain ⟨t, step, stopped | ⟨more, config', sending⟩⟩ := h.step config positive
      · exact ⟨t, .single trivial step, stopped⟩
      · obtain ⟨u, run, stopped⟩ := ih sending config' (by omega)
        exact ⟨u, (Reach.single trivial step).trans run, stopped⟩

theorem World.Phase.facts {w : World sim α} (h : w.Phase start stop delay n) :
    w.app.packetsSent.toNat = w.sends.length ∧
    ((sim.pending w.queue).filter (·.callback = .sendPkt)).length ≤ 1 ∧
    w.sends.length ≤ max 1 n := by
  cases h with
  | waiting config h =>
      obtain ⟨i, j, pending | pending⟩ := h.pending <;>
        simp [h.sent, World.sends_nil h.calls, pending]
  | sending config k h =>
      obtain ⟨j, pending⟩ := h.pending
      have room := h.room
      rw [h.sent.sent, h.sent.sends, firstSends_length]
      refine ⟨rfl, ?_, by omega⟩
      by_cases more : k + 1 < n
      · rw [if_pos more] at pending
        obtain ⟨i, _, pending⟩ := pending
        simp [pending]
      · rw [if_neg more] at pending
        simp [pending]
  | stopped h => exact ⟨h.sent, by simp [h.pending], h.most⟩

theorem World.Phase.silent {w t : World sim α} (h : w.Phase start stop delay n)
    (closed : ∃ time, (time, SocketCall.close) ∈ w.calls) (run : Reach World.step anyStep w t) :
    t.sends = w.sends := by
  obtain ⟨time, closed⟩ := closed
  cases h with
  | waiting config h =>
      rw [h.calls] at closed
      cases closed
  | sending config k h => exact absurd closed (h.sent.opened time)
  | stopped h =>
      have still : t = w := by
        apply run.invariant (I := fun u => u = w) rfl
        rintro u e v rfl _ step
        cases step.symm.trans h.step
      rw [still]

theorem World.ready_configured (queue : sim.State) (peer : α) (packetSize nPackets : UInt32)
    (dataRate : Nat) : (World.ready queue peer packetSize nPackets dataRate).Configured
      ((8 * packetSize.toNat % 2 ^ 32 : Nat) / dataRate) nPackets.toNat := by
  refine ⟨rfl, rfl, ?_⟩
  change (((packetSize * 8).toNat : Nat) : ℚ) / dataRate = _
  rw [UInt32.toNat_mul, Nat.mul_comm]
  rfl

theorem World.Waiting.phase {w t : World sim α} (h : w.Waiting start stop)
    (config : w.Configured delay n) (order : start < stop) (positive : 0 ≤ delay)
    (run : Reach World.step anyStep w t) : t.Phase start stop delay n :=
  run.invariant (I := fun w : World sim α => w.Phase start stop delay n) (.waiting config h)
    fun _ _ _ h _ step => h.step order positive step

/-- Started at `start` and stopped at `stop`, the application sends on schedule
and comes to an end; on the way its counter counts what is sent, it has at most
one event of its own pending, and it is silent once the stop event has run. -/
theorem exact_schedule {queue : sim.State} {peer : α} {packetSize nPackets : UInt32}
    {dataRate : Nat} (order : start < stop) (_ : 0 < dataRate)
    (events : ∃ i j,
      sim.pending queue = [⟨i, start, .startApplication⟩, ⟨j, stop, .stopApplication⟩] ∨
      sim.pending queue = [⟨j, stop, .stopApplication⟩, ⟨i, start, .startApplication⟩]) :
    (∃ t, Reach World.step anyStep (World.ready queue peer packetSize nPackets dataRate) t ∧
      t.step () = none) ∧
    ∀ w, Reach World.step anyStep (World.ready queue peer packetSize nPackets dataRate) w →
      (w.step () = none → w.sends = schedule start stop
        ((8 * packetSize.toNat % 2 ^ 32 : Nat) / dataRate) nPackets.toNat) ∧
      w.app.packetsSent.toNat = w.sends.length ∧
      ((sim.pending w.queue).filter (·.callback = .sendPkt)).length ≤ 1 ∧
      ((∃ time, (time, SocketCall.close) ∈ w.calls) →
        ∀ t, Reach World.step anyStep w t → t.sends = w.sends) ∧
      w.sends.length ≤ max 1 nPackets.toNat := by
  have config := World.ready_configured queue peer packetSize nPackets dataRate
  have waiting : (World.ready queue peer packetSize nPackets dataRate).Waiting start stop :=
    ⟨rfl, rfl, events⟩
  have positive : (0 : ℚ) ≤ (8 * packetSize.toNat % 2 ^ 32 : Nat) / dataRate :=
    div_nonneg (Nat.cast_nonneg _) (Nat.cast_nonneg _)
  refine ⟨?_, ?_⟩
  · obtain ⟨u, step, config', sending⟩ := waiting.step config order
    obtain ⟨t, run, stopped⟩ := sending.ends config' positive
    exact ⟨t, (Reach.single trivial step).trans run, stopped.step⟩
  · intro w run
    have phase := waiting.phase config order positive run
    obtain ⟨count, pending, most⟩ := phase.facts
    refine ⟨?_, count, pending, fun closed t => phase.silent closed, most⟩
    intro ended
    cases phase with
    | waiting config h =>
        obtain ⟨_, step, _⟩ := h.step config order
        cases ended.symm.trans step
    | sending config k h =>
        obtain ⟨_, step, _⟩ := h.step config positive
        cases ended.symm.trans step
    | stopped h => exact h.sends

/-- An application that starts at 1 and stops at 3. -/
def twoSeconds : Agenda ℚ Callback :=
  ⟨0, [⟨0, 1, .startApplication⟩, ⟨1, 3, .stopApplication⟩]⟩

/-- Three packets of 1000 bytes at 8 kb/s: the last one is due with the stop. -/
theorem exact_schedule_twoSeconds : ∃ t : World (listSimulator ℚ Callback) Nat,
    Reach World.step anyStep (World.ready twoSeconds 9 1000 3 8000) t ∧ t.sends = [1, 2] := by
  have order : (1 : ℚ) < 3 := by norm_num
  obtain ⟨⟨t, run, ended⟩, facts⟩ := @exact_schedule Nat (listSimulator ℚ Callback) 1 3
    twoSeconds 9 1000 3 8000 order (by decide) ⟨(0 : Nat), (1 : Nat), .inl rfl⟩
  refine ⟨t, run, ((facts t run).1 ended).trans ?_⟩
  have bits : 8 * (1000 : UInt32).toNat % 2 ^ 32 = 8000 := rfl
  have packets : (3 : UInt32).toNat = 3 := rfl
  have second : ((8000 : Nat) : ℚ) / (8000 : Nat) = 1 := div_self (by norm_num)
  rw [bits, packets, second]
  norm_num [schedule, List.range_succ, List.filter_cons]

end Dumbbell
