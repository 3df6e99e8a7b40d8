import Mathlib.Data.List.Perm.Subperm
import Mathlib.Tactic.NormNum
import NetworksLab.DumbbellSchedule

/-! `tcpvariants` hands its option `max_bytes` to `setup`, which takes a number of
packets. -/
namespace TcpVariants
open EventQueue Transition Dumbbell

variable {α : Type} {sim : Simulator ℚ Callback} {start stop delay : ℚ} {n : Nat}

/-- `app->setup (ns3TcpSocket, sinkAddress, 1040, max_bytes, DataRate ("250Kbps"))`. -/
def main (queue : sim.State) (sinkAddress : α) (maxBytes : UInt32) : World sim α :=
  World.ready queue sinkAddress 1040 maxBytes 250000

/-- `app->SetStartTime (Seconds (1.0))` and `app->SetStopTime (Seconds (30.0))`. -/
def Scheduled (queue : sim.State) : Prop := ∃ i j,
  sim.pending queue = [⟨i, 1, .startApplication⟩, ⟨j, 30, .stopApplication⟩] ∨
  sim.pending queue = [⟨j, 30, .stopApplication⟩, ⟨i, 1, .startApplication⟩]

def bytes : SocketCall α → Nat
  | .send size => size.toNat
  | _ => 0

/-- The bytes handed to the socket. -/
def handed (w : World sim α) : Nat := (w.calls.map fun c => bytes c.2).sum

/-- Every packet handed over has the size in the application. -/
structure Sized (w : World sim α) (size : UInt32) : Prop where
  packetSize : w.app.packetSize = size
  sends : ∀ time s, (time, SocketCall.send s) ∈ w.calls → s = size

variable {w t : World sim α} {size : UInt32}

theorem Sized.same (h : Sized w size) (packetSize : t.app.packetSize = w.app.packetSize)
    (calls : t.calls = w.calls) : Sized t size :=
  ⟨packetSize.trans h.packetSize, fun time s mem => h.sends time s (calls ▸ mem)⟩

theorem Sized.call (h : Sized w size) {c : SocketCall α} (kept : ∀ s, c = .send s → s = size) :
    Sized (w.call c) size := by
  refine ⟨h.packetSize, fun time s mem => ?_⟩
  rcases List.mem_append.mp mem with old | new
  · exact h.sends time s old
  · rw [List.mem_singleton, Prod.mk.injEq] at new
    exact kept s new.2.symm

theorem Sized.scheduleTx (h : Sized w size) : Sized w.scheduleTx size := by
  unfold World.scheduleTx
  split
  · exact h.same rfl rfl
  · exact h

theorem Sized.sendPkt (h : Sized w size) : Sized w.sendPkt size := by
  have sent : Sized (w.call (.send w.app.packetSize)) size := by
    apply h.call
    rintro s ⟨⟩
    exact h.packetSize
  have counted : Sized w.counted size := sent.same rfl rfl
  change Sized (if w.counted.app.packetsSent < w.counted.app.nPackets then w.counted.scheduleTx
    else w.counted) size
  split
  · exact counted.scheduleTx
  · exact counted

theorem Sized.fire (h : Sized w size) (callback : Callback) : Sized (w.fire callback) size := by
  cases callback with
  | startApplication =>
      have reset : Sized { w with app := { w.app with running := true, packetsSent := 0 } } size :=
        h.same rfl rfl
      have bound := reset.call (c := .bind) fun s same => by cases same
      exact (bound.call fun s same => by cases same).sendPkt
  | stopApplication =>
      have cancelled :
          Sized (World.cancelSend { w with app := { w.app with running := false } }) size := by
        refine h.same ?_ (World.cancelSend_calls _)
        rw [World.cancelSend_app]
      change Sized (if _ then World.call _ _ else _) size
      split
      · exact cancelled.call fun s same => by cases same
      · exact cancelled
  | sendPkt => exact h.sendPkt

theorem Sized.reach (h : Sized w size) (run : Reach World.step anyStep w t) : Sized t size := by
  apply run.invariant (I := fun u => Sized u size) h
  intro u e v inv _ step
  obtain ⟨p, _, rfl⟩ := Option.map_eq_some_iff.mp step
  exact (inv.same rfl rfl : Sized { u with queue := p.2 } size).fire p.1.callback

/-- As many packets of one size as there are times. -/
theorem sum_bytes {calls : List (ℚ × SocketCall α)}
    (sized : ∀ time s, (time, .send s) ∈ calls → s = size) :
    (calls.map fun c => bytes c.2).sum = (calls.filterMap fun
      | (time, .send _) => some time
      | _ => none).length * size.toNat := by
  induction calls with
  | nil => exact (Nat.zero_mul _).symm
  | cons c calls ih =>
      have later := ih fun time s mem => sized time s (List.mem_cons_of_mem c mem)
      rw [List.map_cons, List.sum_cons, later]
      obtain ⟨time, call⟩ := c
      cases call with
      | send s =>
          obtain rfl := sized time s List.mem_cons_self
          rw [List.filterMap_cons]
          exact (Nat.add_comm _ _).trans (Nat.succ_mul _ _).symm
      | bind | connect | close =>
          rw [List.filterMap_cons]
          exact Nat.zero_add _

theorem Sized.handed (h : Sized w size) : handed w = w.sends.length * size.toNat :=
  sum_bytes h.sends

theorem ready_sized (queue : sim.State) (sinkAddress : α) (maxBytes : UInt32) :
    Sized (main queue sinkAddress maxBytes) 1040 := ⟨rfl, nofun⟩

/-- Every number of packets that the counter and the stop time allow is reached. -/
theorem reach_sending {k : Nat} (waiting : w.Waiting start stop) (config : w.Configured delay n)
    (order : start < stop) (positive : 0 ≤ delay) (room : k = 0 ∨ k < n)
    (early : start + k * delay < stop) :
    ∃ t, Reach World.step anyStep w t ∧ t.Configured delay n ∧ t.Sending start stop delay n k := by
  induction k with
  | zero =>
      obtain ⟨t, step, config', sending⟩ := waiting.step config order
      exact ⟨t, .single trivial step, config', sending⟩
  | succ k ih =>
      have less : (k : ℚ) * delay ≤ (k + 1 : Nat) * delay := by
        gcongr
        exact Nat.le_succ k
      obtain ⟨t, run, config', sending⟩ := ih (by omega) (by linarith)
      obtain ⟨u, step, configU, sendingU⟩ := sending.step_send config' (by omega) early
      exact ⟨u, run.tail trivial step, configU, sendingU⟩

/-- `delay` at 250 kb/s. -/
theorem delay_eq :
    ((8 * (1040 : UInt32).toNat % 2 ^ 32 : Nat) : ℚ) / (250000 : Nat) = 8320 / 250000 := by
  have bits : 8 * (1040 : UInt32).toNat % 2 ^ 32 = 8320 := rfl
  rw [bits]
  norm_num

/-- Packet 871 is the last before the stop event. -/
theorem early_iff {k : Nat} : (1 : ℚ) + k * (8320 / 250000) < 30 ↔ k ≤ 871 := by
  constructor
  · intro early
    by_contra late
    have : (872 : ℚ) ≤ k := by exact_mod_cast Nat.lt_of_not_le late
    linarith
  · intro le
    have : (k : ℚ) ≤ 871 := by exact_mod_cast le
    linarith

theorem schedule_length_le : (schedule 1 30 (8320 / 250000) n).length ≤ 872 := by
  have inside : ((List.range n).filter fun k : Nat =>
      1 ≤ k ∧ (1 : ℚ) + k * (8320 / 250000) < 30) ⊆ List.range' 1 871 := by
    intro k mem
    obtain ⟨low, early⟩ := of_decide_eq_true (List.mem_filter.mp mem).2
    have := early_iff.mp early
    exact List.mem_range'_1.mpr (by omega)
  have short := (List.subperm_of_subset (List.nodup_range.filter _) inside).length_le
  rw [List.length_range'] at short
  rw [schedule, List.length_cons, List.length_map]
  omega

section Main

variable {queue : sim.State} (sinkAddress : α) (maxBytes : UInt32)

theorem main_waiting (events : Scheduled queue) : (main queue sinkAddress maxBytes).Waiting 1 30 :=
  ⟨rfl, rfl, events⟩

theorem main_configured :
    (main queue sinkAddress maxBytes).Configured (8320 / 250000) maxBytes.toNat := by
  rw [← delay_eq]
  exact World.ready_configured queue sinkAddress 1040 maxBytes 250000

variable {sinkAddress maxBytes} in
theorem main_handed (run : Reach World.step anyStep (main queue sinkAddress maxBytes) w) :
    handed w = w.sends.length * 1040 :=
  ((ready_sized queue sinkAddress maxBytes).reach run).handed

variable {sinkAddress maxBytes} in
theorem handed_le (events : Scheduled queue)
    (run : Reach World.step anyStep (main queue sinkAddress maxBytes) w) :
    handed w ≤ 872 * 1040 := by
  have waiting := main_waiting sinkAddress maxBytes events
  have config : (main queue sinkAddress maxBytes).Configured _ _ := main_configured ..
  have sent : w.sends.length ≤ 872 := by
    cases waiting.phase config (by norm_num) (by norm_num) run with
    | waiting _ h => simp [World.sends_nil h.calls]
    | sending _ k h =>
        have := early_iff.mp h.early
        rw [h.sent.sends, firstSends_length]
        omega
    | stopped h => exact h.sends ▸ schedule_length_le
  rw [main_handed run]
  omega

theorem handed_reached {k : Nat} (events : Scheduled queue) (room : k = 0 ∨ k < maxBytes.toNat)
    (early : k ≤ 871) : ∃ w, Reach World.step anyStep (main queue sinkAddress maxBytes) w ∧
      handed w = (k + 1) * 1040 := by
  have waiting := main_waiting sinkAddress maxBytes events
  have config : (main queue sinkAddress maxBytes).Configured _ _ := main_configured ..
  obtain ⟨w, run, _, sending⟩ := reach_sending waiting config (by norm_num) (by norm_num) room
    (early_iff.mpr early)
  refine ⟨w, run, ?_⟩
  rw [main_handed run, sending.sent.sends, firstSends_length]

/-- The bytes handed over stay within the option exactly when it allows for all
that can be sent before the stop event. -/
theorem max_bytes_respected (events : Scheduled queue) :
    (∀ w, Reach World.step anyStep (main queue sinkAddress maxBytes) w →
      handed w ≤ maxBytes.toNat) ↔ 872 * 1040 ≤ maxBytes.toNat := by
  constructor
  · intro respected
    by_contra small
    by_cases few : maxBytes.toNat ≤ 871
    · -- a packet for every byte, and one in any case
      have room : maxBytes.toNat - 1 = 0 ∨ maxBytes.toNat - 1 < maxBytes.toNat := by omega
      obtain ⟨w, run, bytes⟩ := handed_reached sinkAddress maxBytes events room (by omega)
      have := respected w run
      omega
    · have room : 871 = 0 ∨ 871 < maxBytes.toNat := by omega
      obtain ⟨w, run, bytes⟩ := handed_reached sinkAddress maxBytes events room (by decide)
      have := respected w run
      omega
  · intro large w run
    exact (handed_le events run).trans large

end Main

/-- The simulator of a list with the application's two events. -/
def halfMinute : Agenda ℚ Callback :=
  ⟨0, [⟨0, 1, .startApplication⟩, ⟨1, 30, .stopApplication⟩]⟩

theorem halfMinute_scheduled : @Scheduled (listSimulator ℚ Callback) halfMinute :=
  ⟨(0 : Nat), (1 : Nat), .inl rfl⟩

/-- All that can be sent in the half minute goes out, and no more than the option allows. -/
theorem max_bytes_respected_million :
    (∀ w : World (listSimulator ℚ Callback) Nat,
      Reach World.step anyStep (main halfMinute 9 1000000) w → handed w ≤ 1000000) ∧
    ∃ w : World (listSimulator ℚ Callback) Nat,
      Reach World.step anyStep (main halfMinute 9 1000000) w ∧ handed w = 872 * 1040 :=
  ⟨(max_bytes_respected 9 1000000 halfMinute_scheduled).mpr (by decide),
    handed_reached (k := 871) 9 1000000 halfMinute_scheduled (.inr (by decide)) (by decide)⟩

/-- The default of the option is exceeded. -/
theorem max_bytes_exceeded : ¬ ∀ (maxBytes : UInt32) (w : World (listSimulator ℚ Callback) Nat),
    Reach World.step anyStep (main halfMinute 9 maxBytes) w → handed w ≤ maxBytes.toNat := by
  intro respected
  obtain ⟨w, run, bytes⟩ :=
    handed_reached (k := 9) 9 10000 halfMinute_scheduled (.inr (by decide)) (by decide)
  have exceeded := respected 10000 w run
  rw [bytes] at exceeded
  revert exceeded
  decide

end TcpVariants
