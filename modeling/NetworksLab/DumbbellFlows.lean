import Mathlib.Logic.Function.Basic
import NetworksLab.DumbbellSchedule
import NetworksLab.EventViews

/-! The simulation of a whole script: several sending applications, and the rest of
the simulated network, which schedules and cancels events of its own. Each
application runs in the simulator as it sees it. -/
namespace Dumbbell
open EventQueue Transition

section
variable {α : Type} {sim : Simulator ℚ Callback} {start stop delay : ℚ} {n : Nat}

theorem World.Waiting.due {w : World sim α} (h : w.Waiting start stop) (config : w.Configured delay n)
    (order : start < stop) {e : Event sim.Id ℚ Callback} {q : sim.State}
    (due : Due (sim.pending w.queue) e (sim.pending q)) (now : sim.now q = e.time) :
    (World.fire { w with queue := q } e.callback).Phase start stop delay n := by
  obtain ⟨i, j, pending⟩ := h.pending
  obtain ⟨rfl, rest⟩ : e = ⟨i, start, .startApplication⟩ ∧
      sim.pending q = [⟨j, stop, .stopApplication⟩] := by
    rcases pending with pending | pending
    · rw [pending] at due
      rcases due.pair with ⟨same, rest, _⟩ | ⟨_, _, late⟩
      · exact ⟨same, rest⟩
      · exact absurd late (not_lt.mpr order.le)
    · rw [pending] at due
      rcases due.pair with ⟨_, _, late⟩ | ⟨same, rest, _⟩
      · exact absurd order (not_lt.mpr late)
      · exact ⟨same, rest⟩
  have begun : (World.begun { w with queue := q }).Sent start delay 0 := by
    refine ⟨?_, rfl, rfl, ?_⟩
    · simp [World.begun, World.sends, World.call, h.calls, firstSends]
    · simp [World.begun, World.call, h.calls]
  have first : sim.now q = start + (0 : Nat) * delay := by rw [now, Nat.cast_zero, zero_mul, add_zero]
  obtain ⟨config', sending⟩ := World.sendPkt_sending (w := World.begun { w with queue := q })
    ⟨config.socket, config.nPackets, config.tNext⟩ begun first
    (by rwa [Nat.cast_zero, zero_mul, add_zero]) (.inl rfl) rest
  exact .sending config' 0 sending

theorem World.Sending.due {w : World sim α} {k : Nat} (h : w.Sending start stop delay n k)
    (config : w.Configured delay n) (positive : 0 ≤ delay) {e : Event sim.Id ℚ Callback}
    {q : sim.State} (due : Due (sim.pending w.queue) e (sim.pending q)) (now : sim.now q = e.time) :
    (World.fire { w with queue := q } e.callback).Phase start stop delay n := by
  have stops (last : k + 1 < n → stop ≤ start + (k + 1 : Nat) * delay)
      (only : ∀ e ∈ sim.pending q, w.app.sendEvent = some e.id) :
      (World.stopApplication { w with queue := q }).Phase start stop delay n := by
    have sends := h.sent.sends.trans (firstSends_eq_schedule positive h.room h.early last)
    have count : w.app.packetsSent.toNat = w.sends.length := by
      rw [h.sent.sent, h.sent.sends, firstSends_length]
    have room := h.room
    have most : w.sends.length ≤ max 1 n := by
      rw [h.sent.sends, firstSends_length]
      omega
    exact .stopped (World.stopApplication_stopped (w := { w with queue := q }) only sends count most)
  obtain ⟨j, pending⟩ := h.pending
  by_cases more : k + 1 < n
  · rw [if_pos more] at pending
    obtain ⟨i, event, pending⟩ := pending
    rw [pending] at due
    rcases due.pair with ⟨rfl, rest, late⟩ | ⟨rfl, rest, early⟩
    · refine stops (fun _ => late) fun e mem => ?_
      rw [rest] at mem
      rw [List.mem_singleton.mp mem, event]
    · obtain ⟨config', sending⟩ := World.sendPkt_sending (w := { w with queue := q })
        ⟨config.socket, config.nPackets, config.tNext⟩
        ⟨h.sent.sends, h.sent.sent, h.sent.running, h.sent.opened⟩ now early (.inr more) rest
      exact .sending config' _ sending
  · rw [if_neg more] at pending
    rw [pending] at due
    obtain ⟨rfl, rest⟩ := due.single
    refine stops (fun less => absurd less more) fun e mem => ?_
    rw [rest] at mem
    cases mem

/-- Whichever way the simulator comes to run the next event of the application. -/
theorem World.Phase.due {w : World sim α} (h : w.Phase start stop delay n) (order : start < stop)
    (positive : 0 ≤ delay) {e : Event sim.Id ℚ Callback} {q : sim.State}
    (due : Due (sim.pending w.queue) e (sim.pending q)) (now : sim.now q = e.time) :
    (World.fire { w with queue := q } e.callback).Phase start stop delay n := by
  cases h with
  | waiting config h => exact h.due config order due now
  | sending config k h => exact h.due config positive due now
  | stopped h =>
      have size := due.length
      rw [h.pending] at size
      cases size

/-- What has been sent is the start of the schedule. -/
theorem firstSends_begins {k : Nat} (positive : 0 ≤ delay) (room : k = 0 ∨ k < n)
    (early : start + k * delay < stop) :
    firstSends start delay (k + 1) <+: schedule start stop delay n := by
  have whole : firstSends start delay (k + 1) = schedule start stop delay (k + 1) :=
    firstSends_eq_schedule positive (.inr (Nat.lt_succ_self k)) early
      fun more => absurd more (Nat.lt_irrefl _)
  rw [whole]
  rcases room with rfl | room
  · simp [schedule]
  · have begins : List.range (k + 1) <+: List.range n := by
      simpa using Firsts.map_range_mono id room
    exact List.cons_prefix_cons.mpr ⟨rfl, (begins.filter _).map _⟩

/-- Of the schedule the start has been sent, and all of it once the stop event has run. -/
theorem World.Phase.sends {w : World sim α} (h : w.Phase start stop delay n) (positive : 0 ≤ delay) :
    w.sends <+: schedule start stop delay n ∧
    ((∀ e ∈ sim.pending w.queue, e.callback ≠ .stopApplication) →
      w.sends = schedule start stop delay n) := by
  cases h with
  | waiting config h =>
      rw [World.sends_nil h.calls]
      obtain ⟨i, j, pending | pending⟩ := h.pending <;> simp [pending]
  | sending config k h =>
      rw [h.sent.sends]
      refine ⟨firstSends_begins positive h.room h.early, fun stopped => ?_⟩
      obtain ⟨j, pending⟩ := h.pending
      split at pending
      · obtain ⟨_, _, pending⟩ := pending
        simp [pending] at stopped
      · simp [pending] at stopped
  | stopped h => exact ⟨h.sends ▸ List.prefix_rfl, fun _ => h.sends⟩

end

variable {κ G A α : Type} [DecidableEq κ]

/-- The code an event of the simulation runs. -/
inductive Call (κ G : Type)
  | app (k : κ) (f : Callback)
  | other (g : G)

/-- The events of application `k`. -/
def appPart (G : Type) (k : κ) : Part (Call κ G) Callback where
  put := .app k
  pick
    | .app j f => if j = k then some f else none
    | .other _ => none
  pick_put _ := if_pos rfl

/-- The rest of the simulation: its actions leave the events of the applications alone
and give no event an id that another pending one has. -/
structure Surroundings (sim : Simulator ℚ (Call κ G)) (A : Type) where
  act : A → sim.State → sim.State
  own : ∀ a s k, own (appPart G k) (sim.pending (act a s)) = own (appPart G k) (sim.pending s)
  nodup : ∀ a s, ((sim.pending s).map (·.id)).Nodup → ((sim.pending (act a s)).map (·.id)).Nodup

variable {sim : Simulator ℚ (Call κ G)}

structure Flows (sim : Simulator ℚ (Call κ G)) (α : Type) where
  app : κ → MyApp sim.Id α
  queue : sim.State
  calls : κ → List (ℚ × SocketCall α)

/-- Application `k` in the simulator as it sees it. -/
def Flows.world (w : Flows sim α) (k : κ) : World (sim.only (appPart G k)) α :=
  ⟨w.app k, w.queue, w.calls k⟩

def Flows.put (w : Flows sim α) (k : κ) (u : World (sim.only (appPart G k)) α) : Flows sim α where
  app := Function.update w.app k u.app
  queue := u.queue
  calls := Function.update w.calls k u.calls

theorem Flows.put_world (w : Flows sim α) (k : κ) (u : World (sim.only (appPart G k)) α) :
    (w.put k u).world k = u := by
  have app : (w.put k u).app k = u.app := Function.update_self ..
  have calls : (w.put k u).calls k = u.calls := Function.update_self ..
  rw [Flows.world, app, calls]
  rfl

/-- The simulator runs its next event; or the rest of the simulation does something,
for itself or because of a packet. -/
inductive Tick (A : Type)
  | next
  | other (a : A)

def Flows.step (env : Surroundings sim A) (w : Flows sim α) : Tick A → Option (Flows sim α)
  | .next => (sim.next w.queue).map fun p =>
      let v := { w with queue := p.2 }
      match p.1.callback with
      | .app k f => v.put k ((v.world k).fire f)
      | .other _ => v
  | .other a => some { w with queue := env.act a w.queue }

/-- Packets on their way: what the rest of the simulation does is to schedule events. -/
def Surroundings.scheduling (sim : Simulator ℚ (Call κ G)) : Surroundings sim (ℚ × G) where
  act a s := (sim.schedule s a.1 (.other a.2)).1
  own a _ _ := Simulator.schedule_foreign a.1 rfl
  nodup a _ distinct := Simulator.schedule_nodup distinct a.1 _

/-- The applications after `setup`. -/
def Flows.ready (queue : sim.State) (peer : κ → α) (packetSize nPackets : κ → UInt32)
    (dataRate : κ → Nat) : Flows sim α where
  app k := MyApp.new.setup (peer k) (packetSize k) (nPackets k) (dataRate k)
  queue := queue
  calls _ := []

theorem pick_eq_some {k : κ} {c : Call κ G} {f : Callback} :
    (appPart G k).pick c = some f ↔ c = .app k f := by
  cases c with
  | app j g =>
      simp only [appPart, Option.ite_none_right_eq_some, Option.some.injEq, Call.app.injEq]
  | other g => simp [appPart]

/-- What application `k` does to the queue concerns its own events alone. -/
structure Frame (sim : Simulator ℚ (Call κ G)) (k : κ) (s t : sim.State) : Prop where
  others : ∀ j, j ≠ k → own (appPart G j) (sim.pending t) = own (appPart G j) (sim.pending s)
  nodup : ((sim.pending s).map (·.id)).Nodup → ((sim.pending t).map (·.id)).Nodup

variable {k : κ} {s t u : sim.State}

theorem Frame.refl : Frame sim k s s := ⟨fun _ _ => rfl, id⟩

theorem Frame.schedule (s : sim.State) (delay : ℚ) (f : Callback) :
    Frame sim k s (sim.schedule s delay (.app k f)).1 where
  others _ other := Simulator.schedule_foreign delay (if_neg (Ne.symm other))
  nodup distinct := Simulator.schedule_nodup distinct delay _

/-- No other event has the id of a pending event of the application. -/
theorem Frame.cancel {i : sim.Id} (distinct : ((sim.pending s).map (·.id)).Nodup)
    (mine : ∃ o ∈ own (appPart G k) (sim.pending s), o.id = i) :
    Frame sim k s (sim.cancel s i) where
  others j other := by
    obtain ⟨o, own, rfl⟩ := mine
    obtain ⟨e, pending, mine⟩ := List.mem_filterMap.mp own
    obtain ⟨picked, id, _⟩ := Event.own_eq_some.mp mine
    let := sim.decEq
    rw [sim.cancel_pending]
    refine (own_filter_id (fun i => decide (i ≠ o.id)) _).trans
      (List.filter_eq_self.mpr fun o' own' => ?_)
    obtain ⟨e', pending', mine'⟩ := List.mem_filterMap.mp own'
    obtain ⟨picked', id', _⟩ := Event.own_eq_some.mp mine'
    apply decide_eq_true
    intro same
    obtain rfl := List.inj_on_of_nodup_map distinct pending' pending (id'.symm.trans (same.trans id))
    have owner := (pick_eq_some.mp picked').symm.trans (pick_eq_some.mp picked)
    exact other (Call.app.inj owner).1
  nodup _ := by
    rw [sim.cancel_pending]
    exact (List.filter_sublist.map _).nodup distinct

theorem World.scheduleTx_frame (v : World (sim.only (appPart G k)) α) :
    Frame sim k v.queue v.scheduleTx.queue := by
  unfold scheduleTx
  split
  · exact .schedule ..
  · exact .refl

theorem World.sendPkt_frame (v : World (sim.only (appPart G k)) α) :
    Frame sim k v.queue v.sendPkt.queue := by
  unfold sendPkt
  dsimp only
  split
  · exact World.scheduleTx_frame v.counted
  · exact .refl

theorem World.cancelSend_frame (v : World (sim.only (appPart G k)) α)
    (distinct : ((sim.pending v.queue).map (·.id)).Nodup) :
    Frame sim k v.queue v.cancelSend.queue := by
  unfold cancelSend
  split
  · exact .refl
  · split
    · next running => exact .cancel distinct (((sim.only (appPart G k)).isRunning_iff _ _).mp running)
    · exact .refl

theorem World.fire_frame (v : World (sim.only (appPart G k)) α)
    (distinct : ((sim.pending v.queue).map (·.id)).Nodup) (f : Callback) :
    Frame sim k v.queue (v.fire f).queue := by
  cases f with
  | startApplication => exact World.sendPkt_frame (World.begun v)
  | stopApplication =>
      change Frame sim k v.queue v.stopApplication.queue
      rw [v.stopApplication_halted.2.1]
      exact World.cancelSend_frame { v with app := { v.app with running := false } } distinct
  | sendPkt => exact World.sendPkt_frame v

/-- When an application starts and stops, and how often it sends in between. -/
structure Plan where
  start : ℚ
  stop : ℚ
  delay : ℚ
  nPackets : Nat
  order : start < stop
  positive : 0 ≤ delay

/-- Since the last event of application `k` nothing has changed for it but the time. -/
def Flows.Follows (w : Flows sim α) (k : κ) (p : Plan) : Prop :=
  ∃ q : sim.State, own (appPart G k) (sim.pending q) = own (appPart G k) (sim.pending w.queue) ∧
    (⟨w.app k, q, w.calls k⟩ : World (sim.only (appPart G k)) α).Phase p.start p.stop p.delay
      p.nPackets

structure Flows.Planned (w : Flows sim α) (plan : κ → Plan) : Prop where
  distinct : ((sim.pending w.queue).map (·.id)).Nodup
  follows : ∀ k, w.Follows k (plan k)

variable {w v : Flows sim α} {plan : κ → Plan} {env : Surroundings sim A}

theorem Flows.Follows.frame {j : κ} {p : Plan} (h : w.Follows j p) (app : v.app j = w.app j)
    (calls : v.calls j = w.calls j)
    (queue : own (appPart G j) (sim.pending v.queue) = own (appPart G j) (sim.pending w.queue)) :
    v.Follows j p := by
  obtain ⟨q, same, phase⟩ := h
  rw [← app, ← calls] at phase
  exact ⟨q, same.trans queue.symm, phase⟩

/-- An event of the application itself. -/
theorem Flows.Follows.fire {p : Plan} (h : w.Follows k p) {e : Event sim.Id ℚ (Call κ G)}
    {q : sim.State} {f : Callback} (due : Due (sim.pending w.queue) e (sim.pending q))
    (now : sim.now q = e.time) (mine : e.callback = .app k f) :
    (({ w with queue := q } : Flows sim α).put k
      (({ w with queue := q } : Flows sim α).world k |>.fire f)).Follows k p := by
  obtain ⟨q₀, same, phase⟩ := h
  have own : e.own (appPart G k) = some ⟨e.id, e.time, f⟩ :=
    Event.own_eq_some.mpr ⟨pick_eq_some.mpr mine, rfl, rfl⟩
  have due' := due.own own
  rw [← same] at due'
  have after := phase.due p.order p.positive due' now
  refine ⟨_, rfl, ?_⟩
  change World.Phase (Flows.world _ k) ..
  rw [Flows.put_world]
  exact after

theorem Flows.Planned.step (h : w.Planned plan) {e : Tick A} (step : w.step env e = some v) :
    v.Planned plan := by
  cases e with
  | other a =>
      obtain rfl := Option.some.inj step
      exact ⟨env.nodup a _ h.distinct, fun j => (h.follows j).frame rfl rfl (env.own a _ j)⟩
  | next =>
      obtain ⟨⟨e, q⟩, next, rfl⟩ := Option.map_eq_some_iff.mp step
      obtain ⟨due, now⟩ := Simulator.next_due next
      have distinct := due.nodup h.distinct
      cases owner : e.callback with
      | other g =>
          refine ⟨distinct, fun j => (h.follows j).frame rfl rfl (due.skip ?_)⟩
          simp [Event.own, owner, appPart]
      | app k f =>
          have frame := World.fire_frame (({ w with queue := q } : Flows sim α).world k) distinct f
          refine ⟨frame.nodup distinct, fun j => ?_⟩
          by_cases own : j = k
          · subst own
            exact (h.follows j).fire due now owner
          · have skipped : e.own (appPart G j) = none := by
              simp [Event.own, owner, appPart, Ne.symm own]
            exact (h.follows j).frame (Function.update_of_ne own ..) (Function.update_of_ne own ..)
              ((frame.others j own).trans (due.skip skipped))

theorem Flows.planned {w₀ : Flows sim α} (first : w₀.Planned plan)
    (reached : Reach (Flows.step env) anyStep w₀ w) : w.Planned plan :=
  reached.invariant (I := fun w => w.Planned plan) first fun _ _ _ inv _ step => inv.step step

/-- The packets sent by application `k`. -/
def Flows.sends (w : Flows sim α) (k : κ) : List ℚ := (w.world k).sends

def Plan.schedule (p : Plan) : List ℚ := Dumbbell.schedule p.start p.stop p.delay p.nPackets

theorem Flows.Follows.sends {p : Plan} (h : w.Follows k p) :
    w.sends k <+: p.schedule ∧
    ((∀ e ∈ sim.pending w.queue, e.callback ≠ .app k .stopApplication) → w.sends k = p.schedule) ∧
    (w.app k).packetsSent.toNat = (w.sends k).length ∧
    ((own (appPart G k) (sim.pending w.queue)).filter (·.callback = .sendPkt)).length ≤ 1 := by
  obtain ⟨q, same, phase⟩ := h
  obtain ⟨count, pending, _⟩ := phase.facts
  obtain ⟨begun, whole⟩ := phase.sends p.positive
  refine ⟨begun, fun stopped => whole fun o own => ?_, count, same ▸ pending⟩
  replace own : o ∈ EventQueue.own (appPart G k) (sim.pending w.queue) := by rwa [← same]
  obtain ⟨e, mem, mine⟩ := List.mem_filterMap.mp own
  intro stop
  exact stopped e mem (stop ▸ pick_eq_some.mp (Event.own_eq_some.mp mine).1)

/-- Started and stopped on their own times the applications do not disturb each other:
whatever else the simulation runs in between, each has sent the start of its own
schedule, the whole of it once its stop event has run, and has at most one packet of
its own pending. -/
theorem flows_independent {queue : sim.State} {peer : κ → α} {packetSize nPackets : κ → UInt32}
    {dataRate : κ → Nat} {start stop : κ → ℚ} (order : ∀ k, start k < stop k)
    (_ : ∀ k, 0 < dataRate k) (distinct : ((sim.pending queue).map (·.id)).Nodup)
    (events : ∀ k, ∃ i j,
      own (appPart G k) (sim.pending queue) =
          [⟨i, start k, .startApplication⟩, ⟨j, stop k, .stopApplication⟩] ∨
      own (appPart G k) (sim.pending queue) =
          [⟨j, stop k, .stopApplication⟩, ⟨i, start k, .startApplication⟩])
    (reached : Reach (Flows.step env) anyStep
      (Flows.ready queue peer packetSize nPackets dataRate) w) (k : κ) :
    w.sends k <+: schedule (start k) (stop k)
        ((8 * (packetSize k).toNat % 2 ^ 32 : Nat) / dataRate k) (nPackets k).toNat ∧
    ((∀ e ∈ sim.pending w.queue, e.callback ≠ .app k .stopApplication) →
      w.sends k = schedule (start k) (stop k)
        ((8 * (packetSize k).toNat % 2 ^ 32 : Nat) / dataRate k) (nPackets k).toNat) ∧
    (w.app k).packetsSent.toNat = (w.sends k).length ∧
    ((own (appPart G k) (sim.pending w.queue)).filter (·.callback = .sendPkt)).length ≤ 1 := by
  let plan k : Plan := ⟨start k, stop k, (8 * (packetSize k).toNat % 2 ^ 32 : Nat) / dataRate k,
    (nPackets k).toNat, order k, div_nonneg (Nat.cast_nonneg _) (Nat.cast_nonneg _)⟩
  have first : (Flows.ready queue peer packetSize nPackets dataRate : Flows sim α).Planned plan := by
    refine ⟨distinct, fun k => ⟨queue, rfl, .waiting ?_ ⟨rfl, rfl, events k⟩⟩⟩
    exact @World.ready_configured α (sim.only (appPart G k)) queue (peer k) (packetSize k)
      (nPackets k) (dataRate k)
  exact ((Flows.planned first reached).follows k).sends

/-- Two applications that start together, and a packet that arrives at 2. -/
def twoFlows : Agenda ℚ (Call Bool Unit) :=
  ⟨0, [⟨0, 1, .app false .startApplication⟩, ⟨1, 3, .app false .stopApplication⟩,
    ⟨2, 2, .other ()⟩, ⟨3, 1, .app true .startApplication⟩, ⟨4, 4, .app true .stopApplication⟩]⟩

/-- Their simulation, with a packet sent on from the one that arrives. -/
def twoFlows.run : Option (Flows (listSimulator ℚ (Call Bool Unit)) Nat) :=
  Transition.run (Flows.step (Surroundings.scheduling _))
    (Flows.ready twoFlows (fun _ => 9) (fun k => if k then 500 else 1000) (fun k => if k then 2 else 3)
      fun _ => 8000)
    [.next, .next, .next, .next, .other (1 / 2, ()), .next, .next, .next, .next]

theorem flows_independent_twoFlows : ∃ w, twoFlows.run = some w ∧ w.sends false = [1, 2] ∧
    w.sends true = [1, 3 / 2] := by
  have ended : twoFlows.run.any (·.queue.pending.isEmpty) = true := by decide +kernel
  obtain ⟨w, run, done⟩ := (Option.any_eq_true _ _).mp ended
  have empty : w.queue.pending = [] := List.isEmpty_iff.mp done
  have facts := @flows_independent Bool Unit _ Nat _ (listSimulator ℚ (Call Bool Unit)) w
    (Surroundings.scheduling _) twoFlows (fun _ => 9) (fun k => if k then 500 else 1000)
    (fun k => if k then 2 else 3) (fun _ => 8000) (fun _ => 1) (fun k => if k then 4 else 3)
    (by intro k; cases k <;> norm_num) (by decide)
    (by decide : ([0, 1, 2, 3, 4] : List Nat).Nodup)
    (by
      intro k
      cases k with
      | false => exact ⟨(0 : Nat), (1 : Nat), .inl rfl⟩
      | true => exact ⟨(3 : Nat), (4 : Nat), .inl rfl⟩)
    (reach_of_run run)
  have stopped (k : Bool) : ∀ e ∈ w.queue.pending, e.callback ≠ .app k .stopApplication := by
    simp [empty]
  exact ⟨w, run, ((facts false).2.1 (stopped false)).trans (by decide +kernel),
    ((facts true).2.1 (stopped true)).trans (by decide +kernel)⟩

end Dumbbell
