import Mathlib.Data.List.Nodup
import NetworksLab.EventQueue

/-! A simulator as one part of the code sees it that it runs: the part knows its own
events only, and what else the simulator runs passes unseen. -/
namespace EventQueue

variable {ι τ F F' : Type*}

/-- Some of the callbacks. -/
structure Part (F F' : Type*) where
  put : F' → F
  pick : F → Option F'
  pick_put : ∀ f, pick (put f) = some f

/-- The event of the part, if it is one. -/
def Event.own (part : Part F F') (e : Event ι τ F) : Option (Event ι τ F') :=
  (part.pick e.callback).map fun f => ⟨e.id, e.time, f⟩

def own (part : Part F F') (pending : List (Event ι τ F)) : List (Event ι τ F') :=
  pending.filterMap (Event.own part)

variable {part : Part F F'} {pending rest : List (Event ι τ F)} {e : Event ι τ F}
  {o : Event ι τ F'}

theorem own_append (a b : List (Event ι τ F)) : own part (a ++ b) = own part a ++ own part b :=
  List.filterMap_append

theorem own_cons_some (mine : e.own part = some o) (a : List (Event ι τ F)) :
    own part (e :: a) = o :: own part a := List.filterMap_cons_some mine

theorem own_cons_none (other : e.own part = none) (a : List (Event ι τ F)) :
    own part (e :: a) = own part a := List.filterMap_cons_none other

theorem Event.own_eq_some : e.own part = some o ↔
    part.pick e.callback = some o.callback ∧ o.id = e.id ∧ o.time = e.time := by
  rw [Event.own, Option.map_eq_some_iff]
  constructor
  · rintro ⟨f, picked, rfl⟩
    exact ⟨picked, rfl, rfl⟩
  · rintro ⟨picked, id, time⟩
    exact ⟨o.callback, picked, by rw [← id, ← time]⟩

theorem own_filter_id (keep : ι → Bool) (pending : List (Event ι τ F)) :
    own part (pending.filter fun e => keep e.id) = (own part pending).filter fun e => keep e.id := by
  induction pending with
  | nil => rfl
  | cons e es ih =>
      cases mine : e.own part with
      | none =>
          rw [own_cons_none mine, List.filter_cons, ← ih]
          split
          · exact own_cons_none mine _
          · rfl
      | some o =>
          rw [own_cons_some mine, List.filter_cons, List.filter_cons, ← ih,
            (Event.own_eq_some.mp mine).2.1]
          split
          · exact own_cons_some mine _
          · rfl

section
variable [LinearOrder τ]

/-- Of the part's events the one that runs is due among them. -/
theorem Due.own (h : Due pending e rest) (mine : e.own part = some o) :
    Due (own part pending) o (own part rest) := by
  obtain ⟨before, after, rfl, rfl, earlier, later⟩ := h
  obtain ⟨_, _, time⟩ := Event.own_eq_some.mp mine
  refine ⟨EventQueue.own part before, EventQueue.own part after, ?_, own_append .., ?_, ?_⟩
  · rw [own_append, own_cons_some mine]
  · intro b mem
    obtain ⟨c, old, picked⟩ := List.mem_filterMap.mp mem
    rw [time, (Event.own_eq_some.mp picked).2.2]
    exact earlier c old
  · intro a mem
    obtain ⟨c, old, picked⟩ := List.mem_filterMap.mp mem
    rw [time, (Event.own_eq_some.mp picked).2.2]
    exact later c old

/-- Another event leaves them alone. -/
theorem Due.skip (h : Due pending e rest) (other : e.own part = none) :
    EventQueue.own part rest = EventQueue.own part pending := by
  obtain ⟨before, after, rfl, rfl, _, _⟩ := h
  rw [own_append, own_append, own_cons_none other]

theorem Due.nodup (h : Due pending e rest) (distinct : (pending.map (·.id)).Nodup) :
    (rest.map (·.id)).Nodup := by
  obtain ⟨before, after, rfl, rfl, _, _⟩ := h
  exact ((List.sublist_cons_self e after).append_left before).map _ |>.nodup distinct

theorem Due.length (h : Due pending e rest) : pending.length = rest.length + 1 := by
  obtain ⟨before, after, rfl, rfl, _, _⟩ := h
  simp only [List.length_append, List.length_cons]
  omega

end

variable {τ F F' : Type} [LinearOrder τ] [Add τ] {part : Part F F'}

/-- The next event of the part, after at most `n` of all. -/
def Simulator.nextOwn (sim : Simulator τ F) (part : Part F F') :
    Nat → sim.State → Option (Event sim.Id τ F' × sim.State)
  | 0, _ => none
  | n + 1, s =>
      match sim.next s with
      | none => none
      | some (e, t) =>
          match e.own part with
          | some o => some (o, t)
          | none => sim.nextOwn part n t

variable {sim : Simulator τ F} {s t : sim.State} {n : Nat}

theorem Simulator.schedule_nodup (distinct : ((sim.pending s).map (·.id)).Nodup) (delay : τ) (f : F) :
    ((sim.pending (sim.schedule s delay f).1).map (·.id)).Nodup := by
  rw [sim.schedule_pending, List.map_append, List.nodup_append]
  refine ⟨distinct, List.nodup_singleton _, ?_⟩
  intro i old j new
  obtain ⟨e, mem, rfl⟩ := List.mem_map.mp old
  rw [List.mem_singleton.mp new]
  exact sim.schedule_fresh s delay f e mem

theorem Simulator.schedule_foreign (delay : τ) {f : F} (foreign : part.pick f = none) :
    own part (sim.pending (sim.schedule s delay f).1) = own part (sim.pending s) := by
  have none : Event.own part (⟨(sim.schedule s delay f).2, sim.now s + delay, f⟩ : Event sim.Id τ F) =
      none := by
    rw [Event.own, foreign]
    rfl
  rw [sim.schedule_pending, own_append, own_cons_none none]
  exact List.append_nil _

theorem Simulator.nextOwn_none (idle : own part (sim.pending s) = []) :
    sim.nextOwn part n s = none := by
  induction n generalizing s with
  | zero => rfl
  | succ n ih =>
      unfold nextOwn
      split
      · rfl
      · next e t next =>
          obtain ⟨due, _⟩ := Simulator.next_due next
          split
          · next o mine =>
              obtain ⟨before, after, whole, _⟩ := due.own mine
              rw [idle] at whole
              simp at whole
          · next other => exact ih ((due.skip other).trans idle)

theorem Simulator.nextOwn_some (enough : (sim.pending s).length ≤ n)
    (busy : own part (sim.pending s) ≠ []) :
    ∃ o t, sim.nextOwn part n s = some (o, t) ∧
      Due (own part (sim.pending s)) o (own part (sim.pending t)) ∧ sim.now t = o.time := by
  induction n generalizing s with
  | zero =>
      rw [List.length_eq_zero_iff.mp (Nat.le_zero.mp enough)] at busy
      exact absurd rfl busy
  | succ n ih =>
      have some_pending : sim.pending s ≠ [] := by
        intro none
        rw [none] at busy
        exact busy rfl
      obtain ⟨e, t, next, due, now⟩ := sim.next_some s some_pending
      unfold nextOwn
      rw [next]
      dsimp only
      have size := due.length
      cases mine : e.own part with
      | some o =>
          exact ⟨o, t, rfl, due.own mine, now.trans (Event.own_eq_some.mp mine).2.2.symm⟩
      | none =>
          have skipped := due.skip mine
          rw [← skipped] at busy ⊢
          exact ih (by omega) busy

/-- The simulator for the part alone. An id is a handle on an event of the part; it is
running while that event is pending. -/
@[reducible] def Simulator.only (sim : Simulator τ F) (part : Part F F') : Simulator τ F' where
  State := sim.State
  Id := sim.Id
  decEq := sim.decEq
  now := sim.now
  pending s := own part (sim.pending s)
  schedule s delay f := sim.schedule s delay (part.put f)
  cancel := sim.cancel
  isRunning s i := (own part (sim.pending s)).any fun e => @decide (e.id = i) (sim.decEq e.id i)
  next s := sim.nextOwn part (sim.pending s).length s
  schedule_pending s delay f := by
    have mine : Event.own part ⟨(sim.schedule s delay (part.put f)).2, sim.now s + delay, part.put f⟩ =
        some ⟨(sim.schedule s delay (part.put f)).2, sim.now s + delay, f⟩ := by
      rw [Event.own, part.pick_put]
      rfl
    rw [sim.schedule_pending, own_append, own_cons_some mine]
    rfl
  schedule_fresh s delay f e mem := by
    obtain ⟨d, old, picked⟩ := List.mem_filterMap.mp mem
    rw [(Event.own_eq_some.mp picked).2.1]
    exact sim.schedule_fresh s delay _ d old
  schedule_now s delay f := sim.schedule_now s delay _
  cancel_pending s i := by
    rw [sim.cancel_pending]
    exact own_filter_id (fun j => @decide (j ≠ i) (@instDecidableNot _ (sim.decEq j i))) _
  cancel_now := sim.cancel_now
  isRunning_iff s i := by simp
  next_none s idle := Simulator.nextOwn_none idle
  next_some s busy := Simulator.nextOwn_some (Nat.le_refl _) busy

end EventQueue
