import Mathlib.Order.Lattice
import Mathlib.Data.List.Basic

/-! Discrete-event simulation. A simulator runs the pending event of the
earliest time, and of several at that time the one scheduled first. -/
namespace EventQueue

structure Event (ι τ F : Type*) where
  id : ι
  time : τ
  callback : F

variable {ι τ F : Type*} [LinearOrder τ]

/-- `e` is the event to run of those pending, listed as they were scheduled;
`rest` are the others. -/
def Due (pending : List (Event ι τ F)) (e : Event ι τ F) (rest : List (Event ι τ F)) : Prop :=
  ∃ before after, pending = before ++ e :: after ∧ rest = before ++ after ∧
    (∀ b ∈ before, e.time < b.time) ∧ ∀ a ∈ after, e.time ≤ a.time

/-- What the code run by a simulator may rely on. -/
structure Simulator (τ F : Type*) [LinearOrder τ] [Add τ] where
  State : Type
  Id : Type
  decEq : DecidableEq Id
  now : State → τ
  pending : State → List (Event Id τ F)
  schedule : State → τ → F → State × Id
  cancel : State → Id → State
  isRunning : State → Id → Bool
  next : State → Option (Event Id τ F × State)
  schedule_pending : ∀ s delay f, pending (schedule s delay f).1 =
    pending s ++ [⟨(schedule s delay f).2, now s + delay, f⟩]
  schedule_fresh : ∀ s delay f, ∀ e ∈ pending s, e.id ≠ (schedule s delay f).2
  schedule_now : ∀ s delay f, now (schedule s delay f).1 = now s
  cancel_pending : ∀ s i, pending (cancel s i) = (pending s).filter (·.id ≠ i)
  cancel_now : ∀ s i, now (cancel s i) = now s
  isRunning_iff : ∀ s i, isRunning s i = true ↔ ∃ e ∈ pending s, e.id = i
  next_none : ∀ s, pending s = [] → next s = none
  next_some : ∀ s, pending s ≠ [] →
    ∃ e t, next s = some (e, t) ∧ Due (pending s) e (pending t) ∧ now t = e.time

theorem Due.single {a e : Event ι τ F} {rest : List (Event ι τ F)} (h : Due [a] e rest) :
    e = a ∧ rest = [] := by
  obtain ⟨before, after, whole, rfl, _, _⟩ := h
  cases before with
  | nil =>
      obtain ⟨rfl, rfl⟩ := List.cons.inj whole
      exact ⟨rfl, rfl⟩
  | cons b bs => simp at whole

theorem Due.pair {a b e : Event ι τ F} {rest : List (Event ι τ F)} (h : Due [a, b] e rest) :
    e = a ∧ rest = [b] ∧ a.time ≤ b.time ∨ e = b ∧ rest = [a] ∧ b.time < a.time := by
  obtain ⟨before, after, whole, rfl, earlier, later⟩ := h
  cases before with
  | nil =>
      obtain ⟨rfl, rfl⟩ := List.cons.inj whole
      exact .inl ⟨rfl, rfl, later b (List.mem_singleton.mpr rfl)⟩
  | cons c cs =>
      obtain ⟨rfl, others⟩ := List.cons.inj whole
      cases cs with
      | nil =>
          obtain ⟨rfl, rfl⟩ := List.cons.inj others
          exact .inr ⟨rfl, rfl, earlier a (List.mem_singleton.mpr rfl)⟩
      | cons => simp at others

/-- An event earlier than all others is the one. -/
theorem Due.least {before after rest : List (Event ι τ F)} {a e : Event ι τ F}
    (h : Due (before ++ a :: after) e rest) (least : ∀ b ∈ before ++ after, a.time < b.time) :
    e = a ∧ rest.Perm (before ++ after) := by
  obtain ⟨front, back, whole, rfl, earlier, later⟩ := h
  have first : ∀ b ∈ before ++ a :: after, e.time ≤ b.time := by
    intro b mem
    rw [whole] at mem
    rcases List.mem_append.mp mem with left | right
    · exact (earlier b left).le
    · rcases List.mem_cons.mp right with rfl | right
      · exact le_rfl
      · exact later b right
  have le := first a (by simp)
  have mem : e ∈ before ++ a :: after := by simp [whole]
  have same : e = a := by
    by_contra other
    have elsewhere : e ∈ before ++ after := by simpa [other] using mem
    exact absurd le (not_le.mpr (least e elsewhere))
  subst same
  refine ⟨rfl, (List.Perm.cons_inv (a := e) ?_)⟩
  calc (e :: (front ++ back)).Perm (front ++ e :: back) := List.perm_middle.symm
    _ = before ++ e :: after := whole.symm
    List.Perm _ (e :: (before ++ after)) := List.perm_middle

section
variable [Add τ] {sim : Simulator τ F} {s : sim.State}

theorem Simulator.next_due {e : Event sim.Id τ F} {t : sim.State} (next : sim.next s = some (e, t)) :
    Due (sim.pending s) e (sim.pending t) ∧ sim.now t = e.time := by
  by_cases idle : sim.pending s = []
  · rw [sim.next_none s idle] at next
    cases next
  · obtain ⟨e', t', next', due⟩ := sim.next_some s idle
    cases next.symm.trans next'
    exact due

theorem Simulator.next_single {a : Event sim.Id τ F} (h : sim.pending s = [a]) :
    ∃ t, sim.next s = some (a, t) ∧ sim.pending t = [] ∧ sim.now t = a.time := by
  obtain ⟨e, t, next, due, now⟩ := sim.next_some s (by rw [h]; nofun)
  rw [h] at due
  obtain ⟨rfl, rest⟩ := due.single
  exact ⟨t, next, rest, now⟩

/-- Of two pending events the second runs only if it is due strictly earlier. -/
theorem Simulator.next_pair {a b : Event sim.Id τ F} (h : sim.pending s = [a, b]) :
    ∃ t, a.time ≤ b.time ∧ sim.next s = some (a, t) ∧ sim.pending t = [b] ∧ sim.now t = a.time ∨
      b.time < a.time ∧ sim.next s = some (b, t) ∧ sim.pending t = [a] ∧ sim.now t = b.time := by
  obtain ⟨e, t, next, due, now⟩ := sim.next_some s (by rw [h]; nofun)
  rw [h] at due
  rcases due.pair with ⟨rfl, rest, le⟩ | ⟨rfl, rest, lt⟩
  · exact ⟨t, .inl ⟨le, next, rest, now⟩⟩
  · exact ⟨t, .inr ⟨lt, next, rest, now⟩⟩

end

/-- The event to run and the others. -/
def earliest : List (Event ι τ F) → Option (Event ι τ F × List (Event ι τ F))
  | [] => none
  | e :: es =>
      match earliest es with
      | none => some (e, [])
      | some (f, rest) => if f.time < e.time then some (f, e :: rest) else some (e, es)

theorem earliest_none {es : List (Event ι τ F)} (h : earliest es = none) : es = [] := by
  cases es with
  | nil => rfl
  | cons e es =>
      unfold earliest at h
      split at h
      · cases h
      · split at h <;> cases h

theorem earliest_due {es rest : List (Event ι τ F)} {e : Event ι τ F}
    (h : earliest es = some (e, rest)) : Due es e rest := by
  induction es generalizing e rest with
  | nil => cases h
  | cons first es ih =>
      unfold earliest at h
      split at h
      · next none =>
          cases h
          exact ⟨[], [], by rw [earliest_none none]; rfl, rfl, nofun, nofun⟩
      · next f others some =>
          obtain ⟨before, after, rfl, rfl, earlier, later⟩ := ih some
          by_cases lt : f.time < first.time
          · rw [if_pos lt] at h
            cases h
            refine ⟨first :: before, after, rfl, rfl, ?_, later⟩
            intro b hb
            rcases List.mem_cons.mp hb with rfl | old
            · exact lt
            · exact earlier b old
          · rw [if_neg lt] at h
            cases h
            refine ⟨[], _, rfl, rfl, nofun, ?_⟩
            have le := not_lt.mp lt
            intro a ha
            rcases List.mem_append.mp ha with old | ha
            · exact le.trans (earlier a old).le
            · rcases List.mem_cons.mp ha with rfl | new
              · exact le
              · exact le.trans (later a new)

structure Agenda (τ F : Type) where
  now : τ
  pending : List (Event Nat τ F)

def Agenda.fresh {τ F : Type} (q : Agenda τ F) : Nat := (q.pending.map (·.id)).foldr max 0 + 1

theorem Agenda.id_lt_fresh {τ F : Type} (q : Agenda τ F) {e : Event Nat τ F} (h : e ∈ q.pending) :
    e.id < q.fresh := by
  have below : ∀ ids : List Nat, ∀ i ∈ ids, i ≤ ids.foldr max 0 := by
    intro ids
    induction ids with
    | nil => nofun
    | cons j ids ih =>
        intro i hi
        rcases List.mem_cons.mp hi with rfl | old
        · exact Nat.le_max_left _ _
        · exact Nat.le_trans (ih i old) (Nat.le_max_right _ _)
  exact Nat.lt_succ_of_le (below _ _ (List.mem_map_of_mem h))

/-- A list of pending events is enough to simulate with. -/
def listSimulator (τ F : Type) [LinearOrder τ] [Add τ] : Simulator τ F where
  State := Agenda τ F
  Id := Nat
  decEq := inferInstance
  now := Agenda.now
  pending := Agenda.pending
  schedule q delay f :=
    ({ q with pending := q.pending ++ [⟨q.fresh, q.now + delay, f⟩] }, q.fresh)
  cancel q i := { q with pending := q.pending.filter (·.id ≠ i) }
  isRunning q i := q.pending.any (·.id = i)
  next q := (earliest q.pending).map fun p => (p.1, ⟨p.1.time, p.2⟩)
  schedule_pending _ _ _ := rfl
  schedule_fresh q _ _ e he := Nat.ne_of_lt (q.id_lt_fresh he)
  schedule_now _ _ _ := rfl
  cancel_pending _ _ := rfl
  cancel_now _ _ := rfl
  isRunning_iff := by simp
  next_none q h := by rw [h]; rfl
  next_some q h := by
    cases first : earliest q.pending with
    | none => exact absurd (earliest_none first) h
    | some p => exact ⟨_, _, rfl, earliest_due first, rfl⟩

end EventQueue
