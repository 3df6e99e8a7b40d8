import NetworksLab.Slots
import NetworksLab.Transition

/-! Systems of one kind side by side, each taking its steps on its own. -/
namespace Parallel
open Transition

variable {σ ε ι : Type*}

/-- A step of the `k`-th system. -/
def step (one : σ → ε → Option σ) (ss : List σ) (k : Nat) (e : ε) : Option (List σ) :=
  (ss[k]?.bind fun s => one s e).map fun t => ss.set k t

/-- The `k`-th system started from the `k`-th of `is`. -/
structure Reached (one : σ → ε → Option σ) (start : ι → σ) (is : List ι) (ss : List σ) : Prop where
  length : is.length = ss.length
  reach : ∀ (k : Nat) s, ss[k]? = some s → ∃ i, is[k]? = some i ∧ Reach one anyStep (start i) s

variable {one : σ → ε → Option σ} {start : ι → σ} {is : List ι} {ss ts : List σ} {s : σ} {k : Nat}
  {e : ε}

theorem step_eq_some : step one ss k e = some ts ↔
    ∃ s t, ss[k]? = some s ∧ one s e = some t ∧ ts = ss.set k t := by
  simp only [step, Option.map_eq_some_iff, Option.bind_eq_some_iff]
  constructor
  · rintro ⟨t, ⟨s, here, next⟩, rfl⟩
    exact ⟨s, t, here, next, rfl⟩
  · rintro ⟨s, t, here, next, rfl⟩
    exact ⟨t, ⟨s, here, next⟩, rfl⟩

theorem step_of (here : ss[k]? = some s) : step one ss k e = (one s e).map fun t => ss.set k t := by
  rw [step, here]
  rfl

theorem Reached.nil : Reached one start [] [] := ⟨rfl, nofun⟩

theorem Reached.step (h : Reached one start is ss) (next : step one ss k e = some ts) :
    Reached one start is ts := by
  obtain ⟨s, t, here, moves, rfl⟩ := step_eq_some.mp next
  obtain ⟨i, started, reach⟩ := h.reach k s here
  refine ⟨h.length.trans (List.length_set ..).symm, Slots.forall_set h.reach ?_⟩
  exact ⟨i, started, reach.tail trivial moves⟩

theorem Reached.concat (h : Reached one start is ss) (i : ι) :
    Reached one start (is ++ [i]) (ss ++ [start i]) := by
  refine ⟨by simp [h.length], Slots.forall_concat ?_ ⟨i, ?_, .refl⟩⟩
  · intro k s here
    obtain ⟨j, started, reach⟩ := h.reach k s here
    have below : k < is.length := (List.getElem?_eq_some_iff.mp started).1
    exact ⟨j, (List.getElem?_append_left below).trans started, reach⟩
  · rw [← h.length]
    exact List.getElem?_concat_length

/-- A property of one system that its own steps keep. -/
theorem keeps {P : σ → Prop} (step : step one ss k e = some ts)
    (kept : ∀ s t, P s → one s e = some t → P t) {j : Nat} (here : ss[j]? = some s) (holds : P s) :
    ∃ t, ts[j]? = some t ∧ P t := by
  obtain ⟨u, v, at_k, moves, rfl⟩ := step_eq_some.mp step
  by_cases same : k = j
  · subst same
    obtain rfl := Option.some.inj (at_k.symm.trans here)
    exact ⟨v, Slots.get_set at_k, kept _ _ holds moves⟩
  · exact ⟨s, (List.getElem?_set_ne same).trans here, holds⟩

end Parallel
