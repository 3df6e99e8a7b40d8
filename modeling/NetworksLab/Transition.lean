import Mathlib.Data.List.Basic

/-! Step functions that may refuse an event, the runs they generate and the
states such runs reach. An event carries every choice the system does not make
itself: which party moves, and what its environment answers. -/
namespace Transition

variable {σ ε : Type*} (step : σ → ε → Option σ)

/-- The state after the events, if none of them is refused. -/
def run : σ → List ε → Option σ
  | s, [] => some s
  | s, e :: es => (step s e).bind fun t => run t es

/-- The states reached from `s` by steps that all meet `ok`. -/
inductive Reach (ok : σ → ε → Prop) (s : σ) : σ → Prop
  | refl : Reach ok s s
  | tail {t u : σ} {e : ε} : Reach ok s t → ok t e → step t e = some u → Reach ok s u

/-- The condition that admits every step. -/
def anyStep (_ : σ) (_ : ε) : Prop := True

variable {step} {ok : σ → ε → Prop} {s t u : σ}

theorem run_append (es fs : List ε) :
    run step s (es ++ fs) = (run step s es).bind fun t => run step t fs := by
  induction es generalizing s with
  | nil => rfl
  | cons e es ih =>
      simp only [List.cons_append, run]
      cases step s e with
      | none => rfl
      | some t => exact ih

theorem run_trans {es fs : List ε} (first : run step s es = some t) (next : run step t fs = some u) :
    run step s (es ++ fs) = some u := by
  rw [run_append, first]
  exact next

theorem run_concat {es : List ε} {e : ε} (h : run step s (es ++ [e]) = some t) :
    ∃ u, run step s es = some u ∧ step u e = some t := by
  rw [run_append] at h
  obtain ⟨u, before, last⟩ := Option.bind_eq_some_iff.mp h
  obtain ⟨_, one, done⟩ := Option.bind_eq_some_iff.mp last
  cases done
  exact ⟨u, before, one⟩

theorem Reach.trans (hst : Reach step ok s t) (htu : Reach step ok t u) : Reach step ok s u := by
  induction htu with
  | refl => exact hst
  | tail _ hok hstep ih => exact ih.tail hok hstep

theorem Reach.single {e : ε} (hok : ok s e) (hstep : step s e = some t) : Reach step ok s t :=
  .tail .refl hok hstep

theorem Reach.mono {ok' : σ → ε → Prop} (h : Reach step ok s t)
    (weaker : ∀ s e, ok s e → ok' s e) : Reach step ok' s t := by
  induction h with
  | refl => exact .refl
  | tail _ hok hstep ih => exact ih.tail (weaker _ _ hok) hstep

/-- A property of the first state that every admitted step preserves. -/
theorem Reach.invariant {I : σ → Prop} (h : Reach step ok s t) (first : I s)
    (preserved : ∀ t e u, I t → ok t e → step t e = some u → I u) : I t := by
  induction h with
  | refl => exact first
  | tail _ hok hstep ih => exact preserved _ _ _ ih hok hstep

/-- Under a condition that looks at the events alone. -/
theorem reach_of_run_events {p : ε → Prop} {es : List ε} (admitted : ∀ e ∈ es, p e)
    (h : run step s es = some t) : Reach step (fun _ e => p e) s t := by
  induction es generalizing s with
  | nil => cases h; exact .refl
  | cons e es ih =>
      obtain ⟨u, first, rest⟩ := Option.bind_eq_some_iff.mp h
      exact (Reach.single (admitted e List.mem_cons_self) first).trans
        (ih (fun f hf => admitted f (List.mem_cons_of_mem e hf)) rest)

theorem reach_of_run {es : List ε} (h : run step s es = some t) : Reach step anyStep s t :=
  reach_of_run_events (p := fun _ => True) (fun _ _ => trivial) h

/-- Events that the condition admits where they happen. -/
theorem reach_of_guarded [∀ s e, Decidable (ok s e)] {es : List ε}
    (h : run (fun s e => if ok s e then step s e else none) s es = some t) : Reach step ok s t := by
  induction es generalizing s with
  | nil => cases h; exact .refl
  | cons e es ih =>
      obtain ⟨u, first, rest⟩ := Option.bind_eq_some_iff.mp h
      rw [Option.ite_none_right_eq_some] at first
      exact (Reach.single first.1 first.2).trans (ih rest)

/-- Under an invariant no step moves the measure down and the events of `p` move
it up, so a bound on it bounds how many of these a run holds. -/
theorem run_count_le {I : σ → Prop} {μ : σ → Nat} {p : ε → Bool} {es : List ε} (first : I s)
    (rises : ∀ t e u, I t → step t e = some u → I u ∧ μ t + (if p e then 1 else 0) ≤ μ u)
    (h : run step s es = some t) : μ s + es.countP p ≤ μ t := by
  induction es generalizing s with
  | nil => cases h; exact Nat.le_refl _
  | cons e es ih =>
      obtain ⟨u, one, rest⟩ := Option.bind_eq_some_iff.mp h
      obtain ⟨next, more⟩ := rises s e u first one
      have later := ih next rest
      rw [List.countP_cons]
      omega

/-- Where every step moves the measure up, a bound on it bounds the run. -/
theorem run_length_le {I : σ → Prop} {μ : σ → Nat} {es : List ε} (first : I s)
    (rises : ∀ t e u, I t → step t e = some u → I u ∧ μ t < μ u) (h : run step s es = some t) :
    μ s + es.length ≤ μ t := by
  have count := run_count_le (p := fun _ => true) first (fun t e u ht one => rises t e u ht one) h
  rwa [List.countP_true] at count

/-- Runs of bounded length end where no step is possible. -/
theorem exists_stuck {n : Nat} (bounded : ∀ es t, run step s es = some t → es.length ≤ n) :
    ∃ t, Reach step anyStep s t ∧ ∀ e, step t e = none := by
  induction n generalizing s with
  | zero =>
      refine ⟨s, .refl, fun e => ?_⟩
      cases one : step s e with
      | none => rfl
      | some t =>
          have length := bounded [e] t (Option.bind_eq_some_iff.mpr ⟨t, one, rfl⟩)
          exact absurd length (Nat.not_succ_le_zero 0)
  | succ n ih =>
      by_cases stuck : ∀ e, step s e = none
      · exact ⟨s, .refl, stuck⟩
      · obtain ⟨e, possible⟩ := not_forall.mp stuck
        obtain ⟨t, one⟩ := Option.ne_none_iff_exists'.mp possible
        have rest : ∀ es u, run step t es = some u → es.length ≤ n := by
          intro es u h
          have length := bounded (e :: es) u (Option.bind_eq_some_iff.mpr ⟨t, one, h⟩)
          exact Nat.le_of_succ_le_succ length
        obtain ⟨u, reached, last⟩ := ih rest
        exact ⟨u, (Reach.single trivial one).trans reached, last⟩

/-- A system whose steps another one can follow, event for event. -/
theorem run_simulates {τ φ : Type*} {follow : τ → φ → Option τ} {R : σ → τ → Prop} {f : ε → φ}
    (one : ∀ s e s' t, R s t → step s e = some s' → ∃ t', follow t (f e) = some t' ∧ R s' t')
    {es : List ε} {s' : σ} {t : τ} (related : R s t) (h : run step s es = some s') :
    ∃ t', run follow t (es.map f) = some t' ∧ R s' t' := by
  induction es generalizing s t with
  | nil => cases h; exact ⟨t, rfl, related⟩
  | cons e es ih =>
      obtain ⟨u, first, rest⟩ := Option.bind_eq_some_iff.mp h
      obtain ⟨v, followed, relatedU⟩ := one s e u t related first
      obtain ⟨t', rest', relatedT⟩ := ih relatedU rest
      exact ⟨t', Option.bind_eq_some_iff.mpr ⟨v, followed, rest'⟩, relatedT⟩

end Transition
