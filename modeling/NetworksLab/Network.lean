import Mathlib.Data.List.Basic

/-! Packets in transit on a network that may lose one, repeat one or let one
overtake another. -/
namespace Network

variable {π κ : Type*} {transit rest : List π} {p : π} {i : Nat} {again : Bool}

/-- The packet at `i` arrives; `again` leaves a copy of it in transit. -/
def arrive (transit : List π) (i : Nat) (again : Bool) : Option (π × List π) :=
  transit[i]?.map fun p => (p, if again then transit else transit.eraseIdx i)

theorem arrive_eq_some : arrive transit i again = some (p, rest) ↔
    transit[i]? = some p ∧ rest = if again then transit else transit.eraseIdx i := by
  simp only [arrive, Option.map_eq_some_iff, Prod.mk.injEq]
  constructor
  · rintro ⟨_, here, rfl, rfl⟩
    exact ⟨here, rfl⟩
  · rintro ⟨here, rfl⟩
    exact ⟨p, here, rfl, rfl⟩

theorem mem_of_arrive (h : arrive transit i again = some (p, rest)) : p ∈ transit :=
  List.mem_of_getElem? (arrive_eq_some.mp h).1

theorem subset_of_arrive (h : arrive transit i again = some (p, rest)) : rest ⊆ transit := by
  rw [(arrive_eq_some.mp h).2]
  cases again with
  | true => exact List.Subset.refl _
  | false => exact List.eraseIdx_subset

theorem mem_or_eraseIdx {q : π} (here : transit[i]? = some p) (mem : q ∈ transit) :
    q = p ∨ q ∈ transit.eraseIdx i := by
  obtain ⟨below, rfl⟩ := List.getElem?_eq_some_iff.mp here
  rw [← List.take_append_drop i transit, List.drop_eq_getElem_cons below] at mem
  rw [List.eraseIdx_eq_take_drop_succ, List.mem_append]
  rcases List.mem_append.mp mem with ahead | behind
  · exact .inr (.inl ahead)
  · exact (List.mem_cons.mp behind).imp_right .inr

theorem mem_or_of_arrive {q : π} (h : arrive transit i again = some (p, rest)) (mem : q ∈ transit) :
    q = p ∨ q ∈ rest := by
  obtain ⟨here, rfl⟩ := arrive_eq_some.mp h
  cases again with
  | true => exact .inr mem
  | false => exact mem_or_eraseIdx here mem

/-- What is in transit between two parties, before and behind the packet at `i`. -/
theorem filter_split [DecidableEq κ] (key : π → κ) (here : transit[i]? = some p) (k : κ) :
    transit.filter (key · = k) = (transit.take i).filter (key · = k) ++
      (if key p = k then [p] else []) ++ (transit.drop (i + 1)).filter (key · = k) := by
  obtain ⟨below, rfl⟩ := List.getElem?_eq_some_iff.mp here
  calc transit.filter (key · = k)
      = (transit.take i ++ transit[i] :: transit.drop (i + 1)).filter (key · = k) := by
        rw [← List.drop_eq_getElem_cons below, List.take_append_drop]
    _ = _ := by
        rw [List.filter_append, List.filter_cons, List.append_assoc]
        split <;> rename_i same
        · rw [if_pos (of_decide_eq_true same)]
          rfl
        · rw [if_neg (by simpa using same)]
          rfl

/-- What is in transit between the same two parties, without the packet at `i`. -/
theorem filter_eraseIdx [DecidableEq κ] (key : π → κ) (here : transit[i]? = some p) (k : κ) :
    ∃ ahead behind, transit.filter (key · = k) = ahead ++ (if key p = k then [p] else []) ++ behind ∧
      (transit.eraseIdx i).filter (key · = k) = ahead ++ behind := by
  refine ⟨_, _, filter_split key here k, ?_⟩
  rw [List.eraseIdx_eq_take_drop_succ, List.filter_append]

/-- Nothing for the same destination is ahead of the packet at `i`. -/
def First (key : π → κ) (transit : List π) (i : Nat) : Prop :=
  ∀ p ∈ transit[i]?, ∀ q ∈ transit.take i, key q ≠ key p

instance [DecidableEq κ] (key : π → κ) (transit : List π) (i : Nat) : Decidable (First key transit i) :=
  inferInstanceAs (Decidable (∀ p ∈ transit[i]?, _))

/-- Without repetition and overtaking, what is in transit to a destination is a
queue. -/
theorem filter_of_arrive [DecidableEq κ] {key : π → κ} (first : First key transit i)
    (h : arrive transit i false = some (p, rest)) (k : κ) :
    transit.filter (key · = k) = (if key p = k then [p] else []) ++ rest.filter (key · = k) := by
  obtain ⟨here, rfl⟩ := arrive_eq_some.mp h
  rw [filter_split key here k, if_neg Bool.false_ne_true, List.eraseIdx_eq_take_drop_succ, List.filter_append]
  by_cases same : key p = k
  · have ahead : (transit.take i).filter (key · = k) = [] := by
      rw [List.filter_eq_nil_iff]
      intro q mem equal
      exact first p here q mem ((of_decide_eq_true equal).trans same.symm)
    rw [ahead]
    rfl
  · rw [if_neg same, List.append_nil]
    rfl

end Network
