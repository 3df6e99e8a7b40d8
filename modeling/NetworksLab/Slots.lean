import Mathlib.Data.List.Basic

/-! Properties of the entries of a list by index, such as the threads of a
process: what becomes of them when one entry is written or one is added. -/
namespace Slots

variable {β : Type*} {l : List β} {p : Nat → β → Prop} {j k : Nat} {a b x : β}

theorem get_set (here : l[k]? = some a) : (l.set k b)[k]? = some b :=
  List.getElem?_set_self (List.getElem?_eq_some_iff.mp here).1

theorem set_cases (entry : (l.set k b)[j]? = some x) : j = k ∧ x = b ∨ j ≠ k ∧ l[j]? = some x := by
  by_cases same : k = j
  · subst same
    obtain ⟨_, rfl⟩ := List.getElem?_eq_some_iff.mp entry
    exact .inl ⟨rfl, List.getElem_set_self _⟩
  · rw [List.getElem?_set_ne same] at entry
    exact .inr ⟨Ne.symm same, entry⟩

theorem concat_cases (entry : (l ++ [b])[j]? = some x) :
    j = l.length ∧ x = b ∨ l[j]? = some x := by
  by_cases below : j < l.length
  · rw [List.getElem?_append_left below] at entry
    exact .inr entry
  · rw [List.getElem?_append_right (by omega)] at entry
    obtain ⟨last, rfl⟩ := List.getElem?_eq_some_iff.mp entry
    rw [List.length_singleton] at last
    obtain rfl : j = l.length := by omega
    exact .inl ⟨rfl, List.getElem_singleton _⟩

theorem forall_set (old : ∀ j x, l[j]? = some x → p j x) (new : p k b) :
    ∀ j x, (l.set k b)[j]? = some x → p j x := by
  intro j x entry
  rcases set_cases entry with ⟨rfl, rfl⟩ | ⟨_, entry⟩
  · exact new
  · exact old j x entry

theorem forall_concat (old : ∀ j x, l[j]? = some x → p j x) (new : p l.length b) :
    ∀ j x, (l ++ [b])[j]? = some x → p j x := by
  intro j x entry
  rcases concat_cases entry with ⟨rfl, rfl⟩ | entry
  · exact new
  · exact old j x entry

theorem countP_set (here : l[k]? = some a) (q : β → Bool) :
    (l.set k b).countP q + (if q a then 1 else 0) = l.countP q + if q b then 1 else 0 := by
  obtain ⟨below, rfl⟩ := List.getElem?_eq_some_iff.mp here
  have counted := List.boole_getElem_le_countP (p := q) below
  rw [List.countP_set below]
  omega

end Slots
