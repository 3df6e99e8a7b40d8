import Mathlib.Data.List.Basic
import Mathlib.Data.List.Induction
import Mathlib.Tactic.Common

/-! Writes over the start of a buffer: each element is that of the newest write
that has reached it. -/
namespace Overlay

variable {α : Type*} {base old new w : List α} {ws : List (List α)} {p : Nat}

def write (old new : List α) : List α := new ++ old.drop new.length

/-- The newest write that reaches index `p`. -/
def latest (p : Nat) (ws : List (List α)) : Option (List α) := ws.reverse.find? (p < ·.length)

theorem latest_concat : latest p (ws ++ [w]) = if p < w.length then some w else latest p ws := by
  rw [latest, List.reverse_concat, List.find?_cons]
  by_cases reaches : p < w.length
  · simp [reaches]
  · simp [reaches, latest]

theorem latest_reaches (h : latest p ws = some w) : w ∈ ws ∧ p < w.length := by
  have found := List.find?_some (show ws.reverse.find? (p < ·.length) = some w from h)
  exact ⟨List.mem_reverse.mp (List.mem_of_find?_eq_some h), of_decide_eq_true found⟩

theorem get_write : (write old new)[p]? = if p < new.length then new[p]? else old[p]? := by
  rw [write]
  by_cases reaches : p < new.length
  · rw [List.getElem?_append_left reaches, if_pos reaches]
  · rw [List.getElem?_append_right (Nat.le_of_not_lt reaches), if_neg reaches, List.getElem?_drop,
      Nat.add_sub_cancel' (Nat.le_of_not_lt reaches)]

theorem get_foldl_write : (ws.foldl write base)[p]? = ((latest p ws).getD base)[p]? := by
  induction ws using List.reverseRecOn with
  | nil => rfl
  | append_singleton ws w ih =>
      rw [List.foldl_append, List.foldl_cons, List.foldl_nil, get_write, latest_concat, ih]
      by_cases reaches : p < w.length
      · rw [if_pos reaches, if_pos reaches, Option.getD_some]
      · rw [if_neg reaches, if_neg reaches]

/-- An element of the base is there as long as no write that reaches it changes it. -/
theorem get_foldl_write_eq_some {a : α} (first : base[p]? = some a) :
    (ws.foldl write base)[p]? = some a ↔ ∀ w, latest p ws = some w → w[p]? = some a := by
  rw [get_foldl_write]
  cases latest p ws with
  | none => exact iff_of_true first nofun
  | some w => simp

theorem length_write (fits : new.length ≤ old.length) : (write old new).length = old.length := by
  rw [write, List.length_append, List.length_drop]
  omega

theorem length_foldl_write (fits : ∀ w ∈ ws, w.length ≤ base.length) :
    (ws.foldl write base).length = base.length := by
  induction ws generalizing base with
  | nil => rfl
  | cons w ws ih =>
      have first := length_write (fits w List.mem_cons_self)
      rw [List.foldl_cons, ih, first]
      intro v mem
      rw [first]
      exact fits v (List.mem_cons_of_mem w mem)

end Overlay
