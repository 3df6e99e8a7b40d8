import Mathlib.Data.List.Basic

/-! The first values of a sequence, in a list. -/
namespace Firsts

variable {α : Type*} {f : Nat → α} {l : List α} {m n : Nat}

theorem map_range_succ (f : Nat → α) (n : Nat) :
    (List.range (n + 1)).map f = (List.range n).map f ++ [f n] := by
  rw [List.range_succ, List.map_append, List.map_singleton]

theorem map_range_mono (f : Nat → α) (le : m ≤ n) :
    (List.range m).map f <+: (List.range n).map f := by
  have below : List.range m <+: List.range n := by
    rw [List.prefix_iff_eq_take, List.take_range, List.length_range, Nat.min_eq_left le]
  exact below.map f

/-- Whatever the first values begin with is the first values. -/
theorem eq_map_range (begins : l <+: (List.range n).map f) :
    l = (List.range l.length).map f := by
  have le : l.length ≤ n := by simpa using begins.length_le
  have size : ((List.range l.length).map f).length = l.length := by
    rw [List.length_map, List.length_range]
  have within : l <+: (List.range l.length).map f :=
    List.prefix_of_prefix_length_le begins (map_range_mono f le) (Nat.le_of_eq size.symm)
  exact within.eq_of_length size.symm

end Firsts
