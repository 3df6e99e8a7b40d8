import Mathlib.Data.List.TakeWhile
import Mathlib.Tactic.Common

/-! A stream of blocks of one size, the pieces a reader with room for one block gets
it in, and fields that end at a separator. -/
namespace Segments

variable {α : Type*} {n : Nat}

theorem flatten_length_le {cuts : List (List α)} (fits : ∀ cut ∈ cuts, cut.length ≤ n) :
    cuts.flatten.length ≤ n * cuts.length := by
  induction cuts with
  | nil => simp
  | cons cut rest ih =>
      have first := fits cut List.mem_cons_self
      have later := ih fun c hc => fits c (List.mem_cons_of_mem cut hc)
      rw [List.flatten_cons, List.length_append, List.length_cons, Nat.mul_succ]
      omega

/-- Pieces that all bring something. -/
theorem length_le_flatten {cuts : List (List α)} (some_cut : [] ∉ cuts) :
    cuts.length ≤ cuts.flatten.length := by
  induction cuts with
  | nil => exact Nat.le_refl 0
  | cons cut rest ih =>
      rw [List.mem_cons, not_or] at some_cut
      obtain ⟨first, others⟩ := some_cut
      have positive := List.length_pos_iff.mpr (Ne.symm first)
      have later := ih others
      rw [List.flatten_cons, List.length_append, List.length_cons]
      omega

theorem flatten_length_full {blocks : List (List α)} (size : ∀ b ∈ blocks, b.length = n) :
    blocks.flatten.length = n * blocks.length := by
  rw [List.length_flatten, List.map_congr_left size, List.map_const', List.sum_replicate_nat,
    Nat.mul_comm]

/-- As many pieces as it takes blocks: each piece is full. -/
theorem full_of_flatten_length {cuts : List (List α)} (fits : ∀ cut ∈ cuts, cut.length ≤ n)
    (total : cuts.flatten.length = n * cuts.length) : ∀ cut ∈ cuts, cut.length = n := by
  induction cuts with
  | nil => nofun
  | cons cut rest ih =>
      have first := fits cut List.mem_cons_self
      have fitsRest : ∀ c ∈ rest, c.length ≤ n := fun c hc => fits c (List.mem_cons_of_mem cut hc)
      have later := flatten_length_le fitsRest
      rw [List.flatten_cons, List.length_append, List.length_cons, Nat.mul_succ] at total
      intro c hc
      rcases List.mem_cons.mp hc with rfl | inRest
      · omega
      · exact ih fitsRest (by omega) c inRest

/-- Full pieces are the blocks. -/
theorem eq_of_flatten {cuts blocks : List (List α)} (positive : 0 < n)
    (full : ∀ cut ∈ cuts, cut.length = n) (size : ∀ b ∈ blocks, b.length = n)
    (same : cuts.flatten = blocks.flatten) : cuts = blocks := by
  have count : n * cuts.length = n * blocks.length := by
    rw [← flatten_length_full full, ← flatten_length_full size, same]
  apply List.eq_iff_flatten_eq.mpr
  refine ⟨same, ?_⟩
  rw [List.map_congr_left full, List.map_congr_left size, List.map_const', List.map_const',
    Nat.eq_of_mul_eq_mul_left positive count]

/-- Full pieces of the start of a stream are its first blocks. -/
theorem eq_take_of_flatten {cuts blocks : List (List α)} {rest : List α} (positive : 0 < n)
    (full : ∀ cut ∈ cuts, cut.length = n) (size : ∀ b ∈ blocks, b.length = n)
    (same : cuts.flatten ++ rest = blocks.flatten) : cuts = blocks.take cuts.length := by
  have sizeTake : ∀ b ∈ blocks.take cuts.length, b.length = n := fun b mem =>
    size b (List.mem_of_mem_take mem)
  have total := congrArg List.length same
  rw [List.length_append, flatten_length_full full, flatten_length_full size] at total
  have enough : cuts.length ≤ blocks.length :=
    Nat.le_of_mul_le_mul_left (Nat.le_of_add_right_le (Nat.le_of_eq total)) positive
  have within : (blocks.take cuts.length).flatten <+: blocks.flatten := by
    refine ⟨(blocks.drop cuts.length).flatten, ?_⟩
    rw [← List.flatten_append, List.take_append_drop]
  have begins : cuts.flatten <+: blocks.flatten := ⟨rest, same⟩
  have level : cuts.flatten.length = (blocks.take cuts.length).flatten.length := by
    rw [flatten_length_full full, flatten_length_full sizeTake, List.length_take,
      Nat.min_eq_left enough]
  have equal : cuts.flatten = (blocks.take cuts.length).flatten :=
    (List.prefix_of_prefix_length_le begins within (Nat.le_of_eq level)).eq_of_length level
  exact eq_of_flatten positive full sizeTake equal

/-- What a reader with room for `n` gets when each read brings all there is room for. -/
def cutUp (n : Nat) (bytes : List α) : List (List α) :=
  if bytes = [] ∨ n = 0 then [] else bytes.take n :: cutUp n (bytes.drop n)
termination_by bytes.length
decreasing_by
  rename_i more
  have nonempty := List.length_pos_iff.mpr (not_or.mp more).1
  rw [List.length_drop]
  omega

@[simp] theorem cutUp_nil (n : Nat) : cutUp n ([] : List α) = [] := by
  rw [cutUp, if_pos (.inl rfl)]

theorem cutUp_more {bytes : List α} (nonempty : bytes ≠ []) (positive : 0 < n) :
    cutUp n bytes = bytes.take n :: cutUp n (bytes.drop n) := by
  rw [cutUp, if_neg (not_or.mpr ⟨nonempty, Nat.pos_iff_ne_zero.mp positive⟩)]

theorem cutUp_one {bytes : List α} (nonempty : bytes ≠ []) (fits : bytes.length ≤ n) :
    cutUp n bytes = [bytes] := by
  have positive := Nat.lt_of_lt_of_le (List.length_pos_iff.mpr nonempty) fits
  rw [cutUp_more nonempty positive, List.take_of_length_le fits, List.drop_of_length_le fits,
    cutUp_nil]

/-- A separator in neither field shows where both end. -/
theorem append_cons_inj {sep : α} {a b rest more : List α} (ha : sep ∉ a) (hb : sep ∉ b)
    (same : a ++ sep :: rest = b ++ sep :: more) : a = b ∧ rest = more := by
  induction a generalizing b with
  | nil =>
      cases b with
      | nil => exact ⟨rfl, (List.cons.inj same).2⟩
      | cons c b => exact absurd ((List.cons.inj same).1 ▸ List.mem_cons_self) hb
  | cons c a ih =>
      cases b with
      | nil => exact absurd ((List.cons.inj same).1.symm ▸ List.mem_cons_self) ha
      | cons d b =>
          obtain ⟨rfl, tails⟩ := List.cons.inj same
          obtain ⟨rfl, rests⟩ := ih (fun mem => ha (List.mem_cons_of_mem _ mem))
            (fun mem => hb (List.mem_cons_of_mem _ mem)) tails
          exact ⟨rfl, rests⟩

theorem takeWhile_free [DecidableEq α] {sep : α} {a : List α} (free : sep ∉ a) :
    a.takeWhile (· ≠ sep) = a := by
  rw [List.takeWhile_eq_self_iff]
  exact fun x mem => decide_eq_true fun same => free (same ▸ mem)

/-- The field in front of the first separator. -/
theorem takeWhile_sep [DecidableEq α] {sep : α} {a : List α} (free : sep ∉ a) (rest : List α) :
    (a ++ sep :: rest).takeWhile (· ≠ sep) = a := by
  have other : ∀ x ∈ a, decide (x ≠ sep) = true := fun x mem =>
    decide_eq_true fun same => free (same ▸ mem)
  rw [List.takeWhile_append_of_pos other, List.takeWhile_cons_of_neg (by simp), List.append_nil]

end Segments
