import Mathlib.Data.List.Basic
import Mathlib.Data.Nat.Find
import Mathlib.Tactic.Common
import NetworksLab.Firsts

/-! An input taken off in pieces: each goes up to and including an element at
which it stops, or to a greatest length, or to the end of the input. -/
namespace Pieces

variable {α : Type*} (stop : α → Bool)

def piece : Nat → List α → List α
  | 0, _ => []
  | _, [] => []
  | n + 1, a :: l => if stop a then [a] else a :: piece n l

/-- The next piece, none at the end of the input. -/
def next (n : Nat) : List α → Option (List α)
  | [] => none
  | a :: l => some (piece stop n (a :: l))

/-- What the first `k` pieces leave. -/
def rest (n : Nat) (l : List α) : Nat → List α
  | 0 => l
  | k + 1 => (rest n l k).drop (piece stop n (rest n l k)).length

def pieceAt (n : Nat) (l : List α) (k : Nat) : List α := piece stop n (rest stop n l k)

def pieces (n : Nat) (l : List α) (k : Nat) : List (List α) :=
  (List.range k).map (pieceAt stop n l)

/-- All pieces: there are no more of them than elements. -/
def all (n : Nat) (l : List α) : List (List α) :=
  (pieces stop n l l.length).filter fun p => !p.isEmpty

variable {stop} {n p : Nat} {l key : List α} {a : α} {i j k : Nat}

theorem piece_isPrefix (n : Nat) (l : List α) : piece stop n l <+: l := by
  induction n generalizing l with
  | zero => exact List.nil_prefix
  | succ n ih =>
      cases l with
      | nil => exact List.nil_prefix
      | cons a l =>
          unfold piece
          split
          · exact List.prefix_append [a] l
          · exact List.cons_prefix_cons.mpr ⟨rfl, ih l⟩

theorem piece_length_le (n : Nat) (l : List α) : (piece stop n l).length ≤ n := by
  induction n generalizing l with
  | zero => exact Nat.le_refl 0
  | succ n ih =>
      cases l with
      | nil => exact Nat.zero_le _
      | cons a l =>
          unfold piece
          split
          · exact Nat.succ_le_succ (Nat.zero_le n)
          · exact Nat.succ_le_succ (ih l)

theorem piece_ne_nil (positive : 0 < n) (some : l ≠ []) : piece stop n l ≠ [] := by
  cases l with
  | nil => exact absurd rfl some
  | cons a l =>
      obtain ⟨m, rfl⟩ := Nat.exists_eq_succ_of_ne_zero (Nat.ne_of_gt positive)
      unfold piece
      split <;> exact List.cons_ne_nil _ _

theorem next_eq_some (some : l ≠ []) : next stop n l = Option.some (piece stop n l) := by
  cases l with
  | nil => exact absurd rfl some
  | cons a l => rfl

theorem pieces_succ (n : Nat) (l : List α) (k : Nat) :
    pieces stop n l (k + 1) = pieces stop n l k ++ [pieceAt stop n l k] :=
  Firsts.map_range_succ _ k

@[simp] theorem pieces_length (n : Nat) (l : List α) (k : Nat) : (pieces stop n l k).length = k := by
  rw [pieces, List.length_map, List.length_range]

theorem mem_pieces (n : Nat) (l : List α) (below : i < k) :
    pieceAt stop n l i ∈ pieces stop n l k :=
  List.mem_map_of_mem (List.mem_range.mpr below)

theorem eq_pieces {ps : List (List α)} (begins : ps <+: pieces stop n l k) :
    ps = pieces stop n l ps.length := Firsts.eq_map_range begins

theorem pieces_flatten (n : Nat) (l : List α) (k : Nat) :
    (pieces stop n l k).flatten ++ rest stop n l k = l := by
  induction k with
  | zero => rfl
  | succ k ih =>
      obtain ⟨more, whole⟩ : piece stop n (rest stop n l k) <+: rest stop n l k := piece_isPrefix ..
      have left : rest stop n l (k + 1) = more :=
        (congrArg (List.drop _) whole).symm.trans List.drop_left
      rw [pieces_succ, List.flatten_append, List.flatten_singleton, List.append_assoc, left, pieceAt,
        whole, ih]

theorem rest_eq_drop (n : Nat) (l : List α) (k : Nat) :
    rest stop n l k = l.drop (pieces stop n l k).flatten.length := by
  have whole : (pieces stop n l k).flatten ++ rest stop n l k = l := pieces_flatten n l k
  exact List.drop_left.symm.trans (congrArg (List.drop _) whole)

/-- Nothing comes after the end of the input. -/
theorem rest_ne_nil (le : i ≤ k) (some : rest stop n l k ≠ []) : rest stop n l i ≠ [] := by
  intro none
  induction le with
  | refl => exact some none
  | step _ ih =>
      apply ih
      intro empty
      rw [rest, empty, List.drop_nil] at some
      exact some rfl

theorem rest_length_le (positive : 0 < n) (k : Nat) :
    (rest stop n l k).length ≤ l.length - k := by
  induction k with
  | zero => exact Nat.le_refl _
  | succ k ih =>
      rw [rest, List.length_drop]
      by_cases none : rest stop n l k = []
      · simp [none]
      · have nonempty : piece stop n (rest stop n l k) ≠ [] := piece_ne_nil positive none
        have taken := List.length_pos_iff.mpr nonempty
        omega

/-- The pieces after the end of the input are empty. -/
theorem filter_pieces (le : k ≤ j) (none : rest stop n l k = []) :
    ((pieces stop n l j).filter fun p => !p.isEmpty) =
      (pieces stop n l k).filter fun p => !p.isEmpty := by
  induction le with
  | refl => rfl
  | @step j le ih =>
      have past : rest stop n l j = [] := by
        by_contra some
        exact rest_ne_nil le some none
      have empty : pieceAt stop n l j = [] := by
        rw [pieceAt, past]
        exact List.prefix_nil.mp (piece_isPrefix n [])
      rw [pieces_succ, List.filter_append, ih, empty]
      exact List.append_nil _

theorem all_eq (stop : α → Bool) (positive : 0 < n) (l : List α) :
    ∃ k, all stop n l = pieces stop n l k ∧ rest stop n l k = [] ∧
      ∀ i < k, rest stop n l i ≠ [] := by
  classical
  have ends : rest stop n l l.length = [] := by
    have left : (rest stop n l l.length).length ≤ l.length - l.length := rest_length_le positive _
    exact List.length_eq_zero_iff.mp (by omega)
  have some : ∃ k, rest stop n l k = [] := ⟨_, ends⟩
  refine ⟨Nat.find some, ?_, Nat.find_spec some, fun i below => Nat.find_min some below⟩
  rw [all, filter_pieces (Nat.find_min' some ends) (Nat.find_spec some), List.filter_eq_self]
  intro q mem
  obtain ⟨i, below, rfl⟩ := List.mem_map.mp mem
  have nonempty : pieceAt stop n l i ≠ [] :=
    piece_ne_nil positive (Nat.find_min some (List.mem_range.mp below))
  simpa using nonempty

theorem all_flatten (positive : 0 < n) (l : List α) : (all stop n l).flatten = l := by
  obtain ⟨k, whole, none, _⟩ := all_eq stop positive l
  have parts : (pieces stop n l k).flatten ++ rest stop n l k = l := pieces_flatten n l k
  rwa [whole, ← List.append_nil (pieces stop n l k).flatten, ← none]

theorem exists_of_mem_all {q : List α} (mem : q ∈ all stop n l) : ∃ i, pieceAt stop n l i = q := by
  obtain ⟨i, _, same⟩ := List.mem_map.mp (List.mem_filter.mp mem).1
  exact ⟨i, same⟩

theorem getElem?_all (positive : 0 < n) (some : rest stop n l k ≠ []) :
    (all stop n l)[k]? = Option.some (pieceAt stop n l k) := by
  obtain ⟨m, whole, none, _⟩ := all_eq stop positive l
  have below : k < m := by
    by_contra beyond
    exact rest_ne_nil (Nat.le_of_not_lt beyond) some none
  rw [whole, pieces, List.getElem?_map, List.getElem?_range below]
  rfl

theorem eq_pieces_of_all {ps : List (List α)} (positive : 0 < n) (begins : ps <+: all stop n l) :
    ps = pieces stop n l ps.length := by
  obtain ⟨k, whole, _⟩ := all_eq stop positive l
  exact eq_pieces (whole ▸ begins)

/-- After some of the pieces comes the next of them, and then the end. -/
theorem next_eq_getElem? {ps : List (List α)} (positive : 0 < n) (begins : ps <+: all stop n l) :
    next stop n (l.drop ps.flatten.length) = (all stop n l)[ps.length]? := by
  have left : l.drop ps.flatten.length = rest stop n l ps.length := by
    rw [rest_eq_drop, ← eq_pieces_of_all positive begins]
  rw [left]
  by_cases ended : rest stop n l ps.length = []
  · obtain ⟨k, whole, _, some⟩ := all_eq stop positive l
    have beyond : k ≤ ps.length := Nat.le_of_not_lt fun below => some _ below ended
    rw [ended, whole, List.getElem?_eq_none (by simpa using beyond)]
    rfl
  · rw [next_eq_some ended, getElem?_all positive ended, pieceAt]

/-- What stops a piece is its last element. -/
theorem stop_last (here : (piece stop n l)[i]? = some a) (stops : stop a = true) :
    i + 1 = (piece stop n l).length := by
  induction n generalizing l i with
  | zero => cases here
  | succ n ih =>
      cases l with
      | nil => cases here
      | cons b l =>
          unfold piece at here ⊢
          split at here
          · next first =>
              rw [if_pos first]
              have inside := (List.getElem?_eq_some_iff.mp here).1
              rw [List.length_singleton] at inside ⊢
              omega
          · next first =>
              rw [if_neg first]
              cases i with
              | zero =>
                  obtain rfl := Option.some.inj here
                  exact absurd stops first
              | succ i => exact congrArg Nat.succ (ih here)

/-- A start without a stop shows in a piece that has room for it. -/
theorem prefix_piece (short : key.length ≤ n) (clean : ∀ a ∈ key, stop a = false) :
    key <+: piece stop n l ↔ key <+: l := by
  constructor
  · exact fun starts => starts.trans (piece_isPrefix n l)
  · intro starts
    induction key generalizing n l with
    | nil => exact List.nil_prefix
    | cons b key ih =>
        obtain ⟨rest, rfl⟩ := starts
        obtain ⟨m, rfl⟩ : ∃ m, n = m + 1 := Nat.exists_eq_succ_of_ne_zero (by
          rw [List.length_cons] at short
          omega)
        obtain ⟨first, later⟩ := List.forall_mem_cons.mp clean
        rw [List.cons_append, piece, if_neg (by rw [first]; exact Bool.false_ne_true)]
        exact List.cons_prefix_cons.mpr
          ⟨rfl, ih (Nat.le_of_succ_le_succ short) later (List.prefix_append _ _)⟩

theorem rest_succ_front (n : Nat) (l : List α) (k : Nat) :
    rest stop n l (k + 1) = rest stop n (l.drop (piece stop n l).length) k := by
  induction k with
  | zero => rfl
  | succ k ih => rw [rest, ih, rest]

theorem pieces_succ_front (n : Nat) (l : List α) (k : Nat) :
    pieces stop n l (k + 1) =
      piece stop n l :: pieces stop n (l.drop (piece stop n l).length) k := by
  rw [pieces, List.range_succ_eq_map, List.map_cons, List.map_map]
  congr 1
  apply List.map_congr_left
  intro i _
  exact congrArg (piece stop n) (rest_succ_front n l i)

/-- A place that no piece reaches across, such as one behind a stop, is where a
piece begins. -/
theorem exists_offset (positive : 0 < n) (within : p ≤ l.length)
    (starts : p = 0 ∨ ∃ a, l[p - 1]? = some a ∧ stop a = true) :
    ∃ k, (pieces stop n l k).flatten.length = p := by
  induction size : l.length using Nat.strong_induction_on generalizing l p with
  | _ m ih =>
    by_cases first : p = 0
    · exact ⟨0, first.symm⟩
    · obtain ⟨a, before, stops⟩ := starts.resolve_left first
      have some : l ≠ [] := by
        rintro rfl
        cases before
      have begins : piece stop n l <+: l := piece_isPrefix n l
      have nonempty : piece stop n l ≠ [] := piece_ne_nil positive some
      have taken := List.length_pos_iff.mpr nonempty
      have most := begins.length_le
      have reached : (piece stop n l).length ≤ p := by
        by_contra inside
        obtain ⟨more, whole⟩ := begins
        have here : (piece stop n l)[p - 1]? = Option.some a := by
          rw [← before]
          nth_rewrite 2 [← whole]
          exact (List.getElem?_append_left (by omega)).symm
        have last := stop_last here stops
        omega
      have next : p - (piece stop n l).length = 0 ∨
          ∃ a, (l.drop (piece stop n l).length)[p - (piece stop n l).length - 1]? = Option.some a ∧
            stop a = true := by
        by_cases last : p = (piece stop n l).length
        · exact .inl (by omega)
        · have same : (piece stop n l).length + (p - (piece stop n l).length - 1) = p - 1 := by omega
          exact .inr ⟨a, by rw [List.getElem?_drop, same, before], stops⟩
      have room : p - (piece stop n l).length ≤ (l.drop (piece stop n l).length).length := by
        rw [List.length_drop]
        omega
      obtain ⟨k, offset⟩ := ih _ (by omega) room next (List.length_drop ..)
      refine ⟨k + 1, ?_⟩
      rw [pieces_succ_front, List.flatten_cons, List.length_append, offset]
      omega

end Pieces
