import Mathlib.Data.List.Basic

/-! A log that only grows, and the readers who each take from it, in its order,
what they keep of the entries from their join position on. -/
namespace OrderedLog

variable {α : Type*}

def view (keep : α → Bool) (join : Nat) (log : List α) : List α := (log.drop join).filter keep

theorem view_concat {keep : α → Bool} {join : Nat} {log : List α} (joined : join ≤ log.length)
    (e : α) :
    view keep join (log ++ [e]) = view keep join log ++ if keep e then [e] else [] := by
  rw [view, List.drop_append_of_le_length joined, List.filter_append, List.filter_singleton,
    Bool.cond_eq_ite]
  rfl

/-- A reader that joins now has nothing yet. -/
@[simp] theorem view_now (keep : α → Bool) (log : List α) : view keep log.length log = [] := by
  simp [view]

/-- A later reader has an end of what an earlier one with the same interest has. -/
theorem view_suffix (keep : α → Bool) {join join' : Nat} (later : join ≤ join') (log : List α) :
    view keep join' log <:+ view keep join log :=
  (List.drop_suffix_drop_left log later).filter keep

/-- Two readers that join together have what both keep in the same order. -/
theorem view_agree (keep keep' : α → Bool) (join : Nat) (log : List α) :
    (view keep join log).filter keep' = (view keep' join log).filter keep := by
  simp only [view, List.filter_filter]
  congr 1
  funext e
  exact Bool.and_comm ..

/-- Behind the kept ones in front of it. -/
theorem filter_getElem? {keep : α → Bool} {log : List α} {j : Nat} {e : α}
    (here : log[j]? = some e) (kept : keep e = true) :
    (log.filter keep)[((log.take j).filter keep).length]? = some e := by
  obtain ⟨below, rfl⟩ := List.getElem?_eq_some_iff.mp here
  have split : log.filter keep = (log.take j).filter keep ++ log[j] :: (log.drop (j + 1)).filter keep := by
    rw [← List.filter_cons_of_pos kept, ← List.filter_append, ← List.drop_eq_getElem_cons below,
      List.take_append_drop]
  rw [split, List.getElem?_append_right (Nat.le_refl _), Nat.sub_self, List.getElem?_cons_zero]

/-- The `k`-th entry that is kept, and where it stands in the log. -/
theorem exists_of_filter {keep : α → Bool} {log : List α} {k : Nat} {e : α}
    (kept : (log.filter keep)[k]? = some e) :
    ∃ j, log[j]? = some e ∧ ((log.take j).filter keep).length = k := by
  induction log generalizing k with
  | nil => cases kept
  | cons d log ih =>
      by_cases first : keep d = true
      · rw [List.filter_cons_of_pos first] at kept
        cases k with
        | zero => exact ⟨0, kept, rfl⟩
        | succ k =>
            obtain ⟨j, here, before⟩ := ih kept
            refine ⟨j + 1, here, ?_⟩
            rw [List.take_succ_cons, List.filter_cons_of_pos first, List.length_cons, before]
      · rw [List.filter_cons_of_neg first] at kept
        obtain ⟨j, here, before⟩ := ih kept
        refine ⟨j + 1, here, ?_⟩
        rw [List.take_succ_cons, List.filter_cons_of_neg first, before]

end OrderedLog
