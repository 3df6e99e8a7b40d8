import Mathlib.Data.List.Dedup
import Mathlib.Data.List.Perm.Basic
import NetworksLab.PyGroupServer

/-! The readers of the Python group-chat server. Each empty datagram starts one,
whoever sent it and however often: a client that sends an empty line has
registered again. -/
namespace PyGroup
open CString Transition

variable {α : Type*} [DecidableEq α] {s t : Server α} {es : List (Nat × Datagram α)}

omit [DecidableEq α] in
/-- The senders of the empty datagrams. -/
def greetings (ds : List (Datagram α)) : List α := (ds.filter (·.payload = [])).map (·.addr)

theorem joined_perm_dedup (ds : List (Datagram α)) : (joined ds).Perm (greetings ds).dedup := by
  rw [List.perm_ext_iff_of_nodup (joined_nodup ds) (greetings ds).nodup_dedup]
  intro a
  rw [List.mem_dedup]
  exact List.mem_eraseDups

/-- No sender is lost from the table only where none is in the list twice. -/
theorem greetings_length_le {ds : List (Datagram α)} :
    (greetings ds).length ≤ (joined ds).length ↔ (greetings ds).Nodup := by
  rw [(joined_perm_dedup ds).length_eq, ← List.dedup_eq_self]
  constructor
  · exact fun all => (List.dedup_sublist _).eq_of_length_le all
  · exact fun same => le_of_eq (congrArg List.length same.symm)

theorem Server.check_readers (s : Server α) (data : Bytes) (addr : α) :
    (s.check data addr).readers.length = s.readers.length + if data = [] then 1 else 0 := by
  unfold check
  by_cases empty : data = []
  · rw [if_pos empty, if_pos empty, startReceive, List.length_append, appendClient]
    by_cases new : addr ∉ s.clients
    · rw [if_pos new]
      rfl
    · rw [if_neg new]
      rfl
  · rw [if_neg empty, if_neg empty]
    rfl

theorem Server.step_readers {e : Nat × Datagram α} (step : s.step e = some t) :
    t.readers.length = s.readers.length + if e.2.payload = [] then 1 else 0 := by
  obtain ⟨readers, count, rfl⟩ := Server.step_check step
  rw [check_readers, count]
  simp only [received_eq_nil]

/-- One reader at the start and one for each empty datagram. -/
theorem Server.readers_run (h : run Server.step .start es = some s) :
    s.readers.length = (greetings (es.map (·.2))).length + 1 := by
  induction es using List.reverseRecOn generalizing s with
  | nil => cases h; rfl
  | append_singleton es e ih =>
      obtain ⟨u, before, step⟩ := run_concat h
      have later : (greetings ((es ++ [e]).map (·.2))).length =
          (greetings (es.map (·.2))).length + if e.2.payload = [] then 1 else 0 := by
        by_cases empty : e.2.payload = [] <;> simp [greetings, empty]
      rw [step_readers step, ih before, later]
      omega

theorem Server.readers_le_iff (h : run Server.step .start es = some s) :
    s.readers.length ≤ s.clients.length + 1 ↔ (greetings (es.map (·.2))).Nodup := by
  rw [readers_run h, (outcome_run h).1, Nat.add_le_add_iff_right, greetings_length_le]

/-- In all states of a run the readers are bounded by the clients exactly when no
address has sent two empty datagrams. -/
theorem readers_bounded (h : run Server.step .start es = some s) :
    (∀ fs t, fs <+: es → run Server.step .start fs = some t →
        t.clients.Nodup ∧ t.readers.length ≤ t.clients.length + 1) ↔
      (greetings (es.map (·.2))).Nodup := by
  constructor
  · intro bounded
    exact (Server.readers_le_iff h).mp (bounded es s List.prefix_rfl h).2
  · intro once fs t earlier reached
    refine ⟨(Server.outcome_run reached).1 ▸ joined_nodup _, (Server.readers_le_iff reached).mpr ?_⟩
    have part : (greetings (fs.map (·.2))).Sublist (greetings (es.map (·.2))) :=
      ((earlier.sublist.map _).filter _).map _
    exact part.nodup once

theorem readers_bounded_twoJoin : ¬ ∀ fs t, fs <+: twoJoin →
    run Server.step .start fs = some t →
    t.clients.Nodup ∧ t.readers.length ≤ t.clients.length + 1 := by
  obtain ⟨s, reached⟩ : ∃ s, run Server.step .start twoJoin = some s := ⟨_, rfl⟩
  rw [readers_bounded reached]
  decide

/-- A client that registers and then sends an empty line. -/
def emptyLine : List (Nat × Datagram Nat) := [(0, ⟨7, []⟩), (0, ⟨7, []⟩)]

theorem emptyLine_readers : ¬ ∀ (es : List (Nat × Datagram Nat)) (s : Server Nat),
    run Server.step .start es = some s → s.readers.length ≤ s.clients.length + 1 := by
  intro bounded
  have three := bounded emptyLine _ rfl
  exact absurd three (by decide)

end PyGroup
