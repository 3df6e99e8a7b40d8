import Mathlib.Data.Nat.Find
import NetworksLab.JavaChatEnds

/-! The "Over" of the client. Each end tests the line that it has received last,
or typed last, and the other end's line of the same round is written over the
client's in both. -/
namespace JavaChat
open JavaText Transition

variable {c s : Nat → JString} {t : Session} {j : Nat}

/-- Both loops stop no later than the end of round `j`, whatever the order of
their steps: no line of a later round is read, the steps come to an end, and at
the end both are out of their loops. -/
structure StopBy (c s : Nat → JString) (j : Nat) : Prop where
  reads : ∀ t, Reach (Session.step c s) anyStep .start t →
    t.client.reads ≤ j + 1 ∧ t.server.reads ≤ j + 1
  bounded : ∃ n, ∀ es t, run (Session.step c s) .start es = some t → es.length ≤ n
  left : ∀ t, Reach (Session.step c s) anyStep .start t → (∀ e, t.step c s e = none) →
    t.client.Left ∧ t.server.Left

/-- A server that has typed "Over" up to round `j` ends the chat by then. -/
theorem stopBy_of_server (cFits : ∀ i, Fits (c i)) (sFits : ∀ i, Fits (s i))
    (typed : ∃ i ≤ j, s i = overKey) : StopBy c s j := by
  have found : ∃ i, s i = overKey := typed.imp fun _ h => h.2
  obtain ⟨i, early, last⟩ := typed
  have first : FirstOver s (Nat.find found) :=
    ⟨Nat.find_spec found, fun _ before => Nat.find_min found before⟩
  have soon : Nat.find found ≤ j := Nat.le_trans (Nat.find_min' found last) early
  constructor
  · intro t reached
    obtain ⟨client, server⟩ := (Phase.reach reached).reads_le cFits sFits first
    exact ⟨by omega, by omega⟩
  · exact ⟨_, fun es t h => run_bound cFits sFits first h⟩
  · intro t reached stuck
    obtain ⟨client, server, _⟩ := (Phase.reach reached).stuck_first cFits sFits first stuck
    exact ⟨.inr client, .inr server⟩

/-- No chat ends otherwise. -/
theorem StopBy.server (h : StopBy c s j) : ∃ i ≤ j, s i = overKey := by
  obtain ⟨n, bounded⟩ := h.bounded
  obtain ⟨t, reached, stuck⟩ := exists_stuck bounded
  obtain ⟨r, _, last, _, reads⟩ := (Phase.reach reached).left.2 (h.left t reached stuck).2
  have early := (h.reads t reached).2
  exact ⟨r, by omega, last⟩

/-- An "Over" that the client types in round `j` ends the chat with this round
exactly when the server has typed one by then too. -/
theorem over_stops (cFits : ∀ i, Fits (c i)) (sFits : ∀ i, Fits (s i)) :
    (∀ j, c j = overKey → StopBy c s j) ↔ ∀ j, c j = overKey → ∃ i ≤ j, s i = overKey := by
  constructor
  · exact fun stops j said => (stops j said).server
  · exact fun server j said => stopBy_of_server cFits sFits (server j said)

theorem over_stops_both : StopBy (fun _ => overKey) (fun _ => overKey) 0 :=
  (over_stops (fun _ => over_fits) (fun _ => over_fits)).mpr
    (fun j _ => ⟨0, Nat.zero_le j, rfl⟩) 0 rfl

/-- A client that types nothing but "Over" against a server that never does. -/
theorem over_ignored : ¬ ∀ c s : Nat → JString, (∀ i, Fits (c i)) → (∀ i, Fits (s i)) →
    ∀ j, c j = overKey → StopBy c s j := by
  intro stops
  obtain ⟨i, _, said⟩ := (stops (fun _ => overKey) (fun _ => literal "hi") (fun _ => over_fits)
    (fun _ => by decide) 0 rfl).server
  exact absurd said (by decide)

end JavaChat
