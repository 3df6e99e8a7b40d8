import Mathlib.Data.Nat.Find
import NetworksLab.JavaChatRounds

/-! Lines of any length. After a refused line the client types the next one, but
the server waits for a line of the client, which waits for the server's. -/
namespace JavaChat
open JavaText Transition
open Program2 (writeUTF writeUTF_open)

variable {c s : Nat → JString} {n r : Nat} {cline sline : JString}

/-- The two ends at the tests of their loops, `r` rounds over. -/
def turnAt (c s : Nat → JString) (n r : Nat) (cline sline : JString) : Session :=
  ⟨⟨.test, cline, n, typed s r⟩, ⟨.test, sline, r, sent c n⟩, [], []⟩

/-- The server about to type line `r`. -/
def heardAt (c s : Nat → JString) (n r : Nat) (cline sline : JString) : Session :=
  ⟨⟨.readUTF, cline, n, typed s r⟩, ⟨.readLine, sline, r, sent c n⟩, [], []⟩

theorem turn_refused (stays : cline ≠ overKey) (long : ¬ Fits (c n)) :
    run (Session.step c s) (turnAt c s n r cline sline) [.client false, .client false, .client false] =
      some (turnAt c s (n + 1) r (c n) sline) := by
  simp [run, turnAt, Session.step, Session.clientStep, End.test, End.readLine, End.caught,
    stays, writeUTF_long long, sent_succ_long long]

theorem turn_heard (stays : cline ≠ overKey) (serverStays : sline ≠ overKey) (fits : Fits (c n)) :
    run (Session.step c s) (turnAt c s n r cline sline)
        [.client false, .client false, .client false, .server false, .server false] =
      some (heardAt c s (n + 1) r (c n) (c n)) := by
  simp [run, turnAt, heardAt, Session.step, Session.clientStep, Session.serverStep, End.test,
    End.readLine, End.readUTF, End.closed, stays, serverStays, writeUTF_open fits,
    sent_succ_fits fits]

theorem heard_replied (fits : Fits (s r)) :
    run (Session.step c s) (heardAt c s n r cline sline)
        [.server false, .server false, .client false] =
      some (turnAt c s n (r + 1) (s r) (s r)) := by
  simp [run, turnAt, heardAt, Session.step, Session.clientStep, Session.serverStep, End.readLine,
    End.readUTF, End.closed, writeUTF_open fits, typed_succ]

/-- The server's own line is refused and it goes back to `readUTF`. -/
theorem heard_deadlocks (long : ¬ Fits (s r)) :
    ∃ t, Reach (Session.step c s) anyStep (heardAt c s n r cline sline) t ∧ t.Deadlocked := by
  have stays : s r ≠ overKey := fun same => long (same ▸ over_fits)
  have refused : run (Session.step c s) (heardAt c s n r cline sline)
      [.server false, .server false, .server false] =
      some ⟨⟨.readUTF, cline, n, typed s r⟩, ⟨.readUTF, s r, r + 1, sent c n⟩, [], []⟩ := by
    simp [run, heardAt, Session.step, Session.serverStep, End.test, End.readLine, End.caught,
      stays, writeUTF_long long]
  exact ⟨_, reach_of_run refused, rfl, rfl, rfl, rfl⟩

theorem sent_length_mono {lines : Nat → JString} {n m : Nat} (le : n ≤ m) :
    (sent lines n).length ≤ (sent lines m).length :=
  ((Firsts.map_range_mono lines le).filter _).length_le

/-- The client gets on to its next line that fits, if there is one. -/
theorem turn_reaches_heard {m : Nat} (stays : cline ≠ overKey) (serverStays : sline ≠ overKey)
    (count : (sent c n).length = r) (more : r < (sent c m).length) :
    ∃ n' l, (sent c n').length = r + 1 ∧
      Reach (Session.step c s) anyStep (turnAt c s n r cline sline) (heardAt c s n' r l l) := by
  have ahead : n < m := by
    by_contra past
    have short : (sent c m).length ≤ (sent c n).length := sent_length_mono (Nat.le_of_not_lt past)
    omega
  -- induction on the lines up to the `m`-th; those that are refused change nothing but `cline`
  induction gap : m - n generalizing n cline with
  | zero => omega
  | succ g ih =>
      by_cases fits : Fits (c n)
      · refine ⟨n + 1, c n, ?_, reach_of_run (turn_heard stays serverStays fits)⟩
        rw [sent_succ_fits fits, List.length_append, count]
        rfl
      · have next : c n ≠ overKey := fun same => fits (same ▸ over_fits)
        have count' : (sent c (n + 1)).length = r := by rw [sent_succ_long fits, count]
        have ahead' : n + 1 < m := by
          by_contra past
          have short : (sent c m).length ≤ (sent c (n + 1)).length :=
            sent_length_mono (Nat.le_of_not_lt past)
          omega
        obtain ⟨n', l, length, reached⟩ := ih next count' ahead' (by omega)
        exact ⟨n', l, length, (reach_of_run (turn_refused stays fits)).trans reached⟩

/-- As long as the server's lines go out and are not "Over", every round begins
for which the client has a line to send. -/
theorem heard_reached {m : Nat} (opened : Open s r) (more : r < (sent c m).length) :
    ∃ n l, (sent c n).length = r + 1 ∧
      Reach (Session.step c s) anyStep .start (heardAt c s n r l l) := by
  induction r with
  | zero => exact turn_reaches_heard (by decide) (by decide) rfl more
  | succ r ih =>
      have earlier : Open s r := fun i hi => opened i (Nat.lt_succ_of_lt hi)
      obtain ⟨stays, fits⟩ := opened r (Nat.lt_succ_self r)
      obtain ⟨n, l, count, reached⟩ := ih earlier (Nat.lt_of_succ_lt more)
      obtain ⟨n', l', count', later⟩ := turn_reaches_heard (s := s) stays stays count more
      have round : Reach (Session.step c s) anyStep (heardAt c s n r l l)
          (turnAt c s n (r + 1) (s r) (s r)) := reach_of_run (heard_replied fits)
      exact ⟨n', l', count', (reached.trans round).trans later⟩

theorem refused_deadlocks {m : Nat} (opened : Open s r) (long : ¬ Fits (s r))
    (more : r < (sent c m).length) :
    ∃ t, Reach (Session.step c s) anyStep .start t ∧ t.Deadlocked := by
  obtain ⟨n, l, _, reached⟩ := heard_reached opened more
  obtain ⟨t, later, dead⟩ : ∃ t, Reach (Session.step c s) anyStep (heardAt c s n r l l) t ∧
      t.Deadlocked := heard_deadlocks long
  exact ⟨t, reached.trans later, dead⟩

/-- The two ends never wait for each other exactly when no line of the server
that it comes to type is refused: each such line comes after an "Over", or after
the client's last line that goes out. -/
theorem refused_send (c s : Nat → JString) :
    (∀ t, Reach (Session.step c s) anyStep .start t → ¬ t.Deadlocked) ↔
      ∀ j, ¬ Fits (s j) → (∃ i < j, s i = overKey) ∨ ∀ n, (sent c n).length ≤ j := by
  constructor
  · intro alive j long
    -- the first line that is refused
    have some : ∃ j, ¬ Fits (s j) := ⟨j, long⟩
    have before : ∀ i < Nat.find some, Fits (s i) := fun i hi => not_not.mp (Nat.find_min some hi)
    have le : Nat.find some ≤ j := Nat.find_min' some long
    by_contra reached
    obtain ⟨stays, n, more⟩ := by simpa only [not_or, not_exists, not_and, not_forall] using reached
    have opened : Open s (Nat.find some) := fun i hi => ⟨stays i (by omega), before i hi⟩
    have reads : Nat.find some < (sent c n).length := by omega
    obtain ⟨t, run, dead⟩ := refused_deadlocks opened (Nat.find_spec some) reads
    exact alive t run dead
  · intro harmless t reached dead
    obtain ⟨r, n, opened, long, count⟩ := (Phase.reach reached).deadlocked dead
    rcases harmless r long with ⟨i, hi, last⟩ | none
    · exact (opened i hi).1 last
    · have := none n
      omega

/-- One letter more than `writeUTF` takes. -/
def longLine : JString := List.replicate (maxUtfLength + 1) 97

theorem longLine_refused : ¬ Fits longLine := by
  have bytes : utfLength longLine = maxUtfLength + 1 := by
    rw [utfLength, longLine, List.map_replicate, List.sum_replicate_nat]
    exact Nat.mul_one _
  rw [Fits, bytes]
  omega

/-- The client says "hi" and the server answers with such a line. -/
theorem refused_send_longLine : ¬ ∀ (c s : Nat → JString) (t : Session),
    Reach (Session.step c s) anyStep .start t → ¬ t.Deadlocked := by
  intro alive
  have hi : 0 < (sent (fun _ => literal "hi") 1).length := by decide
  have none : Open (fun _ => longLine) 0 := nofun
  obtain ⟨t, reached, dead⟩ := refused_deadlocks none longLine_refused hi
  exact alive _ _ t reached dead

end JavaChat
