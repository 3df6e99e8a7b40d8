import Mathlib.Data.Nat.Find
import NetworksLab.DatagramChat
import NetworksLab.Firsts

/-! The datagram chat goes round by round. The string an end receives is never
"logout", so each end leaves on its own line alone. -/
namespace DatagramChat
open Transition

/-- The strings received for the first `n` lines. -/
def arrived (lines : Nat → Text) (n : Nat) : List Text :=
  (List.range n).map fun i => padded (lines i)

/-- Nobody has typed "logout" in the first `r` rounds. -/
def Open (c s : Nat → Text) (r : Nat) : Prop := ∀ i < r, c i ≠ logout ∧ s i ≠ logout

/-- The first round in which "logout" is typed. -/
def FirstLogout (c s : Nat → Text) (k : Nat) : Prop :=
  Open c s k ∧ (c k = logout ∨ s k = logout)

/-- On the way through the test to the next round. -/
def Resumes (pc first : Pc) (typed received : Text) : Prop :=
  pc = first ∨ pc = .test ∧ typed ≠ logout ∧ received ≠ logout

/-- Before or behind the server's test, its string received not being "logout". -/
def Tested (pc : Pc) (typed : Text) : Prop :=
  pc = .test ∨ pc = .receive ∧ typed ≠ logout ∨ pc = .done ∧ typed = logout

/-- The pairs of program counters in round `r`, when the two ends type "logout" in
the same round if at all. -/
inductive Phase (c s : Nat → Text) : Session → Prop
  | turn {r cpc cline crec spc sline srec} (opened : Open c s r)
      (client : Resumes cpc .readLine cline crec) (server : Resumes spc .receive sline srec) :
      Phase c s ⟨⟨cpc, cline, crec, r, arrived s r⟩, ⟨spc, sline, srec, r, arrived c r⟩, [], []⟩
  | sending {r crec spc sline srec} (opened : Open c s r)
      (server : Resumes spc .receive sline srec) :
      Phase c s ⟨⟨.send, c r, crec, r + 1, arrived s r⟩, ⟨spc, sline, srec, r, arrived c r⟩, [], []⟩
  | asked {r crec spc sline srec} (opened : Open c s r)
      (server : Resumes spc .receive sline srec) :
      Phase c s ⟨⟨.receive, c r, crec, r + 1, arrived s r⟩, ⟨spc, sline, srec, r, arrived c r⟩,
        [getBytes (c r)], []⟩
  | heard {r crec sline} (opened : Open c s r) :
      Phase c s ⟨⟨.receive, c r, crec, r + 1, arrived s r⟩,
        ⟨.readLine, sline, padded (c r), r, arrived c (r + 1)⟩, [], []⟩
  | replying {r crec} (opened : Open c s r) :
      Phase c s ⟨⟨.receive, c r, crec, r + 1, arrived s r⟩,
        ⟨.send, s r, padded (c r), r + 1, arrived c (r + 1)⟩, [], []⟩
  | replied {r crec spc} (opened : Open c s r) (server : Tested spc (s r)) :
      Phase c s ⟨⟨.receive, c r, crec, r + 1, arrived s r⟩,
        ⟨spc, s r, padded (c r), r + 1, arrived c (r + 1)⟩, [], [getBytes (s r)]⟩
  | leaving {r cpc spc} (opened : Open c s r) (clientLast : c r = logout)
      (serverLast : s r = logout) (client : cpc = .test ∨ cpc = .done)
      (server : spc = .test ∨ spc = .done) :
      Phase c s ⟨⟨cpc, c r, padded (s r), r + 1, arrived s (r + 1)⟩,
        ⟨spc, s r, padded (c r), r + 1, arrived c (r + 1)⟩, [], []⟩

variable {malformed : Bytes → Text} {c s : Nat → Text} {t u : Session} {k r : Nat}

theorem arrived_succ (lines : Nat → Text) (n : Nat) :
    arrived lines (n + 1) = arrived lines n ++ [padded (lines n)] :=
  Firsts.map_range_succ _ n

theorem Open.succ (opened : Open c s r) (client : c r ≠ logout) (server : s r ≠ logout) :
    Open c s (r + 1) := by
  intro i hi
  rcases Nat.lt_succ_iff_lt_or_eq.mp hi with old | rfl
  · exact opened i old
  · exact ⟨client, server⟩

theorem FirstLogout.le (first : FirstLogout c s k) (opened : Open c s r) : r ≤ k := by
  by_contra past
  obtain ⟨client, server⟩ := opened k (Nat.lt_of_not_le past)
  exact first.2.elim client server

theorem FirstLogout.unique (first : FirstLogout c s k) (other : FirstLogout c s r) : r = k :=
  Nat.le_antisymm (first.le other.1) (other.le first.1)

theorem Phase.start : Phase c s .start := .turn (r := 0) nofun (.inl rfl) (.inl rfl)

theorem Phase.clientStep (cFits : ∀ i, Fits (c i)) (sFits : ∀ i, Fits (s i))
    (together : ∀ k, FirstLogout c s k → c k = logout ∧ s k = logout) (h : Phase c s t) (step : t.clientStep malformed c = some u) :
    Phase c s u := by
  cases h with
  | turn opened client server =>
      rcases client with rfl | ⟨rfl, stays, other⟩
      · exact Option.some.inj step ▸ .sending opened server
      · simp only [Session.clientStep, End.test, stays, other, or_self, if_false,
          Option.some.injEq] at step
        exact step ▸ .turn opened (.inl rfl) server
  | sending opened server => exact Option.some.inj step ▸ .asked opened server
  | asked => cases step
  | heard => cases step
  | replying => cases step
  | @replied r crec spc opened server =>
      simp only [Session.clientStep, End.receive, newString_getData (sFits r), ← arrived_succ,
        Option.some.injEq] at step
      rw [← step]
      by_cases last : c r = logout ∨ s r = logout
      · obtain ⟨clientLast, serverLast⟩ := together r ⟨opened, last⟩
        refine .leaving opened clientLast serverLast (.inl rfl) ?_
        rcases server with rfl | ⟨_, stays⟩ | ⟨rfl, _⟩
        · exact .inl rfl
        · exact absurd serverLast stays
        · exact .inr rfl
      · obtain ⟨client, stays⟩ := not_or.mp last
        refine .turn (opened.succ client stays) (.inr ⟨rfl, client, padded_ne_logout (sFits r)⟩) ?_
        rcases server with rfl | ⟨rfl, _⟩ | ⟨_, last⟩
        · exact .inr ⟨rfl, stays, padded_ne_logout (cFits r)⟩
        · exact .inl rfl
        · exact absurd last stays
  | @leaving r cpc spc opened clientLast serverLast client server =>
      rcases client with rfl | rfl
      · have last : padded (s r) = logout ∨ c r = logout := .inr clientLast
        simp only [Session.clientStep, End.test, if_pos last, Option.some.injEq] at step
        exact step ▸ .leaving opened clientLast serverLast (.inr rfl) server
      · cases step

theorem Phase.serverStep (cFits : ∀ i, Fits (c i)) (h : Phase c s t)
    (step : t.serverStep malformed s = some u) : Phase c s u := by
  cases h with
  | turn opened client server =>
      rcases server with rfl | ⟨rfl, stays, other⟩
      · cases step
      · simp only [Session.serverStep, End.test, stays, other, or_self, if_false,
          Option.some.injEq] at step
        exact step ▸ .turn opened client (.inl rfl)
  | sending opened server =>
      rcases server with rfl | ⟨rfl, stays, other⟩
      · cases step
      · simp only [Session.serverStep, End.test, stays, other, or_self, if_false,
          Option.some.injEq] at step
        exact step ▸ .sending opened (.inl rfl)
  | @asked r _ _ _ _ opened server =>
      rcases server with rfl | ⟨rfl, stays, other⟩
      · simp only [Session.serverStep, End.receive, newString_getData (cFits r), ← arrived_succ,
          Option.some.injEq] at step
        exact step ▸ .heard opened
      · simp only [Session.serverStep, End.test, stays, other, or_self, if_false,
          Option.some.injEq] at step
        exact step ▸ .asked opened (.inl rfl)
  | heard opened => exact Option.some.inj step ▸ .replying opened
  | replying opened => exact Option.some.inj step ▸ .replied opened (.inl rfl)
  | @replied r crec spc opened server =>
      rcases server with rfl | ⟨rfl, _⟩ | ⟨rfl, _⟩
      · have unread := padded_ne_logout (cFits r)
        by_cases last : s r = logout
        · simp only [Session.serverStep, End.test, if_pos (Or.inr (a := padded (c r) = logout) last),
            Option.some.injEq] at step
          exact step ▸ .replied opened (.inr (.inr ⟨rfl, last⟩))
        · simp only [Session.serverStep, End.test, unread, last, or_self, if_false,
            Option.some.injEq] at step
          exact step ▸ .replied opened (.inr (.inl ⟨rfl, last⟩))
      · cases step
      · cases step
  | @leaving r cpc spc opened clientLast serverLast client server =>
      rcases server with rfl | rfl
      · have last : padded (c r) = logout ∨ s r = logout := .inr serverLast
        simp only [Session.serverStep, End.test, if_pos last, Option.some.injEq] at step
        exact step ▸ .leaving opened clientLast serverLast client (.inr rfl)
      · cases step

theorem Phase.reach (cFits : ∀ i, Fits (c i)) (sFits : ∀ i, Fits (s i))
    (together : ∀ k, FirstLogout c s k → c k = logout ∧ s k = logout)
    (reached : Reach (Session.step malformed c s) anyStep .start t) : Phase c s t := by
  apply reached.invariant Phase.start
  intro t e u phase _ step
  cases e with
  | client => exact phase.clientStep cFits sFits together step
  | server => exact phase.serverStep cFits step

/-- What a phase says of the round: how many lines have been read and who has left. -/
theorem Phase.round (h : Phase c s t) : ∃ r, Open c s r ∧
    t.client.reads ≤ r + 1 ∧ t.server.reads ≤ r + 1 ∧
    (t.client.pc = .done → c r = logout ∧ t.client.reads = r + 1) ∧
    (t.server.pc = .done → s r = logout ∧ t.server.reads = r + 1) := by
  cases h with
  | @turn r _ _ _ _ _ _ opened client server =>
      refine ⟨r, opened, Nat.le_succ r, Nat.le_succ r, fun done => ?_, fun done => ?_⟩
      · rcases client with rfl | ⟨rfl, _⟩ <;> cases done
      · rcases server with rfl | ⟨rfl, _⟩ <;> cases done
  | @sending r _ _ _ _ opened server | @asked r _ _ _ _ opened server =>
      refine ⟨r, opened, Nat.le_refl _, Nat.le_succ r, nofun, fun done => ?_⟩
      rcases server with rfl | ⟨rfl, _⟩ <;> cases done
  | @heard r _ _ opened => exact ⟨r, opened, Nat.le_refl _, Nat.le_succ r, nofun, nofun⟩
  | @replying r _ opened => exact ⟨r, opened, Nat.le_refl _, Nat.le_refl _, nofun, nofun⟩
  | @replied r _ _ opened server =>
      refine ⟨r, opened, Nat.le_refl _, Nat.le_refl _, nofun, fun done => ?_⟩
      rcases server with rfl | ⟨rfl, _⟩ | ⟨rfl, last⟩
      · cases done
      · cases done
      · exact ⟨last, rfl⟩
  | @leaving r _ _ opened clientLast serverLast =>
      exact ⟨r, opened, Nat.le_refl _, Nat.le_refl _, fun _ => ⟨clientLast, rfl⟩,
        fun _ => ⟨serverLast, rfl⟩⟩

/-- Somebody can move until both have left. -/
theorem Phase.stuck (h : Phase c s t) (stuck : ∀ e, t.step malformed c s e = none) :
    t.client.pc = .done ∧ t.server.pc = .done := by
  have client := stuck .client
  have server := stuck .server
  cases h with
  | turn opened resumes =>
      rcases resumes with rfl | ⟨rfl, _⟩ <;> cases client
  | sending => cases client
  | asked opened resumes =>
      rcases resumes with rfl | ⟨rfl, _⟩ <;> cases server
  | heard => cases server
  | replying => cases server
  | replied => cases client
  | leaving opened clientLast serverLast clientPc serverPc =>
      rcases clientPc with rfl | rfl
      · cases client
      · rcases serverPc with rfl | rfl
        · cases server
        · exact ⟨rfl, rfl⟩

theorem Phase.printed (h : Phase c s t) :
    (∃ n, t.client.printed = arrived s n) ∧
      ∃ n, t.server.printed = arrived c n := by
  cases h with
  | turn | sending | asked | heard | replying | replied | leaving => exact ⟨⟨_, rfl⟩, ⟨_, rfl⟩⟩

/-- How far an end has come; a server in `receive` is at the start of its loop. -/
def End.progress (e : End) (receive : Nat) : Nat :=
  5 * e.reads + match e.pc with
    | .send => 1
    | .receive => receive
    | .test => 3
    | .done => 4
    | .readLine => 5

def Session.progress (t : Session) : Nat := t.client.progress 2 + t.server.progress 4

theorem End.progress_test {e : End} {first : Pc} {receive : Nat} (pc : e.pc = .test)
    (later : first = .readLine ∨ first = .receive ∧ receive = 4) :
    e.progress receive < (e.test first).progress receive := by
  by_cases last : e.received = logout ∨ e.typed = logout
  · simp [End.progress, End.test, pc, last]
  · rcases later with rfl | ⟨rfl, rfl⟩ <;> simp [End.progress, End.test, pc, last]

theorem End.progress_readLine {e : End} {lines : Nat → Text} (receive : Nat)
    (pc : e.pc = .readLine) : e.progress receive < (e.readLine lines).progress receive := by
  simp only [progress, readLine, pc]
  omega

theorem End.progress_send {e : End} {next : Pc} {receive : Nat} (pc : e.pc = .send)
    (later : next = .test ∨ next = .receive ∧ receive = 2) :
    e.progress receive < { e with pc := next }.progress receive := by
  rcases later with rfl | ⟨rfl, rfl⟩ <;> simp [progress, pc]

theorem End.progress_receive {e : End} {next : Pc} {receive : Nat} (pc : e.pc = .receive)
    (later : next = .test ∧ receive = 2 ∨ next = .readLine ∧ receive = 4) (text : Text) :
    e.progress receive < (e.receive text next).progress receive := by
  rcases later with ⟨rfl, rfl⟩ | ⟨rfl, rfl⟩ <;> simp [progress, End.receive, pc]

theorem Session.clientStep_progress {lines : Nat → Text}
    (step : t.clientStep malformed lines = some u) : t.progress < u.progress := by
  simp only [Session.clientStep] at step
  split at step
  next pc =>
    rw [← Option.some.inj step]
    exact Nat.add_lt_add_right (End.progress_readLine 2 pc) _
  next pc =>
    rw [← Option.some.inj step]
    exact Nat.add_lt_add_right (End.progress_send pc (.inr ⟨rfl, rfl⟩)) _
  next pc =>
    split at step
    · cases step
    · rw [← Option.some.inj step]
      exact Nat.add_lt_add_right (End.progress_receive pc (.inl ⟨rfl, rfl⟩) _) _
  next pc =>
    rw [← Option.some.inj step]
    exact Nat.add_lt_add_right (End.progress_test pc (.inl rfl)) _
  · cases step

theorem Session.serverStep_progress {lines : Nat → Text}
    (step : t.serverStep malformed lines = some u) : t.progress < u.progress := by
  simp only [Session.serverStep] at step
  split at step
  next pc =>
    split at step
    · cases step
    · rw [← Option.some.inj step]
      exact Nat.add_lt_add_left (End.progress_receive pc (.inr ⟨rfl, rfl⟩) _) _
  next pc =>
    rw [← Option.some.inj step]
    exact Nat.add_lt_add_left (End.progress_readLine 4 pc) _
  next pc =>
    rw [← Option.some.inj step]
    exact Nat.add_lt_add_left (End.progress_send pc (.inl rfl)) _
  next pc =>
    rw [← Option.some.inj step]
    exact Nat.add_lt_add_left (End.progress_test pc (.inr ⟨rfl, rfl⟩)) _
  · cases step

theorem Session.progress_step {e : Event} (step : t.step malformed c s e = some u) :
    t.progress < u.progress := by
  cases e with
  | client => exact clientStep_progress step
  | server => exact serverStep_progress step

/-- Both ends leave their loops in round `k`, and no run goes on for ever. -/
def LeaveIn (malformed : Bytes → Text) (c s : Nat → Text) (k : Nat) : Prop :=
  (∃ n, ∀ es t, run (Session.step malformed c s) .start es = some t → es.length ≤ n) ∧
    ∀ t, Reach (Session.step malformed c s) anyStep .start t →
      (t.client.pc = .done → t.client.reads = k + 1) ∧
      (t.server.pc = .done → t.server.reads = k + 1) ∧
      ((∀ e, t.step malformed c s e = none) → t.client.pc = .done ∧ t.server.pc = .done)

/-- The string an end has received in a round is "logout" just when the other end
typed it. -/
def TestsAgree (malformed : Bytes → Text) (c s : Nat → Text) : Prop :=
  ∀ t, Reach (Session.step malformed c s) anyStep .start t → ∀ i text,
    (t.server.printed[i]? = some text → (text = logout ↔ c i = logout)) ∧
    (t.client.printed[i]? = some text → (text = logout ↔ s i = logout))

theorem leaveIn (cFits : ∀ i, Fits (c i)) (sFits : ∀ i, Fits (s i))
    (together : ∀ k, FirstLogout c s k → c k = logout ∧ s k = logout)
    (first : FirstLogout c s k) : LeaveIn malformed c s k := by
  constructor
  · refine ⟨10 * k + 20, fun es t h => ?_⟩
    have length := run_length_le (I := fun _ => True) (μ := Session.progress) trivial
      (fun _ _ _ _ step => ⟨trivial, Session.progress_step step⟩) h
    obtain ⟨r, opened, client, server, _⟩ :=
      (Phase.reach cFits sFits together (reach_of_run h)).round
    have le := first.le opened
    have bound (e : End) (receive : Nat) (small : receive ≤ 5) (reads : e.reads ≤ r + 1) :
        e.progress receive ≤ 5 * k + 10 := by
      unfold End.progress
      split <;> omega
    have clientBound := bound t.client 2 (by decide) client
    have serverBound := bound t.server 4 (by decide) server
    simp only [Session.progress] at length
    omega
  · intro t reached
    have phase := Phase.reach cFits sFits together reached
    obtain ⟨r, opened, _, _, client, server⟩ := phase.round
    refine ⟨fun done => ?_, fun done => ?_, phase.stuck⟩
    · obtain ⟨last, reads⟩ := client done
      rw [reads, first.unique ⟨opened, .inl last⟩]
    · obtain ⟨last, reads⟩ := server done
      rw [reads, first.unique ⟨opened, .inr last⟩]

section Rounds

variable (c s : Nat → Text) (r : Nat) (cline crec sline srec : Text)

/-- The two ends at the start of round `r`. -/
def turnAt : Session :=
  ⟨⟨.readLine, cline, crec, r, arrived s r⟩, ⟨.receive, sline, srec, r, arrived c r⟩, [], []⟩

/-- The two ends at their tests in round `r`. -/
def testAt : Session :=
  ⟨⟨.test, c r, padded (s r), r + 1, arrived s (r + 1)⟩,
    ⟨.test, s r, padded (c r), r + 1, arrived c (r + 1)⟩, [], []⟩

variable {c s r cline crec sline srec}

theorem turn_tests (cFits : Fits (c r)) (sFits : Fits (s r)) :
    run (Session.step malformed c s) (turnAt c s r cline crec sline srec)
        [.client, .client, .server, .server, .server, .client] = some (testAt c s r) := by
  simp [run, turnAt, testAt, Session.step, Session.clientStep, Session.serverStep, End.readLine,
    End.receive, newString_getData cFits, newString_getData sFits, arrived_succ]

theorem tests_turn (cFits : Fits (c r)) (sFits : Fits (s r)) (client : c r ≠ logout)
    (server : s r ≠ logout) :
    run (Session.step malformed c s) (testAt c s r) [.client, .server] =
      some (turnAt c s (r + 1) (c r) (padded (s r)) (s r) (padded (c r))) := by
  simp [run, turnAt, testAt, Session.step, Session.clientStep, Session.serverStep, End.test,
    padded_ne_logout cFits, padded_ne_logout sFits, client, server]

/-- The server goes back to `receive` when the client alone typed "logout". -/
theorem client_leaves (cFits : Fits (c r)) (client : c r = logout) (server : s r ≠ logout) :
    run (Session.step malformed c s) (testAt c s r) [.client, .server] =
      some ⟨⟨.done, c r, padded (s r), r + 1, arrived s (r + 1)⟩,
        ⟨.receive, s r, padded (c r), r + 1, arrived c (r + 1)⟩, [], []⟩ := by
  rw [client] at cFits
  simp [run, testAt, Session.step, Session.clientStep, Session.serverStep, End.test, client, server,
    padded_ne_logout cFits]

/-- The client types one more line when the server alone typed "logout". -/
theorem server_leaves (sFits : Fits (s r)) (client : c r ≠ logout) (server : s r = logout) :
    run (Session.step malformed c s) (testAt c s r) [.client, .server, .client, .client] =
      some ⟨⟨.receive, c (r + 1), padded (s r), r + 2, arrived s (r + 1)⟩,
        ⟨.done, s r, padded (c r), r + 1, arrived c (r + 1)⟩, [getBytes (c (r + 1))], []⟩ := by
  rw [server] at sFits
  simp [run, testAt, Session.step, Session.clientStep, Session.serverStep, End.test, End.readLine,
    client, server, padded_ne_logout sFits]

theorem reach_tests (cFits : ∀ i, Fits (c i)) (sFits : ∀ i, Fits (s i)) (opened : Open c s r) :
    Reach (Session.step malformed c s) anyStep .start (testAt c s r) := by
  induction r with
  | zero => exact reach_of_run (turn_tests (cFits 0) (sFits 0))
  | succ r ih =>
      obtain ⟨client, server⟩ := opened r (Nat.lt_succ_self r)
      have before := ih fun i hi => opened i (Nat.lt_succ_of_lt hi)
      have next := before.trans (reach_of_run (tests_turn (cFits r) (sFits r) client server))
      exact next.trans (reach_of_run (turn_tests (cFits (r + 1)) (sFits (r + 1))))

end Rounds

theorem both_of_leaveIn (cFits : ∀ i, Fits (c i)) (sFits : ∀ i, Fits (s i))
    (first : FirstLogout c s k) (leave : LeaveIn malformed c s k) :
    c k = logout ∧ s k = logout := by
  have tests : Reach (Session.step malformed c s) anyStep .start (testAt c s k) :=
    reach_tests cFits sFits first.1
  by_contra apart
  rcases first.2 with client | server
  · have stays : s k ≠ logout := fun server => apart ⟨client, server⟩
    have last := tests.trans (reach_of_run (client_leaves (cFits k) client stays))
    have stuck := (leave.2 _ last).2.2 (by rintro (_ | _) <;> rfl)
    cases stuck.2
  · have stays : c k ≠ logout := fun client => apart ⟨client, server⟩
    have last := tests.trans (reach_of_run (server_leaves (sFits k) stays server))
    have stuck := (leave.2 _ last).2.2 (by rintro (_ | _) <;> rfl)
    cases stuck.1

theorem never_of_testsAgree (cFits : ∀ i, Fits (c i)) (sFits : ∀ i, Fits (s i))
    (agree : TestsAgree malformed c s) (k : Nat) : c k ≠ logout ∧ s k ≠ logout := by
  by_contra typed
  have some : ∃ k, c k = logout ∨ s k = logout := ⟨k, by simpa only [not_and_or, not_not] using typed⟩
  -- up to the first "logout" the chat goes on
  have opened : Open c s (Nat.find some) := fun i hi => not_or.mp (Nat.find_min some hi)
  have tests : Reach (Session.step malformed c s) anyStep .start (testAt c s (Nat.find some)) :=
    reach_tests cFits sFits opened
  have server := (agree _ tests (Nat.find some) (padded (c (Nat.find some)))).1
    (by simp [testAt, arrived])
  have client := (agree _ tests (Nat.find some) (padded (s (Nat.find some)))).2
    (by simp [testAt, arrived])
  rcases Nat.find_spec some with last | last
  · exact padded_ne_logout (cFits _) (server.mpr last)
  · exact padded_ne_logout (sFits _) (client.mpr last)

theorem testsAgree_of_never (cFits : ∀ i, Fits (c i)) (sFits : ∀ i, Fits (s i))
    (never : ∀ k, c k ≠ logout ∧ s k ≠ logout) : TestsAgree malformed c s := by
  intro t reached i text
  have together : ∀ k, FirstLogout c s k → c k = logout ∧ s k = logout := by
    rintro k ⟨_, last | last⟩
    · exact absurd last (never k).1
    · exact absurd last (never k).2
  have unread {lines : Nat → Text} {n : Nat} (fits : ∀ i, Fits (lines i))
      (printed : (arrived lines n)[i]? = some text) : text ≠ logout := by
    obtain ⟨j, _, rfl⟩ := List.mem_map.mp (List.mem_of_getElem? printed)
    exact padded_ne_logout (fits j)
  obtain ⟨⟨m, client⟩, n, server⟩ := (Phase.reach cFits sFits together reached).printed
  constructor
  · intro printed
    rw [server] at printed
    exact iff_of_false (unread cFits printed) (never i).1
  · intro printed
    rw [client] at printed
    exact iff_of_false (unread sFits printed) (never i).2

/-- All is as it should be only while "logout" is not used; the two ends leave
together just when both type their first "logout" in one round. -/
theorem logout_together (malformed : Bytes → Text) (c s : Nat → Text)
    (cFits : ∀ i, Fits (c i)) (sFits : ∀ i, Fits (s i)) :
    ((∀ k, FirstLogout c s k → LeaveIn malformed c s k) ∧ TestsAgree malformed c s ↔
      ∀ k, c k ≠ logout ∧ s k ≠ logout) ∧
    ((∀ k, FirstLogout c s k → LeaveIn malformed c s k) ↔
      ∀ k, FirstLogout c s k → c k = logout ∧ s k = logout) := by
  refine ⟨⟨fun together => never_of_testsAgree cFits sFits together.2, fun never => ?_⟩,
    fun leave k first => ?_, fun together k first => ?_⟩
  · refine ⟨fun k first => ?_, testsAgree_of_never cFits sFits never⟩
    exact absurd first.2 (not_or.mpr (never k))
  · exact both_of_leaveIn cFits sFits first (leave k first)
  · exact leaveIn cFits sFits together first

theorem logout_together_both :
    LeaveIn (fun _ => []) (fun _ => logout) (fun _ => logout) 0 := by
  have fits : ∀ _ : Nat, Fits logout := fun _ => by decide
  have first : FirstLogout (fun _ => logout) (fun _ => logout) 0 := ⟨nofun, .inl rfl⟩
  exact (logout_together (fun _ => []) (fun _ => logout) (fun _ => logout) fits fits).2.mpr
    (fun _ _ => ⟨rfl, rfl⟩) 0 first

/-- The client types "logout" and the server "hi". -/
theorem logout_together_alone : ¬ ∀ c s, (∀ i, Fits (c i)) → (∀ i, Fits (s i)) →
    (∀ k, FirstLogout c s k → LeaveIn (fun _ => []) c s k) ∧ TestsAgree (fun _ => []) c s := by
  intro claim
  have cFits : ∀ _ : Nat, Fits logout := fun _ => by decide
  have sFits : ∀ _ : Nat, Fits "hi".toList := fun _ => by decide
  have first : FirstLogout (fun _ => logout) (fun _ => "hi".toList) 0 := ⟨nofun, .inl rfl⟩
  have leave := (claim (fun _ => logout) (fun _ => "hi".toList) cFits sFits).1 0 first
  have both := both_of_leaveIn cFits sFits first leave
  exact absurd both.2 (by decide)

end DatagramChat
