import NetworksLab.Firsts
import NetworksLab.JavaChat

/-! The chat goes round by round: a line of the client, then one of the server.
A line that `writeUTF` refuses costs the client one turn of its loop; the server
goes back to a `readUTF` that nobody answers. -/
namespace JavaChat
open JavaText Transition
open Program2 (writeUTF writeUTF_open)

def typed (lines : Nat → JString) (n : Nat) : List JString := (List.range n).map lines

/-- What `writeUTF` takes of the first `n` lines. -/
def sent (lines : Nat → JString) (n : Nat) : List JString := (typed lines n).filter (Fits ·)

/-- The first `r` lines of the server all went out and none is "Over". -/
def Open (s : Nat → JString) (r : Nat) : Prop := ∀ i < r, s i ≠ overKey ∧ Fits (s i)

/-- The server's way back to `readUTF`. -/
def Waits (pc : Pc) (line : JString) : Prop := pc = .test ∧ line ≠ overKey ∨ pc = .readUTF

/-- The pairs of program counters, each with what the queues hold; `n` lines of
the client's console and `r` rounds are over. -/
inductive Phase (c s : Nat → JString) : Session → Prop
  | turn {n r cpc cline spc sline} (opened : Open s r) (count : (sent c n).length = r)
      (client : cpc = .test ∧ cline ≠ overKey ∨ cpc = .readLine) (server : Waits spc sline) :
      Phase c s ⟨⟨cpc, cline, n, typed s r⟩, ⟨spc, sline, r, sent c n⟩, [], []⟩
  | sending {n r spc sline} (opened : Open s r) (count : (sent c n).length = r)
      (server : Waits spc sline) :
      Phase c s ⟨⟨.writeUTF, c n, n + 1, typed s r⟩, ⟨spc, sline, r, sent c n⟩, [], []⟩
  | asked {n r l p cline spc sline} (opened : Open s r) (count : p.length = r)
      (whole : sent c n = p ++ [l]) (server : Waits spc sline) :
      Phase c s ⟨⟨.readUTF, cline, n, typed s r⟩, ⟨spc, sline, r, p⟩, [l], []⟩
  | heard {n r cline sline} (opened : Open s r) (count : (sent c n).length = r + 1) :
      Phase c s ⟨⟨.readUTF, cline, n, typed s r⟩, ⟨.readLine, sline, r, sent c n⟩, [], []⟩
  | replying {n r cline} (opened : Open s r) (count : (sent c n).length = r + 1) :
      Phase c s ⟨⟨.readUTF, cline, n, typed s r⟩, ⟨.writeUTF, s r, r + 1, sent c n⟩, [], []⟩
  | replied {n r cline spc} (opened : Open s (r + 1)) (count : (sent c n).length = r + 1)
      (server : Waits spc (s r)) :
      Phase c s ⟨⟨.readUTF, cline, n, typed s r⟩, ⟨spc, s r, r + 1, sent c n⟩, [], [s r]⟩
  | ending {n r cline spc} (opened : Open s r) (last : s r = overKey)
      (count : (sent c n).length = r + 1) (server : spc = .test ∨ spc = .close ∨ spc = .done) :
      Phase c s ⟨⟨.readUTF, cline, n, typed s r⟩, ⟨spc, overKey, r + 1, sent c n⟩, [], [overKey]⟩
  | ended {n r cpc spc} (opened : Open s r) (last : s r = overKey)
      (count : (sent c n).length = r + 1) (client : cpc = .test ∨ cpc = .close ∨ cpc = .done)
      (server : spc = .test ∨ spc = .close ∨ spc = .done) :
      Phase c s ⟨⟨cpc, overKey, n, typed s (r + 1)⟩, ⟨spc, overKey, r + 1, sent c n⟩, [], []⟩
  | refused {n r cline spc} (opened : Open s r) (long : ¬ Fits (s r))
      (count : (sent c n).length = r + 1) (server : Waits spc (s r)) :
      Phase c s ⟨⟨.readUTF, cline, n, typed s r⟩, ⟨spc, s r, r + 1, sent c n⟩, [], []⟩

variable {c s : Nat → JString} {t u : Session} {noticed : Bool}

theorem typed_succ (lines : Nat → JString) (n : Nat) :
    typed lines (n + 1) = typed lines n ++ [lines n] :=
  Firsts.map_range_succ lines n

@[simp] theorem typed_length (lines : Nat → JString) (n : Nat) : (typed lines n).length = n := by
  simp [typed]

theorem sent_succ_fits {lines : Nat → JString} {n : Nat} (fits : Fits (lines n)) :
    sent lines (n + 1) = sent lines n ++ [lines n] := by
  simp [sent, typed_succ, fits]

theorem sent_succ_long {lines : Nat → JString} {n : Nat} (long : ¬ Fits (lines n)) :
    sent lines (n + 1) = sent lines n := by
  simp [sent, typed_succ, long]

theorem Open.succ {r : Nat} (h : Open s r) (stays : s r ≠ overKey) (fits : Fits (s r)) :
    Open s (r + 1) := by
  intro i hi
  rcases Nat.lt_succ_iff_lt_or_eq.mp hi with old | rfl
  · exact h i old
  · exact ⟨stays, fits⟩

theorem Phase.start : Phase c s .start :=
  .turn (n := 0) (r := 0) nofun rfl (.inl ⟨rfl, by decide⟩) (.inl ⟨rfl, by decide⟩)

theorem Phase.clientStep (h : Phase c s t) (step : t.clientStep c noticed = some u) :
    Phase c s u := by
  cases h with
  | turn opened count client server =>
      rcases client with ⟨rfl, stays⟩ | rfl
      · simp only [Session.clientStep, End.test, if_neg stays, Option.some.injEq] at step
        exact step ▸ .turn opened count (.inr rfl) server
      · exact Option.some.inj step ▸ .sending opened count server
  | @sending n r spc sline opened count server =>
      have alive : End.closed ⟨spc, sline, r, sent c n⟩ = false := by
        rcases server with ⟨rfl, _⟩ | rfl <;> rfl
      by_cases fits : Fits (c n)
      · simp only [Session.clientStep, alive, writeUTF_open fits, Option.some.injEq] at step
        exact step ▸ .asked opened count (sent_succ_fits fits) server
      · simp only [Session.clientStep, writeUTF_long fits, Option.some.injEq] at step
        have stays : c n ≠ overKey := fun same => fits (same ▸ over_fits)
        rw [← sent_succ_long fits] at step count
        exact step ▸ .turn opened count (.inl ⟨rfl, stays⟩) server
  | asked opened count whole server =>
      rcases server with ⟨rfl, _⟩ | rfl <;> cases step
  | heard => cases step
  | replying => cases step
  | @replied n r cline spc opened count server =>
      have stays := (opened r (Nat.lt_succ_self r)).1
      simp only [Session.clientStep, End.readUTF, ← typed_succ, Option.some.injEq] at step
      exact step ▸ .turn opened count (.inl ⟨rfl, stays⟩) server
  | @ending n r cline spc opened last count server =>
      simp only [Session.clientStep, End.readUTF, ← last, ← typed_succ, Option.some.injEq] at step
      rw [last] at step
      exact step ▸ .ended opened last count (.inl rfl) server
  | ended opened last count client server =>
      rcases client with rfl | rfl | rfl
      · simp only [Session.clientStep, End.test, if_true, Option.some.injEq] at step
        exact step ▸ .ended opened last count (.inr (.inl rfl)) server
      · exact Option.some.inj step ▸ .ended opened last count (.inr (.inr rfl)) server
      · cases step
  | refused opened long count server =>
      rcases server with ⟨rfl, _⟩ | rfl <;> cases step

theorem Phase.serverStep (h : Phase c s t) (step : t.serverStep s noticed = some u) :
    Phase c s u := by
  cases h with
  | @turn n r cpc cline spc sline opened count client server =>
      have alive : End.closed ⟨cpc, cline, n, typed s r⟩ = false := by
        rcases client with ⟨rfl, _⟩ | rfl <;> rfl
      rcases server with ⟨rfl, stays⟩ | rfl
      · simp only [Session.serverStep, End.test, if_neg stays, Option.some.injEq] at step
        exact step ▸ .turn opened count client (.inr rfl)
      · simp [Session.serverStep, alive] at step
  | sending opened count server =>
      rcases server with ⟨rfl, stays⟩ | rfl
      · simp only [Session.serverStep, End.test, if_neg stays, Option.some.injEq] at step
        exact step ▸ .sending opened count (.inr rfl)
      · cases step
  | @asked n r l p cline spc sline opened count whole server =>
      rcases server with ⟨rfl, stays⟩ | rfl
      · simp only [Session.serverStep, End.test, if_neg stays, Option.some.injEq] at step
        exact step ▸ .asked opened count whole (.inr rfl)
      · simp only [Session.serverStep, End.readUTF, ← whole, Option.some.injEq] at step
        have more : (sent c n).length = r + 1 := by simp [whole, count]
        exact step ▸ .heard opened more
  | heard opened count => exact Option.some.inj step ▸ .replying opened count
  | @replying n r cline opened count =>
      by_cases fits : Fits (s r)
      · have free : writeUTF false noticed ([] : List JString) (s r) (s r) = some [s r] :=
          writeUTF_open fits
        have alive : End.closed ⟨.readUTF, cline, n, typed s r⟩ = false := rfl
        simp only [Session.serverStep, alive, free, Option.some.injEq] at step
        by_cases last : s r = overKey
        · rw [last] at step
          exact step ▸ .ending opened last count (.inl rfl)
        · exact step ▸ .replied (opened.succ last fits) count (.inl ⟨rfl, last⟩)
      · simp only [Session.serverStep, writeUTF_long fits, Option.some.injEq] at step
        have stays : s r ≠ overKey := fun same => fits (same ▸ over_fits)
        exact step ▸ .refused opened fits count (.inl ⟨rfl, stays⟩)
  | replied opened count server =>
      rcases server with ⟨rfl, stays⟩ | rfl
      · simp only [Session.serverStep, End.test, if_neg stays, Option.some.injEq] at step
        exact step ▸ .replied opened count (.inr rfl)
      · cases step
  | ending opened last count server =>
      rcases server with rfl | rfl | rfl
      · simp only [Session.serverStep, End.test, if_true, Option.some.injEq] at step
        exact step ▸ .ending opened last count (.inr (.inl rfl))
      · exact Option.some.inj step ▸ .ending opened last count (.inr (.inr rfl))
      · cases step
  | ended opened last count client server =>
      rcases server with rfl | rfl | rfl
      · simp only [Session.serverStep, End.test, if_true, Option.some.injEq] at step
        exact step ▸ .ended opened last count client (.inr (.inl rfl))
      · exact Option.some.inj step ▸ .ended opened last count client (.inr (.inr rfl))
      · cases step
  | refused opened long count server =>
      rcases server with ⟨rfl, stays⟩ | rfl
      · simp only [Session.serverStep, End.test, if_neg stays, Option.some.injEq] at step
        exact step ▸ .refused opened long count (.inr rfl)
      · cases step

theorem Phase.step {e : Event} (h : Phase c s t) (step : t.step c s e = some u) : Phase c s u := by
  cases e with
  | client noticed => exact h.clientStep step
  | server noticed => exact h.serverStep step

theorem Phase.reach (h : Reach (Session.step c s) anyStep .start t) : Phase c s t :=
  h.invariant .start fun _ _ _ phase _ step => phase.step step

/-- The ends wait for each other only once a line of the server has been refused. -/
theorem Phase.deadlocked (h : Phase c s t) (dead : t.Deadlocked) :
    ∃ r n, Open s r ∧ ¬ Fits (s r) ∧ (sent c n).length = r + 1 := by
  obtain ⟨client, server, noLine, noReply⟩ := dead
  cases h with
  | refused opened long count => exact ⟨_, _, opened, long, count⟩
  | turn _ _ at' => rcases at' with ⟨rfl, _⟩ | rfl <;> cases client
  | sending => cases client
  | asked => cases noLine
  | heard | replying => cases server
  | replied | ending => cases noReply
  | ended _ _ _ at' => rcases at' with rfl | rfl | rfl <;> cases client

/-- The steps of a client so far, lines refused by `writeUTF` apart. -/
def End.clientSteps (e : End) : Nat :=
  4 * e.reads + match e.pc with
    | .writeUTF => 2
    | .readUTF => 3
    | .test => 4
    | .readLine | .close => 5
    | .done => 6

def End.serverSteps (e : End) : Nat :=
  4 * e.reads + match e.pc with
    | .writeUTF => 3
    | .test => 4
    | .readUTF | .close => 5
    | .readLine | .done => 6

def Session.steps (t : Session) : Nat := t.client.clientSteps + t.server.serverSteps

theorem Session.clientStep_steps {lines : Nat → JString}
    (step : t.clientStep lines noticed = some u) :
    u.server = t.server ∧ t.client.clientSteps < u.client.clientSteps := by
  unfold clientStep at step
  cases pc : t.client.pc <;> simp only [pc] at step
  case test =>
    obtain rfl := Option.some.inj step
    refine ⟨rfl, ?_⟩
    by_cases last : t.client.line = overKey <;> simp [End.clientSteps, End.test, pc, last]
  case readLine =>
    obtain rfl := Option.some.inj step
    refine ⟨rfl, ?_⟩
    simp only [End.clientSteps, End.readLine, pc]
    omega
  case writeUTF =>
    split at step <;> obtain rfl := Option.some.inj step <;>
      exact ⟨rfl, by simp [End.clientSteps, End.caught, pc]⟩
  case readUTF =>
    split at step
    · simp only [Option.ite_none_right_eq_some, Option.some.injEq] at step
      obtain ⟨_, rfl⟩ := step
      exact ⟨rfl, by simp [End.clientSteps, End.caught, pc]⟩
    · obtain rfl := Option.some.inj step
      exact ⟨rfl, by simp [End.clientSteps, End.readUTF, pc]⟩
  case close =>
    obtain rfl := Option.some.inj step
    exact ⟨rfl, by simp [End.clientSteps, pc]⟩
  case done => cases step

/-- The server goes round its loop without end only on a connection that the
client has closed. -/
theorem Session.serverStep_steps {lines : Nat → JString} (alive : t.server.pc = .readUTF →
    t.client.closed = false) (step : t.serverStep lines noticed = some u) :
    u.client = t.client ∧ t.server.serverSteps < u.server.serverSteps := by
  unfold serverStep at step
  cases pc : t.server.pc <;> simp only [pc] at step
  case test =>
    obtain rfl := Option.some.inj step
    refine ⟨rfl, ?_⟩
    by_cases last : t.server.line = overKey <;> simp [End.serverSteps, End.test, pc, last]
  case readUTF =>
    simp only [alive pc, Bool.false_eq_true, if_false] at step
    split at step
    · cases step
    · obtain rfl := Option.some.inj step
      exact ⟨rfl, by simp [End.serverSteps, End.readUTF, pc]⟩
  case readLine =>
    obtain rfl := Option.some.inj step
    refine ⟨rfl, ?_⟩
    simp only [End.serverSteps, End.readLine, pc]
    omega
  case writeUTF =>
    split at step <;> obtain rfl := Option.some.inj step <;>
      exact ⟨rfl, by simp [End.serverSteps, End.caught, pc]⟩
  case close =>
    obtain rfl := Option.some.inj step
    exact ⟨rfl, by simp [End.serverSteps, pc]⟩
  case done => cases step

theorem Phase.alive (h : Phase c s t) (pc : t.server.pc = .readUTF) : t.client.closed = false := by
  cases h with
  | turn _ _ client => rcases client with ⟨rfl, _⟩ | rfl <;> rfl
  | ended _ _ _ client server => rcases server with rfl | rfl | rfl <;> cases pc
  | _ => rfl

theorem Phase.steps {e : Event} (h : Phase c s t) (step : t.step c s e = some u) :
    t.steps < u.steps := by
  unfold Session.steps
  cases e with
  | client noticed =>
      obtain ⟨same, more⟩ := Session.clientStep_steps step
      rw [same]
      omega
  | server noticed =>
      obtain ⟨same, more⟩ := Session.serverStep_steps h.alive step
      rw [same]
      omega

end JavaChat
