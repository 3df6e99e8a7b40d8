import NetworksLab.Firsts
import NetworksLab.JavaText
import NetworksLab.Transition

/-! The one-way chat of `Client` and `Server`: the client writes the lines of its
console without waiting, the server prints what arrives, and each end tests its
own `line` for "Over". -/
namespace Program1
open JavaText Transition

def overKey : JString := literal "Over"

/-- `close` stands for all that follows the loop; `died` is the end through the
`NullPointerException` of `writeUTF(null)`, which nothing catches. -/
inductive ClientPc
  | test
  | readLine
  | writeUTF
  | close
  | done
  | died
  deriving DecidableEq

/-- `line` is `none` for `null`, which `readLine` returns at the end of the console;
`reads` counts its calls. -/
structure Client where
  pc : ClientPc
  line : Option JString
  reads : Nat
  deriving DecidableEq

inductive ServerPc
  | test
  | readUTF
  | close
  | done
  deriving DecidableEq

/-- `printed` are the lines, and `none` for every exception. -/
structure Server where
  pc : ServerPc
  line : JString
  printed : List (Option JString)
  deriving DecidableEq

structure Session where
  client : Client
  server : Server
  queue : List JString
  deriving DecidableEq

def Session.start : Session := ⟨⟨.test, some [], 0⟩, ⟨.test, [], []⟩, []⟩

/-- The connection of a process that has come to its end is closed. -/
def Client.closed (c : Client) : Bool := c.pc = .done ∨ c.pc = .died

/-- `writeUTF` throws before it has written anything of a long line, and the
`catch` goes on with the loop. -/
def Session.clientStep (console : Nat → Option JString) (s : Session) : Option Session :=
  let c := s.client
  match c.pc with
  | .test =>
      match c.line with
      | none => some { s with client := { c with pc := .died } }
      | some l => some { s with client := { c with pc := if l = overKey then .close else .readLine } }
  | .readLine =>
      some { s with client := { pc := .writeUTF, line := console c.reads, reads := c.reads + 1 } }
  | .writeUTF =>
      match c.line with
      | none => some { s with client := { c with pc := .died } }
      | some l => some { s with
          client := { c with pc := .test }, queue := s.queue ++ if Fits l then [l] else [] }
  | .close => some { s with client := { c with pc := .done } }
  | .done | .died => none

/-- At the end of the stream `readUTF` throws, and `line` stays what it was. -/
def Session.serverStep (s : Session) : Option Session :=
  let v := s.server
  match v.pc with
  | .test => some { s with server := { v with pc := if v.line = overKey then .close else .readUTF } }
  | .readUTF =>
      match s.queue with
      | l :: rest => some { s with
          server := ⟨.test, l, v.printed ++ [some l]⟩, queue := rest }
      | [] =>
          if s.client.closed then
            some { s with server := { v with pc := .test, printed := v.printed ++ [none] } }
          else none
  | .close => some { s with server := { v with pc := .done } }
  | .done => none

inductive Event
  | client
  | server

def Session.step (console : Nat → Option JString) (s : Session) : Event → Option Session
  | .client => s.clientStep console
  | .server => s.serverStep

/-- The server is out of its loop. -/
def Server.Left (v : Server) : Prop := v.pc = .close ∨ v.pc = .done

/-- What goes out of the first `n` lines. -/
def sent (console : Nat → Option JString) (n : Nat) : List JString :=
  ((List.range n).filterMap console).filter (Fits ·)

/-- Line `k` is the first "Over", and the console has not ended before it. -/
def Ends (console : Nat → Option JString) (k : Nat) : Prop :=
  console k = some overKey ∧ ∀ j < k, ∃ l, console j = some l ∧ l ≠ overKey

/-- Lines before `n` that keep the client in its loop. -/
def Plain (console : Nat → Option JString) (n : Nat) : Prop :=
  ∀ j < n, ∃ l, console j = some l ∧ l ≠ overKey

variable {console : Nat → Option JString} {s t : Session} {n k : Nat}

/-- The client with `n` lines dealt with. -/
inductive ClientStage (console : Nat → Option JString) : Client → Nat → Prop
  | start : ClientStage console ⟨.test, some [], 0⟩ 0
  | test {n : Nat} {l : JString} (plain : Plain console n) (last : console n = some l) :
      ClientStage console ⟨.test, some l, n + 1⟩ (n + 1)
  | readLine {n : Nat} {line : Option JString} (plain : Plain console n) : ClientStage console ⟨.readLine, line, n⟩ n
  | writeUTF {n : Nat} (plain : Plain console n) : ClientStage console ⟨.writeUTF, console n, n + 1⟩ n
  | close {n : Nat} {line : Option JString} (ends : Ends console n) : ClientStage console ⟨.close, line, n + 1⟩ (n + 1)
  | done {n : Nat} {line : Option JString} (ends : Ends console n) : ClientStage console ⟨.done, line, n + 1⟩ (n + 1)
  | died {n : Nat} {line : Option JString} (plain : Plain console n) (ended : console n = none) :
      ClientStage console ⟨.died, line, n + 1⟩ n

/-- The server with the lines `heard` read. -/
inductive ServerStage : Server → List JString → Prop
  | test {heard : List JString} {line : JString} {printed : List (Option JString)}
      (plain : overKey ∉ heard.dropLast) (lines : printed.filterMap id = heard)
      (last : line = heard.getLastD []) : ServerStage ⟨.test, line, printed⟩ heard
  | readUTF {heard : List JString} {line : JString} {printed : List (Option JString)}
      (plain : overKey ∉ heard) (lines : printed.filterMap id = heard)
      (last : line = heard.getLastD []) : ServerStage ⟨.readUTF, line, printed⟩ heard
  | left {pc : ServerPc} {heard : List JString} {line : JString} {printed : List (Option JString)}
      (left : pc = .close ∨ pc = .done) (plain : overKey ∉ heard)
      (lines : printed.filterMap id = heard ++ [overKey]) :
      ServerStage ⟨pc, line, printed⟩ (heard ++ [overKey])

theorem sent_succ (console : Nat → Option JString) (n : Nat) :
    sent console (n + 1) = sent console n ++ (console n).toList.filter (Fits ·) := by
  cases line : console n <;> simp [sent, List.range_succ, line]

theorem sent_fits {l : JString} (here : console n = some l) :
    sent console (n + 1) = sent console n ++ if Fits l then [l] else [] := by
  rw [sent_succ, here]
  by_cases fits : Fits l <;> simp [fits]

theorem over_fits : Fits overKey := by decide

theorem Plain.over_notMem (plain : Plain console n) : overKey ∉ sent console n := by
  intro mem
  obtain ⟨j, below, line⟩ := List.mem_filterMap.mp (List.mem_filter.mp mem).1
  obtain ⟨l, same, other⟩ := plain j (List.mem_range.mp below)
  exact other (Option.some.inj (same.symm.trans line))

theorem Ends.sent (ends : Ends console k) : sent console (k + 1) = Program1.sent console k ++ [overKey] := by
  rw [sent_fits ends.1, if_pos over_fits]

theorem Plain.succ (plain : Plain console n) {l : JString} (last : console n = some l)
    (other : l ≠ overKey) : Plain console (n + 1) := by
  intro j below
  by_cases same : j = n
  · exact ⟨l, same ▸ last, other⟩
  · exact plain j (by omega)

/-- What the client writes goes to the end of the queue. -/
theorem ClientStage.step (stage : ClientStage console s.client n)
    (step : s.clientStep console = some t) : ∃ m new, ClientStage console t.client m ∧
      t.server = s.server ∧ t.queue = s.queue ++ new ∧ sent console m = sent console n ++ new := by
  obtain ⟨client, server, queue⟩ := s
  cases stage with
  | start =>
      cases step
      exact ⟨0, [], .readLine nofun, rfl, (List.append_nil _).symm, rfl⟩
  | @test n l plain last =>
      cases step
      refine ⟨n + 1, [], ?_, rfl, (List.append_nil _).symm, (List.append_nil _).symm⟩
      by_cases over_here : l = overKey
      · subst over_here
        exact .close ⟨last, plain⟩
      · simp only [if_neg over_here]
        exact .readLine (plain.succ last over_here)
  | readLine plain =>
      cases step
      exact ⟨n, [], .writeUTF plain, rfl, (List.append_nil _).symm, (List.append_nil _).symm⟩
  | writeUTF plain =>
      simp only [Session.clientStep] at step
      split at step
      next ended =>
        cases step
        exact ⟨n, [], .died plain ended, rfl, (List.append_nil _).symm, (List.append_nil _).symm⟩
      next l line =>
        cases step
        exact ⟨n + 1, _, line ▸ .test plain line, rfl, rfl, sent_fits line⟩
  | close ends =>
      cases step
      exact ⟨_, [], .done ends, rfl, (List.append_nil _).symm, (List.append_nil _).symm⟩
  | done | died => cases step

/-- What the server reads is taken off its front. -/
theorem ServerStage.step {heard : List JString} (stage : ServerStage s.server heard)
    (step : s.serverStep = some t) : ∃ new, ServerStage t.server (heard ++ new) ∧
      t.client = s.client ∧ s.queue = new ++ t.queue := by
  obtain ⟨client, server, queue⟩ := s
  cases stage with
  | @test _ line printed plain lines last =>
      cases step
      refine ⟨[], ?_, rfl, rfl⟩
      rw [List.append_nil]
      rcases List.eq_nil_or_concat heard with rfl | ⟨before, l, rfl⟩
      · subst last
        exact .readUTF List.not_mem_nil lines rfl
      · rw [List.concat_eq_append] at plain lines last ⊢
        rw [List.getLastD_concat] at last
        rw [List.dropLast_concat] at plain
        subst last
        by_cases said : line = overKey
        · subst said
          exact .left (.inl (if_pos rfl)) plain lines
        · simp only [if_neg said]
          refine .readUTF ?_ lines List.getLastD_concat.symm
          rw [List.mem_append, List.mem_singleton, not_or]
          exact ⟨plain, Ne.symm said⟩
  | @readUTF _ line printed plain lines last =>
      cases queue with
      | nil =>
          obtain ⟨_, same⟩ := Option.ite_none_right_eq_some.mp step
          cases same
          refine ⟨[], ?_, rfl, rfl⟩
          rw [List.append_nil]
          refine .test (fun mem => plain (List.dropLast_subset _ mem)) ?_ last
          rw [List.filterMap_append, lines]
          exact List.append_nil _
      | cons l rest =>
          cases step
          refine ⟨[l], .test ?_ ?_ List.getLastD_concat.symm, rfl, rfl⟩
          · rwa [List.dropLast_concat]
          · rw [List.filterMap_append, lines]
            rfl
  | left left plain lines =>
      rcases left with rfl | rfl
      · cases step
        exact ⟨[], (List.append_nil _).symm ▸ .left (.inr rfl) plain lines, rfl, rfl⟩
      · cases step

/-- Whatever the order of the steps, the server has read the beginning of what the
client has sent, and the rest is on its way. -/
structure Flow (console : Nat → Option JString) (s : Session) (n : Nat) (heard : List JString) :
    Prop where
  client : ClientStage console s.client n
  server : ServerStage s.server heard
  whole : heard ++ s.queue = sent console n

theorem Flow.step {heard : List JString} {e : Event} (flow : Flow console s n heard)
    (step : s.step console e = some t) : ∃ m new, Flow console t m (heard ++ new) := by
  obtain ⟨client, server, whole⟩ := flow
  cases e with
  | client =>
      obtain ⟨m, new, client', same, queue, more⟩ := client.step step
      refine ⟨m, [], client', ?_, ?_⟩
      · rwa [same, List.append_nil]
      · rw [queue, List.append_nil, more, ← whole, List.append_assoc]
  | server =>
      obtain ⟨new, server', same, queue⟩ := server.step step
      refine ⟨n, new, same ▸ client, server', ?_⟩
      rw [List.append_assoc, ← queue, whole]

theorem flow (reached : Reach (Session.step console) anyStep .start s) :
    ∃ n heard, Flow console s n heard := by
  apply reached.invariant (I := fun s => ∃ n heard, Flow console s n heard)
  · exact ⟨0, [], .start, .test List.not_mem_nil rfl rfl, rfl⟩
  · rintro t e u ⟨n, heard, inv⟩ _ step
    obtain ⟨m, new, next⟩ := inv.step step
    exact ⟨m, _, next⟩

theorem Plain.le (plain : Plain console n) (ends : Ends console k) : n ≤ k := by
  by_contra past
  obtain ⟨l, line, other⟩ := plain k (Nat.lt_of_not_le past)
  exact other (Option.some.inj (line.symm.trans ends.1))

theorem Ends.eq (ends : Ends console n) (first : Ends console k) : n = k :=
  Nat.le_antisymm (Plain.le ends.2 first) (Plain.le first.2 ends)

/-- "Over" goes out with the line at which the client leaves. -/
theorem ClientStage.over_sent {c : Client} (stage : ClientStage console c n)
    (mem : overKey ∈ sent console n) : ∃ k, n = k + 1 ∧ Ends console k := by
  cases stage with
  | start => cases mem
  | @test n l plain last =>
      rw [sent_fits last, List.mem_append] at mem
      have same : l = overKey := by
        have here := mem.resolve_left plain.over_notMem
        by_cases fits : Fits l
        · rw [if_pos fits, List.mem_singleton] at here
          exact here.symm
        · rw [if_neg fits] at here
          cases here
      exact ⟨n, rfl, same ▸ last, plain⟩
  | readLine plain | writeUTF plain | died plain => exact absurd mem plain.over_notMem
  | close ends | done ends => exact ⟨_, rfl, ends⟩

theorem ServerStage.over_heard {v : Server} {heard : List JString} (stage : ServerStage v heard)
    (left : v.Left) : ∃ before, heard = before ++ [overKey] ∧ overKey ∉ before := by
  cases stage with
  | test | readUTF => rcases left with pc | pc <;> cases pc
  | left _ plain => exact ⟨_, rfl, plain⟩

/-- Without an "Over" before the end of the console the server does not leave. -/
theorem Flow.not_left {heard : List JString} (flow : Flow console s n heard)
    (never : ∀ k, ¬ Ends console k) : ¬ s.server.Left := by
  intro left
  obtain ⟨before, rfl, _⟩ := flow.server.over_heard left
  have mem : overKey ∈ sent console n := by
    rw [← flow.whole]
    simp
  obtain ⟨k, _, ends⟩ := flow.client.over_sent mem
  exact never k ends

/-- A client that is to type "Over" does not close the connection before. -/
theorem Flow.closed {heard : List JString} (flow : Flow console s n heard) (ends : Ends console k)
    (closed : s.client.closed = true) :
    s.client.pc = .done ∧ heard ++ s.queue = sent console k ++ [overKey] := by
  obtain ⟨client, server, whole⟩ := flow
  obtain ⟨c, v, queue⟩ := s
  cases client with
  | start | test | readLine | writeUTF | close => cases closed
  | done at_n =>
      obtain rfl := at_n.eq ends
      exact ⟨rfl, whole.trans at_n.sent⟩
  | died plain ended =>
      have le := plain.le ends
      by_cases same : n = k
      · rw [same, ends.1] at ended
        cases ended
      · obtain ⟨l, line, _⟩ := ends.2 n (by omega)
        rw [line] at ended
        cases ended

/-- A session in which no `readUTF` has failed. -/
structure Steady (console : Nat → Option JString) (s : Session) (n : Nat) (heard : List JString) :
    Prop extends Flow console s n heard where
  noError : none ∉ s.server.printed

theorem map_some_of_filterMap {α : Type*} {l : List (Option α)} (all : none ∉ l) :
    l = (l.filterMap id).map some := by
  induction l with
  | nil => rfl
  | cons o l ih =>
      rw [List.mem_cons, not_or] at all
      cases o with
      | none => exact absurd rfl all.1
      | some a => exact congrArg (some a :: ·) (ih all.2)

theorem ServerStage.lines {v : Server} {heard : List JString} (stage : ServerStage v heard) :
    v.printed.filterMap id = heard := by
  cases stage with
  | test _ lines | readUTF _ lines | left _ _ lines => exact lines

theorem Steady.printed {heard : List JString} (h : Steady console s n heard) :
    s.server.printed = heard.map some := by
  rw [map_some_of_filterMap h.noError, h.server.lines]

/-- The server that waits has not read the "Over" that is to come. -/
theorem Flow.waiting {heard : List JString} (flow : Flow console s n heard) (ends : Ends console k)
    (pc : s.server.pc = .readUTF) (drained : s.queue = []) : s.client.closed = false := by
  by_contra closed
  obtain ⟨_, whole⟩ := flow.closed ends (Bool.eq_true_of_not_eq_false closed)
  rw [drained, List.append_nil] at whole
  have server := flow.server
  obtain ⟨c, v, queue⟩ := s
  cases server with
  | test => cases pc
  | readUTF plain =>
      rw [whole] at plain
      exact plain (by simp)
  | left left =>
      rcases left with rfl | rfl <;> cases pc

theorem Steady.step {heard : List JString} {e : Event} (h : Steady console s n heard)
    (ends : Ends console k) (step : s.step console e = some t) :
    ∃ m new, Steady console t m (heard ++ new) := by
  obtain ⟨m, new, flow⟩ := h.toFlow.step step
  refine ⟨m, new, flow, ?_⟩
  cases e with
  | client =>
      obtain ⟨_, _, _, same, _⟩ := h.client.step step
      rw [same]
      exact h.noError
  | server =>
      have waiting := h.toFlow.waiting ends
      have noError := h.noError
      obtain ⟨c, ⟨pc, line, printed⟩, queue⟩ := s
      cases pc with
      | test | close =>
          cases step
          exact noError
      | readUTF =>
          cases queue with
          | nil =>
              have closed := waiting rfl rfl
              simp [Session.step, Session.serverStep, closed] at step
          | cons l rest =>
              cases step
              rw [List.mem_append, not_or]
              exact ⟨noError, by simp⟩
      | done => cases step

theorem steady (ends : Ends console k) (reached : Reach (Session.step console) anyStep .start s) :
    ∃ n heard, Steady console s n heard := by
  apply reached.invariant (I := fun s => ∃ n heard, Steady console s n heard)
  · exact ⟨0, [], ⟨.start, .test List.not_mem_nil rfl rfl, rfl⟩, List.not_mem_nil⟩
  · rintro t e u ⟨n, heard, inv⟩ _ step
    obtain ⟨m, new, next⟩ := inv.step ends step
    exact ⟨m, _, next⟩

def ClientPc.rank : ClientPc → Nat
  | .writeUTF => 0
  | .test => 1
  | .readLine | .close | .died => 2
  | .done => 3

def ServerPc.rank : ServerPc → Nat
  | .test => 0
  | .readUTF | .close => 1
  | .done => 2

/-- How far the two loops are. -/
def Session.progress (s : Session) : Nat :=
  3 * s.client.reads + s.client.pc.rank + (2 * s.server.printed.length + s.server.pc.rank)

theorem Session.progress_lt {e : Event} (step : s.step console e = some t) : s.progress < t.progress := by
  obtain ⟨⟨cpc, cline, reads⟩, ⟨spc, sline, printed⟩, queue⟩ := s
  cases e with
  | client =>
      cases cpc with
      | test =>
          cases cline with
          | none =>
              cases step
              simp [progress, ClientPc.rank]
          | some l =>
              cases step
              by_cases said : l = overKey <;> simp [progress, ClientPc.rank, said]
      | readLine =>
          cases step
          simp only [progress, ClientPc.rank]
          omega
      | writeUTF =>
          simp only [Session.step, Session.clientStep] at step
          split at step <;> cases step <;> simp [progress, ClientPc.rank]
      | close =>
          cases step
          simp [progress, ClientPc.rank]
      | done | died => cases step
  | server =>
      cases spc with
      | test =>
          cases step
          by_cases said : sline = overKey <;> simp [progress, ServerPc.rank, said]
      | readUTF =>
          cases queue with
          | nil =>
              obtain ⟨_, same⟩ := Option.ite_none_right_eq_some.mp step
              cases same
              simp only [progress, ServerPc.rank, List.length_append, List.length_singleton]
              omega
          | cons l rest =>
              cases step
              simp only [progress, ServerPc.rank, List.length_append, List.length_singleton]
              omega
      | close =>
          cases step
          simp [progress, ServerPc.rank]
      | done => cases step

theorem sent_length_le (console : Nat → Option JString) (n : Nat) : (sent console n).length ≤ n := by
  calc (sent console n).length ≤ ((List.range n).filterMap console).length := List.length_filter_le ..
    _ ≤ (List.range n).length := List.length_filterMap_le ..
    _ = n := List.length_range

theorem ClientStage.reads_le {c : Client} (stage : ClientStage console c n) :
    n ≤ c.reads ∧ c.reads ≤ n + 1 := by
  cases stage <;> simp

theorem ClientStage.count_le {c : Client} (stage : ClientStage console c n) (ends : Ends console k) :
    c.reads ≤ k + 1 := by
  cases stage with
  | start => exact Nat.zero_le _
  | test plain | writeUTF plain | died plain => exact Nat.succ_le_succ (plain.le ends)
  | readLine plain => exact Nat.le_succ_of_le (plain.le ends)
  | close at_n | done at_n =>
      obtain rfl := at_n.eq ends
      exact Nat.le_refl _

theorem ClientPc.rank_le (pc : ClientPc) : pc.rank ≤ 3 := by
  cases pc <;> decide

theorem ServerPc.rank_le (pc : ServerPc) : pc.rank ≤ 2 := by
  cases pc <;> decide

theorem Steady.progress_le {heard : List JString} (h : Steady console s n heard)
    (ends : Ends console k) : s.progress ≤ 5 * k + 10 := by
  have reads := h.client.count_le ends
  have most := (h.client.reads_le).1
  have heard_le : heard.length ≤ n := by
    have whole := congrArg List.length h.whole
    rw [List.length_append] at whole
    have := sent_length_le console n
    omega
  have printed : s.server.printed.length = heard.length := by rw [h.printed, List.length_map]
  have cpc := s.client.pc.rank_le
  have spc := s.server.pc.rank_le
  simp only [Session.progress, printed]
  omega

theorem Session.client_stuck (stuck : s.clientStep console = none) : s.client.closed = true := by
  obtain ⟨⟨cpc, cline, reads⟩, v, queue⟩ := s
  cases cpc with
  | test | writeUTF => cases cline <;> cases stuck
  | readLine | close => cases stuck
  | done | died => rfl

/-- Where nothing more happens, "Over" has gone through to the end. -/
theorem Steady.stuck {heard : List JString} (h : Steady console s n heard) (ends : Ends console k)
    (stuck : ∀ e, s.step console e = none) :
    s.client.pc = .done ∧ s.server.pc = .done ∧ s.queue = [] ∧
      s.server.printed = (sent console (k + 1)).map some := by
  have server : s.serverStep = none := stuck .server
  have closed : s.client.closed = true := Session.client_stuck (stuck .client)
  obtain ⟨done, whole⟩ := h.toFlow.closed ends closed
  have waiting := h.toFlow.waiting ends
  have printed := h.printed
  have stage := h.server
  obtain ⟨c, v, queue⟩ := s
  cases stage with
  | test => cases server
  | readUTF =>
      cases queue with
      | nil => exact absurd (waiting rfl rfl) (by simp [closed])
      | cons => cases server
  | @left pc before line _ left =>
      rcases left with rfl | rfl
      · cases server
      · have plain : overKey ∉ sent console k := Plain.over_notMem ends.2
        rw [List.append_assoc, List.singleton_append] at whole
        obtain ⟨same, _, rest⟩ := (List.append_cons_inj_of_notMem plain List.not_mem_nil).mp whole.symm
        exact ⟨done, rfl, rest.symm, by rw [printed, ends.sent, same]⟩

/-- "Over" before the end of the console brings both ends to theirs, however their
steps interleave, with all lines that fit printed once and in order; without it the
server never leaves its loop. In between it has printed the beginning of what the
client has sent. -/
theorem over_relayed (console : Nat → Option JString) :
    (∀ s, Reach (Session.step console) anyStep .start s →
      ∃ n, n ≤ s.client.reads ∧ s.client.reads ≤ n + 1 ∧
        s.server.printed.filterMap id ++ s.queue = sent console n) ∧
    (∀ k, Ends console k →
      (∀ es s, run (Session.step console) .start es = some s → es.length ≤ 5 * k + 10) ∧
      ∀ s, Reach (Session.step console) anyStep .start s → (∀ e, s.step console e = none) →
        s.client.pc = .done ∧ s.server.pc = .done ∧ s.queue = [] ∧
          s.server.printed = (sent console (k + 1)).map some) ∧
    ((∀ k, ¬ Ends console k) →
      ∀ s, Reach (Session.step console) anyStep .start s → ¬ s.server.Left) := by
  refine ⟨fun s reached => ?_, fun k ends => ⟨fun es s h => ?_, fun s reached stuck => ?_⟩,
    fun never s reached => ?_⟩
  · obtain ⟨n, heard, flow⟩ := flow reached
    exact ⟨n, flow.client.reads_le.1, flow.client.reads_le.2, flow.server.lines ▸ flow.whole⟩
  · obtain ⟨n, heard, inv⟩ := steady ends (reach_of_run h)
    have rises := run_length_le (I := fun _ => True) (μ := Session.progress) trivial
      (fun _ _ _ _ one => ⟨trivial, Session.progress_lt one⟩) h
    have most := inv.progress_le ends
    omega
  · obtain ⟨n, heard, inv⟩ := steady ends reached
    exact inv.stuck ends stuck
  · obtain ⟨n, heard, flow⟩ := flow reached
    exact flow.not_left never

end Program1
