import NetworksLab.ClientHandler

/-! A session takes one line at a time: the two program counters fix what is in
each queue, up to the order of the handler's prompt and the client's read. -/
namespace Program2
open JavaText Transition

/-- A line answered, and the clock reading of the answer. -/
structure Exchange where
  line : JString
  date : Date
  stays : line ≠ exitText

def typed (past : List Exchange) : List JString := past.map (·.line)

def readings (past : List Exchange) : List Date := past.map (·.date)

def answers (past : List Exchange) : List Message := past.map fun x => answer x.line x.date

/-- The replies in the queue and those printed: the client has printed every
answer, or has the last one still to read. -/
inductive Reads : List Exchange → List Message → ClientPc → List Message → Prop
  | all (past : List Exchange) : Reads past [] .prompt (answers past)
  | last (past : List Exchange) (x : Exchange) :
      Reads (past ++ [x]) [answer x.line x.date] .reply (answers past)

/-- The pairs of program counters, each with the queues it comes with. -/
inductive Lockstep (lines : List JString) : Session → Prop
  | prompting {past queue pc replies console received tosend n}
      (split : lines = typed past ++ console) (reads : Reads past queue pc replies) :
      Lockstep lines ⟨console, [], queue, ⟨.prompt, received⟩,
        ⟨pc, tosend, .replicate n promptMessage, replies⟩, readings past⟩
  | prompted {past queue pc replies console received tosend n}
      (split : lines = typed past ++ console) (reads : Reads past queue pc replies) :
      Lockstep lines ⟨console, [], queue ++ [promptMessage], ⟨.read, received⟩,
        ⟨pc, tosend, .replicate n promptMessage, replies⟩, readings past⟩
  | asking {past console received tosend n} (split : lines = typed past ++ console) :
      Lockstep lines ⟨console, [], [], ⟨.read, received⟩,
        ⟨.ask, tosend, .replicate n promptMessage, answers past⟩, readings past⟩
  | sending {past console received tosend n} (split : lines = typed past ++ tosend :: console) :
      Lockstep lines ⟨console, [], [], ⟨.read, received⟩,
        ⟨.send, tosend, .replicate n promptMessage, answers past⟩, readings past⟩
  | sent {past line console received tosend n} (split : lines = typed past ++ line :: console)
      (stays : line ≠ exitText) :
      Lockstep lines ⟨console, [line], [], ⟨.read, received⟩,
        ⟨.reply, tosend, .replicate n promptMessage, answers past⟩, readings past⟩
  | dating {past console received tosend n} (split : lines = typed past ++ received :: console)
      (stays : received ≠ exitText) :
      Lockstep lines ⟨console, [], [], ⟨.date, received⟩,
        ⟨.reply, tosend, .replicate n promptMessage, answers past⟩, readings past⟩
  | replying {past date console received tosend n}
      (split : lines = typed past ++ received :: console) (stays : received ≠ exitText) :
      Lockstep lines ⟨console, [], [], ⟨.reply date, received⟩,
        ⟨.reply, tosend, .replicate n promptMessage, answers past⟩, readings past ++ [date]⟩
  | leaving {past pc console received tosend n} (split : lines = typed past ++ exitText :: console)
      (client : pc = .exit ∨ pc = .close ∨ pc = .done) :
      Lockstep lines ⟨console, [exitText], [], ⟨.read, received⟩,
        ⟨pc, tosend, .replicate n promptMessage, answers past⟩, readings past⟩
  | left {past hpc pc console received tosend n}
      (split : lines = typed past ++ exitText :: console)
      (handler : hpc = .exit ∨ hpc = .close ∨ hpc = .done)
      (client : pc = .exit ∨ pc = .close ∨ pc = .done) :
      Lockstep lines ⟨console, [], [], ⟨hpc, received⟩,
        ⟨pc, tosend, .replicate n promptMessage, answers past⟩, readings past⟩

variable {lines : List JString} {s t : Session}

theorem Lockstep.start (received tosend : JString) :
    Lockstep lines (.start lines received tosend) :=
  .prompting (n := 0) rfl (.all [])

/-- The answer has gone out; the client has still to read it. -/
theorem Lockstep.replied {past : List Exchange} {date : Date} {console : List JString}
    {received tosend : JString} {n : Nat} (split : lines = typed past ++ received :: console)
    (stays : received ≠ exitText) :
    Lockstep lines ⟨console, [], [answer received date], ⟨.prompt, received⟩,
      ⟨.reply, tosend, .replicate n promptMessage, answers past⟩, readings past ++ [date]⟩ := by
  have longer : lines = typed (past ++ [⟨received, date, stays⟩]) ++ console := by
    simpa [typed] using split
  have h : Lockstep lines ⟨console, [], [answer received date], ⟨.prompt, received⟩,
      ⟨.reply, tosend, .replicate n promptMessage, answers past⟩,
      readings (past ++ [⟨received, date, stays⟩])⟩ :=
    .prompting longer (.last past ⟨received, date, stays⟩)
  simpa only [readings, List.map_append, List.map_cons, List.map_nil] using h

theorem Reads.open {past : List Exchange} {queue replies : List Message} {pc : ClientPc}
    (reads : Reads past queue pc replies) (tosend : JString) (prompts printed : List Message) :
    Client2.closed ⟨pc, tosend, prompts, printed⟩ = false := by
  cases reads with
  | all => rfl
  | last => rfl

theorem Lockstep.handlerStep (fits : ∀ l ∈ lines, utfLength l ≤ maxUtfLength)
    (h : Lockstep lines s) {now : Date} {noticed : Bool}
    (step : s.handlerStep now noticed = some t) : Lockstep lines t := by
  cases h with
  | prompting split reads =>
      rw [Session.handlerStep_prompt rfl (reads.open _ _ _)] at step
      exact Option.some.inj step ▸ .prompted split reads
  | prompted split reads =>
      simp only [Session.handlerStep, reads.open, Bool.false_eq_true, if_false] at step
      cases step
  | asking => cases step
  | sending => cases step
  | sent split stays =>
      simp only [Session.handlerStep, if_neg stays, Option.some.injEq] at step
      exact step ▸ .dating split stays
  | dating split stays => exact Option.some.inj step ▸ .replying split stays
  | @replying past date console received tosend n split stays =>
      have mem : received ∈ lines := split ▸ by simp
      rw [Session.handlerStep_reply rfl rfl (fits received mem)] at step
      exact Option.some.inj step ▸ .replied split stays
  | leaving split client =>
      exact Option.some.inj step ▸ .left split (.inl rfl) client
  | left split handler client =>
      rcases handler with rfl | rfl | rfl
      · exact Option.some.inj step ▸ .left split (.inr (.inl rfl)) client
      · exact Option.some.inj step ▸ .left split (.inr (.inr rfl)) client
      · cases step

theorem answers_concat (past : List Exchange) (x : Exchange) :
    answers past ++ [answer x.line x.date] = answers (past ++ [x]) := by
  simp only [answers, List.map_append, List.map_cons, List.map_nil]

theorem replicate_prompt (n : Nat) :
    List.replicate n promptMessage ++ [promptMessage] = .replicate (n + 1) promptMessage :=
  List.replicate_succ'.symm

/-- The client reads on: the last answer, or the prompt behind all of them. -/
theorem Lockstep.clientStep (fits : ∀ l ∈ lines, utfLength l ≤ maxUtfLength)
    (exits : exitText ∈ lines) (h : Lockstep lines s) {noticed : Bool}
    (step : s.clientStep noticed = some t) : Lockstep lines t := by
  cases h with
  | prompting split reads =>
      cases reads with
      | all => cases step
      | last past x =>
          simp only [Session.clientStep, answers_concat, Option.some.injEq] at step
          exact step ▸ .prompting split (.all _)
  | prompted split reads =>
      cases reads with
      | all =>
          simp only [Session.clientStep, List.nil_append, replicate_prompt, Option.some.injEq] at step
          exact step ▸ .asking split
      | last past x =>
          simp only [Session.clientStep, List.singleton_append, answers_concat,
            Option.some.injEq] at step
          exact step ▸ .prompted split (.all _)
  | @asking past console received tosend n split =>
      cases console with
      | nil =>
          rw [List.append_nil] at split
          obtain ⟨x, -, hx⟩ := List.mem_map.mp (split ▸ exits)
          exact absurd hx x.stays
      | cons line console => exact Option.some.inj step ▸ .sending split
  | @sending past console received tosend n split =>
      have mem : tosend ∈ lines := split ▸ by simp
      rw [Session.clientStep_send rfl rfl (fits tosend mem)] at step
      by_cases exit : tosend = exitText
      · simp only [if_pos exit, Option.some.injEq] at step
        exact step ▸ exit ▸ .leaving (exit ▸ split) (.inl rfl)
      · simp only [if_neg exit, Option.some.injEq] at step
        exact step ▸ .sent split exit
  | sent => cases step
  | dating => cases step
  | replying => cases step
  | leaving split client =>
      rcases client with rfl | rfl | rfl
      · exact Option.some.inj step ▸ .leaving split (.inr (.inl rfl))
      · exact Option.some.inj step ▸ .leaving split (.inr (.inr rfl))
      · cases step
  | left split handler client =>
      rcases client with rfl | rfl | rfl
      · exact Option.some.inj step ▸ .left split handler (.inr (.inl rfl))
      · exact Option.some.inj step ▸ .left split handler (.inr (.inr rfl))
      · cases step

theorem Lockstep.reach (exits : exitText ∈ lines) (fits : ∀ l ∈ lines, utfLength l ≤ maxUtfLength)
    {received tosend : JString}
    (h : Reach Session.step anyStep (.start lines received tosend) s) : Lockstep lines s := by
  apply h.invariant (.start received tosend)
  intro t e u ht _ step
  cases e with
  | handler now noticed => exact ht.handlerStep fits step
  | client noticed => exact ht.clientStep fits exits step

/-- Both sides are in `readUTF` with nothing to read. -/
def Session.Deadlocked (s : Session) : Prop :=
  s.handler.pc = .read ∧ s.toServer = [] ∧
    (s.client.pc = .prompt ∨ s.client.pc = .reply) ∧ s.toClient = []

/-- Both sides are behind their loops, which they left at the first "Exit". -/
def Session.LeftAtExit (lines : List JString) (s : Session) : Prop :=
  s.handler.pc = .done ∧ s.client.pc = .done ∧ s.toServer = [] ∧ s.toClient = [] ∧
    ∃ before, exitText ∉ before ∧ lines = before ++ exitText :: s.console ∧
      s.client.replies.length = before.length

theorem typed_stays (past : List Exchange) : exitText ∉ typed past := by
  intro mem
  obtain ⟨x, -, hx⟩ := List.mem_map.mp mem
  exact x.stays hx

theorem Lockstep.toServer_length (h : Lockstep lines s) : s.toServer.length ≤ 1 := by
  cases h <;> simp

theorem Lockstep.toClient_kinds (h : Lockstep lines s) :
    (s.toClient.map (·.kind)).Sublist [.reply, .prompt] := by
  cases h with
  | prompting _ reads | prompted _ reads => cases reads <;> simp [answer, promptMessage]
  | _ => simp

theorem Lockstep.not_deadlocked (h : Lockstep lines s) : ¬ s.Deadlocked := by
  rintro ⟨reading, noLine, waiting, noMessage⟩
  cases h with
  | prompted => simp at noMessage
  | sent | leaving => cases noLine
  | prompting | dating | replying => cases reading
  | asking | sending => simp at waiting
  | left _ handler =>
      rcases handler with rfl | rfl | rfl <;> cases reading

theorem Lockstep.prompts (h : Lockstep lines s) : ∀ m ∈ s.client.prompts, m = promptMessage := by
  cases h <;> exact fun m hm => List.eq_of_mem_replicate hm

/-- What the client has printed answers the first lines, at the first readings
of the clock. -/
theorem Lockstep.replies (h : Lockstep lines s) :
    ∃ past, typed past <+: lines ∧ readings past <+: s.dates ∧ s.client.replies = answers past := by
  have behind : ∀ {past queue pc printed}, Reads past queue pc printed →
      ∃ read, read <+: past ∧ printed = answers read := by
    intro past queue pc printed reads
    cases reads with
    | all => exact ⟨past, List.prefix_rfl, rfl⟩
    | last read x => exact ⟨read, List.prefix_append read [x], rfl⟩
  cases h with
  | prompting split reads | prompted split reads =>
      obtain ⟨read, earlier, printed⟩ := behind reads
      refine ⟨read, ?_, earlier.map _, printed⟩
      exact (earlier.map _).trans (split ▸ List.prefix_append _ _)
  | asking split | sending split | sent split | dating split | leaving split | left split =>
      exact ⟨_, split ▸ List.prefix_append _ _, List.prefix_rfl, rfl⟩
  | replying split => exact ⟨_, split ▸ List.prefix_append _ _, List.prefix_append _ _, rfl⟩

theorem getElem?_of_prefix {α : Type*} {l₁ l₂ : List α} {k : Nat} {a : α} (h : l₁ <+: l₂)
    (ha : l₁[k]? = some a) : l₂[k]? = some a := by
  obtain ⟨bound, rfl⟩ := List.getElem?_eq_some_iff.mp ha
  exact List.prefix_iff_getElem?.mp h k bound

theorem answers_getElem? {past : List Exchange} {k : Nat} {m : Message}
    (h : (answers past)[k]? = some m) :
    ∃ line date, (typed past)[k]? = some line ∧ (readings past)[k]? = some date ∧
      m = answer line date := by
  obtain ⟨x, hx, rfl⟩ := List.getElem?_map.symm.trans h |> Option.map_eq_some_iff.mp
  exact ⟨x.line, x.date, by simp [typed, hx], by simp [readings, hx], rfl⟩

/-- Where no step is possible, both sides have left. -/
theorem Lockstep.final (fits : ∀ l ∈ lines, utfLength l ≤ maxUtfLength) (h : Lockstep lines s)
    (stuck : ∀ e, s.step e = none) : s.LeftAtExit lines := by
  have handler (now : Date) : s.handlerStep now false = none := stuck (.handler now false)
  have client : s.clientStep false = none := stuck (.client false)
  have now : Date := ⟨0, 0, 0, 0, 0, 0⟩
  cases h with
  | prompting split reads =>
      have moves := handler now
      rw [Session.handlerStep_prompt rfl (reads.open _ _ _)] at moves
      cases moves
  | prompted split reads => cases reads <;> cases client
  | @asking past console => cases console <;> cases client
  | @sending past console received tosend n split =>
      have mem : tosend ∈ lines := split ▸ by simp
      rw [Session.clientStep_send rfl rfl (fits tosend mem)] at client
      cases client
  | sent | dating | leaving => cases handler now
  | @replying past date console received tosend n split =>
      have mem : received ∈ lines := split ▸ by simp
      have moves := handler now
      rw [Session.handlerStep_reply rfl rfl (fits received mem)] at moves
      cases moves
  | @left past hpc pc console received tosend n split handlerOut clientOut =>
      have handlerDone : hpc = .done := by
        rcases handlerOut with rfl | rfl | rfl
        · cases handler now
        · cases handler now
        · rfl
      have clientDone : pc = .done := by
        rcases clientOut with rfl | rfl | rfl
        · cases client
        · cases client
        · rfl
      refine ⟨handlerDone, clientDone, rfl, rfl, typed past, typed_stays past, split, ?_⟩
      simp [answers, typed]

/-- Prompt, line and reply keep in step, whichever side moves when: one line
and at most a reply and a prompt are on their way, the sides never wait for each
other, the `k`-th reply printed answers the `k`-th line, and the session ends at
the first "Exit". -/
theorem session_lockstep (exits : exitText ∈ lines)
    (fits : ∀ l ∈ lines, utfLength l ≤ maxUtfLength) {received tosend : JString}
    (h : Reach Session.step anyStep (.start lines received tosend) s) :
    s.toServer.length ≤ 1 ∧
    (s.toClient.length ≤ 2 ∧ (s.toClient.map (·.kind)).Sublist [.reply, .prompt]) ∧
    ¬ s.Deadlocked ∧
    (∀ (k : Nat) (m : Message), s.client.replies[k]? = some m → ∃ line date, lines[k]? = some line ∧
      s.dates[k]? = some date ∧ m = ⟨toreturn line date, .reply⟩) ∧
    (∀ m ∈ s.client.prompts, m = promptMessage) ∧
    ((∀ e, s.step e = none) → s.LeftAtExit lines) := by
  have lockstep := Lockstep.reach exits fits h
  have kinds := lockstep.toClient_kinds
  have atMostTwo : s.toClient.length ≤ 2 := by simpa using kinds.length_le
  refine ⟨lockstep.toServer_length, ⟨atMostTwo, kinds⟩, lockstep.not_deadlocked, ?_,
    lockstep.prompts, lockstep.final fits⟩
  intro k m hm
  obtain ⟨past, firstLines, firstDates, printed⟩ := lockstep.replies
  obtain ⟨line, date, hline, hdate, answered⟩ := answers_getElem? (printed ▸ hm)
  exact ⟨line, date, getElem?_of_prefix firstLines hline, getElem?_of_prefix firstDates hdate,
    answered⟩

/-- A session that asks for the date and for the time, has a line echoed and leaves; the
client prints each reply after the handler has sent its next prompt. -/
def dateSession : List Event :=
  let handler := Event.handler ⟨2024, 1, 28, 13, 5, 9⟩ false
  let client := Event.client false
  let round := [client, client, client, handler, handler, handler, handler, client]
  [handler] ++ round ++ round ++ round ++
    [client, client, client, client, handler, client, handler, handler]

def dateLines : List JString := [literal "Date", literal "Time", literal "hello", literal "Exit"]

theorem session_lockstep_dateSession : ∃ s,
    run Session.step (.start dateLines [] []) dateSession = some s ∧
    s.client.replies =
      [⟨literal "2024/02/29", .reply⟩, ⟨literal "01:05:09", .reply⟩, ⟨literal "hello", .reply⟩] ∧
    ¬ s.Deadlocked ∧ s.LeftAtExit dateLines := by
  obtain ⟨s, reached⟩ : ∃ s, run Session.step (.start dateLines [] []) dateSession = some s := ⟨_, rfl⟩
  have printed : s.client.replies =
      [⟨literal "2024/02/29", .reply⟩, ⟨literal "01:05:09", .reply⟩, ⟨literal "hello", .reply⟩] := by
    obtain rfl := Option.some.inj reached
    decide
  have stuck : ∀ e, s.step e = none := by
    obtain rfl := Option.some.inj reached
    rintro (_ | _) <;> rfl
  obtain ⟨_, _, alive, _, _, leaves⟩ :=
    session_lockstep (by decide) (by decide) (reach_of_run reached)
  exact ⟨s, reached, printed, alive, leaves stuck⟩

end Program2
