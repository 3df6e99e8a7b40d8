import NetworksLab.ClientHandlerLockstep
import NetworksLab.Parallel

/-! `Server2`: `main` and the sessions of any number of clients. A client whose
handler has not started waits for its first prompt. -/
namespace Program2
open JavaText Transition

/-- The call `main` makes next: `streams` stands for the two streams and the
thread made for an accepted client. -/
inductive MainPc
  | accept
  | streams (lines : List JString)
  | ended

/-- Clients as the lines typed at their consoles; `accepted` are those of the sessions. -/
structure Server2 where
  main : MainPc
  waiting : List (List JString)
  accepted : List (List JString)
  sessions : List Session

def Server2.init : Server2 := ⟨.accept, [], [], []⟩

/-- `failed` for a call of `main` that throws. -/
inductive ServerEvent
  | connect (lines : List JString)
  | main (failed : Bool)
  | session (k : Nat) (e : Event)

def Server2.mainStep (s : Server2) (failed : Bool) : Option Server2 :=
  match s.main with
  | .accept =>
      -- `s` is still `null` in the `catch`, and `s.close()` throws again
      if failed then some { s with main := .ended }
      else match s.waiting with
        | [] => none
        | lines :: rest => some { s with main := .streams lines, waiting := rest }
  | .streams lines =>
      if failed then some { s with main := .accept }
      else some { s with
        main := .accept
        accepted := s.accepted ++ [lines]
        sessions := s.sessions ++ [.start lines [] []] }
  | .ended => none

def Server2.step (s : Server2) : ServerEvent → Option Server2
  | .connect lines => some { s with waiting := s.waiting ++ [lines] }
  | .main failed => s.mainStep failed
  | .session k e => (Parallel.step Session.step s.sessions k e).map fun ss => { s with sessions := ss }

/-- Each session on its own. -/
def Server2.Apart (s : Server2) : Prop :=
  Parallel.Reached Session.step (fun lines => .start lines [] []) s.accepted s.sessions

variable {s t : Server2} {lines : List JString} {c d : Session} {k : Nat}

theorem Server2.Apart.step (h : s.Apart) {e : ServerEvent} (step : s.step e = some t) : t.Apart := by
  cases e with
  | connect lines => exact Option.some.inj step ▸ h
  | main failed =>
      simp only [Server2.step, mainStep] at step
      split at step
      · split at step
        · exact Option.some.inj step ▸ h
        · split at step
          · cases step
          · exact Option.some.inj step ▸ h
      · split at step
        · exact Option.some.inj step ▸ h
        · exact Option.some.inj step ▸ Parallel.Reached.concat h _
      · cases step
  | session k e =>
      obtain ⟨ss, next, rfl⟩ := Option.map_eq_some_iff.mp step
      exact Parallel.Reached.step h next

theorem Server2.apart (reached : Reach Server2.step anyStep .init s) : s.Apart :=
  reached.invariant (I := Server2.Apart) .nil fun _ _ _ h _ step => h.step step

def ClientPc.Leaves (pc : ClientPc) : Prop := pc = .exit ∨ pc = .close ∨ pc = .done

def HandlerPc.Leaves (pc : HandlerPc) : Prop := pc = .exit ∨ pc = .close ∨ pc = .done

/-- Both sides leave for an "Exit" that was typed, the client first. -/
structure Parting (lines : List JString) (c : Session) : Prop where
  console : c.console ⊆ lines
  tosend : c.client.pc = .send → c.client.tosend ∈ lines
  typed : c.client.pc.Leaves → exitText ∈ lines
  first : exitText ∈ c.toServer ∨ c.handler.pc.Leaves → c.client.pc.Leaves

theorem Parting.start : Parting lines (.start lines [] []) :=
  ⟨List.Subset.refl _, by simp [Session.start], by simp [Session.start, ClientPc.Leaves],
    by simp [Session.start, HandlerPc.Leaves]⟩

/-- The handler takes lines off its queue and leaves on an "Exit" among them. -/
structure Session.Takes (c d : Session) : Prop where
  console : d.console = c.console
  client : d.client = c.client
  toServer : d.toServer ⊆ c.toServer
  leaves : d.handler.pc.Leaves → exitText ∈ c.toServer ∨ c.handler.pc.Leaves

theorem Session.handlerStep_takes {now : Date} {noticed : Bool}
    (step : c.handlerStep now noticed = some d) : c.Takes d := by
  have stays {e : Session} (here : ¬ e.handler.pc.Leaves) (same : some e = some d)
      (console : e.console = c.console) (client : e.client = c.client)
      (toServer : e.toServer = c.toServer) : c.Takes d := by
    obtain rfl := Option.some.inj same
    exact ⟨console, client, toServer ▸ List.Subset.refl _, fun leaves => absurd leaves here⟩
  unfold Session.handlerStep at step
  cases pc : c.handler.pc with
  | prompt =>
      simp only [pc] at step
      split at step
      · exact stays (by simp [caught, HandlerPc.Leaves]) step rfl rfl rfl
      · exact stays (by simp [HandlerPc.Leaves]) step rfl rfl rfl
  | read =>
      simp only [pc] at step
      split at step
      · split at step
        · exact stays (by simp [caught, HandlerPc.Leaves]) step rfl rfl rfl
        · cases step
      · next line queue arrived =>
          obtain rfl := Option.some.inj step
          refine ⟨rfl, rfl, arrived ▸ List.subset_cons_self .., fun leaves => .inl ?_⟩
          by_cases exit : line = exitText
          · exact arrived ▸ exit ▸ List.mem_cons_self
          · simp [if_neg exit, HandlerPc.Leaves] at leaves
  | date =>
      simp only [pc] at step
      exact stays (by simp [HandlerPc.Leaves]) step rfl rfl rfl
  | reply date =>
      simp only [pc] at step
      split at step
      · exact stays (by simp [caught, HandlerPc.Leaves]) step rfl rfl rfl
      · exact stays (by simp [HandlerPc.Leaves]) step rfl rfl rfl
  | exit =>
      simp only [pc] at step
      obtain rfl := Option.some.inj step
      exact ⟨rfl, rfl, List.Subset.refl _, fun _ => .inr (.inl pc)⟩
  | close =>
      simp only [pc] at step
      obtain rfl := Option.some.inj step
      exact ⟨rfl, rfl, List.Subset.refl _, fun _ => .inr (.inr (.inl pc))⟩
  | done =>
      simp only [pc] at step
      cases step

theorem Parting.handlerStep (h : Parting lines c) {now : Date} {noticed : Bool}
    (step : c.handlerStep now noticed = some d) : Parting lines d := by
  obtain ⟨console, client, toServer, leaves⟩ := Session.handlerStep_takes step
  refine ⟨console ▸ h.console, client ▸ h.tosend, client ▸ h.typed, fun sent => client ▸ h.first ?_⟩
  exact sent.elim (fun mem => .inl (toServer mem)) leaves

/-- The client goes on as long as it has not left. -/
theorem Parting.goesOn (h : Parting lines c) (stays : ¬ c.client.pc.Leaves)
    (console : d.console ⊆ c.console) (tosend : d.client.pc = .send → d.client.tosend ∈ lines)
    (here : ¬ d.client.pc.Leaves) (toServer : d.toServer = c.toServer) (handler : d.handler = c.handler) :
    Parting lines d where
  console := fun _ mem => h.console (console mem)
  tosend := tosend
  typed := fun leaves => absurd leaves here
  first := fun sent => absurd (h.first (toServer ▸ handler ▸ sent)) stays

/-- What is left to do once the client is behind its loop. -/
theorem Parting.left (h : Parting lines c) (leaves : c.client.pc.Leaves)
    (console : d.console = c.console) (here : d.client.pc.Leaves) :
    Parting lines d where
  console := console ▸ h.console
  tosend := fun send => by rcases here with pc | pc | pc <;> cases send.symm.trans pc
  typed := fun _ => h.typed leaves
  first := fun _ => here

theorem Parting.clientStep (h : Parting lines c) {noticed : Bool}
    (step : c.clientStep noticed = some d) : Parting lines d := by
  unfold Session.clientStep at step
  cases pc : c.client.pc with
  | prompt =>
      have stays : ¬ c.client.pc.Leaves := by simp [pc, ClientPc.Leaves]
      simp only [pc] at step
      split at step
      · rw [Option.ite_none_right_eq_some] at step
        exact Option.some.inj step.2 ▸ h.goesOn stays (List.Subset.refl _) nofun
          (by simp [Session.failed, ClientPc.Leaves]) rfl rfl
      · exact Option.some.inj step ▸ h.goesOn stays (List.Subset.refl _) nofun
          (by simp [ClientPc.Leaves]) rfl rfl
  | ask =>
      have stays : ¬ c.client.pc.Leaves := by simp [pc, ClientPc.Leaves]
      simp only [pc] at step
      split at step
      · exact Option.some.inj step ▸ h.goesOn stays (List.Subset.refl _) nofun
          (by simp [Session.failed, ClientPc.Leaves]) rfl rfl
      · next line console typed =>
          have here := typed ▸ h.console
          exact Option.some.inj step ▸ h.goesOn stays (typed ▸ List.subset_cons_self ..)
            (fun _ => here List.mem_cons_self) (by simp [ClientPc.Leaves]) rfl rfl
  | send =>
      have stays : ¬ c.client.pc.Leaves := by simp [pc, ClientPc.Leaves]
      simp only [pc] at step
      split at step
      · exact Option.some.inj step ▸ h.goesOn stays (List.Subset.refl _) nofun
          (by simp [Session.failed, ClientPc.Leaves]) rfl rfl
      · next queue written =>
          have queued : queue ⊆ c.toServer ++ [c.client.tosend] := by
            unfold writeUTF at written
            split at written
            · cases written
            · split at written
              · split at written
                · cases written
                · exact Option.some.inj written ▸ List.subset_append_left ..
              · exact Option.some.inj written ▸ List.Subset.refl _
          obtain rfl := Option.some.inj step
          by_cases exit : c.client.tosend = exitText
          · exact ⟨h.console, by simp [exit], fun _ => exit ▸ h.tosend pc, fun _ => .inl (if_pos exit)⟩
          · refine ⟨h.console, by simp [exit], by simp [exit, ClientPc.Leaves], fun sent => ?_⟩
            refine absurd (h.first (sent.imp_left fun mem => ?_)) stays
            rcases List.mem_append.mp (queued mem) with old | new
            · exact old
            · exact absurd (List.mem_singleton.mp new).symm exit
  | reply =>
      have stays : ¬ c.client.pc.Leaves := by simp [pc, ClientPc.Leaves]
      simp only [pc] at step
      split at step
      · rw [Option.ite_none_right_eq_some] at step
        exact Option.some.inj step.2 ▸ h.goesOn stays (List.Subset.refl _) nofun
          (by simp [Session.failed, ClientPc.Leaves]) rfl rfl
      · exact Option.some.inj step ▸ h.goesOn stays (List.Subset.refl _) nofun
          (by simp [ClientPc.Leaves]) rfl rfl
  | exit =>
      simp only [pc] at step
      exact Option.some.inj step ▸ h.left (.inl pc) rfl (.inr (.inl rfl))
  | close =>
      simp only [pc] at step
      exact Option.some.inj step ▸ h.left (.inr (.inl pc)) rfl (.inr (.inr rfl))
  | done =>
      simp only [pc] at step
      cases step
  | failed =>
      simp only [pc] at step
      cases step

theorem Parting.step (h : Parting lines c) {e : Event} (step : c.step e = some d) : Parting lines d := by
  cases e with
  | handler now noticed => exact h.handlerStep step
  | client noticed => exact h.clientStep step

theorem Parting.reach (reached : Reach Session.step anyStep (.start lines [] []) c) : Parting lines c :=
  reached.invariant (I := Parting lines) .start fun _ _ _ h _ step => h.step step

/-- The client is gone and has not sent "Exit": nothing will end the handler's loop. -/
def Session.Abandoned (c : Session) : Prop :=
  c.client.pc = .failed ∧ exitText ∉ c.toServer ∧ ¬ c.handler.pc.Leaves

theorem Parting.abandoned (h : Parting lines c) (gone : c.client.pc = .failed) : c.Abandoned := by
  have stays : ¬ c.client.pc.Leaves := by simp [gone, ClientPc.Leaves]
  exact ⟨gone, fun sent => stays (h.first (.inl sent)), fun left => stays (h.first (.inr left))⟩

theorem Session.Abandoned.step (h : c.Abandoned) {e : Event} (step : c.step e = some d) :
    d.Abandoned := by
  obtain ⟨gone, unsent, stays⟩ := h
  cases e with
  | handler now noticed =>
      obtain ⟨_, client, toServer, leaves⟩ := Session.handlerStep_takes step
      exact ⟨client ▸ gone, fun sent => unsent (toServer sent), fun left => (leaves left).elim unsent stays⟩
  | client noticed =>
      simp only [Session.step, Session.clientStep, gone] at step
      cases step

/-- Every call of the handler returns or throws. -/
theorem Session.Abandoned.spins (h : c.Abandoned) (now : Date) (noticed : Bool) :
    ∃ d, c.handlerStep now noticed = some d := by
  obtain ⟨gone, _, stays⟩ := h
  have closed : c.client.closed = true := by simp [Client2.closed, gone]
  cases pc : c.handler.pc with
  | prompt =>
      simp only [handlerStep, pc]
      split <;> exact ⟨_, rfl⟩
  | read =>
      simp only [handlerStep, pc]
      split
      · exact ⟨_, if_pos closed⟩
      · exact ⟨_, rfl⟩
  | date =>
      simp only [handlerStep, pc]
      exact ⟨_, rfl⟩
  | reply date =>
      simp only [handlerStep, pc]
      split <;> exact ⟨_, rfl⟩
  | exit => exact absurd (.inl pc) stays
  | close => exact absurd (.inr (.inl pc)) stays
  | done => exact absurd (.inr (.inr pc)) stays

theorem Server2.abandoned_later (h : c.Abandoned) (session : s.sessions[k]? = some c)
    (later : Reach Server2.step anyStep s t) : ∃ d, t.sessions[k]? = some d ∧ d.Abandoned := by
  refine later.invariant (I := fun t => ∃ d, t.sessions[k]? = some d ∧ d.Abandoned)
    ⟨c, session, h⟩ ?_
  rintro u e v ⟨d, here, abandoned⟩ _ step
  cases e with
  | connect lines => exact Option.some.inj step ▸ ⟨d, here, abandoned⟩
  | main failed =>
      simp only [Server2.step, mainStep] at step
      split at step
      · split at step
        · exact Option.some.inj step ▸ ⟨d, here, abandoned⟩
        · split at step
          · cases step
          · exact Option.some.inj step ▸ ⟨d, here, abandoned⟩
      · split at step
        · exact Option.some.inj step ▸ ⟨d, here, abandoned⟩
        · have below := (List.getElem?_eq_some_iff.mp here).1
          exact Option.some.inj step ▸ ⟨d, (List.getElem?_append_left below).trans here, abandoned⟩
      · cases step
  | session j e =>
      obtain ⟨ss, next, rfl⟩ := Option.map_eq_some_iff.mp step
      exact Parallel.keeps next (fun _ _ h step => h.step step) here abandoned

/-- A handler leaves its loop after its client and only for an "Exit" typed there. The
handler of a client that is gone otherwise runs for ever: no later step of the server or
of another client ends it, and none of its own waits. -/
theorem spins_without_exit (reached : Reach Server2.step anyStep .init s)
    (session : s.sessions[k]? = some c) :
    (∃ lines, s.accepted[k]? = some lines ∧ (c.handler.pc.Leaves → exitText ∈ lines ∧ c.client.pc.Leaves)) ∧
    (c.client.pc = .failed → ∀ t, Reach Server2.step anyStep s t → ∃ d, t.sessions[k]? = some d ∧
      ¬ d.handler.pc.Leaves ∧ ∀ now noticed, ∃ u, t.step (.session k (.handler now noticed)) = some u) := by
  obtain ⟨lines, accepted, run⟩ := (Server2.apart reached).reach k c session
  have parting := Parting.reach run
  refine ⟨⟨lines, accepted, fun left => ?_⟩, fun gone t later => ?_⟩
  · have client := parting.first (.inr left)
    exact ⟨parting.typed client, client⟩
  · obtain ⟨d, here, abandoned⟩ := Server2.abandoned_later (parting.abandoned gone) session later
    refine ⟨d, here, abandoned.2.2, fun now noticed => ?_⟩
    obtain ⟨e, spins⟩ := abandoned.spins now noticed
    have step : d.step (.handler now noticed) = some e := spins
    rw [Server2.step, Parallel.step_of here, step]
    exact ⟨_, rfl⟩

/-- A client gone at its first prompt, and one that has three answers and leaves. -/
def twoClients : List ServerEvent :=
  [.connect [], .connect dateLines, .main false, .main false, .main false,
    .main false] ++
  (dateSession.take 3).map (.session 0) ++ dateSession.map (.session 1)

theorem spins_without_exit_twoClients : ∃ s c, run Server2.step .init twoClients = some s ∧
    s.sessions[0]? = some c ∧ c.client.pc = .failed ∧
    ∀ t, Reach Server2.step anyStep s t → ∃ d, t.sessions[0]? = some d ∧ ¬ d.handler.pc.Leaves := by
  obtain ⟨s, ran⟩ : ∃ s, run Server2.step .init twoClients = some s := ⟨_, rfl⟩
  obtain ⟨c, session, gone⟩ : ∃ c, s.sessions[0]? = some c ∧ c.client.pc = .failed := by
    obtain rfl := Option.some.inj ran
    exact ⟨_, rfl, rfl⟩
  refine ⟨s, c, ran, session, gone, fun t later => ?_⟩
  obtain ⟨d, here, stays, _⟩ := (spins_without_exit (reach_of_run ran) session).2 gone t later
  exact ⟨d, here, stays⟩

/-- Whatever becomes of the other clients, one that types "Exit" in the end, and only lines
that can be sent, has its session in step. -/
theorem sessions_lockstep (reached : Reach Server2.step anyStep .init s)
    (session : s.sessions[k]? = some c) (accepted : s.accepted[k]? = some lines)
    (exits : exitText ∈ lines) (fits : ∀ l ∈ lines, utfLength l ≤ maxUtfLength) :
    ¬ c.Deadlocked ∧
    (∀ (j : Nat) (m : Message), c.client.replies[j]? = some m → ∃ line date, lines[j]? = some line ∧
      c.dates[j]? = some date ∧ m = ⟨toreturn line date, .reply⟩) ∧
    ((∀ e, s.step (.session k e) = none) → c.LeftAtExit lines) := by
  obtain ⟨_, same, run⟩ := (Server2.apart reached).reach k c session
  obtain rfl := Option.some.inj (same.symm.trans accepted)
  have lockstep := Lockstep.reach exits fits run
  refine ⟨lockstep.not_deadlocked, fun j m printed => ?_, fun stuck => lockstep.final fits fun e => ?_⟩
  · obtain ⟨past, firstLines, firstDates, replies⟩ := lockstep.replies
    obtain ⟨line, date, hline, hdate, answered⟩ := answers_getElem? (replies ▸ printed)
    exact ⟨line, date, getElem?_of_prefix firstLines hline, getElem?_of_prefix firstDates hdate,
      answered⟩
  · have none := stuck e
    rw [Server2.step, Parallel.step_of session, Option.map_eq_none_iff, Option.map_eq_none_iff] at none
    exact none

theorem sessions_lockstep_twoClients : ∃ s c, run Server2.step .init twoClients = some s ∧
    s.sessions[1]? = some c ∧ c.LeftAtExit dateLines := by
  obtain ⟨s, ran⟩ : ∃ s, run Server2.step .init twoClients = some s := ⟨_, rfl⟩
  obtain ⟨c, session, accepted, stuck⟩ : ∃ c, s.sessions[1]? = some c ∧
      s.accepted[1]? = some dateLines ∧ ∀ e, s.step (.session 1 e) = none := by
    obtain rfl := Option.some.inj ran
    refine ⟨_, rfl, rfl, ?_⟩
    rintro (_ | _) <;> rfl
  have facts := sessions_lockstep (reach_of_run ran) session accepted (by decide) (by decide)
  exact ⟨s, c, ran, session, facts.2.2 stuck⟩

end Program2
