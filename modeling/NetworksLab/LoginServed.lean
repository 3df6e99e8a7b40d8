import NetworksLab.LoginServer
import NetworksLab.Segments

/-! What the login server prints for one client among the others. Each handler writes
the transcript of its own connection, and never past the "logout" in it; until then it
can always be brought to an end, whatever the other clients do. -/
namespace Login
open JavaText Transition

/-- What a handler prints for these messages: nothing before the name. -/
def shown : List JString → List JString
  | [] => []
  | name :: lines => transcript name lines

variable {h g : ClientHandler} {s t : Server} {k : Nat} {name : JString} {lines more : List JString}

theorem Stage.showing (stage : Stage h) (printed : h.printed = shown h.heard)
    (step : h.step = some g) : g.printed = shown g.heard := by
  cases stage with
  | new inbox ended => cases step
  | name inbox ended =>
      cases inbox with
      | nil =>
          obtain ⟨u, waited, rfl⟩ := Option.map_eq_some_iff.mp step
          obtain ⟨_, rfl⟩ := ClientHandler.endOfStream_eq_some.mp waited
          rfl
      | cons m rest =>
          cases step
          rfl
  | @receive lines name inbox ended stays =>
      cases inbox with
      | nil =>
          obtain ⟨_, rfl⟩ := ClientHandler.endOfStream_eq_some.mp step
          rfl
      | cons m rest =>
          cases step
          exact (transcript_append name m lines).symm
  | lost atLoop loggedin drained ended =>
      simp only [ClientHandler.step, atLoop, drained, ClientHandler.endOfStream, ended, if_true,
        Option.some.injEq] at step
      subst step
      exact printed
  | left name stays heard _ eof progress =>
      rcases progress with pc | ⟨pc, _⟩ | ⟨pc, _⟩ | ⟨pc, _⟩
      · simp only [ClientHandler.step, pc, Option.some.injEq] at step
        exact step ▸ printed
      · simp only [ClientHandler.step, pc, Option.some.injEq] at step
        exact step ▸ printed
      · simp only [ClientHandler.step, pc, Option.some.injEq] at step
        exact step ▸ printed
      · simp [ClientHandler.step, pc] at step

theorem showing (reached : Reach Server.step anyStep .init s) :
    ∀ h ∈ s.ar, Stage h ∧ h.printed = shown h.heard := by
  apply reached.invariant (I := fun u => ∀ h ∈ u.ar, Stage h ∧ h.printed = shown h.heard) nofun
  intro t e u all _ step
  refine Server.step_forall all step ⟨.new [] false, rfl⟩ ?_ ?_ ?_ ?_
  · rintro h g ⟨stage, printed⟩ start
    refine ⟨stage.start start, ?_⟩
    rw [← Option.some.inj (Option.ite_none_right_eq_some.mp start).2]
    exact printed
  · rintro line h g ⟨stage, printed⟩ message
    refine ⟨stage.receives message, ?_⟩
    rw [← Option.some.inj (Option.ite_none_left_eq_some.mp message).2]
    exact printed
  · rintro _ h g _ _ ⟨stage, printed⟩ hangup
    refine ⟨stage.hangsUp hangup, ?_⟩
    rw [← Option.some.inj (Option.ite_none_left_eq_some.mp hangup).2]
    exact printed
  · rintro h g ⟨stage, printed⟩ step
    exact ⟨stage.step step, stage.showing printed step⟩

/-- Only the last line read can be the keyword; with it the client is logged out. -/
theorem Stage.keyword_last (stage : Stage h) :
    logout ∉ h.heard.tail.dropLast ∧ (h.isloggedin = false → logout ∈ h.heard.tail) := by
  have last {lines : List JString} (stays : logout ∉ lines) : logout ∉ lines.dropLast :=
    fun mem => stays (List.dropLast_subset _ mem)
  cases stage with
  | new | name => exact ⟨List.not_mem_nil, nofun⟩
  | receive name inbox ended stays => exact ⟨last stays, nofun⟩
  | lost atLoop loggedin drained ended stays => exact ⟨last stays, by simp [loggedin]⟩
  | left name stays heard =>
      rw [heard, List.tail_cons, List.dropLast_concat]
      exact ⟨stays, fun _ => by simp⟩

/-- A handler in the branch for "logout" gets through it. -/
theorem leaves (pc : h.pc = .logout ∨ (h.pc = .closeSocket ∧ h.isloggedin = false) ∨
      (h.pc = .close ∧ h.isloggedin = false ∧ h.socketClosed = true) ∨
      (h.pc = .done ∧ h.isloggedin = false ∧ h.socketClosed = true ∧ h.streamsClosed = true)) :
    ∃ g, Reach ClientHandler.alone anyStep h g ∧ g.LoggedOut ∧ g.printed = h.printed := by
  obtain ⟨pc', name, isloggedin, socketClosed, streamsClosed, printed, inbox, ended, heard, eof⟩ := h
  have left : ClientHandler.LoggedOut ⟨.done, name, false, true, true, printed, inbox, ended, heard, eof⟩ :=
    ⟨rfl, rfl, rfl, rfl⟩
  have closed : Reach ClientHandler.alone anyStep
      ⟨.close, name, false, true, streamsClosed, printed, inbox, ended, heard, eof⟩
      ⟨.done, name, false, true, true, printed, inbox, ended, heard, eof⟩ := .single (e := ()) trivial rfl
  have closing : Reach ClientHandler.alone anyStep
      ⟨.closeSocket, name, false, socketClosed, streamsClosed, printed, inbox, ended, heard, eof⟩
      ⟨.done, name, false, true, true, printed, inbox, ended, heard, eof⟩ :=
    Reach.trans (.single (e := ()) trivial rfl) closed
  rcases pc with rfl | ⟨rfl, rfl⟩ | ⟨rfl, rfl, rfl⟩ | ⟨rfl, rfl, rfl, rfl⟩
  · exact ⟨_, Reach.trans (.single (e := ()) trivial rfl) closing, left, rfl⟩
  · exact ⟨_, closing, left, rfl⟩
  · exact ⟨_, closed, left, rfl⟩
  · exact ⟨_, .refl, left, rfl⟩

/-- From any stage a started thread can read on to the keyword. -/
theorem Stage.serves (stage : Stage h) (started : h.pc ≠ .new)
    (sent : h.sent = name :: (lines ++ logout :: more)) (stays : logout ∉ lines) :
    ∃ g, Reach ClientHandler.alone anyStep h g ∧ g.LoggedOut ∧
      g.printed = transcript name (lines ++ [logout]) := by
  cases stage with
  | new => exact absurd rfl started
  | name inbox ended =>
      obtain rfl : inbox = name :: (lines ++ logout :: more) := sent
      obtain ⟨g, reached, out, printed⟩ := heardAll_reaches name [] more ended stays
      have first : ClientHandler.alone { ClientHandler.create with
          pc := .name, inbox := name :: (lines ++ logout :: more), ended := ended } () =
          some (.heardAll name [] (lines ++ logout :: more) ended) := rfl
      exact ⟨g, (Reach.single trivial first).trans reached, out, printed⟩
  | @receive before user inbox ended unread =>
      obtain ⟨rfl, rest⟩ := List.cons.inj sent
      have queue : before ++ inbox = lines ++ logout :: more := rest
      have keyword : logout ∈ inbox := by
        have mem : logout ∈ before ++ inbox := by simp [queue]
        exact (List.mem_append.mp mem).resolve_left unread
      obtain ⟨rest, later, rfl, first⟩ := List.eq_append_cons_of_mem keyword
      rw [← List.append_assoc] at queue
      obtain ⟨rfl, rfl⟩ := Segments.append_cons_inj (by simp [unread, first]) stays queue
      exact heardAll_reaches user before later ended first
  | lost atLoop loggedin drained ended unread =>
      rw [ClientHandler.sent, drained, List.append_nil] at sent
      simp [sent] at unread
  | @left _ before user unread heard printed eof progress =>
      rw [ClientHandler.sent, heard, List.cons_append, List.append_assoc] at sent
      obtain ⟨rfl, queue⟩ := List.cons.inj sent
      obtain ⟨rfl, _⟩ := Segments.append_cons_inj unread stays queue
      obtain ⟨g, reached, out, same⟩ := leaves progress
      exact ⟨g, reached, out, same.trans printed⟩

/-- Each handler prints the transcript of its own connection and stops at the first
"logout" after the name; once that has been sent, it can get there and leave, and no other
handler has to move. -/
theorem served_alone (reached : Reach Server.step anyStep .init s) (here : s.ar[k]? = some h) :
    h.printed = shown h.heard ∧ logout ∉ h.heard.tail.dropLast ∧
      (h.isloggedin = false → logout ∈ h.heard.tail) ∧
      ∀ name lines more, h.sent = name :: (lines ++ logout :: more) → logout ∉ lines →
        ∃ t g, Reach Server.step anyStep s t ∧ t.ar = s.ar.set k g ∧ g.LoggedOut ∧
          g.printed = transcript name (lines ++ [logout]) := by
  obtain ⟨stage, printed⟩ := showing reached h (List.mem_of_getElem? here)
  obtain ⟨last, out⟩ := stage.keyword_last
  refine ⟨printed, last, out, fun name lines more sent stays => ?_⟩
  by_cases new : h.pc = .new
  · have start := (fresh reached).starts here new
    have started : Stage { h with pc := .name } := stage.start (if_pos new)
    obtain ⟨g, alone, left, shows⟩ := started.serves nofun sent stays
    have at_k := Slots.get_set (b := { h with pc := .name }) here
    refine ⟨_, g, (Reach.single trivial start).trans (Server.reach_handler at_k alone), ?_, left, shows⟩
    rw [List.set_set]
  · obtain ⟨g, alone, left, shows⟩ := stage.serves new sent stays
    exact ⟨_, g, Server.reach_handler here alone, rfl, left, shows⟩

/-- Bob's handler has read his name; another client is about to be added. -/
def bobWaits : List Event :=
  [.main, .main, .main, .message 0 (literal "bob"), .message 0 (literal "hi"), .handler 0, .main,
    .message 0 logout]

theorem served_alone_bob : ∃ s t g, run Server.step .init bobWaits = some s ∧
    Reach Server.step anyStep s t ∧ t.ar = [g] ∧ g.LoggedOut ∧
    g.printed = transcript (literal "bob") [literal "hi", logout] := by
  obtain ⟨s, h, ran, ar, sent⟩ : ∃ s h, run Server.step .init bobWaits = some s ∧ s.ar = [h] ∧
      h.sent = literal "bob" :: ([literal "hi"] ++ logout :: []) := ⟨_, _, rfl, rfl, rfl⟩
  have here : s.ar[0]? = some h := by rw [ar]; rfl
  obtain ⟨_, _, _, serves⟩ := served_alone (reach_of_run ran) here
  obtain ⟨t, g, reached, one, out, printed⟩ := serves _ _ _ sent (by decide)
  rw [ar] at one
  exact ⟨s, t, g, ran, reached, one, out, printed⟩

end Login
