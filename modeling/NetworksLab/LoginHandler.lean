import NetworksLab.JavaText
import NetworksLab.Transition

/-! `ClientHandler.run` of the login server. It reads a name, then lines up to
"logout"; an exception in `readUTF` is printed and the next call made, so that
after the end of the stream the loop goes on without a line. -/
namespace Login
open JavaText Transition

def logout : JString := literal "logout"

/-- `new user <name> is connected`. -/
def announcement (name : JString) : JString :=
  literal "new user " ++ name ++ literal " is connected"

/-- `<name> : <received>`. -/
def remark (name received : JString) : JString := name ++ literal " : " ++ received

/-- The statement next to run: a new handler has no thread yet; `logout` and
`closeSocket` are the branch that leaves the loop, `close` is what follows it. -/
inductive Pc
  | new
  | name
  | receive
  | logout
  | closeSocket
  | close
  | done
  deriving DecidableEq

/-- A handler with its connection: `inbox` is what the client has sent and
nobody read, after `ended` nothing follows it. `heard` collects the messages
read, `eof` tells whether a `readUTF` has met the end of the stream. -/
structure ClientHandler where
  pc : Pc
  name : JString
  isloggedin : Bool
  socketClosed : Bool
  streamsClosed : Bool
  printed : List JString
  inbox : List JString
  ended : Bool
  heard : List JString
  eof : Bool
  deriving DecidableEq

/-- The constructor; `name` is the local variable of `run`. -/
def ClientHandler.create : ClientHandler :=
  ⟨.new, literal "unknown", true, false, false, [], [], false, [], false⟩

/-- A started handler with all of its connection's messages. -/
def ClientHandler.fed (msgs : List JString) : ClientHandler :=
  { ClientHandler.create with pc := .name, inbox := msgs, ended := true }

/-- Everything sent over the connection so far. -/
def ClientHandler.sent (h : ClientHandler) : List JString := h.heard ++ h.inbox

/-- `readUTF` with nothing left to read. -/
def ClientHandler.endOfStream (h : ClientHandler) : Option ClientHandler :=
  if h.ended then some { h with eof := true } else none

def ClientHandler.readName (h : ClientHandler) (m : JString) (rest : List JString) :
    ClientHandler :=
  { h with pc := .receive, name := m, printed := h.printed ++ [announcement m],
           inbox := rest, heard := h.heard ++ [m] }

def ClientHandler.readLine (h : ClientHandler) (m : JString) (rest : List JString) :
    ClientHandler :=
  { h with pc := if m = Login.logout then .logout else .receive,
           printed := h.printed ++ [remark h.name m], inbox := rest, heard := h.heard ++ [m] }

def ClientHandler.step (h : ClientHandler) : Option ClientHandler :=
  match h.pc with
  | .new => none
  | .name =>
      match h.inbox with
      | [] => h.endOfStream.map fun t => { t with pc := .receive }
      | m :: rest => some (h.readName m rest)
  | .receive =>
      match h.inbox with
      | [] => h.endOfStream
      | m :: rest => some (h.readLine m rest)
  | .logout => some { h with pc := .closeSocket, isloggedin := false }
  | .closeSocket => some { h with pc := .close, socketClosed := true }
  | .close => some { h with pc := .done, streamsClosed := true }
  | .done => none

/-- The thread of one handler, alone. -/
def ClientHandler.alone (h : ClientHandler) (_ : Unit) : Option ClientHandler := h.step

/-- What a handler has printed after the name and the lines. -/
def transcript (name : JString) (lines : List JString) : List JString :=
  announcement name :: lines.map (remark name)

/-- In the loop, with these lines read. -/
def ClientHandler.heardAll (name : JString) (lines inbox : List JString) (ended : Bool) :
    ClientHandler :=
  ⟨.receive, name, true, false, false, transcript name lines, inbox, ended, name :: lines, false⟩

/-- The shapes of a handler, whatever its client sends and when. -/
inductive Stage : ClientHandler → Prop
  | new (inbox : List JString) (ended : Bool) :
      Stage { ClientHandler.create with inbox := inbox, ended := ended }
  | name (inbox : List JString) (ended : Bool) :
      Stage { ClientHandler.create with pc := .name, inbox := inbox, ended := ended }
  | receive {lines : List JString} (name : JString) (inbox : List JString) (ended : Bool)
      (stays : logout ∉ lines) : Stage (.heardAll name lines inbox ended)
  | lost {h : ClientHandler} (atLoop : h.pc = .receive) (loggedin : h.isloggedin = true)
      (drained : h.inbox = []) (ended : h.ended = true) (stays : logout ∉ h.heard.tail)
      (eof : h.eof = true) : Stage h
  | left {h : ClientHandler} {lines : List JString} (name : JString) (stays : logout ∉ lines)
      (heard : h.heard = name :: (lines ++ [logout]))
      (printed : h.printed = transcript name (lines ++ [logout])) (eof : h.eof = false)
      (progress : (h.pc = .logout) ∨ (h.pc = .closeSocket ∧ h.isloggedin = false) ∨
        (h.pc = .close ∧ h.isloggedin = false ∧ h.socketClosed = true) ∨
        (h.pc = .done ∧ h.isloggedin = false ∧ h.socketClosed = true ∧ h.streamsClosed = true)) :
      Stage h

theorem transcript_append (name m : JString) (lines : List JString) :
    transcript name (lines ++ [m]) = transcript name lines ++ [remark name m] := by
  rw [transcript, transcript, List.map_append, List.map_singleton, List.cons_append]

theorem ClientHandler.readLine_heardAll {name m : JString} {lines inbox rest : List JString}
    {ended : Bool} (stays : m ≠ logout) :
    (ClientHandler.heardAll name lines inbox ended).readLine m rest =
      .heardAll name (lines ++ [m]) rest ended := by
  simp only [ClientHandler.heardAll, ClientHandler.readLine, if_neg stays, transcript_append,
    List.cons_append]

theorem ClientHandler.endOfStream_eq_some {h t : ClientHandler} :
    h.endOfStream = some t ↔ h.ended = true ∧ { h with eof := true } = t := by
  rw [ClientHandler.endOfStream, Option.ite_none_right_eq_some, Option.some.injEq]

theorem Stage.step {h t : ClientHandler} (stage : Stage h) (step : h.step = some t) : Stage t := by
  cases stage with
  | new inbox ended => cases step
  | name inbox ended =>
      cases inbox with
      | nil =>
          obtain ⟨u, waited, rfl⟩ := Option.map_eq_some_iff.mp step
          obtain ⟨last, rfl⟩ := ClientHandler.endOfStream_eq_some.mp waited
          exact .lost rfl rfl rfl last List.not_mem_nil rfl
      | cons m rest =>
          cases step
          exact .receive m rest ended List.not_mem_nil
  | @receive lines name inbox ended stays =>
      cases inbox with
      | nil =>
          obtain ⟨last, rfl⟩ := ClientHandler.endOfStream_eq_some.mp step
          exact .lost rfl rfl rfl last stays rfl
      | cons m rest =>
          cases step
          by_cases last : m = logout
          · subst last
            exact .left name stays rfl (transcript_append ..).symm rfl (.inl rfl)
          · rw [ClientHandler.readLine_heardAll last]
            apply Stage.receive
            rw [List.mem_append, List.mem_singleton]
            rintro (before | same)
            · exact stays before
            · exact last same.symm
  | lost atLoop loggedin drained ended stays eof =>
      simp only [ClientHandler.step, atLoop, drained, ClientHandler.endOfStream, ended,
        if_true, Option.some.injEq] at step
      subst step
      exact .lost rfl loggedin rfl rfl stays rfl
  | left name stays heard printed eof progress =>
      rcases progress with pc | ⟨pc, out⟩ | ⟨pc, out, socket⟩ | ⟨pc, _⟩
      · simp only [ClientHandler.step, pc, Option.some.injEq] at step
        subst step
        exact .left name stays heard printed eof (.inr (.inl ⟨rfl, rfl⟩))
      · simp only [ClientHandler.step, pc, Option.some.injEq] at step
        subst step
        exact .left name stays heard printed eof (.inr (.inr (.inl ⟨rfl, out, rfl⟩)))
      · simp only [ClientHandler.step, pc, Option.some.injEq] at step
        subst step
        exact .left name stays heard printed eof (.inr (.inr (.inr ⟨rfl, out, socket, rfl⟩)))
      · simp [ClientHandler.step, pc] at step

/-- Reading moves messages; the client alone adds to them and ends the stream. -/
theorem ClientHandler.step_connection {h t : ClientHandler} (step : h.step = some t) :
    t.sent = h.sent ∧ t.ended = h.ended := by
  unfold ClientHandler.step at step
  split at step
  · cases step
  · split at step
    next drained =>
      obtain ⟨u, ended, rfl⟩ := Option.map_eq_some_iff.mp step
      obtain ⟨_, rfl⟩ := ClientHandler.endOfStream_eq_some.mp ended
      exact ⟨rfl, rfl⟩
    next m rest queue =>
      cases step
      simp [ClientHandler.sent, ClientHandler.readName, queue]
  · split at step
    next drained =>
      obtain ⟨_, rfl⟩ := ClientHandler.endOfStream_eq_some.mp step
      exact ⟨rfl, rfl⟩
    next m rest queue =>
      cases step
      simp [ClientHandler.sent, ClientHandler.readLine, queue]
  · cases step; exact ⟨rfl, rfl⟩
  · cases step; exact ⟨rfl, rfl⟩
  · cases step; exact ⟨rfl, rfl⟩
  · cases step

/-- The thread has left its loop through the branch for "logout". -/
structure ClientHandler.LoggedOut (h : ClientHandler) : Prop where
  returned : h.pc = .done
  loggedOut : h.isloggedin = false
  socket : h.socketClosed = true
  streams : h.streamsClosed = true

theorem Stage.done {h : ClientHandler} (stage : Stage h) (done : h.pc = .done) :
    h.LoggedOut ∧ logout ∈ h.heard.tail := by
  cases stage with
  | new => cases done
  | name => cases done
  | receive => cases done
  | lost atLoop =>
      rw [atLoop] at done
      cases done
  | left name stays heard printed eof progress =>
      have keyword : logout ∈ h.heard.tail := by
        rw [heard]
        exact List.mem_append_right _ List.mem_cons_self
      rcases progress with pc | ⟨pc, _⟩ | ⟨pc, _⟩ | ⟨pc, out, socket, streams⟩
      · rw [pc] at done; cases done
      · rw [pc] at done; cases done
      · rw [pc] at done; cases done
      · exact ⟨⟨pc, out, socket, streams⟩, keyword⟩

/-- The keyword after the name ends the loop, with what was read printed. -/
theorem heardAll_reaches {rest : List JString} (name : JString) (lines more : List JString)
    (ended : Bool)
    (stays : logout ∉ rest) :
    ∃ t, Reach ClientHandler.alone anyStep
        (.heardAll name lines (rest ++ logout :: more) ended) t ∧ t.LoggedOut ∧
      t.printed = transcript name (lines ++ rest ++ [logout]) := by
  induction rest generalizing lines with
  | nil =>
      have branch : run ClientHandler.alone (.heardAll name lines (logout :: more) ended)
          [(), (), (), ()] = some ⟨.done, name, false, true, true,
            transcript name lines ++ [remark name logout], more, ended,
            name :: lines ++ [logout], false⟩ := rfl
      refine ⟨_, reach_of_run branch, ⟨rfl, rfl, rfl, rfl⟩, ?_⟩
      rw [List.append_nil, transcript_append]
  | cons m rest ih =>
      have other : m ≠ logout := fun same => stays (same ▸ List.mem_cons_self)
      have later : logout ∉ rest := fun mem => stays (List.mem_cons_of_mem m mem)
      obtain ⟨t, reached, out, printed⟩ := ih (lines ++ [m]) later
      have line : ClientHandler.alone (.heardAll name lines (m :: rest ++ logout :: more) ended) () =
          some (.heardAll name (lines ++ [m]) (rest ++ logout :: more) ended) :=
        congrArg some (ClientHandler.readLine_heardAll other)
      refine ⟨t, (Reach.single trivial line).trans reached, out, ?_⟩
      rw [printed, List.append_assoc lines [m] rest, List.singleton_append]

theorem fed_reaches {rest : List JString} (name : JString) (more : List JString)
    (stays : logout ∉ rest) :
    ∃ t, Reach ClientHandler.alone anyStep (.fed (name :: rest ++ logout :: more)) t ∧
      t.LoggedOut ∧ t.printed = transcript name (rest ++ [logout]) := by
  obtain ⟨t, reached, out, printed⟩ :=
    heardAll_reaches name [] more true stays
  have first : ClientHandler.alone (.fed (name :: rest ++ logout :: more)) () =
      some (.heardAll name [] (rest ++ logout :: more) true) := rfl
  exact ⟨t, (Reach.single trivial first).trans reached, out, printed⟩

theorem fed_reach {msgs : List JString} {t : ClientHandler}
    (reached : Reach ClientHandler.alone anyStep (.fed msgs) t) : Stage t ∧ t.sent = msgs := by
  apply reached.invariant (I := fun u => Stage u ∧ u.sent = msgs)
    ⟨.name msgs true, List.nil_append msgs⟩
  rintro t e u ⟨stage, sent⟩ _ step
  exact ⟨stage.step step, (ClientHandler.step_connection step).1.trans sent⟩

/-- On messages followed by the end of the stream `run` returns exactly when one
after the name is "logout". -/
theorem fed_returns_iff (msgs : List JString) :
    (∃ t, Reach ClientHandler.alone anyStep (.fed msgs) t ∧ t.pc = .done) ↔
      logout ∈ msgs.tail := by
  constructor
  · rintro ⟨t, reached, done⟩
    obtain ⟨stage, sent⟩ := fed_reach reached
    have heard : t.heard.tail ⊆ msgs.tail := by
      rw [← sent, ClientHandler.sent]
      cases t.heard with
      | nil => exact List.nil_subset _
      | cons n lines => exact List.subset_append_left lines t.inbox
    exact heard (stage.done done).2
  · intro keyword
    cases msgs with
    | nil => cases keyword
    | cons name lines =>
        obtain ⟨rest, more, split, stays⟩ := List.eq_append_cons_of_mem keyword
        obtain ⟨t, reached, out, _⟩ := fed_reaches name more stays
        rw [List.tail_cons] at split
        rw [List.cons_append, ← split] at reached
        exact ⟨t, reached, out.returned⟩

end Login
