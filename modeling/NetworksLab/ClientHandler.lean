import NetworksLab.JavaText
import NetworksLab.Transition

/-! A session of `ClientHandler` with `Client2`: two loops over the two
directions of one connection, each a queue of `writeUTF` messages. The server
starts one handler, with formats of its own, for each connection. -/
namespace Program2
open JavaText Transition

/-- Which call of the handler wrote a message. The client cannot tell. -/
inductive Kind
  | prompt
  | reply
  deriving DecidableEq

structure Message where
  text : JString
  kind : Kind
  deriving DecidableEq

def exitText : JString := literal "Exit"

def promptMessage : Message := ⟨literal "Type Exit to terminate connection.", .prompt⟩

/-- `new SimpleDateFormat("yyyy/MM/dd")`. -/
def fordate (d : Date) : JString :=
  padded 4 d.year ++ literal "/" ++ padded 2 (d.month + 1) ++ literal "/" ++ padded 2 (d.day + 1)

/-- `new SimpleDateFormat("hh:mm:ss")`. -/
def fortime (d : Date) : JString :=
  padded 2 d.dialHour ++ literal ":" ++ padded 2 d.minute ++ literal ":" ++ padded 2 d.second

/-- The `switch` on the line received. -/
def toreturn (received : JString) (date : Date) : JString :=
  if received = literal "Date" then fordate date
  else if received = literal "Time" then fortime date
  else received

def answer (received : JString) (date : Date) : Message := ⟨toreturn received date, .reply⟩

/-- The call each side makes next; `exit` is `s.close()`, `close` what follows
the loop. -/
inductive HandlerPc
  | prompt
  | read
  | date
  | reply (date : Date)
  | exit
  | close
  | done
  deriving DecidableEq

structure ClientHandler where
  pc : HandlerPc
  received : JString
  deriving DecidableEq

/-- `failed` is behind the `catch` of `main`. -/
inductive ClientPc
  | prompt
  | ask
  | send
  | reply
  | exit
  | close
  | done
  | failed
  deriving DecidableEq

/-- `prompts` and `replies` are what the two calls of `println` in the loop have printed. -/
structure Client2 where
  pc : ClientPc
  tosend : JString
  prompts : List Message
  replies : List Message
  deriving DecidableEq

/-- `dates` are the clock readings so far. -/
structure Session where
  console : List JString
  toServer : List JString
  toClient : List Message
  handler : ClientHandler
  client : Client2
  dates : List Date
  deriving DecidableEq

/-- The session once `t.start()` has run, both loops at their first call. -/
def Session.start (lines : List JString) (received tosend : JString) : Session :=
  ⟨lines, [], [], ⟨.prompt, received⟩, ⟨.prompt, tosend, [], []⟩, []⟩

def ClientHandler.closed (h : ClientHandler) : Bool := h.pc = .close ∨ h.pc = .done

/-- The end of the process closes its socket too. -/
def Client2.closed (c : Client2) : Bool := c.pc = .close ∨ c.pc = .done ∨ c.pc = .failed

/-- `writeUTF`: the queue after it, `none` for an `IOException`. What is written
to a peer that has closed is lost, at first without notice. -/
def writeUTF {μ : Type} (closed noticed : Bool) (queue : List μ) (text : JString) (m : μ) :
    Option (List μ) :=
  if maxUtfLength < utfLength text then none
  else if closed then if noticed then none else some queue
  else some (queue ++ [m])

/-- A step of one side, with what its environment answers: the clock, and
whether a write to a peer that has closed is noticed. -/
inductive Event
  | handler (now : Date) (noticed : Bool)
  | client (noticed : Bool)

/-- The handler's `catch` prints the stack trace and the loop starts again. -/
def Session.caught (s : Session) : Session :=
  { s with handler := { s.handler with pc := .prompt } }

def Session.handlerStep (s : Session) (now : Date) (noticed : Bool) : Option Session :=
  match s.handler.pc with
  | .prompt =>
      match writeUTF s.client.closed noticed s.toClient promptMessage.text promptMessage with
      | none => some s.caught
      | some queue => some { s with toClient := queue, handler := { s.handler with pc := .read } }
  | .read =>
      match s.toServer with
      | [] => if s.client.closed then some s.caught else none
      | line :: queue => some { s with
          toServer := queue
          handler := ⟨if line = exitText then .exit else .date, line⟩ }
  | .date => some { s with handler := { s.handler with pc := .reply now }, dates := s.dates ++ [now] }
  | .reply date =>
      let m := answer s.handler.received date
      match writeUTF s.client.closed noticed s.toClient m.text m with
      | none => some s.caught
      | some queue => some { s with toClient := queue, handler := { s.handler with pc := .prompt } }
  | .exit => some { s with handler := { s.handler with pc := .close } }
  | .close => some { s with handler := { s.handler with pc := .done } }
  | .done => none

def Session.failed (s : Session) : Session := { s with client := { s.client with pc := .failed } }

/-- The handler closes only after the client, so that no client finds it closed. -/
def Session.clientStep (s : Session) (noticed : Bool) : Option Session :=
  match s.client.pc with
  | .prompt =>
      match s.toClient with
      | [] => if s.handler.closed then some s.failed else none
      | m :: queue => some { s with
          toClient := queue
          client := { s.client with pc := .ask, prompts := s.client.prompts ++ [m] } }
  | .ask =>
      match s.console with
      -- `readLine` gives `null`, on which `writeUTF` throws
      | [] => some s.failed
      | line :: lines => some { s with
          console := lines, client := { s.client with pc := .send, tosend := line } }
  | .send =>
      match writeUTF s.handler.closed noticed s.toServer s.client.tosend s.client.tosend with
      | none => some s.failed
      | some queue => some { s with
          toServer := queue
          client := { s.client with
            pc := if s.client.tosend = exitText then .exit else .reply } }
  | .reply =>
      match s.toClient with
      | [] => if s.handler.closed then some s.failed else none
      | m :: queue => some { s with
          toClient := queue
          client := { s.client with pc := .prompt, replies := s.client.replies ++ [m] } }
  | .exit => some { s with client := { s.client with pc := .close } }
  | .close => some { s with client := { s.client with pc := .done } }
  | .done => none
  | .failed => none

def Session.step (s : Session) : Event → Option Session
  | .handler now noticed => s.handlerStep now noticed
  | .client noticed => s.clientStep noticed

theorem writeUTF_open {μ : Type} {noticed : Bool} {queue : List μ} {text : JString} {m : μ}
    (fits : utfLength text ≤ maxUtfLength) :
    writeUTF false noticed queue text m = some (queue ++ [m]) := by
  simp [writeUTF, Nat.not_lt.mpr fits]

theorem fordate_fits (d : Date) : utfLength (fordate d) ≤ maxUtfLength := by
  have year : (padded 4 d.year).length ≤ 9 := padded_length_le (by decide) (by decide) (by omega)
  have month : (padded 2 (d.month + 1)).length ≤ 2 := padded_length_le (by decide) (by decide) (by omega)
  have day : (padded 2 (d.day + 1)).length ≤ 2 := padded_length_le (by decide) (by decide) (by omega)
  have bytes := utfLength_le (fordate d)
  have slash : (literal "/").length = 1 := rfl
  simp only [fordate, List.length_append, slash] at bytes
  unfold maxUtfLength
  simp only [fordate]
  omega

theorem fortime_fits (d : Date) : utfLength (fortime d) ≤ maxUtfLength := by
  have hour : (padded 2 d.dialHour).length ≤ 2 := padded_length_le (by decide) (by decide) d.dialHour_lt
  have minute : (padded 2 d.minute).length ≤ 2 := padded_length_le (by decide) (by decide) (by omega)
  have second : (padded 2 d.second).length ≤ 2 := padded_length_le (by decide) (by decide) (by omega)
  have bytes := utfLength_le (fortime d)
  have colon : (literal ":").length = 1 := rfl
  simp only [fortime, List.length_append, colon] at bytes
  unfold maxUtfLength
  simp only [fortime]
  omega

example : fortime ⟨2024, 1, 28, 0, 5, 9⟩ = literal "12:05:09" := by decide

/-- Every answer to a line that could be sent can be sent. -/
theorem toreturn_fits {received : JString} (fits : utfLength received ≤ maxUtfLength) (date : Date) :
    utfLength (toreturn received date) ≤ maxUtfLength := by
  unfold toreturn
  split
  · exact fordate_fits date
  · split
    · exact fortime_fits date
    · exact fits

theorem promptMessage_fits : utfLength promptMessage.text ≤ maxUtfLength := by
  decide

section Writes

variable {s : Session} {now : Date} {noticed : Bool}

theorem Session.handlerStep_prompt (here : s.handler.pc = .prompt)
    (peer : s.client.closed = false) :
    s.handlerStep now noticed = some { s with
      toClient := s.toClient ++ [promptMessage], handler := { s.handler with pc := .read } } := by
  rw [handlerStep, here, peer]
  simp only [writeUTF_open promptMessage_fits]

theorem Session.handlerStep_reply {date : Date} (here : s.handler.pc = .reply date)
    (peer : s.client.closed = false) (fits : utfLength s.handler.received ≤ maxUtfLength) :
    s.handlerStep now noticed = some { s with
      toClient := s.toClient ++ [answer s.handler.received date]
      handler := { s.handler with pc := .prompt } } := by
  have room : utfLength (answer s.handler.received date).text ≤ maxUtfLength :=
    toreturn_fits fits date
  rw [handlerStep, here, peer]
  simp only [writeUTF_open room]

theorem Session.clientStep_send (here : s.client.pc = .send) (peer : s.handler.closed = false)
    (fits : utfLength s.client.tosend ≤ maxUtfLength) :
    s.clientStep noticed = some { s with
      toServer := s.toServer ++ [s.client.tosend]
      client := { s.client with
        pc := if s.client.tosend = exitText then .exit else .reply } } := by
  rw [clientStep, here, peer]
  simp only [writeUTF_open fits]

end Writes

end Program2
