import NetworksLab.ClientHandler

/-! The chat of `Jserver` and `Jclient`: two loops that each test the one
variable `line` for "Over", over the two directions of a connection. Both
consoles go on for ever. -/
namespace JavaChat
open JavaText Transition
open Program2 (writeUTF writeUTF_open)

def overKey : JString := literal "Over"

/-- The statement next to run; `readUTF` prints too, `close` stands for all that
follows the loop. -/
inductive Pc
  | test
  | readLine
  | writeUTF
  | readUTF
  | close
  | done
  deriving DecidableEq

/-- One end of the chat: `reads` counts the lines taken from its console,
`printed` are the lines received. -/
structure End where
  pc : Pc
  line : JString
  reads : Nat
  printed : List JString
  deriving DecidableEq

structure Session where
  client : End
  server : End
  toServer : List JString
  toClient : List JString
  deriving DecidableEq

def End.start : End := ⟨.test, [], 0, []⟩

def Session.start : Session := ⟨.start, .start, [], []⟩

/-- `while(!line.equals("Over"))`, with the first statement of the loop. -/
def End.test (e : End) (first : Pc) : End :=
  { e with pc := if e.line = overKey then .close else first }

/-- `line = input.readLine()`. -/
def End.readLine (e : End) (console : Nat → JString) : End :=
  { e with pc := .writeUTF, line := console e.reads, reads := e.reads + 1 }

/-- `line = in.readUTF(); System.out.println(line)`. -/
def End.readUTF (e : End) (l : JString) (next : Pc) : End :=
  { e with pc := next, line := l, printed := e.printed ++ [l] }

/-- The `catch` prints the exception and the loop goes on with its test. -/
def End.caught (e : End) : End := { e with pc := .test }

def End.closed (e : End) : Bool := e.pc = .done

/-- `noticed` tells whether a write to a closed connection fails at once. -/
inductive Event
  | client (noticed : Bool)
  | server (noticed : Bool)

/-- `Jclient`: a line of its console goes out before one comes in. -/
def Session.clientStep (lines : Nat → JString) (s : Session) (noticed : Bool) : Option Session :=
  match s.client.pc with
  | .test => some { s with client := s.client.test .readLine }
  | .readLine => some { s with client := s.client.readLine lines }
  | .writeUTF =>
      match writeUTF s.server.closed noticed s.toServer s.client.line s.client.line with
      | none => some { s with client := s.client.caught }
      | some queue => some { s with client := { s.client with pc := .readUTF }, toServer := queue }
  | .readUTF =>
      match s.toClient with
      | [] => if s.server.closed then some { s with client := s.client.caught } else none
      | l :: queue => some { s with client := s.client.readUTF l .test, toClient := queue }
  | .close => some { s with client := { s.client with pc := .done } }
  | .done => none

/-- `Jserver`: a line comes in before one of its console goes out. -/
def Session.serverStep (lines : Nat → JString) (s : Session) (noticed : Bool) : Option Session :=
  match s.server.pc with
  | .test => some { s with server := s.server.test .readUTF }
  | .readUTF =>
      match s.toServer with
      | [] => if s.client.closed then some { s with server := s.server.caught } else none
      | l :: queue => some { s with server := s.server.readUTF l .readLine, toServer := queue }
  | .readLine => some { s with server := s.server.readLine lines }
  | .writeUTF =>
      match writeUTF s.client.closed noticed s.toClient s.server.line s.server.line with
      | none => some { s with server := s.server.caught }
      | some queue => some { s with server := { s.server with pc := .test }, toClient := queue }
  | .close => some { s with server := { s.server with pc := .done } }
  | .done => none

/-- The chat of the client that types `c` with the server that types `s`. -/
def Session.step (c s : Nat → JString) (t : Session) : Event → Option Session
  | .client noticed => t.clientStep c noticed
  | .server noticed => t.serverStep s noticed

/-- Both ends are in `readUTF` with nothing to read. -/
def Session.Deadlocked (t : Session) : Prop :=
  t.client.pc = .readUTF ∧ t.server.pc = .readUTF ∧ t.toServer = [] ∧ t.toClient = []

/-- The end is out of its loop. -/
def End.Left (e : End) : Prop := e.pc = .close ∨ e.pc = .done

theorem writeUTF_long {μ : Type} {closed noticed : Bool} {queue : List μ} {text : JString} {m : μ}
    (long : ¬ Fits text) : writeUTF closed noticed queue text m = none :=
  if_pos (Nat.lt_of_not_le long)

theorem over_fits : Fits overKey := by decide

end JavaChat
