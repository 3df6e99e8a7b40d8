import NetworksLab.CString
import NetworksLab.Transition

/-! One end of a chat: the threads `hear` and `talk` and the flags they share.
Every read or write of `END_COM`, `TALK` and `HEAR`, every `fgets`, `send`,
`recv` and `printf` is a step of its own; the `strncmp` tests touch only the
thread's own buffer and belong to the step before them. -/
namespace Chat
open CString

def bufferLen : Nat := 256

/-- `#END` signals end of communication. -/
def endKey : Bytes := ascii "#END"

inductive HearPc
  | test | recv | setEnd | print | setHear | done
  deriving DecidableEq, Repr

inductive TalkPc
  | test | fgets | send | setEnd | setTalk | done
  deriving DecidableEq, Repr

/-- The stack of `hear`, with what `recv` has stored and what `printf` was
given. A printed entry is `none` where `%s` ran past the buffer. -/
structure HearThread where
  pc : HearPc := .test
  buffer : Bytes
  heard : List Bytes := []
  printed : List (Option Bytes) := []
  deriving DecidableEq, Repr

/-- The stack of `talk`, with the lines `fgets` returned and the frames sent. -/
structure TalkThread where
  pc : TalkPc := .test
  buffer : Bytes
  typed : List Bytes := []
  sent : List Bytes := []
  deriving DecidableEq, Repr

/-- The globals `END_COM`, `HEAR` and `TALK`, and the two threads. -/
structure End where
  endCom : Bool := false
  hear : Bool := true
  talk : Bool := true
  hearing : HearThread
  talking : TalkThread
  deriving DecidableEq, Repr

/-- Both threads created; the buffers on their stacks hold anything. -/
def End.start (hearBuffer talkBuffer : Bytes) : End where
  hearing := { buffer := hearBuffer }
  talking := { buffer := talkBuffer }

/-- The next statement of one thread. What `recv` stored and what `fgets`
returned come from outside; a failing `recv` stores nothing, and a `fgets`
that returns NULL leaves its buffer alone. -/
inductive Tick
  | hear
  | recv (got : Bytes)
  | talk
  | fgets (line : Option Bytes)
  deriving DecidableEq, Repr

def HearThread.output (label : Bytes) (h : HearThread) : Option Bytes :=
  (read h.buffer).map (label ++ ·)

def HearThread.recv (h : HearThread) (got : Bytes) : HearThread :=
  let buffer := store h.buffer got
  { h with
    buffer, heard := h.heard ++ [got],
    pc := if startsWith buffer endKey then .setEnd else .print }

def HearThread.print (label : Bytes) (h : HearThread) : HearThread :=
  { h with printed := h.printed ++ [h.output label], pc := .test }

def TalkThread.fgets (t : TalkThread) : Option Bytes → TalkThread
  | none => { t with pc := .send }
  | some line => { t with
      buffer := store t.buffer (line ++ [0]), typed := t.typed ++ [line], pc := .send }

def TalkThread.send (t : TalkThread) : TalkThread :=
  { t with
    sent := t.sent ++ [t.buffer],
    pc := if startsWith t.buffer endKey then .setEnd else .test }

theorem TalkThread.send_pc_ne (t : TalkThread) : t.send.pc ≠ .send := by
  unfold TalkThread.send
  split <;> simp

/-- `hear` with `printf` given `label` in front of the buffer. -/
def End.hearStep (label : Bytes) (s : End) : Option End :=
  match s.hearing.pc with
  | .test => some { s with
      hearing := { s.hearing with pc := if s.endCom then .setHear else .recv } }
  | .setEnd => some { s with endCom := true, hearing := { s.hearing with pc := .print } }
  | .print => some { s with hearing := s.hearing.print label }
  | .setHear => some { s with hear := false, hearing := { s.hearing with pc := .done } }
  | .recv | .done => none

def End.recvStep (s : End) (got : Bytes) : Option End :=
  if s.hearing.pc = .recv ∧ got.length ≤ bufferLen then
    some { s with hearing := s.hearing.recv got }
  else none

def End.talkStep (s : End) : Option End :=
  match s.talking.pc with
  | .test => some { s with
      talking := { s.talking with pc := if s.endCom then .setTalk else .fgets } }
  | .send => some { s with talking := s.talking.send }
  | .setEnd => some { s with endCom := true, talking := { s.talking with pc := .test } }
  | .setTalk => some { s with talk := false, talking := { s.talking with pc := .done } }
  | .fgets | .done => none

/-- A line that `fgets(buffer, BUFFER_LEN, stdin)` can return, or NULL. -/
def fgetsReturns : Option Bytes → Prop
  | none => True
  | some line => line ≠ [] ∧ line.length < bufferLen

instance (line : Option Bytes) : Decidable (fgetsReturns line) :=
  match line with
  | none => isTrue trivial
  | some _ => inferInstanceAs (Decidable (_ ∧ _))

def End.fgetsStep (s : End) (line : Option Bytes) : Option End :=
  if s.talking.pc = .fgets ∧ fgetsReturns line then
    some { s with talking := s.talking.fgets line }
  else none

def End.step (label : Bytes) (s : End) : Tick → Option End
  | .hear => s.hearStep label
  | .recv got => s.recvStep got
  | .talk => s.talkStep
  | .fgets line => s.fgetsStep line

/-- Everything a step of an end can do. -/
inductive End.Move (label : Bytes) (s : End) : Tick → End → Prop
  | listen (pc : s.hearing.pc = .test) (running : s.endCom = false) :
      Move label s .hear { s with hearing := { s.hearing with pc := .recv } }
  | stopHearing (pc : s.hearing.pc = .test) (ended : s.endCom = true) :
      Move label s .hear { s with hearing := { s.hearing with pc := .setHear } }
  | recv {got} (pc : s.hearing.pc = .recv) (fits : got.length ≤ bufferLen) :
      Move label s (.recv got) { s with hearing := s.hearing.recv got }
  | hearEnd (pc : s.hearing.pc = .setEnd) :
      Move label s .hear { s with endCom := true, hearing := { s.hearing with pc := .print } }
  | print (pc : s.hearing.pc = .print) :
      Move label s .hear { s with hearing := s.hearing.print label }
  | clearHear (pc : s.hearing.pc = .setHear) :
      Move label s .hear { s with hear := false, hearing := { s.hearing with pc := .done } }
  | ask (pc : s.talking.pc = .test) (running : s.endCom = false) :
      Move label s .talk { s with talking := { s.talking with pc := .fgets } }
  | stopTalking (pc : s.talking.pc = .test) (ended : s.endCom = true) :
      Move label s .talk { s with talking := { s.talking with pc := .setTalk } }
  | fgets {line} (pc : s.talking.pc = .fgets) (returns : fgetsReturns line) :
      Move label s (.fgets line) { s with talking := s.talking.fgets line }
  | send (pc : s.talking.pc = .send) : Move label s .talk { s with talking := s.talking.send }
  | talkEnd (pc : s.talking.pc = .setEnd) :
      Move label s .talk { s with endCom := true, talking := { s.talking with pc := .test } }
  | clearTalk (pc : s.talking.pc = .setTalk) :
      Move label s .talk { s with talk := false, talking := { s.talking with pc := .done } }

theorem End.hearStep_move {label : Bytes} {s t : End} (h : s.hearStep label = some t) :
    Move label s .hear t := by
  unfold hearStep at h
  cases pc : s.hearing.pc <;> simp only [pc, reduceCtorEq, Option.some.injEq] at h <;> subst h
  case test =>
    split
    · next ended => exact .stopHearing pc ended
    · next running => exact .listen pc (Bool.eq_false_iff.mpr running)
  case setEnd => exact .hearEnd pc
  case print => exact .print pc
  case setHear => exact .clearHear pc

theorem End.talkStep_move {label : Bytes} {s t : End} (h : s.talkStep = some t) :
    Move label s .talk t := by
  unfold talkStep at h
  cases pc : s.talking.pc <;> simp only [pc, reduceCtorEq, Option.some.injEq] at h <;> subst h
  case test =>
    split
    · next ended => exact .stopTalking pc ended
    · next running => exact .ask pc (Bool.eq_false_iff.mpr running)
  case send => exact .send pc
  case setEnd => exact .talkEnd pc
  case setTalk => exact .clearTalk pc

theorem End.step_move {label : Bytes} {s t : End} {tick : Tick}
    (h : s.step label tick = some t) : Move label s tick t := by
  cases tick with
  | hear => exact hearStep_move h
  | talk => exact talkStep_move h
  | recv got =>
      simp only [step, recvStep, Option.ite_none_right_eq_some, Option.some.injEq] at h
      exact h.2 ▸ .recv h.1.1 h.1.2
  | fgets line =>
      simp only [step, fgetsStep, Option.ite_none_right_eq_some, Option.some.injEq] at h
      exact h.2 ▸ .fgets h.1.1 h.1.2

/-- `END_COM` is never written back to 0. -/
theorem End.Move.endCom_mono {label : Bytes} {s t : End} {tick : Tick}
    (move : Move label s tick t) (ended : s.endCom = true) : t.endCom = true := by
  cases move <;> first | exact ended | rfl

/-- Only `talk` writes to the connection, and only at its `send`. -/
theorem End.Move.sent_eq {label : Bytes} {s t : End} {tick : Tick}
    (move : Move label s tick t) :
    t.talking.sent = s.talking.sent ∨
      s.talking.pc = .send ∧ t = { s with talking := s.talking.send } := by
  cases move with
  | send pc => exact .inr ⟨pc, rfl⟩
  | @fgets line _ _ => cases line <;> exact .inl rfl
  | _ => exact .inl rfl

end Chat
