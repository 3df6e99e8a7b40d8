import NetworksLab.ChatThreads

/-! The group-chat server: the accept loop of `main`, one `hear_all` thread for
each connection, and the table, counter and mutex they share. A statement that
reads or writes shared memory or a socket is a step; so is each iteration of
the loop in `shout`. Where C gives a statement no meaning the party that
reached it stops at `wild`. -/
namespace GroupChat
open CString Transition
open Chat (bufferLen)

def maxNumClient : Nat := 10

structure Client where
  id : Nat
  sockfd : Nat
  deriving DecidableEq, Repr

inductive MainPc
  | accept | setSockfd | setId | greet | create | incr | wild
  deriving DecidableEq, Repr

/-- `shout i msg` is the loop of `shout` at the check of `i < client_id`. -/
inductive HearAllPc
  | loadSockfd | loadId | recv | lock | shout (i : Nat) (msg : Bytes) | unlock | wild
  deriving DecidableEq, Repr

/-- A `hear_all` thread: the slot its argument points at, its locals, what
`recv` has stored for it, and whether `recv` has returned 0. -/
structure HearAll where
  cli : Nat
  sockfd : Nat := 0
  id : Nat := 0
  buffer : Bytes
  pc : HearAllPc := .loadSockfd
  received : List Bytes := []
  eof : Bool := false
  deriving DecidableEq, Repr

/-- A shout: the socket the text came from, the id it is given, the text. -/
structure Entry where
  sockfd : Nat
  sender : Nat
  text : Bytes
  deriving DecidableEq, Repr

/-- `accepted` lists the sockets in accept order, `sends` every `send` call,
`log` every shout in the order in which the mutex was taken. -/
structure Server where
  clients : List Client
  clientId : Nat
  mainPc : MainPc
  newsockfd : Nat
  threads : List HearAll
  shouting : Option Nat
  exited : Bool
  accepted : List Nat
  sends : List (Nat × Bytes)
  log : List Entry
  deriving DecidableEq, Repr

def Server.start : Server where
  clients := List.replicate maxNumClient ⟨0, 0⟩
  clientId := 0
  mainPc := .accept
  newsockfd := 0
  threads := []
  shouting := none
  exited := false
  accepted := []
  sends := []
  log := []

/-- The text `"CLIENT%d: %s"` is formatted to. -/
def labelled (id : Nat) (text : Bytes) : Bytes :=
  ascii "CLIENT" ++ decimal id ++ ascii ": " ++ text

/-- The `strlen(buffer)+10` bytes of `msg` that `shout` sends. -/
def shoutFrame (id : Nat) (text : Bytes) : Bytes :=
  snprintf (zeros (text.length + 10)) (labelled id text)

theorem labelled_length {id : Nat} (small : id < maxNumClient) (t : Bytes) :
    (labelled id t).length = t.length + 9 := by
  simp only [labelled, List.length_append, decimal_length_one small,
    show (ascii "CLIENT").length = 6 from rfl, show (ascii ": ").length = 2 from rfl]
  omega

theorem shoutFrame_eq {id : Nat} (small : id < maxNumClient) (t : Bytes) :
    shoutFrame id t = labelled id t ++ [0] := by
  have size := labelled_length small t
  rw [shoutFrame, snprintf_zeros (by omega), size, Nat.add_sub_add_left]
  rfl

def Entry.frame (e : Entry) : Bytes := shoutFrame e.sender e.text

/-- What `snprintf(auth, BUFFER_LEN, ...)` leaves in front of its NUL. -/
def greeting (id : Nat) : Bytes :=
  (ascii "You are Client" ++ decimal id ++ ascii "\n").take (bufferLen - 1)

inductive Event
  | accept (fd : Option Nat)
  | main
  | create (stack : Bytes)
  | recv (k : Nat) (got : Option Bytes)
  | thread (k : Nat)
  deriving DecidableEq, Repr

def Server.put (s : Server) (k : Nat) (th : HearAll) : Server :=
  { s with threads := s.threads.set k th }

/-- `accept` gives a descriptor that no open connection has; the server closes
none. Its failure ends the process. -/
def Server.acceptStep (s : Server) : Option Nat → Option Server
  | none => if s.mainPc = .accept then some { s with exited := true } else none
  | some fd =>
      if s.mainPc = .accept ∧ fd ∉ s.accepted then
        some { s with newsockfd := fd, accepted := s.accepted ++ [fd], mainPc := .setSockfd }
      else none

/-- The statements of the accept loop from `clients[client_id].sockfd = ...` on. -/
def Server.mainStep (s : Server) : Option Server :=
  match s.mainPc with
  | .setSockfd => some (
      match s.clients[s.clientId]? with
      | none => { s with mainPc := .wild }
      | some c => { s with
          clients := s.clients.set s.clientId { c with sockfd := s.newsockfd }, mainPc := .setId })
  | .setId => some (
      match s.clients[s.clientId]? with
      | none => { s with mainPc := .wild }
      | some c => { s with
          clients := s.clients.set s.clientId { c with id := s.clientId }, mainPc := .greet })
  | .greet => some { s with
      sends := s.sends ++ [(s.newsockfd, greeting s.clientId)], mainPc := .create }
  | .incr => some { s with clientId := s.clientId + 1, mainPc := .accept }
  | .accept | .create | .wild => none

/-- `pthread_create` with `&clients[client_id]`; the new stack holds anything. -/
def Server.createStep (s : Server) (stack : Bytes) : Option Server :=
  if s.mainPc = .create ∧ stack.length = bufferLen then
    some { s with
      threads := s.threads ++ [{ cli := s.clientId, buffer := stack }], mainPc := .incr }
  else none

/-- `recv` of thread `k`. It returns 0 from the first 0 on; -1 ends the process. -/
def Server.recvStep (s : Server) (k : Nat) : Option Bytes → Option Server
  | none => match s.threads[k]? with
      | some th => if th.pc = .recv then some { s with exited := true } else none
      | none => none
  | some got => match s.threads[k]? with
      | some th =>
          if th.pc = .recv ∧ got.length ≤ bufferLen ∧ (th.eof = true → got = []) then
            some (s.put k { th with
              buffer := store th.buffer got, received := th.received ++ [got],
              eof := th.eof || got.isEmpty, pc := .lock })
          else none
      | none => none

/-- One iteration of the loop in `shout`. -/
def Server.shoutStep (s : Server) (k : Nat) (th : HearAll) (i : Nat) (msg : Bytes) : Server :=
  if i < s.clientId then
    if i ≠ th.id then
      match s.clients[i]? with
      | none => s.put k { th with pc := .wild }
      | some c =>
          let filled := snprintf msg (labelled th.id (text th.buffer))
          { s.put k { th with pc := .shout (i + 1) (zeros msg.length) } with
            sends := s.sends ++ [(c.sockfd, filled)] }
    else s.put k { th with pc := .shout (i + 1) msg }
  else s.put k { th with pc := .unlock }

/-- The other statements of thread `k`. -/
def Server.threadStep (s : Server) (k : Nat) : Option Server :=
  match s.threads[k]? with
  | none => none
  | some th =>
      match th.pc with
      | .loadSockfd => some (s.put k (
          match s.clients[th.cli]? with
          | none => { th with pc := .wild }
          | some c => { th with sockfd := c.sockfd, pc := .loadId }))
      | .loadId => some (s.put k (
          match s.clients[th.cli]? with
          | none => { th with pc := .wild }
          | some c => { th with id := c.id, pc := .recv }))
      | .lock =>
          if s.shouting = none then
            match read th.buffer with
            | none => some { s.put k { th with pc := .wild } with shouting := some k }
            | some t => some { s.put k { th with pc := .shout 0 (zeros (t.length + 10)) } with
                shouting := some k, log := s.log ++ [⟨th.sockfd, th.id, t⟩] }
          else none
      | .shout i msg => some (s.shoutStep k th i msg)
      | .unlock => some { s.put k { th with pc := .recv } with shouting := none }
      | .recv | .wild => none

def Server.step (s : Server) (e : Event) : Option Server :=
  if s.exited then none else
    match e with
    | .accept fd => s.acceptStep fd
    | .main => s.mainStep
    | .create stack => s.createStep stack
    | .recv k got => s.recvStep k got
    | .thread k => s.threadStep k

/-- Everything a step of the server can do. -/
inductive Server.Move (s : Server) : Event → Server → Prop
  | exit {e} : Move s e { s with exited := true }
  | accept {fd} (pc : s.mainPc = .accept) (fresh : fd ∉ s.accepted) :
      Move s (.accept (some fd)) { s with
        newsockfd := fd, accepted := s.accepted ++ [fd], mainPc := .setSockfd }
  | overrun (pc : s.mainPc = .setSockfd ∨ s.mainPc = .setId)
      (past : s.clients[s.clientId]? = none) : Move s .main { s with mainPc := .wild }
  | setSockfd {c} (pc : s.mainPc = .setSockfd) (slot : s.clients[s.clientId]? = some c) :
      Move s .main { s with
        clients := s.clients.set s.clientId { c with sockfd := s.newsockfd }, mainPc := .setId }
  | setId {c} (pc : s.mainPc = .setId) (slot : s.clients[s.clientId]? = some c) :
      Move s .main { s with
        clients := s.clients.set s.clientId { c with id := s.clientId }, mainPc := .greet }
  | greet (pc : s.mainPc = .greet) : Move s .main { s with
      sends := s.sends ++ [(s.newsockfd, greeting s.clientId)], mainPc := .create }
  | create {stack} (pc : s.mainPc = .create) (size : stack.length = bufferLen) :
      Move s (.create stack) { s with
        threads := s.threads ++ [{ cli := s.clientId, buffer := stack }], mainPc := .incr }
  | incr (pc : s.mainPc = .incr) :
      Move s .main { s with clientId := s.clientId + 1, mainPc := .accept }
  | loadSockfd {k th c} (at' : s.threads[k]? = some th) (pc : th.pc = .loadSockfd)
      (slot : s.clients[th.cli]? = some c) :
      Move s (.thread k) (s.put k { th with sockfd := c.sockfd, pc := .loadId })
  | loadId {k th c} (at' : s.threads[k]? = some th) (pc : th.pc = .loadId)
      (slot : s.clients[th.cli]? = some c) :
      Move s (.thread k) (s.put k { th with id := c.id, pc := .recv })
  | recv {k th got} (at' : s.threads[k]? = some th) (pc : th.pc = .recv)
      (fits : got.length ≤ bufferLen) (drained : th.eof = true → got = []) :
      Move s (.recv k (some got)) (s.put k { th with
        buffer := store th.buffer got, received := th.received ++ [got],
        eof := th.eof || got.isEmpty, pc := .lock })
  | lock {k th t} (at' : s.threads[k]? = some th) (pc : th.pc = .lock)
      (free : s.shouting = none) (str : read th.buffer = some t) :
      Move s (.thread k) { s.put k { th with pc := .shout 0 (zeros (t.length + 10)) } with
        shouting := some k, log := s.log ++ [⟨th.sockfd, th.id, t⟩] }
  | relay {k th i msg c} (at' : s.threads[k]? = some th) (pc : th.pc = .shout i msg)
      (more : i < s.clientId) (other : i ≠ th.id) (slot : s.clients[i]? = some c) :
      Move s (.thread k) { s.put k { th with pc := .shout (i + 1) (zeros msg.length) } with
        sends := s.sends ++ [(c.sockfd, snprintf msg (labelled th.id (text th.buffer)))] }
  | skip {k th i msg} (at' : s.threads[k]? = some th) (pc : th.pc = .shout i msg)
      (more : i < s.clientId) (self : i = th.id) :
      Move s (.thread k) (s.put k { th with pc := .shout (i + 1) msg })
  | endShout {k th i msg} (at' : s.threads[k]? = some th) (pc : th.pc = .shout i msg)
      (last : ¬ i < s.clientId) : Move s (.thread k) (s.put k { th with pc := .unlock })
  | unlock {k th} (at' : s.threads[k]? = some th) (pc : th.pc = .unlock) :
      Move s (.thread k) { s.put k { th with pc := .recv } with shouting := none }
  | wildLoad {k th} (at' : s.threads[k]? = some th) (pc : th.pc = .loadSockfd ∨ th.pc = .loadId)
      (past : s.clients[th.cli]? = none) : Move s (.thread k) (s.put k { th with pc := .wild })
  | wildText {k th} (at' : s.threads[k]? = some th) (pc : th.pc = .lock)
      (free : s.shouting = none) (str : read th.buffer = none) :
      Move s (.thread k) { s.put k { th with pc := .wild } with shouting := some k }
  | wildSlot {k th i msg} (at' : s.threads[k]? = some th) (pc : th.pc = .shout i msg)
      (more : i < s.clientId) (past : s.clients[i]? = none) :
      Move s (.thread k) (s.put k { th with pc := .wild })

theorem Server.mainStep_move {s t : Server} (h : s.mainStep = some t) : Move s .main t := by
  unfold mainStep at h
  cases pc : s.mainPc <;> simp only [pc, reduceCtorEq, Option.some.injEq] at h <;> subst h
  case setSockfd =>
    cases slot : s.clients[s.clientId]? with
    | none => exact .overrun (.inl pc) slot
    | some c => exact .setSockfd pc slot
  case setId =>
    cases slot : s.clients[s.clientId]? with
    | none => exact .overrun (.inr pc) slot
    | some c => exact .setId pc slot
  case greet => exact .greet pc
  case incr => exact .incr pc

theorem Server.recvStep_move {s t : Server} {k : Nat} {got : Option Bytes}
    (h : s.recvStep k got = some t) : Move s (.recv k got) t := by
  cases at' : s.threads[k]? with
  | none => cases got <;> simp [recvStep, at'] at h
  | some th =>
      cases got with
      | none =>
          simp only [recvStep, at', Option.ite_none_right_eq_some, Option.some.injEq] at h
          exact h.2 ▸ .exit
      | some got =>
          simp only [recvStep, at', Option.ite_none_right_eq_some, Option.some.injEq] at h
          obtain ⟨⟨pc, fits, drained⟩, rfl⟩ := h
          exact .recv at' pc fits drained

theorem Server.shoutStep_move {s : Server} {k i : Nat} {th : HearAll} {msg : Bytes}
    (at' : s.threads[k]? = some th) (pc : th.pc = .shout i msg) :
    Move s (.thread k) (s.shoutStep k th i msg) := by
  unfold shoutStep
  split
  · next more =>
      split
      · next other =>
          cases slot : s.clients[i]? with
          | none => exact .wildSlot at' pc more slot
          | some c => exact .relay at' pc more other slot
      · next self => exact .skip at' pc more (not_not.mp self)
  · next last => exact .endShout at' pc last

theorem Server.threadStep_move {s t : Server} {k : Nat} (h : s.threadStep k = some t) :
    Move s (.thread k) t := by
  unfold threadStep at h
  cases at' : s.threads[k]? with
  | none => simp [at'] at h
  | some th =>
      cases pc : th.pc <;> simp only [at', pc, reduceCtorEq, Option.some.injEq] at h
      case loadSockfd =>
        subst h
        cases slot : s.clients[th.cli]? with
        | none => exact .wildLoad at' (.inl pc) slot
        | some c => exact .loadSockfd at' pc slot
      case loadId =>
        subst h
        cases slot : s.clients[th.cli]? with
        | none => exact .wildLoad at' (.inr pc) slot
        | some c => exact .loadId at' pc slot
      case lock =>
        split at h
        · next free =>
            cases str : read th.buffer <;> simp only [str, Option.some.injEq] at h <;> subst h
            · exact .wildText at' pc free str
            · exact .lock at' pc free str
        · cases h
      case shout i msg => exact h ▸ shoutStep_move at' pc
      case unlock => exact h ▸ .unlock at' pc

theorem Server.step_move {s t : Server} {e : Event} (h : s.step e = some t) : Move s e t := by
  unfold step at h
  split at h
  · cases h
  · cases e with
    | accept fd =>
        cases fd <;>
          simp only [acceptStep, Option.ite_none_right_eq_some, Option.some.injEq] at h
        · exact h.2 ▸ .exit
        · exact h.2 ▸ .accept h.1.1 h.1.2
    | main => exact mainStep_move h
    | create stack =>
        simp only [createStep, Option.ite_none_right_eq_some, Option.some.injEq] at h
        exact h.2 ▸ .create h.1.1 h.1.2
    | recv k got => exact recvStep_move h
    | thread k => exact threadStep_move h

end GroupChat
