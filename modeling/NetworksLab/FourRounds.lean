import Mathlib.Logic.Function.Basic
import NetworksLab.CString
import NetworksLab.Firsts
import NetworksLab.Network
import NetworksLab.Transition

/-! The four rounds of messages between the Python server and its client over UDP. The
server talks to whoever it hears first, and takes anybody's datagram for an answer. -/
namespace FourRounds
open CString Transition

/-- `range(4)`. -/
def rounds : ℕ := 4

def serverMessage (i : ℕ) : Bytes := ascii "message " ++ decimal i ++ ascii " from server"

def clientMessage (i : ℕ) : Bytes := ascii "message " ++ decimal i ++ ascii " from client"

inductive ClientPc
  | greet
  | receive
  | send
  | done
  deriving DecidableEq

/-- `i` is the loop variable, `printed` what `recvfrom` has returned. -/
structure Client where
  pc : ClientPc
  i : ℕ
  printed : List Bytes
  deriving DecidableEq

inductive ServerPc
  | greeting
  | send
  | receive
  | done
  deriving DecidableEq

/-- `addr` is unset before the first `recvfrom`. -/
structure Server (α : Type*) where
  pc : ServerPc
  addr : Option α
  i : ℕ
  printed : List Bytes
  deriving DecidableEq

variable {α : Type*}

/-- `lost` counts the datagrams that got lost. -/
structure System (α : Type*) where
  clients : α → Client
  server : Server α
  toServer : List (α × Bytes)
  toClients : List (α × Bytes)
  lost : ℕ

def System.start : System α := ⟨fun _ => ⟨.greet, 0, []⟩, ⟨.greeting, none, 0, []⟩, [], [], 0⟩

/-- The index is that of the datagram in transit that arrives or gets lost. -/
inductive Event (α : Type*)
  | client (a : α)
  | clientReceive (i : ℕ) (again : Bool)
  | server
  | serverReceive (i : ℕ) (again : Bool)
  | loseToServer (i : ℕ)
  | loseToClient (i : ℕ)

/-- `sendto`, at the end of a round but for the first one. -/
def Client.send (c : Client) : Option (Client × Bytes) :=
  match c.pc with
  | .greet => some ({ c with pc := .receive }, [])
  | .send => some
      ({ c with pc := if c.i + 1 < rounds then .receive else .done, i := c.i + 1 }, clientMessage c.i)
  | .receive | .done => none

/-- `recvfrom(1024)` and `print`. -/
def Client.receive (c : Client) (data : Bytes) : Option Client :=
  match c.pc with
  | .receive => some { c with pc := .send, printed := c.printed ++ [data.take 1024] }
  | .greet | .send | .done => none

/-- `sendto` at the start of a round. -/
def Server.send (v : Server α) : Option (Server α × α × Bytes) :=
  match v.pc, v.addr with
  | .send, some a => some ({ v with pc := .receive }, a, serverMessage v.i)
  | _, _ => none

/-- Both of the server's `recvfrom(1024)`. -/
def Server.receive (v : Server α) (a : α) (data : Bytes) : Option (Server α) :=
  match v.pc with
  | .greeting => some { v with pc := .send, addr := some a }
  | .receive => some { v with
      pc := if v.i + 1 < rounds then .send else .done
      i := v.i + 1
      printed := v.printed ++ [data.take 1024] }
  | .send | .done => none

variable [DecidableEq α]

def System.put (s : System α) (a : α) (c : Client) : System α :=
  { s with clients := Function.update s.clients a c }

def System.step (s : System α) : Event α → Option (System α)
  | .client a => (s.clients a).send.map fun p =>
      { s.put a p.1 with toServer := s.toServer ++ [(a, p.2)] }
  | .clientReceive i again => (Network.arrive s.toClients i again).bind fun q =>
      ((s.clients q.1.1).receive q.1.2).map fun c => { s.put q.1.1 c with toClients := q.2 }
  | .server => s.server.send.map fun p =>
      { s with server := p.1, toClients := s.toClients ++ [p.2] }
  | .serverReceive i again => (Network.arrive s.toServer i again).bind fun q =>
      (s.server.receive q.1.1 q.1.2).map fun v => { s with server := v, toServer := q.2 }
  | .loseToServer i => (s.toServer[i]?).map fun _ =>
      { s with toServer := s.toServer.eraseIdx i, lost := s.lost + 1 }
  | .loseToClient i => (s.toClients[i]?).map fun _ =>
      { s with toClients := s.toClients.eraseIdx i, lost := s.lost + 1 }

/-- Everything a step can do. -/
inductive System.Move (s : System α) : Event α → System α → Prop
  | client {a c data} (sends : (s.clients a).send = some (c, data)) :
      Move s (.client a) { s.put a c with toServer := s.toServer ++ [(a, data)] }
  | hear {i again a data rest c} (arrived : Network.arrive s.toClients i again = some ((a, data), rest))
      (receives : (s.clients a).receive data = some c) :
      Move s (.clientReceive i again) { s.put a c with toClients := rest }
  | server {v a data} (sends : s.server.send = some (v, a, data)) :
      Move s .server { s with server := v, toClients := s.toClients ++ [(a, data)] }
  | take {i again a data rest v} (arrived : Network.arrive s.toServer i again = some ((a, data), rest))
      (receives : s.server.receive a data = some v) :
      Move s (.serverReceive i again) { s with server := v, toServer := rest }
  | loseToServer {i p} (here : s.toServer[i]? = some p) : Move s (.loseToServer i)
      { s with toServer := s.toServer.eraseIdx i, lost := s.lost + 1 }
  | loseToClient {i p} (here : s.toClients[i]? = some p) : Move s (.loseToClient i)
      { s with toClients := s.toClients.eraseIdx i, lost := s.lost + 1 }

variable {s t : System α}

theorem System.move {e : Event α} (step : s.step e = some t) : System.Move s e t := by
  cases e with
  | client a =>
      obtain ⟨p, sends, rfl⟩ := Option.map_eq_some_iff.mp step
      exact .client sends
  | clientReceive i again =>
      obtain ⟨q, arrived, received⟩ := Option.bind_eq_some_iff.mp step
      obtain ⟨c, receives, rfl⟩ := Option.map_eq_some_iff.mp received
      exact .hear arrived receives
  | server =>
      obtain ⟨p, sends, rfl⟩ := Option.map_eq_some_iff.mp step
      exact .server sends
  | serverReceive i again =>
      obtain ⟨q, arrived, received⟩ := Option.bind_eq_some_iff.mp step
      obtain ⟨v, receives, rfl⟩ := Option.map_eq_some_iff.mp received
      exact .take arrived receives
  | loseToServer i =>
      obtain ⟨p, here, rfl⟩ := Option.map_eq_some_iff.mp step
      exact .loseToServer here
  | loseToClient i =>
      obtain ⟨p, here, rfl⟩ := Option.map_eq_some_iff.mp step
      exact .loseToClient here

/-- A message fits the buffer of `recvfrom`. -/
theorem take_message {i : ℕ} (round : i < rounds) :
    (serverMessage i).take 1024 = serverMessage i ∧ (clientMessage i).take 1024 = clientMessage i := by
  have all : ∀ i ∈ List.range rounds,
      (serverMessage i).take 1024 = serverMessage i ∧ (clientMessage i).take 1024 = clientMessage i := by
    decide
  exact all i (List.mem_range.mpr round)

def FromServer (m : Bytes) : Prop := ∃ i < rounds, m = serverMessage i

/-- The first datagram of a client is empty. -/
def FromClient (m : Bytes) : Prop := m = [] ∨ ∃ i < rounds, m = clientMessage i

theorem FromServer.received {m : Bytes} (h : FromServer m) : FromServer (m.take 1024) := by
  obtain ⟨i, round, rfl⟩ := h
  exact ⟨i, round, (take_message round).1⟩

theorem FromClient.received {m : Bytes} (h : FromClient m) : FromClient (m.take 1024) := by
  rcases h with rfl | ⟨i, round, rfl⟩
  · exact .inl (List.take_nil)
  · exact .inr ⟨i, round, (take_message round).2⟩

structure Client.Sound (c : Client) : Prop where
  round : c.pc ≠ .done → c.i < rounds
  printed : ∀ m ∈ c.printed, FromServer m

structure Server.Sound (v : Server α) : Prop where
  round : v.pc ≠ .done → v.i < rounds
  addr : v.pc = .greeting → v.addr = none
  printed : ∀ m ∈ v.printed, FromClient m

/-- Only the server's client hears anything. -/
structure System.Sound (s : System α) : Prop where
  clients : ∀ a, (s.clients a).Sound ∧ ((s.clients a).printed ≠ [] → s.server.addr = some a)
  server : s.server.Sound
  toServer : ∀ q ∈ s.toServer, FromClient q.2
  toClients : ∀ q ∈ s.toClients, s.server.addr = some q.1 ∧ FromServer q.2

theorem Client.Sound.send {c d : Client} {data : Bytes} (h : c.Sound) (sends : c.send = some (d, data)) :
    d.Sound ∧ d.printed = c.printed ∧ FromClient data := by
  unfold Client.send at sends
  split at sends <;> rename_i pc
  · obtain ⟨rfl, rfl⟩ := Prod.mk.inj (Option.some.inj sends)
    exact ⟨⟨fun _ => h.round (by rw [pc]; nofun), h.printed⟩, rfl, .inl rfl⟩
  · obtain ⟨rfl, rfl⟩ := Prod.mk.inj (Option.some.inj sends)
    refine ⟨⟨fun goesOn => ?_, h.printed⟩, rfl, .inr ⟨c.i, h.round (by rw [pc]; nofun), rfl⟩⟩
    by_contra last
    exact goesOn (if_neg last)
  · cases sends
  · cases sends

theorem Client.Sound.receive {c d : Client} {data : Bytes} (h : c.Sound) (message : FromServer data)
    (receives : c.receive data = some d) : d.Sound := by
  unfold Client.receive at receives
  split at receives <;> rename_i pc
  · obtain rfl := Option.some.inj receives
    refine ⟨fun _ => h.round (by rw [pc]; nofun), fun m mem => ?_⟩
    rcases List.mem_append.mp mem with old | new
    · exact h.printed m old
    · exact List.mem_singleton.mp new ▸ message.received
  · cases receives
  · cases receives
  · cases receives

omit [DecidableEq α] in
theorem Server.Sound.send {v w : Server α} {a : α} {data : Bytes} (h : v.Sound)
    (sends : v.send = some (w, a, data)) : w.Sound ∧ w.addr = v.addr ∧ v.addr = some a ∧ FromServer data := by
  unfold Server.send at sends
  split at sends
  · next pc addr =>
      simp only [Option.some.injEq, Prod.mk.injEq] at sends
      obtain ⟨rfl, rfl, rfl⟩ := sends
      have round := h.round (by rw [pc]; nofun)
      exact ⟨⟨fun _ => round, nofun, h.printed⟩, rfl, addr, v.i, round, rfl⟩
  · cases sends

omit [DecidableEq α] in
theorem Server.Sound.receive {v w : Server α} {a : α} {data : Bytes} (h : v.Sound) (message : FromClient data)
    (receives : v.receive a data = some w) : w.Sound ∧ ∀ b, v.addr = some b → w.addr = some b := by
  unfold Server.receive at receives
  split at receives <;> rename_i pc
  · obtain rfl := Option.some.inj receives
    refine ⟨⟨fun _ => h.round (by rw [pc]; nofun), nofun, h.printed⟩, fun b addr => ?_⟩
    cases (h.addr pc).symm.trans addr
  · obtain rfl := Option.some.inj receives
    refine ⟨⟨fun goesOn => ?_, fun starts => ?_, fun m mem => ?_⟩, fun b addr => addr⟩
    · by_contra last
      exact goesOn (if_neg last)
    · dsimp only at starts
      split at starts <;> cases starts
    · rcases List.mem_append.mp mem with old | new
      · exact h.printed m old
      · exact List.mem_singleton.mp new ▸ message.received
  · cases receives
  · cases receives

theorem System.Sound.move (h : s.Sound) {e : Event α} (move : System.Move s e t) : t.Sound := by
  cases move with
  | @client a c data sends =>
      obtain ⟨sound, printed, message⟩ := (h.clients a).1.send sends
      refine ⟨?_, h.server, fun q mem => ?_, h.toClients⟩
      · refine (Function.forall_update_iff s.clients fun b d =>
          d.Sound ∧ (d.printed ≠ [] → s.server.addr = some b)).mpr ⟨⟨sound, ?_⟩, fun b _ => h.clients b⟩
        rw [printed]
        exact (h.clients a).2
      · rcases List.mem_append.mp mem with old | new
        · exact h.toServer q old
        · exact List.mem_singleton.mp new ▸ message
  | @hear i again a data rest c arrived receives =>
      obtain ⟨addr, message⟩ := h.toClients _ (Network.mem_of_arrive arrived)
      refine ⟨?_, h.server, h.toServer, fun q mem => h.toClients q (Network.subset_of_arrive arrived mem)⟩
      exact (Function.forall_update_iff s.clients fun b d =>
        d.Sound ∧ (d.printed ≠ [] → s.server.addr = some b)).mpr
        ⟨⟨(h.clients a).1.receive message receives, fun _ => addr⟩, fun b _ => h.clients b⟩
  | @server v a data sends =>
      obtain ⟨sound, same, addr, message⟩ := h.server.send sends
      refine ⟨fun b => (h.clients b).imp_right fun known hears => same.trans (known hears), sound,
        h.toServer, fun q mem => ?_⟩
      rcases List.mem_append.mp mem with old | new
      · exact (h.toClients q old).imp_left same.trans
      · obtain rfl := List.mem_singleton.mp new
        exact ⟨same.trans addr, message⟩
  | @take i again a data rest v arrived receives =>
      have message := h.toServer _ (Network.mem_of_arrive arrived)
      obtain ⟨sound, keeps⟩ := h.server.receive message receives
      exact ⟨fun b => (h.clients b).imp_right fun known hears => keeps b (known hears), sound,
        fun q mem => h.toServer q (Network.subset_of_arrive arrived mem),
        fun q mem => (h.toClients q mem).imp_left (keeps q.1)⟩
  | loseToServer here =>
      exact ⟨h.clients, h.server, fun q mem => h.toServer q (List.mem_of_mem_eraseIdx mem), h.toClients⟩
  | loseToClient here =>
      exact ⟨h.clients, h.server, h.toServer, fun q mem => h.toClients q (List.mem_of_mem_eraseIdx mem)⟩

theorem System.sound (reached : Reach System.step anyStep .start s) : s.Sound := by
  have first : 0 < rounds := by decide
  refine reached.invariant (I := System.Sound) ?_ fun _ _ _ h _ step => h.move (System.move step)
  exact ⟨fun _ => ⟨⟨fun _ => first, nofun⟩, fun hears => absurd rfl hears⟩,
    ⟨fun _ => first, fun _ => rfl, nofun⟩, nofun, nofun⟩

/-- The server keeps the address of the first datagram it takes. -/
theorem System.Sound.addr (h : s.Sound) {e : Event α} (move : System.Move s e t) (a : α)
    (known : s.server.addr = some a) : t.server.addr = some a := by
  cases move with
  | server sends => exact (h.server.send sends).2.1.trans known
  | take arrived receives =>
      exact (h.server.receive (h.toServer _ (Network.mem_of_arrive arrived)) receives).2 a known
  | client | hear | loseToServer | loseToClient => exact known

theorem System.addr_later (reached : Reach System.step anyStep .start s)
    (later : Reach System.step anyStep s t) (a : α) (known : s.server.addr = some a) :
    t.server.addr = some a :=
  (later.invariant (I := fun t => t.Sound ∧ t.server.addr = some a) ⟨System.sound reached, known⟩
    fun _ _ _ h _ step => ⟨h.1.move (System.move step), h.1.addr (System.move step) a h.2⟩).2

/-- However many clients there are and whatever becomes of the datagrams, at most one client
ever hears anything, the one whose address the server keeps from then on. It hears messages
of the server; the server hears messages of clients, and takes any later greeting for one. -/
theorem hears_one (reached : Reach System.step anyStep .start s) :
    (∀ a, (s.clients a).printed ≠ [] → s.server.addr = some a) ∧
    (∀ a t, s.server.addr = some a → Reach System.step anyStep s t → t.server.addr = some a) ∧
    (∀ a b, (s.clients a).printed ≠ [] → (s.clients b).printed ≠ [] → a = b) ∧
    (∀ a, ∀ m ∈ (s.clients a).printed, FromServer m) ∧ ∀ m ∈ s.server.printed, FromClient m := by
  have sound := System.sound reached
  refine ⟨fun a => (sound.clients a).2, fun a t known later => System.addr_later reached later a known,
    fun a b first second => ?_, fun a => (sound.clients a).1.printed, sound.server.printed⟩
  exact Option.some.inj (((sound.clients a).2 first).symm.trans ((sound.clients b).2 second))

/-- A second client greets the server while it waits for the first one's answer. -/
def intruded : List (Event Bool) :=
  [.client true, .client false, .serverReceive 0 false, .server, .serverReceive 0 false,
    .clientReceive 0 false]

theorem hears_one_intruded : ∃ s, run System.step .start intruded = some s ∧
    (s.clients true).printed ≠ [] ∧ (s.clients false).printed = [] := by
  obtain ⟨s, ran⟩ : ∃ s, run System.step .start intruded = some s := ⟨_, rfl⟩
  have first : (s.clients true).printed ≠ [] := by
    obtain rfl := Option.some.inj ran
    exact List.cons_ne_nil _ _
  refine ⟨s, ran, first, ?_⟩
  by_contra second
  cases (hears_one (reach_of_run ran)).2.2.1 true false first second

/-- Nobody but `a` runs, and no datagram arrives twice. -/
def Alone (a : α) (_ : System α) : Event α → Prop
  | .client b => b = a
  | .clientReceive _ again | .serverReceive _ again => again = false
  | .server | .loseToServer _ | .loseToClient _ => True

instance (a : α) (s : System α) (e : Event α) : Decidable (Alone a s e) := by
  cases e <;> unfold Alone <;> infer_instance

def heard (i : ℕ) : List Bytes := (List.range i).map serverMessage

def answers (i : ℕ) : List Bytes := (List.range i).map clientMessage

/-- The datagram is in transit, unless it got lost. -/
def System.Carries (s : System α) (transit : List (α × Bytes)) (q : α × Bytes) : Prop :=
  transit = [q] ∧ s.lost = 0 ∨ transit = [] ∧ s.lost = 1

/-- No datagram is in transit and none got lost. -/
structure System.Quiet (s : System α) : Prop where
  up : s.toServer = []
  down : s.toClients = []
  kept : s.lost = 0

/-- Where the server and its only client are after `n` steps: one of them has the turn, or
one datagram is on its way or lost. -/
inductive System.Phase (a : α) (s : System α) (n : ℕ) : Prop
  | greet (steps : n = 0) (client : s.clients a = ⟨.greet, 0, []⟩)
      (server : s.server = ⟨.greeting, none, 0, []⟩) (quiet : s.Quiet)
  | greeting (steps : n = 1 + s.lost) (client : s.clients a = ⟨.receive, 0, []⟩)
      (server : s.server = ⟨.greeting, none, 0, []⟩) (up : s.Carries s.toServer (a, []))
      (down : s.toClients = [])
  | serverTurn (i : ℕ) (round : i < rounds) (steps : n = 4 * i + 2)
      (client : s.clients a = ⟨.receive, i, heard i⟩) (server : s.server = ⟨.send, some a, i, answers i⟩)
      (quiet : s.Quiet)
  | message (i : ℕ) (round : i < rounds) (steps : n = 4 * i + 3 + s.lost)
      (client : s.clients a = ⟨.receive, i, heard i⟩) (server : s.server = ⟨.receive, some a, i, answers i⟩)
      (up : s.toServer = []) (down : s.Carries s.toClients (a, serverMessage i))
  | clientTurn (i : ℕ) (round : i < rounds) (steps : n = 4 * i + 4)
      (client : s.clients a = ⟨.send, i, heard (i + 1)⟩)
      (server : s.server = ⟨.receive, some a, i, answers i⟩) (quiet : s.Quiet)
  | answer (i : ℕ) (round : i < rounds) (steps : n = 4 * i + 5 + s.lost)
      (client : s.clients a = ⟨if i + 1 < rounds then .receive else .done, i + 1, heard (i + 1)⟩)
      (server : s.server = ⟨.receive, some a, i, answers i⟩)
      (up : s.Carries s.toServer (a, clientMessage i)) (down : s.toClients = [])
  | done (steps : n = 4 * rounds + 2) (client : s.clients a = ⟨.done, rounds, heard rounds⟩)
      (server : s.server = ⟨.done, some a, rounds, answers rounds⟩) (quiet : s.Quiet)

omit [DecidableEq α] in
/-- The datagram that arrives or gets lost is that one, and no other is left. -/
theorem System.Carries.only {transit : List (α × Bytes)} {p q : α × Bytes} {i : ℕ}
    (h : s.Carries transit q) (here : transit[i]? = some p) :
    p = q ∧ transit.eraseIdx i = [] ∧ s.lost = 0 := by
  rcases h with ⟨rfl, kept⟩ | ⟨rfl, _⟩
  · cases i with
    | zero => exact ⟨(Option.some.inj here).symm, rfl, kept⟩
    | succ i => cases here
  · cases here

omit [DecidableEq α] in
theorem System.Carries.arrive {transit rest : List (α × Bytes)} {p q : α × Bytes} {i : ℕ}
    (h : s.Carries transit q) (arrived : Network.arrive transit i false = some (p, rest)) :
    p = q ∧ rest = [] ∧ s.lost = 0 := by
  obtain ⟨here, rfl⟩ := Network.arrive_eq_some.mp arrived
  exact h.only here

omit [DecidableEq α] in
/-- The datagram has not got lost. -/
theorem System.Carries.arrives {transit : List (α × Bytes)} {q : α × Bytes} (h : s.Carries transit q)
    (kept : s.lost = 0) : Network.arrive transit 0 false = some (q, []) := by
  rcases h with ⟨rfl, _⟩ | ⟨_, lost⟩
  · rfl
  · cases kept.symm.trans lost

variable {a : α} {n : ℕ}

theorem System.Phase.sends {c : Client} {data : Bytes} (h : s.Phase a n)
    (sends : (s.clients a).send = some (c, data)) :
    System.Phase a { s.put a c with toServer := s.toServer ++ [(a, data)] } (n + 1) := by
  have updated : Function.update s.clients a c a = c := Function.update_self ..
  cases h with
  | greet steps client server quiet =>
      rw [client] at sends
      obtain ⟨rfl, rfl⟩ := Prod.mk.inj (Option.some.inj sends)
      have step : n + 1 = 1 + s.lost := by rw [steps, quiet.kept]
      exact .greeting step updated server (.inl ⟨by rw [quiet.up]; rfl, quiet.kept⟩) quiet.down
  | clientTurn i round steps client server quiet =>
      rw [client] at sends
      obtain ⟨rfl, rfl⟩ := Prod.mk.inj (Option.some.inj sends)
      have step : n + 1 = 4 * i + 5 + s.lost := by rw [steps, quiet.kept]
      exact .answer i round step updated server (.inl ⟨by rw [quiet.up]; rfl, quiet.kept⟩) quiet.down
  | greeting _ client | serverTurn _ _ _ client | message _ _ _ client | done _ client =>
      rw [client] at sends
      cases sends
  | answer i round _ client =>
      rw [client] at sends
      by_cases more : i + 1 < rounds
      · rw [if_pos more] at sends
        cases sends
      · rw [if_neg more] at sends
        cases sends

theorem System.Phase.hears {i : ℕ} {b : α} {data : Bytes} {rest : List (α × Bytes)} {c : Client}
    (h : s.Phase a n) (arrived : Network.arrive s.toClients i false = some ((b, data), rest))
    (receives : (s.clients b).receive data = some c) :
    System.Phase a { s.put b c with toClients := rest } (n + 1) := by
  have here := (Network.arrive_eq_some.mp arrived).1
  cases h with
  | message k round steps client server up down =>
      obtain ⟨same, rfl, kept⟩ := down.arrive arrived
      obtain ⟨rfl, rfl⟩ := Prod.mk.inj same
      rw [client] at receives
      obtain rfl := Option.some.inj receives
      have step : n + 1 = 4 * k + 4 := by rw [steps, kept]
      refine .clientTurn k round step ((Function.update_self ..).trans ?_) server ⟨up, rfl, kept⟩
      rw [(take_message round).1, heard, heard, Firsts.map_range_succ]
  | greet _ _ _ quiet | serverTurn _ _ _ _ _ quiet | clientTurn _ _ _ _ _ quiet | done _ _ _ quiet =>
      rw [quiet.down] at here
      cases here
  | greeting _ _ _ _ down | answer _ _ _ _ _ _ down =>
      rw [down] at here
      cases here

omit [DecidableEq α] in
theorem System.Phase.serves {v : Server α} {b : α} {data : Bytes} (h : s.Phase a n)
    (sends : s.server.send = some (v, b, data)) :
    System.Phase a { s with server := v, toClients := s.toClients ++ [(b, data)] } (n + 1) := by
  cases h with
  | serverTurn i round steps client server quiet =>
      rw [server] at sends
      simp only [Server.send, Option.some.injEq, Prod.mk.injEq] at sends
      obtain ⟨rfl, rfl, rfl⟩ := sends
      have step : n + 1 = 4 * i + 3 + s.lost := by rw [steps, quiet.kept]
      exact .message i round step client rfl quiet.up (.inl ⟨by rw [quiet.down]; rfl, quiet.kept⟩)
  | greet _ _ server | greeting _ _ server | message _ _ _ _ server | clientTurn _ _ _ _ server
  | answer _ _ _ _ server | done _ _ server =>
      rw [server] at sends
      cases sends

omit [DecidableEq α] in
theorem System.Phase.takes {i : ℕ} {b : α} {data : Bytes} {rest : List (α × Bytes)} {v : Server α}
    (h : s.Phase a n) (arrived : Network.arrive s.toServer i false = some ((b, data), rest))
    (receives : s.server.receive b data = some v) :
    System.Phase a { s with server := v, toServer := rest } (n + 1) := by
  have here := (Network.arrive_eq_some.mp arrived).1
  have first : 0 < rounds := by decide
  cases h with
  | greeting steps client server up down =>
      obtain ⟨same, rfl, kept⟩ := up.arrive arrived
      obtain ⟨rfl, rfl⟩ := Prod.mk.inj same
      rw [server] at receives
      obtain rfl := Option.some.inj receives
      have step : n + 1 = 4 * 0 + 2 := by rw [steps, kept]
      exact .serverTurn 0 first step client rfl ⟨rfl, down, kept⟩
  | answer k round steps client server up down =>
      obtain ⟨same, rfl, kept⟩ := up.arrive arrived
      obtain ⟨rfl, rfl⟩ := Prod.mk.inj same
      rw [server] at receives
      obtain rfl := Option.some.inj receives
      have printed : answers k ++ [(clientMessage k).take 1024] = answers (k + 1) := by
        rw [(take_message round).2, answers, answers, Firsts.map_range_succ]
      by_cases more : k + 1 < rounds
      · rw [if_pos more] at client
        refine .serverTurn (k + 1) more (by omega) client ?_ ⟨rfl, down, kept⟩
        simp only [if_pos more, printed]
      · rw [if_neg more] at client
        have last : k + 1 = rounds := by omega
        rw [last] at client
        refine .done (by omega) client ?_ ⟨rfl, down, kept⟩
        simp only [printed, last, Nat.lt_irrefl, if_false]
  | greet _ _ _ quiet | serverTurn _ _ _ _ _ quiet | clientTurn _ _ _ _ _ quiet | done _ _ _ quiet =>
      rw [quiet.up] at here
      cases here
  | message _ _ _ _ _ up =>
      rw [up] at here
      cases here

omit [DecidableEq α] in
theorem System.Phase.losesUp {i : ℕ} {q : α × Bytes} (h : s.Phase a n) (here : s.toServer[i]? = some q) :
    System.Phase a { s with toServer := s.toServer.eraseIdx i, lost := s.lost + 1 } (n + 1) := by
  cases h with
  | greeting steps client server up down =>
      obtain ⟨_, rest, kept⟩ := up.only here
      exact .greeting (by rw [steps]; rfl) client server (.inr ⟨rest, by rw [kept]⟩) down
  | answer k round steps client server up down =>
      obtain ⟨_, rest, kept⟩ := up.only here
      exact .answer k round (by rw [steps]; rfl) client server (.inr ⟨rest, by rw [kept]⟩) down
  | greet _ _ _ quiet | serverTurn _ _ _ _ _ quiet | clientTurn _ _ _ _ _ quiet | done _ _ _ quiet =>
      rw [quiet.up] at here
      cases here
  | message _ _ _ _ _ up =>
      rw [up] at here
      cases here

omit [DecidableEq α] in
theorem System.Phase.losesDown {i : ℕ} {q : α × Bytes} (h : s.Phase a n) (here : s.toClients[i]? = some q) :
    System.Phase a { s with toClients := s.toClients.eraseIdx i, lost := s.lost + 1 } (n + 1) := by
  cases h with
  | message k round steps client server up down =>
      obtain ⟨_, rest, kept⟩ := down.only here
      exact .message k round (by rw [steps]; rfl) client server up (.inr ⟨rest, by rw [kept]⟩)
  | greet _ _ _ quiet | serverTurn _ _ _ _ _ quiet | clientTurn _ _ _ _ _ quiet | done _ _ _ quiet =>
      rw [quiet.down] at here
      cases here
  | greeting _ _ _ _ down | answer _ _ _ _ _ _ down =>
      rw [down] at here
      cases here

theorem System.Phase.step {e : Event α} (h : s.Phase a n) (alone : Alone a s e) (step : s.step e = some t) :
    t.Phase a (n + 1) := by
  cases System.move step with
  | client sends =>
      obtain rfl := alone
      exact h.sends sends
  | hear arrived receives =>
      obtain rfl := alone
      exact h.hears arrived receives
  | server sends => exact h.serves sends
  | take arrived receives =>
      obtain rfl := alone
      exact h.takes arrived receives
  | loseToServer here => exact h.losesUp here
  | loseToClient here => exact h.losesDown here

/-- The steps of a server with `a` alone. -/
def System.stepAlone (a : α) (s : System α) (e : Event α) : Option (System α) :=
  if Alone a s e then s.step e else none

theorem System.phase {es : List (Event α)} (ran : run (System.stepAlone a) .start es = some s) :
    s.Phase a es.length := by
  induction es using List.reverseRecOn generalizing s with
  | nil =>
      obtain rfl := Option.some.inj ran
      exact .greet rfl rfl rfl ⟨rfl, rfl, rfl⟩
  | append_singleton es e ih =>
      obtain ⟨u, before, last⟩ := run_concat ran
      rw [stepAlone, Option.ite_none_right_eq_some] at last
      rw [List.length_append]
      exact (ih before).step last.1 last.2

theorem System.exists_stepAlone {e : Event α} (alone : Alone a s e) (moves : s.step e ≠ none) :
    ∃ e t, s.stepAlone a e = some t := by
  obtain ⟨t, step⟩ := Option.ne_none_iff_exists'.mp moves
  exact ⟨e, t, (if_pos alone).trans step⟩

/-- Until the last round is over somebody can move, unless a datagram got lost. -/
theorem System.Phase.goesOn (h : s.Phase a n) (kept : s.lost = 0) (unfinished : n ≠ 4 * rounds + 2) :
    ∃ e t, s.stepAlone a e = some t := by
  cases h with
  | greet steps client | clientTurn i round steps client =>
      refine System.exists_stepAlone (e := .client a) rfl ?_
      rw [System.step, client]
      exact Option.some_ne_none _
  | greeting steps client server up | answer i round steps client server up =>
      refine System.exists_stepAlone (e := .serverReceive 0 false) rfl ?_
      rw [System.step, up.arrives kept, server]
      exact Option.some_ne_none _
  | serverTurn i round steps client server =>
      refine System.exists_stepAlone (e := .server) trivial ?_
      rw [System.step, server]
      exact Option.some_ne_none _
  | message i round steps client server up down =>
      refine System.exists_stepAlone (e := .clientReceive 0 false) rfl ?_
      rw [System.step, down.arrives kept, Option.bind_some, client]
      exact Option.some_ne_none _
  | done steps => exact absurd steps unfinished

omit [DecidableEq α] in
theorem System.Carries.lost_le {transit : List (α × Bytes)} {q : α × Bytes} (h : s.Carries transit q) :
    s.lost ≤ 1 := by
  rcases h with ⟨_, kept⟩ | ⟨_, lost⟩
  · exact kept.le.trans (Nat.zero_le 1)
  · exact lost.le

omit [DecidableEq α] in
/-- The messages printed on each side, by the number of steps. -/
theorem System.Phase.printed (h : s.Phase a n) : n ≤ 4 * rounds + 3 ∧ ∃ i j, s.server.printed = answers i ∧
    (s.clients a).printed = heard j ∧ i ≤ j ∧ j ≤ i + 1 ∧ j ≤ rounds ∧
    (s.lost = 0 → n = 4 * rounds + 2 → i = rounds) := by
  cases h with
  | greet steps client server =>
      refine ⟨by omega, 0, 0, by rw [server]; rfl, by rw [client]; rfl, le_rfl, Nat.zero_le _, Nat.zero_le _, ?_⟩
      omega
  | greeting steps client server up =>
      have lost := up.lost_le
      refine ⟨by omega, 0, 0, by rw [server]; rfl, by rw [client]; rfl, le_rfl, Nat.zero_le _, Nat.zero_le _, ?_⟩
      omega
  | serverTurn i round steps client server =>
      refine ⟨by omega, i, i, by rw [server], by rw [client], le_rfl, Nat.le_succ i, round.le, ?_⟩
      omega
  | message i round steps client server up down =>
      have lost := down.lost_le
      refine ⟨by omega, i, i, by rw [server], by rw [client], le_rfl, Nat.le_succ i, round.le, ?_⟩
      omega
  | clientTurn i round steps client server =>
      refine ⟨by omega, i, i + 1, by rw [server], by rw [client], Nat.le_succ i, le_rfl, round, ?_⟩
      omega
  | answer i round steps client server up =>
      have lost := up.lost_le
      refine ⟨by omega, i, i + 1, by rw [server], by rw [client], Nat.le_succ i, le_rfl, round, ?_⟩
      omega
  | done steps client server =>
      exact ⟨by omega, rounds, rounds, by rw [server], by rw [client], le_rfl, Nat.le_succ _, le_rfl,
        fun _ _ => rfl⟩

/-- With one client, and no datagram that arrives twice, the two stay in step: each prints
the messages of the other in their order, the client at most one more. They stop when
a datagram gets lost or all four rounds are over, after at most nineteen steps. -/
theorem in_step {es : List (Event α)} (ran : run (System.stepAlone a) .start es = some s) :
    es.length ≤ 4 * rounds + 3 ∧ ∃ i j, s.server.printed = answers i ∧ (s.clients a).printed = heard j ∧
      i ≤ j ∧ j ≤ i + 1 ∧ j ≤ rounds ∧ (s.lost = 0 → (∀ e, s.stepAlone a e = none) → i = rounds) := by
  have phase := System.phase ran
  obtain ⟨bound, i, j, server, client, le, close, last, whole⟩ := phase.printed
  refine ⟨bound, i, j, server, client, le, close, last, fun kept stuck => whole kept ?_⟩
  by_contra unfinished
  obtain ⟨e, t, step⟩ := phase.goesOn kept unfinished
  cases (stuck e).symm.trans step

/-- All four rounds. -/
def undisturbed : List (Event Bool) :=
  let round := [Event.server, .clientReceive 0 false, .client true, .serverReceive 0 false]
  [.client true, .serverReceive 0 false] ++ round ++ round ++ round ++ round

theorem in_step_undisturbed : ∃ s, run (System.stepAlone true) .start undisturbed = some s ∧
    s.server.printed = answers 4 ∧ (s.clients true).printed = heard 4 := by
  obtain ⟨s, ran⟩ : ∃ s, run (System.stepAlone true) .start undisturbed = some s := ⟨_, rfl⟩
  obtain ⟨kept, stuck⟩ : s.lost = 0 ∧ ∀ e, s.stepAlone true e = none := by
    obtain rfl := Option.some.inj ran
    refine ⟨rfl, fun e => ?_⟩
    cases e with
    | client b => cases b <;> rfl
    | clientReceive i again | serverReceive i again => cases again <;> rfl
    | server | loseToServer i | loseToClient i => rfl
  obtain ⟨_, i, j, server, client, le, _, last, whole⟩ := in_step ran
  obtain rfl := whole kept stuck
  obtain rfl := Nat.le_antisymm last le
  exact ⟨s, ran, server, client⟩

end FourRounds
