import Mathlib.Logic.Function.Basic
import NetworksLab.Network
import NetworksLab.PyGroupSequential

/-! The Python group chat with its clients and the network between them. A client
registers with an empty datagram; then its `send` and its `receive` run side by
side. -/
namespace PySystem
open CString Transition
open PyGroup (Datagram received joined relayed)
open PyThreads (Server Reader)

variable {α : Type*}

/-- `sending` while `send` is in its loop, `typed` what `input().encode()` has
given it. -/
structure Client where
  started : Bool
  sending : Bool
  typed : List Bytes
  printed : List Bytes
  deriving DecidableEq

structure System (α : Type*) where
  server : Server α
  clients : α → Client
  toServer : List (Datagram α)
  toClients : List (Bytes × α)

def System.init : System α := ⟨.init, fun _ => ⟨false, false, [], []⟩, [], []⟩

inductive Event (α : Type*)
  | start (a : α)
  | send (a : α) (line : Bytes)
  | receive (a : α) (i : Nat) (again : Bool)
  | recvfrom (k i : Nat) (again : Bool)
  | thread (k : Nat)
  | loseToServer (i : Nat)
  | loseToClient (i : Nat)

/-- The longest payload of a UDP datagram; `sendto` raises an error on more. -/
def maxPayload : Nat := 65507

variable [DecidableEq α]

def System.put (s : System α) (a : α) (c : Client) : System α :=
  { s with clients := Function.update s.clients a c }

/-- `s.sendto(b'', (HOST, PORT))`, and both threads are started. -/
def System.start (s : System α) (a : α) : Option (System α) :=
  if (s.clients a).started then none
  else some { s.put a { s.clients a with started := true, sending := true } with
    toServer := s.toServer ++ [⟨a, []⟩] }

/-- A round of `send`. -/
def System.send (s : System α) (a : α) (line : Bytes) : Option (System α) :=
  let c := s.clients a
  if c.sending then
    if line.length ≤ maxPayload then
      some { s.put a { c with typed := c.typed ++ [line] } with toServer := s.toServer ++ [⟨a, line⟩] }
    else some (s.put a { c with typed := c.typed ++ [line], sending := false })
  else none

/-- A round of `receive`. -/
def System.receive (s : System α) (a : α) (i : Nat) (again : Bool) : Option (System α) :=
  let c := s.clients a
  match Network.arrive s.toClients i again with
  | none => none
  | some (p, rest) =>
      if c.started ∧ p.2 = a then
        some { s.put a { c with printed := c.printed ++ [p.1.take 1024] } with toClients := rest }
      else none

/-- A statement of the server; what it sends is in transit. -/
def System.serve (s : System α) (e : PyThreads.Event α) : Option (System α) :=
  (s.server.step e).map fun t =>
    { s with server := t, toClients := s.toClients ++ t.sent.drop s.server.sent.length }

def System.step (s : System α) : Event α → Option (System α)
  | .start a => s.start a
  | .send a line => s.send a line
  | .receive a i again => s.receive a i again
  | .recvfrom k i again =>
      match Network.arrive s.toServer i again with
      | none => none
      | some (d, rest) => System.serve { s with toServer := rest } (.recvfrom k d)
  | .thread k => s.serve (.thread k)
  | .loseToServer i => some { s with toServer := s.toServer.eraseIdx i }
  | .loseToClient i => some { s with toClients := s.toClients.eraseIdx i }

/-- The server reads one datagram at a time, and what it sends to a client arrives
once and in order. -/
def InOrder (s : System α) : Event α → Prop
  | .recvfrom _ _ _ => s.server.Idle
  | .receive _ i again => again = false ∧ Network.First (·.2) s.toClients i
  | .loseToClient _ => False
  | _ => True

/-- Everything a step can do. -/
inductive System.Move (s : System α) : Event α → System α → Prop
  | start {a} (fresh : (s.clients a).started = false) : Move s (.start a)
      { s.put a { s.clients a with started := true, sending := true } with
        toServer := s.toServer ++ [⟨a, []⟩] }
  | send {a line} (sending : (s.clients a).sending = true) : Move s (.send a line)
      { s.put a { s.clients a with typed := (s.clients a).typed ++ [line] } with
        toServer := s.toServer ++ [⟨a, line⟩] }
  | refused {a line} (sending : (s.clients a).sending = true) : Move s (.send a line)
      (s.put a { s.clients a with typed := (s.clients a).typed ++ [line], sending := false })
  | receive {a i again m rest} (arrived : Network.arrive s.toClients i again = some ((m, a), rest)) :
      Move s (.receive a i again)
        { s.put a { s.clients a with printed := (s.clients a).printed ++ [m.take 1024] } with
          toClients := rest }
  | recvfrom {k i again d rest u} (arrived : Network.arrive s.toServer i again = some (d, rest))
      (read : s.server.step (.recvfrom k d) = some u) : Move s (.recvfrom k i again)
        { s with server := u, toServer := rest }
  | thread {k u} (ran : s.server.step (.thread k) = some u) : Move s (.thread k)
      { s with server := u, toClients := s.toClients ++ u.sent.drop s.server.sent.length }
  | loseToServer {i} : Move s (.loseToServer i) { s with toServer := s.toServer.eraseIdx i }
  | loseToClient {i} : Move s (.loseToClient i) { s with toClients := s.toClients.eraseIdx i }

instance (s : System α) (e : Event α) : Decidable (InOrder s e) := by
  cases e <;> unfold InOrder <;> infer_instance

/-- What client `a` hears of the datagrams `ds`: the texts behind its first empty
one. -/
def heard (a : α) (ds : List (Datagram α)) : List Bytes :=
  (ds.dropWhile fun d => ¬ (d.payload = [] ∧ d.addr = a)).filterMap fun d =>
    if d.payload = [] then none else some (received d)

variable {s t : System α} {a b : α} {m : Bytes}

/-- `m` is the beginning of a line that a client has sent. -/
def System.Word (s : System α) (m : Bytes) : Prop :=
  m ≠ [] ∧ ∃ b, ∃ line ∈ (s.clients b).typed, line.take 1024 = m

/-- `d` has been sent by its client. -/
def System.Said (s : System α) (d : Datagram α) : Prop :=
  (s.clients d.addr).started = true ∧ (d.payload = [] ∨ d.payload ∈ (s.clients d.addr).typed)

/-- What a reader has in hand comes from a client. -/
structure System.Holds (s : System α) (r : Reader α) : Prop where
  sends : ∀ i, r.pc = .transmit i → s.Word r.data
  claims : r.pc = .test ∨ r.pc = .append → ∀ a, r.addr = some a → (s.clients a).started = true

structure System.Sound (s : System α) (a : α) (c : Client) : Prop where
  sending : c.sending = true → c.started = true
  printed : ∀ m ∈ c.printed, s.Word m ∧ a ∈ s.server.clients

/-- Nothing is invented on the way from a line to a `print`. -/
structure System.Honest (s : System α) : Prop where
  clients : ∀ a, s.Sound a (s.clients a)
  toServer : ∀ d ∈ s.toServer, s.Said d
  readers : ∀ r ∈ s.server.readers, s.Holds r
  registered : ∀ a ∈ s.server.clients, (s.clients a).started = true
  toClients : ∀ p ∈ s.toClients, s.Word p.1 ∧ p.2 ∈ s.server.clients

/-- What has been typed stays typed, and who has started stays so. -/
structure System.Later (s t : System α) : Prop where
  started : ∀ a, (s.clients a).started = true → (t.clients a).started = true
  typed : ∀ a, (s.clients a).typed ⊆ (t.clients a).typed

omit [DecidableEq α] in
theorem System.Later.word (h : s.Later t) (word : s.Word m) : t.Word m := by
  obtain ⟨some_text, b, line, mem, cut⟩ := word
  exact ⟨some_text, b, line, h.typed b mem, cut⟩

omit [DecidableEq α] in
theorem System.Later.said (h : s.Later t) {d : Datagram α} (said : s.Said d) : t.Said d :=
  ⟨h.started _ said.1, said.2.imp_right fun mem => h.typed _ mem⟩

theorem recvfrom_sent {s t : Server α} {k : Nat} {d : Datagram α}
    (step : s.step (.recvfrom k d) = some t) : t.sent = s.sent := by
  cases Server.step_move step
  rfl

/-- A statement of the server sends nothing or one packet. -/
theorem thread_sent {s t : Server α} {k : Nat} (step : s.step (.thread k) = some t) :
    t.sent = s.sent ∨ ∃ r ∈ s.readers, ∃ i, r.pc = .transmit i ∧
      ∃ a ∈ s.clients, t.sent = s.sent ++ [(r.data, a)] := by
  cases Server.step_move step with
  | old | new | append | start | endTransmit => exact .inl rfl
  | send here pc slot =>
      exact .inr ⟨_, List.mem_of_getElem? here, _, pc, _, List.mem_of_getElem? slot, rfl⟩

theorem System.step_move {e : Event α} (step : s.step e = some t) : Move s e t := by
  cases e with
  | start a =>
      simp only [System.step, System.start] at step
      split at step
      · cases step
      next fresh => exact Option.some.inj step ▸ .start (by simpa using fresh)
  | send a line =>
      simp only [System.step, System.send, Option.ite_none_right_eq_some] at step
      obtain ⟨sending, step⟩ := step
      split at step
      · exact Option.some.inj step ▸ .send sending
      · exact Option.some.inj step ▸ .refused sending
  | receive a i again =>
      simp only [System.step, System.receive] at step
      split at step
      · cases step
      next m b rest arrived =>
        rw [Option.ite_none_right_eq_some] at step
        obtain ⟨⟨started, rfl⟩, step⟩ := step
        exact Option.some.inj step ▸ .receive arrived
  | recvfrom k i again =>
      simp only [System.step] at step
      split at step
      · cases step
      next d rest arrived =>
        obtain ⟨u, read, rfl⟩ := Option.map_eq_some_iff.mp step
        have nothing : s.toClients ++ u.sent.drop s.server.sent.length = s.toClients := by
          rw [recvfrom_sent read, List.drop_length, List.append_nil]
        simp only [nothing]
        exact .recvfrom arrived read
  | thread k =>
      obtain ⟨u, ran, rfl⟩ := Option.map_eq_some_iff.mp step
      exact .thread ran
  | loseToServer i => exact Option.some.inj step ▸ .loseToServer
  | loseToClient i => exact Option.some.inj step ▸ .loseToClient

@[simp] theorem System.put_self {c : Client} : (s.put a c).clients a = c := Function.update_self ..

theorem System.put_ne {c : Client} (other : b ≠ a) : (s.put a c).clients b = s.clients b :=
  Function.update_of_ne other ..

/-- What holds of all clients after one is written. -/
theorem System.forall_put {c : Client} {P : α → Client → Prop} (new : P a c)
    (old : ∀ b, b ≠ a → P b (s.clients b)) : ∀ b, P b ((s.put a c).clients b) := by
  intro b
  by_cases same : b = a
  · subst same
    rw [put_self]
    exact new
  · rw [put_ne same]
    exact old b same

/-- A change of one client that starts or types goes forward. -/
theorem System.later_put {c : Client} (clients : t.clients = (s.put a c).clients)
    (started : (s.clients a).started = true → c.started = true)
    (typed : (s.clients a).typed ⊆ c.typed) : s.Later t := by
  constructor
  · rw [clients]
    exact forall_put (P := fun b x => (s.clients b).started = true → x.started = true) started
      fun _ _ => id
  · rw [clients]
    exact forall_put (P := fun b x => (s.clients b).typed ⊆ x.typed) typed
      fun _ _ => List.Subset.refl _

theorem System.Move.later {e : Event α} (move : s.Move e t) : s.Later t := by
  cases move with
  | start => exact later_put rfl (fun _ => rfl) (List.Subset.refl _)
  | send | refused => exact later_put rfl id (List.subset_append_left _ _)
  | receive => exact later_put rfl id (List.Subset.refl _)
  | recvfrom | thread | loseToServer | loseToClient =>
      exact ⟨fun _ => id, fun _ => List.Subset.refl _⟩

omit [DecidableEq α] in
/-- A step beside the server: what it adds must be honest. -/
theorem System.Honest.beside (h : s.Honest) (later : s.Later t) (server : t.server = s.server)
    (clients : ∀ a, s.Sound a (t.clients a)) (toServer : ∀ d ∈ t.toServer, d ∈ s.toServer ∨ t.Said d)
    (toClients : t.toClients ⊆ s.toClients) : t.Honest where
  clients a := by
    refine ⟨(clients a).sending, fun m mem => ?_⟩
    obtain ⟨word, known⟩ := (clients a).printed m mem
    exact ⟨later.word word, server ▸ known⟩
  toServer d mem := (toServer d mem).elim (fun old => later.said (h.toServer d old)) id
  readers r mem := by
    obtain ⟨sends, claims⟩ := h.readers r (server ▸ mem)
    exact ⟨fun i pc => later.word (sends i pc), fun pc a same => later.started a (claims pc a same)⟩
  registered a mem := later.started a (h.registered a (server ▸ mem))
  toClients p mem := by
    obtain ⟨word, known⟩ := h.toClients p (toClients mem)
    exact ⟨later.word word, server ▸ known⟩

omit [DecidableEq α] in
/-- The beginning of a text that the server takes in. -/
theorem System.Said.word {d : Datagram α} (said : s.Said d) (text : received d ≠ []) :
    s.Word (received d) := by
  have line := said.2.resolve_left (mt PyGroup.received_eq_nil.mpr text)
  exact ⟨text, d.addr, d.payload, line, rfl⟩

theorem System.Honest.recvfrom (h : s.Honest) {k : Nat} {d : Datagram α} {rest : List (Datagram α)}
    {u : Server α} (said : s.Said d) (fewer : rest ⊆ s.toServer)
    (read : s.server.step (.recvfrom k d) = some u) :
    System.Honest { s with server := u, toServer := rest } := by
  cases Server.step_move read with
  | @recvfrom _ r _ connected here pc =>
      have new : s.Holds { r with
          pc := r.kind.branch (received d), data := received d, addr := some d.addr, out := [] } := by
        rw [PyThreads.Kind.branch_eq]
        by_cases empty : received d = []
        · rw [if_pos empty]
          refine ⟨nofun, ?_⟩
          rintro _ a ⟨⟩
          exact said.1
        · rw [if_neg empty]
          exact ⟨fun _ _ => said.word empty, by simp⟩
      have readers : ∀ q ∈ s.server.readers.set k _, s.Holds q := fun q mem =>
        (List.mem_or_eq_of_mem_set mem).elim (h.readers q) fun same => same ▸ new
      exact {
        clients := fun a => ⟨(h.clients a).sending, (h.clients a).printed⟩
        toServer := fun d mem => h.toServer d (fewer mem)
        readers := fun q mem => ⟨(readers q mem).sends, (readers q mem).claims⟩
        registered := h.registered
        toClients := h.toClients }

/-- The statements of a reader take over what its `recvfrom` has brought. -/
theorem System.Honest.thread (h : s.Honest) {k : Nat} {u : Server α}
    (ran : s.server.step (.thread k) = some u) : System.Honest
      { s with server := u, toClients := s.toClients ++ u.sent.drop s.server.sent.length } := by
  have grows := (Server.step_move ran).clients.subset
  have sent : ∀ p ∈ s.toClients ++ u.sent.drop s.server.sent.length,
      s.Word p.1 ∧ p.2 ∈ u.clients := by
    intro p mem
    rcases List.mem_append.mp mem with old | new
    · exact (h.toClients p old).imp_right fun known => grows known
    · rcases thread_sent ran with same | ⟨r, mem_r, i, pc, a, known, more⟩
      · rw [same, List.drop_length] at new
        cases new
      · rw [more, List.drop_left, List.mem_singleton] at new
        subst new
        exact ⟨(h.readers r mem_r).sends i pc, grows known⟩
  have clients : ∀ a, (s.clients a).sending = true → (s.clients a).started = true :=
    fun a => (h.clients a).sending
  have printed : ∀ a, ∀ m ∈ (s.clients a).printed, s.Word m ∧ a ∈ u.clients := fun a m mem =>
    ((h.clients a).printed m mem).imp_right fun known => grows known
  suffices readers : (∀ r ∈ u.readers, s.Holds r) ∧
      ∀ a ∈ u.clients, (s.clients a).started = true from
    { clients := fun a => ⟨clients a, printed a⟩, toServer := h.toServer
      readers := fun r mem => ⟨(readers.1 r mem).sends, (readers.1 r mem).claims⟩
      registered := readers.2, toClients := sent }
  have put {q : Reader α} {k : Nat} (new : s.Holds q) :
      ∀ r ∈ s.server.readers.set k q, s.Holds r := by
    intro r mem
    rcases List.mem_or_eq_of_mem_set mem with old | rfl
    · exact h.readers r old
    · exact new
  cases Server.step_move ran with
  | old here pc addr known => exact ⟨put ⟨nofun, by simp⟩, h.registered⟩
  | @new _ r a here pc addr unknown =>
      have started := (h.readers r (List.mem_of_getElem? here)).claims (.inl pc)
      exact ⟨put ⟨nofun, fun _ => started⟩, h.registered⟩
  | @append _ r a here pc addr =>
      refine ⟨put ⟨nofun, by simp⟩, ?_⟩
      intro b mem
      rcases List.mem_append.mp mem with old | new
      · exact h.registered b old
      · rw [List.mem_singleton.mp new]
        exact (h.readers r (List.mem_of_getElem? here)).claims (.inr pc) a addr
  | start here pc addr =>
      refine ⟨?_, h.registered⟩
      intro r mem
      rcases List.mem_append.mp mem with old | new
      · exact put ⟨by simp, by simp⟩ r old
      · rw [List.mem_singleton.mp new]
        exact ⟨by simp, by simp⟩
  | @send _ r i a here pc slot =>
      have word := (h.readers r (List.mem_of_getElem? here)).sends i pc
      exact ⟨put ⟨fun _ _ => word, by simp⟩, h.registered⟩
  | endTransmit here pc last => exact ⟨put ⟨nofun, by simp⟩, h.registered⟩

theorem System.Honest.move {e : Event α} (h : s.Honest) (move : s.Move e t) : t.Honest := by
  have later := move.later
  cases move with
  | @start a fresh =>
      refine h.beside later rfl
        (System.forall_put (P := s.Sound) ⟨fun _ => rfl, (h.clients a).printed⟩ fun b _ => h.clients b) ?_
        (List.Subset.refl _)
      intro d mem
      rcases List.mem_append.mp mem with old | new
      · exact .inl old
      · rw [List.mem_singleton.mp new]
        exact .inr ⟨by simp, .inl rfl⟩
  | @send a line sending =>
      refine h.beside later rfl (System.forall_put (P := s.Sound)
        ⟨(h.clients a).sending, (h.clients a).printed⟩ fun b _ => h.clients b) ?_ (List.Subset.refl _)
      intro d mem
      rcases List.mem_append.mp mem with old | new
      · exact .inl old
      · rw [List.mem_singleton.mp new]
        exact .inr ⟨later.started a ((h.clients a).sending sending), .inr (by simp)⟩
  | @refused a line sending =>
      exact h.beside later rfl (System.forall_put (P := s.Sound) ⟨by simp, (h.clients a).printed⟩ fun b _ => h.clients b)
        (fun d => .inl) (List.Subset.refl _)
  | @receive a i again m rest arrived =>
      refine h.beside later rfl
        (System.forall_put (P := s.Sound) ⟨(h.clients a).sending, ?_⟩ fun b _ => h.clients b) (fun d => .inl)
        (Network.subset_of_arrive arrived)
      obtain ⟨⟨some_text, b, line, mem, cut⟩, known⟩ := h.toClients _ (Network.mem_of_arrive arrived)
      intro x new
      rcases List.mem_append.mp new with old | last
      · exact (h.clients a).printed x old
      · rw [List.mem_singleton.mp last]
        have whole : m.take 1024 = m := by
          change line.take 1024 = m at cut
          rw [← cut, List.take_take, Nat.min_self]
        exact ⟨whole.symm ▸ ⟨some_text, b, line, mem, cut⟩, known⟩
  | recvfrom arrived read =>
      exact h.recvfrom (h.toServer _ (Network.mem_of_arrive arrived))
        (Network.subset_of_arrive arrived) read
  | thread ran => exact h.thread ran
  | loseToServer =>
      exact h.beside later rfl h.clients (fun _ mem => .inl (List.eraseIdx_subset mem))
        (List.Subset.refl _)
  | loseToClient => exact h.beside later rfl h.clients (fun _ => .inl) List.eraseIdx_subset

omit [DecidableEq α] in
theorem System.Honest.init : (System.init : System α).Honest where
  clients _ := ⟨nofun, nofun⟩
  toServer := nofun
  readers r mem := by
    rw [List.mem_singleton.mp mem]
    exact ⟨nofun, by simp⟩
  registered := nofun
  toClients := nofun

theorem System.honest {ok : System α → Event α → Prop} (reached : Reach System.step ok .init s) :
    s.Honest :=
  reached.invariant .init fun _ _ _ inv _ step => inv.move (System.step_move step)

/-- On a network that loses, repeats and reorders packets, and however the threads
of the server interleave: a client prints nothing before the server has registered
it, and only beginnings of lines that clients have typed. -/
theorem printed_lines_typed (reached : Reach System.step anyStep (.init : System α) s)
    (mem : m ∈ (s.clients a).printed) :
    a ∈ s.server.clients ∧ (s.clients a).started = true ∧ m ≠ [] ∧ m.length ≤ 1024 ∧
      ∃ b, ∃ line ∈ (s.clients b).typed, line.take 1024 = m := by
  have honest := System.honest reached
  obtain ⟨⟨some_text, b, line, typed, cut⟩, known⟩ := (honest.clients a).printed m mem
  exact ⟨known, honest.registered a known, some_text, cut ▸ List.length_take_le .., b, line, typed, cut⟩

theorem mem_joined {ds : List (Datagram α)} :
    a ∈ joined ds ↔ ∃ d ∈ ds, d.payload = [] ∧ d.addr = a := by
  rw [joined, List.mem_eraseDups, List.mem_map]
  simp only [List.mem_filter, decide_eq_true_eq, and_assoc]

theorem heard_concat (a : α) (ds : List (Datagram α)) (d : Datagram α) :
    heard a (ds ++ [d]) =
      heard a ds ++ if a ∈ joined ds ∧ d.payload ≠ [] then [received d] else [] := by
  unfold heard
  rw [List.dropWhile_append]
  by_cases member : a ∈ joined ds
  · have some_left : (ds.dropWhile fun d => ¬ (d.payload = [] ∧ d.addr = a)) ≠ [] := by
      obtain ⟨e, mem, greets⟩ := mem_joined.mp member
      intro none
      simpa [greets] using List.dropWhile_eq_nil_iff.mp none e mem
    rw [if_neg (by simpa using some_left), List.filterMap_append]
    by_cases empty : d.payload = [] <;> simp [empty, member]
  · have none_left : (ds.dropWhile fun d => ¬ (d.payload = [] ∧ d.addr = a)) = [] := by
      rw [List.dropWhile_eq_nil_iff]
      intro e mem
      exact decide_eq_true fun greets => member (mem_joined.mpr ⟨e, mem, greets⟩)
    rw [none_left, List.isEmpty_nil, if_pos rfl, if_neg fun both => member both.1]
    by_cases empty : d.payload = [] <;> by_cases same : d.addr = a <;> simp [empty, same]

/-- Of what the server relays, each client is sent what it is to hear. -/
theorem relayed_to (a : α) (ds : List (Datagram α)) :
    ((relayed ds).filter (·.2 = a)).map (·.1) = heard a ds := by
  induction ds using List.reverseRecOn with
  | nil => rfl
  | append_singleton ds d ih =>
      rw [PyGroup.relayed_concat, heard_concat, List.filter_append, List.map_append, ih]
      congr 1
      by_cases empty : d.payload = []
      · simp [empty]
      · have copies : (joined ds).filter (fun b => b = a) = if a ∈ joined ds then [a] else [] := by
          rw [List.filter_eq, (PyGroup.joined_nodup ds).count]
          by_cases member : a ∈ joined ds <;> simp [member]
        rw [if_neg empty, List.filter_map, List.map_map]
        simp only [Function.comp_def, copies]
        by_cases member : a ∈ joined ds <;> simp [member, empty, received]

/-- In transit to a client. -/
def System.arriving (s : System α) (a : α) : List Bytes := (s.toClients.filter (·.2 = a)).map (·.1)

/-- The server has taken datagrams of the clients one by one, and what it has sent to
each of them has arrived or is in transit, in its order. -/
structure System.Ordered (s : System α) : Prop where
  taken : ∃ es, run Server.stepAlone .init es = some s.server ∧
    ∀ e ∈ es.filterMap PyThreads.Event.taken, s.Said e.2
  queue : ∀ a, (s.clients a).printed ++ s.arriving a =
    (s.server.sent.filter (·.2 = a)).map (·.1)

theorem System.Ordered.move {e : Event α} (h : s.Ordered) (honest : s.Honest) (ok : InOrder s e)
    (move : s.Move e t) : t.Ordered := by
  have later := move.later
  obtain ⟨es, ran, said⟩ := h.taken
  have taken : ∃ es, run Server.stepAlone .init es = some s.server ∧
      ∀ e ∈ es.filterMap PyThreads.Event.taken, t.Said e.2 :=
    ⟨es, ran, fun e mem => later.said (said e mem)⟩
  have beside {c : Client} {a : α} (same : c.printed = (s.clients a).printed) :
      ∀ b, ((s.put a c).clients b).printed ++ s.arriving b =
        (s.server.sent.filter (·.2 = b)).map (·.1) :=
    System.forall_put (P := fun b c => c.printed ++ s.arriving b =
      (s.server.sent.filter (·.2 = b)).map (·.1)) (same ▸ h.queue a)
      fun b _ => h.queue b
  cases move with
  | start => exact ⟨taken, beside rfl⟩
  | send | refused => exact ⟨taken, beside rfl⟩
  | @receive a i again m rest arrived =>
      obtain ⟨rfl, first⟩ := ok
      have ahead := Network.filter_of_arrive first arrived
      have whole : m.take 1024 = m := by
        obtain ⟨⟨_, _, line, _, cut⟩, _⟩ := honest.toClients _ (Network.mem_of_arrive arrived)
        change line.take 1024 = m at cut
        rw [← cut, List.take_take, Nat.min_self]
      refine ⟨taken, System.forall_put (P := fun b c => c.printed ++ (rest.filter (·.2 = b)).map (·.1) =
        (s.server.sent.filter (·.2 = b)).map (·.1)) ?_ fun b other => ?_⟩
      · rw [← h.queue a, System.arriving, ahead a, if_pos rfl, whole]
        simp
      · rw [← h.queue b, System.arriving, ahead b, if_neg (Ne.symm other)]
        rfl
  | @recvfrom k i again d rest u arrived read =>
      refine ⟨⟨es ++ [.recvfrom k d], ?_, ?_⟩, fun a => (recvfrom_sent read).symm ▸ h.queue a⟩
      · refine run_trans ran (Option.bind_eq_some_iff.mpr ⟨u, ?_, rfl⟩)
        exact (if_pos ok).trans read
      · intro e mem
        rw [List.filterMap_append, List.mem_append] at mem
        rcases mem with old | new
        · exact said e old
        · rw [List.mem_singleton.mp new]
          exact honest.toServer d (Network.mem_of_arrive arrived)
  | @thread k u step =>
      have alone : s.server.stepAlone (.thread k) = some u := step
      refine ⟨⟨es ++ [.thread k], run_trans ran (Option.bind_eq_some_iff.mpr ⟨u, alone, rfl⟩), ?_⟩, ?_⟩
      · rw [List.filterMap_append]
        exact fun e mem => said e ((List.mem_append.mp mem).resolve_right nofun)
      · intro a
        obtain ⟨new, more⟩ : ∃ new, u.sent = s.server.sent ++ new := by
          rcases thread_sent step with same | ⟨r, _, i, _, b, _, more⟩
          · exact ⟨[], by rw [same, List.append_nil]⟩
          · exact ⟨_, more⟩
        simp only [System.arriving, more, List.drop_left, List.filter_append, List.map_append]
        rw [← h.queue a, List.append_assoc]
        rfl
  | loseToServer => exact ⟨taken, h.queue⟩
  | loseToClient => exact ok.elim

theorem System.ordered (reached : Reach System.step InOrder (.init : System α) s) : s.Ordered := by
  have both : s.Ordered ∧ s.Honest := by
    apply reached.invariant (I := fun s : System α => s.Ordered ∧ s.Honest)
    · exact ⟨⟨⟨[], rfl, nofun⟩, fun _ => rfl⟩, .init⟩
    · intro t e u inv ok step
      have move := System.step_move step
      exact ⟨inv.1.move inv.2 ok move, inv.2.move move⟩
  exact both.1

/-- Where the server reads one datagram at a time and its packets arrive once and in
order, all clients follow one list of datagrams: each has the texts in it from its own
registration on, and of two clients one has an end of what the other one has. -/
theorem same_order (reached : Reach System.step InOrder (.init : System α) s) :
    ∃ ds : List (Datagram α), (∀ d ∈ ds, s.Said d) ∧
      (∀ a, (s.clients a).printed ++ s.arriving a <+: heard a ds) ∧
      (s.server.Idle → s.server.clients = joined ds ∧
        (∀ a, (s.clients a).printed ++ s.arriving a = heard a ds) ∧
        ∀ a b, (s.clients a).printed ++ s.arriving a <:+ (s.clients b).printed ++ s.arriving b ∨
          (s.clients b).printed ++ s.arriving b <:+ (s.clients a).printed ++ s.arriving a) := by
  obtain ⟨⟨es, ran, said⟩, queue⟩ := System.ordered reached
  obtain ⟨k, r, p, pool, finishes⟩ := Server.finishes_run ran
  obtain ⟨clients, relayed⟩ := PyGroup.Server.outcome_run pool
  have sent : s.server.sent <+: p.sent := ⟨_, finishes.sent.symm⟩
  have heard_all (idle : s.server.Idle) (a : α) : (s.clients a).printed ++ s.arriving a =
      heard a ((es.filterMap PyThreads.Event.taken).map (·.2)) := by
    rw [queue a, ← relayed_to, ← relayed, (finishes.agrees idle).2.1]
  refine ⟨(es.filterMap PyThreads.Event.taken).map (·.2), fun d mem => ?_, fun a => ?_,
    fun idle => ⟨?_, heard_all idle, fun a b => ?_⟩⟩
  · obtain ⟨e, taken, rfl⟩ := List.mem_map.mp mem
    exact said e taken
  · rw [queue a, ← relayed_to, ← relayed]
    exact (sent.filter _).map _
  · rw [(finishes.agrees idle).1, clients]
  · rw [heard_all idle a, heard_all idle b]
    have ends (a : α) (ds : List (Datagram α)) := List.dropWhile_suffix (l := ds) fun d =>
      ¬ (d.payload = [] ∧ d.addr = a)
    exact (List.suffix_or_suffix_of_suffix (ends a _) (ends b _)).imp
      (fun e => e.filterMap _) fun e => e.filterMap _

/-- Client 7 and client 8 join, 8 writes, and both have printed. -/
def bothHear : List (Event Nat) :=
  [.start 7, .start 8, .recvfrom 0 0 false, .thread 0, .thread 0, .thread 0, .recvfrom 1 0 false,
    .thread 1, .thread 1, .thread 1, .send 8 (ascii "hi"), .recvfrom 0 0 false, .thread 0, .thread 0,
    .thread 0, .receive 7 0 false, .receive 8 0 false]

theorem reach_bothHear : ∃ s : System Nat, Reach System.step InOrder .init s ∧ s.server.Idle ∧
    (s.clients 7).printed = [ascii "hi"] ∧ s.arriving 7 = [] := by
  obtain ⟨s, reached⟩ : ∃ s, run (fun s e => if InOrder s e then System.step s e else none)
      (.init : System Nat) bothHear = some s := ⟨_, rfl⟩
  refine ⟨s, reach_of_guarded reached, ?_⟩
  cases reached
  decide

theorem printed_lines_typed_bothHear : ∃ s : System Nat, Reach System.step anyStep .init s ∧
    7 ∈ s.server.clients ∧ ∃ b, ∃ line ∈ (s.clients b).typed, line.take 1024 = ascii "hi" := by
  obtain ⟨s, reached, _, printed, _⟩ := reach_bothHear
  have any := reached.mono fun _ _ _ => trivial
  obtain ⟨known, _, _, _, said⟩ := printed_lines_typed (a := 7) any (printed ▸ List.mem_cons_self)
  exact ⟨s, any, known, said⟩

theorem same_order_bothHear : ∃ (s : System Nat) (ds : List (Datagram Nat)),
    Reach System.step InOrder .init s ∧ heard 7 ds = [ascii "hi"] := by
  obtain ⟨s, reached, idle, printed, arriving⟩ := reach_bothHear
  obtain ⟨ds, _, _, quiet⟩ := same_order reached
  have all := (quiet idle).2.1 7
  rw [printed, arriving] at all
  exact ⟨s, ds, reached, all.symm⟩

end PySystem
