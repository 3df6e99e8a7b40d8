import NetworksLab.PyGroupServer
import NetworksLab.Slots

/-! The Python group-chat server statement by statement: the loop of `check` and
the threads of `receive` test `clients` and append to it in two steps, and
`transmit` walks the list that others append to. -/
namespace PyThreads
open CString Transition
open PyGroup (Datagram received)

variable {α : Type*}

inductive Kind
  | check
  | receive
  deriving DecidableEq

/-- The statement next to run; `transmit i` is the loop of `transmit` at index `i`. -/
inductive Pc
  | recvfrom
  | test
  | append
  | start
  | transmit (i : Nat)
  deriving DecidableEq

/-- A thread with its `data` and `addr`, unset before the first `recvfrom` of
`check`; `out` are the addresses its latest `transmit` has sent to. -/
structure Reader (α : Type*) where
  kind : Kind
  pc : Pc
  data : Bytes
  addr : Option α
  out : List α
  deriving DecidableEq

structure Server (α : Type*) where
  clients : List α
  readers : List (Reader α)
  connected : List α
  sent : List (Bytes × α)
  deriving DecidableEq

def Server.init : Server α := ⟨[], [⟨.check, .recvfrom, [], none, []⟩], [], []⟩

inductive Event (α : Type*)
  | recvfrom (k : Nat) (d : Datagram α)
  | thread (k : Nat)

def Server.put (s : Server α) (k : Nat) (r : Reader α) : Server α :=
  { s with readers := s.readers.set k r }

/-- `if not data` in `check`, `if data` in `receive`. -/
def Kind.branch (kind : Kind) (data : Bytes) : Pc :=
  match kind with
  | .check => if data = [] then .test else .transmit 0
  | .receive => if data ≠ [] then .transmit 0 else .test

/-- `recvfrom(1024)` of reader `k`, with the branch it takes and its `print`. -/
def Server.recvfrom (s : Server α) (k : Nat) (d : Datagram α) : Option (Server α) :=
  match s.readers[k]? with
  | none => none
  | some r =>
      if r.pc = .recvfrom then
        some { s.put k { r with
            pc := r.kind.branch (received d), data := received d, addr := some d.addr, out := [] } with
          connected := if received d = [] then s.connected ++ [d.addr] else s.connected }
      else none

/-- The other statements of reader `k`. -/
def Server.thread [DecidableEq α] (s : Server α) (k : Nat) : Option (Server α) :=
  match s.readers[k]? with
  | none => none
  | some r =>
      match r.pc, r.addr with
      | .test, some a =>
          some (s.put k { r with pc := if a ∉ s.clients then .append else .start })
      | .append, some a => some { s.put k { r with pc := .start } with clients := s.clients ++ [a] }
      | .start, some a => some { s with
          readers := s.readers.set k { r with pc := .recvfrom } ++
            [⟨.receive, .recvfrom, [], some a, []⟩] }
      | .transmit i, _ =>
          match s.clients[i]? with
          | none => some (s.put k { r with pc := .recvfrom })
          | some a => some { s.put k { r with pc := .transmit (i + 1), out := r.out ++ [a] } with
              sent := s.sent ++ [(r.data, a)] }
      | _, _ => none

def Server.step [DecidableEq α] (s : Server α) : Event α → Option (Server α)
  | .recvfrom k d => s.recvfrom k d
  | .thread k => s.thread k

/-- Everything a step can do. -/
inductive Server.Move (s : Server α) : Event α → Server α → Prop
  | recvfrom {k r d connected} (here : s.readers[k]? = some r) (pc : r.pc = .recvfrom) :
      Move s (.recvfrom k d) { s.put k { r with
        pc := r.kind.branch (received d), data := received d, addr := some d.addr, out := [] } with
        connected := connected }
  | old {k r a} (here : s.readers[k]? = some r) (pc : r.pc = .test) (addr : r.addr = some a)
      (known : a ∈ s.clients) : Move s (.thread k) (s.put k { r with pc := .start })
  | new {k r a} (here : s.readers[k]? = some r) (pc : r.pc = .test) (addr : r.addr = some a)
      (unknown : a ∉ s.clients) : Move s (.thread k) (s.put k { r with pc := .append })
  | append {k r a} (here : s.readers[k]? = some r) (pc : r.pc = .append)
      (addr : r.addr = some a) : Move s (.thread k)
        { s.put k { r with pc := .start } with clients := s.clients ++ [a] }
  | start {k r a} (here : s.readers[k]? = some r) (pc : r.pc = .start) (addr : r.addr = some a) :
      Move s (.thread k) { s with readers := s.readers.set k { r with pc := .recvfrom } ++
        [⟨.receive, .recvfrom, [], some a, []⟩] }
  | send {k r i a} (here : s.readers[k]? = some r) (pc : r.pc = .transmit i)
      (slot : s.clients[i]? = some a) : Move s (.thread k)
        { s.put k { r with pc := .transmit (i + 1), out := r.out ++ [a] } with
          sent := s.sent ++ [(r.data, a)] }
  | endTransmit {k r i} (here : s.readers[k]? = some r) (pc : r.pc = .transmit i)
      (last : s.clients[i]? = none) : Move s (.thread k) (s.put k { r with pc := .recvfrom })

variable {s t : Server α} {e : Event α} {j k : Nat} {r q : Reader α} {a : α}

theorem Server.step_move [DecidableEq α] (step : s.step e = some t) : Move s e t := by
  cases e with
  | recvfrom k d =>
      simp only [Server.step, Server.recvfrom] at step
      split at step
      · cases step
      next r here =>
        rw [Option.ite_none_right_eq_some] at step
        rw [← Option.some.inj step.2]
        exact .recvfrom here step.1
  | thread k =>
      simp only [Server.step, Server.thread] at step
      split at step
      · cases step
      next r here =>
        split at step
        next a pc addr =>
          rw [← Option.some.inj step]
          by_cases known : a ∈ s.clients
          · rw [if_neg (not_not.mpr known)]
            exact .old here pc addr known
          · rw [if_pos known]
            exact .new here pc addr known
        next a pc addr => exact Option.some.inj step ▸ .append here pc addr
        next a pc addr => exact Option.some.inj step ▸ .start here pc addr
        next i pc =>
          split at step
          next last => exact Option.some.inj step ▸ .endTransmit here pc last
          next a slot => exact Option.some.inj step ▸ .send here pc slot
        · cases step

/-- No other reader has found `a` missing and is about to append it, nor is it a
client. -/
def Server.Unclaimed (s : Server α) (k : Nat) (a : α) : Prop :=
  a ∉ s.clients ∧ ∀ (j : Nat) (q : Reader α), j ≠ k → s.readers[j]? = some q → q.pc = .append →
    q.addr ≠ some a

/-- A reader's test finds an address missing only while no other reader is between
that finding and its `append`. -/
def Alone (s : Server α) : Event α → Prop
  | .recvfrom _ _ => True
  | .thread k => ∀ r a, s.readers[k]? = some r → r.pc = .test → r.addr = some a →
      a ∉ s.clients → s.Unclaimed k a

/-- No address is registered twice, and no `transmit` sends twice to one. -/
structure Server.Once (s : Server α) : Prop where
  clients : s.clients.Nodup
  copies : ∀ r ∈ s.readers, r.out.Nodup

structure Server.Registered (s : Server α) : Prop where
  nodup : s.clients.Nodup
  claims : ∀ (k : Nat) (r : Reader α) (a : α), s.readers[k]? = some r → r.pc = .append →
    r.addr = some a → s.Unclaimed k a

/-- A `transmit` goes through the list from its start, whatever is appended. -/
structure Reader.Walks (clients : List α) (r : Reader α) : Prop where
  out : r.out <+: clients
  at_index : ∀ i, r.pc = .transmit i → i ≤ clients.length ∧ r.out = clients.take i

/-- A reader that is not about to append leaves the others' claims alone. -/
theorem Server.Registered.put (h : s.Registered) (clients : t.clients = s.clients)
    (readers : t.readers = s.readers.set k r)
    (new : r.pc = .append → ∀ a, r.addr = some a → s.Unclaimed k a) : t.Registered := by
  refine ⟨clients ▸ h.nodup, ?_⟩
  intro j q a here pc addr
  rw [readers] at here
  rcases Slots.set_cases here with ⟨rfl, rfl⟩ | ⟨other, old⟩
  · obtain ⟨absent, apart⟩ := new pc a addr
    refine ⟨clients ▸ absent, ?_⟩
    intro i p apart_i here_i
    rw [readers, List.getElem?_set_ne (Ne.symm apart_i)] at here_i
    exact apart i p apart_i here_i
  · obtain ⟨absent, apart⟩ := h.claims j q a old pc addr
    refine ⟨clients ▸ absent, ?_⟩
    intro i p apart_i here_i appends same
    rw [readers] at here_i
    rcases Slots.set_cases here_i with ⟨rfl, rfl⟩ | ⟨_, here_i⟩
    · exact (new appends a same).2 j q other old pc addr
    · exact apart i p apart_i here_i appends same

theorem Server.Registered.append (h : s.Registered) (here : s.readers[k]? = some r)
    (pc : r.pc = .append) (addr : r.addr = some a) :
    Server.Registered { s.put k { r with pc := .start } with clients := s.clients ++ [a] } := by
  have mine := h.claims k r a here pc addr
  constructor
  · rw [← List.concat_eq_append]
    exact h.nodup.concat mine.1
  · intro j q b here_j pc_j addr_j
    rcases Slots.set_cases here_j with ⟨rfl, rfl⟩ | ⟨other, here_j⟩
    · cases pc_j
    · obtain ⟨absent, apart⟩ := h.claims j q b here_j pc_j addr_j
      constructor
      · rw [List.mem_append, List.mem_singleton]
        rintro (old | rfl)
        · exact absent old
        · exact apart k r (Ne.symm other) here pc addr
      · intro i p apart_i here_i appends
        rcases Slots.set_cases here_i with ⟨rfl, rfl⟩ | ⟨_, here_i⟩
        · cases appends
        · exact apart i p apart_i here_i appends

theorem Server.Registered.start (h : s.Registered) :
    Server.Registered { s with readers := s.readers.set k { r with pc := .recvfrom } ++
      [⟨.receive, .recvfrom, [], some a, []⟩] } := by
  have put : Server.Registered (s.put k { r with pc := .recvfrom }) := h.put rfl rfl nofun
  refine ⟨h.nodup, ?_⟩
  intro j q b here pc addr
  rcases Slots.concat_cases here with ⟨rfl, rfl⟩ | here
  · cases pc
  · obtain ⟨absent, apart⟩ := put.claims j q b here pc addr
    refine ⟨absent, ?_⟩
    intro i p apart_i here_i appends
    rcases Slots.concat_cases here_i with ⟨rfl, rfl⟩ | here_i
    · cases appends
    · exact apart i p apart_i here_i appends

theorem Kind.branch_ne_append (kind : Kind) (data : Bytes) : kind.branch data ≠ .append := by
  cases kind <;> by_cases empty : data = [] <;> simp [branch, empty]

theorem Server.Registered.move (h : s.Registered) (alone : Alone s e) (move : Move s e t) :
    t.Registered := by
  cases move with
  | recvfrom here pc =>
      exact h.put rfl rfl fun appends => absurd appends (Kind.branch_ne_append _ _)
  | old here pc addr known => exact h.put rfl rfl nofun
  | @new k r a here pc addr unknown =>
      refine h.put rfl rfl fun _ b same => ?_
      obtain rfl : a = b := Option.some.inj (addr.symm.trans same)
      exact alone r a here pc addr unknown
  | append here pc addr => exact h.append here pc addr
  | start here pc addr => exact h.start
  | send here pc slot => exact h.put rfl rfl nofun
  | endTransmit here pc last => exact h.put rfl rfl nofun

theorem Reader.Walks.mono (h : r.Walks s.clients) (more : s.clients <+: t.clients) :
    r.Walks t.clients := by
  refine ⟨h.out.trans more, fun i pc => ?_⟩
  obtain ⟨bound, out⟩ := h.at_index i pc
  obtain ⟨rest, whole⟩ := more
  refine ⟨bound.trans (List.IsPrefix.length_le ⟨rest, whole⟩), ?_⟩
  rw [← whole, List.take_append_of_le_length bound]
  exact out

theorem Server.Move.clients (move : Move s e t) : s.clients <+: t.clients := by
  cases move with
  | append => exact List.prefix_append ..
  | recvfrom | old | new | start | send | endTransmit => exact List.prefix_rfl

theorem Server.Move.walks (h : ∀ r ∈ s.readers, r.Walks s.clients) (move : Move s e t) :
    ∀ r ∈ t.readers, r.Walks t.clients := by
  have kept : ∀ r ∈ s.readers, r.Walks t.clients := fun r mem => (h r mem).mono move.clients
  have put {k : Nat} {q : Reader α} (new : q.Walks t.clients) :
      ∀ r ∈ s.readers.set k q, r.Walks t.clients := by
    intro r mem
    rcases List.mem_or_eq_of_mem_set mem with old | rfl
    · exact kept r old
    · exact new
  cases move with
  | @recvfrom k r d connected here pc =>
      refine put ⟨List.nil_prefix, fun i branch => ?_⟩
      have zero : i = 0 := by
        revert branch
        cases r.kind <;> by_cases empty : received d = [] <;> simp [Kind.branch, empty, eq_comm]
      rw [zero]
      exact ⟨Nat.zero_le _, rfl⟩
  | old here | new here | append here | endTransmit here =>
      exact put ⟨(kept _ (List.mem_of_getElem? here)).out, nofun⟩
  | @start k q a here =>
      intro r mem
      have out := (kept q (List.mem_of_getElem? here)).out
      rcases List.mem_append.mp mem with old | new
      · exact put (q := { q with pc := .recvfrom }) ⟨out, nofun⟩ r old
      · rw [List.mem_singleton.mp new]
        exact ⟨List.nil_prefix, nofun⟩
  | @send k r i a here pc slot =>
      obtain ⟨bound, out⟩ := (h r (List.mem_of_getElem? here)).at_index i pc
      have next : r.out ++ [a] = s.clients.take (i + 1) := by
        rw [List.take_add_one, slot, out]
        rfl
      refine put ⟨next ▸ List.take_prefix .., ?_⟩
      rintro _ ⟨⟩
      exact ⟨(List.getElem?_eq_some_iff.mp slot).1, next⟩

section Runs

variable [DecidableEq α]

theorem walks {ok : Server α → Event α → Prop} (reached : Reach Server.step ok .init s) :
    ∀ r ∈ s.readers, r.Walks s.clients := by
  apply reached.invariant (I := fun t : Server α => ∀ r ∈ t.readers, r.Walks t.clients)
  · intro r mem
    rw [List.mem_singleton.mp mem]
    exact ⟨List.nil_prefix, nofun⟩
  · intro t e u inv _ step
    exact (Server.step_move step).walks inv

theorem registered (reached : Reach Server.step Alone .init s) : s.Registered := by
  apply reached.invariant (I := Server.Registered)
  · refine ⟨List.nodup_nil, ?_⟩
    intro k r a here pc
    obtain rfl := List.mem_singleton.mp (List.mem_of_getElem? here)
    cases pc
  · intro t e u inv alone step
    exact inv.move alone (Server.step_move step)

theorem alone_once (reached : Reach Server.step Alone .init s) : s.Once := by
  have nodup := (registered reached).nodup
  exact ⟨nodup, fun r mem => nodup.sublist (walks reached r mem).out.sublist⟩

theorem step_append (here : s.readers[k]? = some r) (pc : r.pc = .append) (addr : r.addr = some a) :
    s.step (.thread k) = some { s.put k { r with pc := .start } with clients := s.clients ++ [a] } := by
  simp only [Server.step, Server.thread, here, pc, addr]

/-- Two readers about to append one address do so. -/
theorem appends_twice (other : j ≠ k) (here_j : s.readers[j]? = some q) (pc_j : q.pc = .append)
    (addr_j : q.addr = some a) (here_k : s.readers[k]? = some r) (pc_k : r.pc = .append)
    (addr_k : r.addr = some a) :
    ∃ t, Reach Server.step anyStep s t ∧ t.clients = s.clients ++ [a] ++ [a] := by
  have still : (s.readers.set j { q with pc := .start })[k]? = some r := by
    rw [List.getElem?_set_ne other]
    exact here_k
  have first : Reach Server.step anyStep s _ := .single trivial (step_append here_j pc_j addr_j)
  exact ⟨_, first.tail trivial (step_append still pc_k addr_k), rfl⟩

theorem claimed_twice (crowded : ¬ Alone s (.thread k)) (step : s.step (.thread k) = some t) :
    ∃ u, Reach Server.step anyStep t u ∧ ¬ u.Once := by
  simp only [Alone, Server.Unclaimed, not_forall, not_and, not_not] at crowded
  obtain ⟨r, a, here, pc, addr, unknown, rest⟩ := crowded
  obtain ⟨j, q, other, here_j, pc_j, addr_j⟩ := rest unknown
  have tested : s.step (.thread k) = some (s.put k { r with pc := .append }) := by
    simp only [Server.step, Server.thread, here, pc, addr, if_pos unknown]
  obtain rfl := Option.some.inj (tested.symm.trans step)
  have theirs : (s.put k { r with pc := .append }).readers[j]? = some q :=
    (List.getElem?_set_ne (Ne.symm other)).trans here_j
  have mine : (s.put k { r with pc := .append }).readers[k]? = some { r with pc := .append } :=
    Slots.get_set here
  obtain ⟨u, later, clients⟩ := appends_twice other theirs pc_j addr_j mine rfl addr
  refine ⟨u, later, fun once => ?_⟩
  have nodup := once.clients
  rw [clients] at nodup
  exact (List.nodup_append.mp nodup).2.2 a (List.mem_append_right _ List.mem_cons_self) a
    List.mem_cons_self rfl

/-- While tests are alone no address is registered twice and every `transmit` sends
at most once to each; a test that is not can lead to a second entry. -/
theorem registered_once :
    (∀ s : Server α, Reach Server.step Alone .init s → s.Once) ∧
      ∀ (s t : Server α) (k : Nat), Reach Server.step anyStep .init s → ¬ Alone s (.thread k) →
        s.step (.thread k) = some t → ∃ u, Reach Server.step anyStep t u ∧ ¬ u.Once :=
  ⟨fun _ => alone_once, fun _ _ _ _ => claimed_twice⟩

end Runs

/-- Two clients join, each with a reader of its own and a test that is alone. -/
def oneTests : List (Event Nat) :=
  [.recvfrom 0 ⟨7, []⟩, .thread 0, .thread 0, .thread 0, .recvfrom 1 ⟨8, []⟩, .thread 1, .thread 1]

/-- A decidable condition for a test to be alone. -/
def calm (s : Server Nat) : Event Nat → Prop
  | .recvfrom _ _ => True
  | .thread k => s.readers[k]?.map (·.pc) = some .test → ∀ r ∈ s.readers, r.pc ≠ .append

instance (s : Server Nat) (e : Event Nat) : Decidable (calm s e) := by
  cases e <;> unfold calm <;> infer_instance

theorem calm_alone (s : Server Nat) (e : Event Nat) (quiet : calm s e) : Alone s e := by
  cases e with
  | recvfrom => trivial
  | thread k =>
      intro r a here pc _ unknown
      have none := quiet (by rw [here, Option.map_some, pc])
      exact ⟨unknown, fun j q _ there appends => absurd appends (none q (List.mem_of_getElem? there))⟩

theorem registered_once_oneTests :
    ∃ s, Reach Server.step Alone .init s ∧ s.clients = [7, 8] ∧ s.Once := by
  have registers : (run (fun s e => if calm s e then Server.step s e else none) .init oneTests).map
      (·.clients) = some [7, 8] := by decide
  obtain ⟨s, ran, clients⟩ := Option.map_eq_some_iff.mp registers
  have reached := (reach_of_guarded ran).mono calm_alone
  exact ⟨s, reached, clients, registered_once.1 s reached⟩

/-- With a second reader at work, one client's two empty datagrams are read by both. -/
def bothTest : List (Event Nat) :=
  [.recvfrom 0 ⟨9, []⟩, .thread 0, .thread 0, .thread 0, .recvfrom 0 ⟨7, []⟩, .recvfrom 1 ⟨7, []⟩,
    .thread 0, .thread 1, .thread 0, .thread 1]

theorem bothTest_appends : (run Server.step .init bothTest).map (·.clients) = some [9, 7, 7] := by
  decide

theorem registered_once_bothTest :
    ¬ ∀ s : Server Nat, Reach Server.step anyStep .init s → s.Once := by
  intro claim
  obtain ⟨s, reached, clients⟩ := Option.map_eq_some_iff.mp bothTest_appends
  have nodup := (claim s (reach_of_run reached)).clients
  rw [clients] at nodup
  revert nodup
  decide

end PyThreads
