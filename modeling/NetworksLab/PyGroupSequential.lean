import NetworksLab.PyGroupReaders
import NetworksLab.PyGroupThreads

/-! The statements of the Python group-chat server against whole datagrams. If a
datagram is read only when the one before it is done with, the threads do what
the pool of readers does in one step a datagram. -/
namespace PyThreads
open CString Transition
open PyGroup (Datagram received joined relayed)

variable {α : Type*}

def Server.Idle (s : Server α) : Prop := ∀ r ∈ s.readers, r.pc = .recvfrom

instance (s : Server α) : Decidable s.Idle := inferInstanceAs (Decidable (∀ r ∈ s.readers, _))

/-- The datagrams read, each with its reader. -/
def Event.taken : Event α → Option (Nat × Datagram α)
  | .recvfrom k d => some (k, d)
  | .thread _ => none

variable [DecidableEq α]

/-- A datagram is left alone while another one is handled. -/
def Server.stepAlone (s : Server α) (e : Event α) : Option (Server α) :=
  match e with
  | .recvfrom _ _ => if s.Idle then s.step e else none
  | .thread _ => s.step e

/-- What the rest of a reader's loop body appends to `clients`. -/
def Reader.appends (clients : List α) (r : Reader α) : List α :=
  match r.pc, r.addr with
  | .test, some a => if a ∈ clients then [] else [a]
  | .append, some a => [a]
  | _, _ => []

/-- What it sends. -/
def Reader.sends (clients : List α) (r : Reader α) : List (Bytes × α) :=
  match r.pc with
  | .transmit i => (clients.drop i).map fun a => (r.data, a)
  | _ => []

/-- How many readers it starts. -/
def Reader.starts (r : Reader α) : Nat :=
  match r.pc with
  | .test | .append | .start => 1
  | _ => 0

/-- How many of its statements are still to run. -/
def Reader.left (clients : List α) (r : Reader α) : Nat :=
  match r.pc with
  | .recvfrom => 0
  | .test => 3
  | .append => 2
  | .start => 1
  | .transmit i => clients.length - i + 1

/-- At most reader `k` has a datagram in hand, and with it handled the server is
what `p` is. -/
structure Server.Finishes (s : Server α) (k : Nat) (r : Reader α) (p : PyGroup.Server α) : Prop where
  here : s.readers[k]? = some r
  others : ∀ j q, j ≠ k → s.readers[j]? = some q → q.pc = .recvfrom
  named : r.pc = .test ∨ r.pc = .append ∨ r.pc = .start → r.addr ≠ none
  clients : p.clients = s.clients ++ r.appends s.clients
  sent : p.sent = s.sent ++ r.sends s.clients
  connected : p.connected = s.connected
  readers : p.readers.length = s.readers.length + r.starts

variable {s t : Server α} {p : PyGroup.Server α} {e : Event α} {k : Nat} {r : Reader α}

theorem Server.Finishes.idle_iff (h : s.Finishes k r p) : s.Idle ↔ r.pc = .recvfrom := by
  constructor
  · intro idle
    exact idle r (List.mem_of_getElem? h.here)
  · intro pc q mem
    obtain ⟨j, at_j⟩ := List.getElem?_of_mem mem
    by_cases same : j = k
    · subst same
      rwa [← Option.some.inj (h.here.symm.trans at_j)]
    · exact h.others j q same at_j

/-- Between two datagrams nothing is left to do. -/
theorem Server.Finishes.agrees (h : s.Finishes k r p) (idle : s.Idle) :
    s.clients = p.clients ∧ s.sent = p.sent ∧ s.connected = p.connected ∧
      s.readers.length = p.readers.length := by
  have pc := h.idle_iff.mp idle
  have clients := h.clients
  have sent := h.sent
  have readers := h.readers
  simp only [Reader.appends, Reader.sends, Reader.starts, pc, List.append_nil,
    Nat.add_zero] at clients sent readers
  exact ⟨clients.symm, sent.symm, h.connected.symm, readers.symm⟩

theorem Server.Finishes.start : Server.init.Finishes 0 ⟨.check, .recvfrom, [], none, []⟩
    (PyGroup.Server.start : PyGroup.Server α) where
  here := rfl
  others j q other at_j := by
    cases j with
    | zero => exact absurd rfl other
    | succ j => cases at_j
  named := by simp
  clients := rfl
  sent := rfl
  connected := rfl
  readers := rfl

/-- A statement that writes reader `k` and does of the rest what it takes off it. -/
theorem Server.Finishes.put {q : Reader α} (h : s.Finishes k r p)
    (readers : t.readers = s.readers.set k q) (connected : t.connected = s.connected)
    (named : q.pc = .test ∨ q.pc = .append ∨ q.pc = .start → q.addr ≠ none)
    (clients : t.clients ++ q.appends t.clients = s.clients ++ r.appends s.clients)
    (sent : t.sent ++ q.sends t.clients = s.sent ++ r.sends s.clients)
    (starts : q.starts = r.starts) : t.Finishes k q p where
  here := readers ▸ Slots.get_set h.here
  others j x other at_j := by
    rw [readers, List.getElem?_set_ne (Ne.symm other)] at at_j
    exact h.others j x other at_j
  named := named
  clients := h.clients.trans clients.symm
  sent := h.sent.trans sent.symm
  connected := h.connected.trans connected.symm
  readers := by rw [h.readers, readers, List.length_set, starts]

/-- Every statement of a reader has the rest of its loop body before it. -/
theorem Server.Finishes.thread (h : s.Finishes k r p) {j : Nat} (step : s.step (.thread j) = some t) :
    ∃ i r', t.Finishes i r' p ∧ r'.left t.clients < r.left s.clients := by
  have held {q : Reader α} (at_j : s.readers[j]? = some q) (busy : q.pc ≠ .recvfrom) :
      j = k ∧ q = r := by
    by_cases same : j = k
    · subst same
      exact ⟨rfl, Option.some.inj (at_j.symm.trans h.here)⟩
    · exact absurd (h.others j q same at_j) busy
  cases Server.step_move step with
  | old here pc addr known =>
      obtain ⟨rfl, rfl⟩ := held here (by simp [pc])
      refine ⟨j, _, h.put rfl rfl (fun _ => addr ▸ nofun) ?_ ?_ ?_, ?_⟩
      · simp [Reader.appends, Server.put, pc, addr, known]
      · simp [Reader.sends, Server.put, pc]
      · simp [Reader.starts, pc]
      · simp [Reader.left, pc]
  | new here pc addr unknown =>
      obtain ⟨rfl, rfl⟩ := held here (by simp [pc])
      refine ⟨j, _, h.put rfl rfl (fun _ => addr ▸ nofun) ?_ ?_ ?_, ?_⟩
      · simp [Reader.appends, Server.put, pc, addr, unknown]
      · simp [Reader.sends, Server.put, pc]
      · simp [Reader.starts, pc]
      · simp [Reader.left, pc]
  | append here pc addr =>
      obtain ⟨rfl, rfl⟩ := held here (by simp [pc])
      refine ⟨j, _, h.put rfl rfl (fun _ => addr ▸ nofun) ?_ ?_ ?_, ?_⟩
      · simp [Reader.appends, pc, addr]
      · simp [Reader.sends, Server.put, pc]
      · simp [Reader.starts, pc]
      · simp [Reader.left, pc]
  | @start _ q a here pc addr =>
      obtain ⟨rfl, rfl⟩ := held here (by simp [pc])
      have clients := h.clients
      have sent := h.sent
      have readers := h.readers
      simp only [Reader.appends, Reader.sends, Reader.starts, pc] at clients sent readers
      refine ⟨j, { q with pc := .recvfrom }, ⟨?_, ?_, by simp, clients, sent, h.connected, ?_⟩, ?_⟩
      · rw [List.getElem?_append_left]
        · exact Slots.get_set here
        · rw [List.length_set]
          exact (List.getElem?_eq_some_iff.mp here).1
      · intro i x other at_i
        rcases Slots.concat_cases at_i with ⟨_, rfl⟩ | at_i
        · rfl
        · rw [List.getElem?_set_ne (Ne.symm other)] at at_i
          exact h.others i x other at_i
      · rw [readers, List.length_append, List.length_set]
        rfl
      · simp [Reader.left, pc]
  | @send _ q i a here pc slot =>
      obtain ⟨rfl, rfl⟩ := held here (by simp [pc])
      obtain ⟨below, entry⟩ := List.getElem?_eq_some_iff.mp slot
      refine ⟨j, _, h.put rfl rfl (by simp) ?_ ?_ ?_, ?_⟩
      · simp [Reader.appends, Server.put, pc]
      · simp only [Reader.sends, Server.put, pc]
        rw [List.drop_eq_getElem_cons below, entry, List.map_cons, List.append_assoc]
        rfl
      · simp [Reader.starts, pc]
      · simp only [Reader.left, Server.put, pc]
        omega
  | @endTransmit _ q i here pc last =>
      obtain ⟨rfl, rfl⟩ := held here (by simp [pc])
      have end_of : s.clients.drop i = [] := List.drop_eq_nil_iff.mpr (List.getElem?_eq_none_iff.mp last)
      refine ⟨j, _, h.put rfl rfl (by simp) ?_ ?_ ?_, ?_⟩
      · simp [Reader.appends, Server.put, pc]
      · simp [Reader.sends, Server.put, pc, end_of]
      · simp [Reader.starts, pc]
      · simp [Reader.left, pc]

/-- What a datagram does to the pool. -/
theorem pool_step {j : Nat} (d : Datagram α) (below : j < p.readers.length) :
    ∃ p', p.step (j, d) = some p' ∧
      p'.clients = p.clients ++ (if received d = [] ∧ d.addr ∉ p.clients then [d.addr] else []) ∧
      p'.sent = p.sent ++ (if received d = [] then [] else p.clients.map fun a => (received d, a)) ∧
      p'.connected = (if received d = [] then p.connected ++ [d.addr] else p.connected) ∧
      p'.readers.length = p.readers.length + if received d = [] then 1 else 0 := by
  obtain ⟨p', step⟩ : ∃ p', p.step (j, d) = some p' := by
    unfold PyGroup.Server.step
    rw [List.getElem?_eq_getElem below]
    cases p.readers[j] with
    | check => exact ⟨_, rfl⟩
    | receive a => exact ⟨_, rfl⟩
  obtain ⟨readers, count, rfl⟩ := PyGroup.Server.step_check step
  refine ⟨_, step, ?_, ?_, ?_, ?_⟩
  · by_cases empty : received d = [] <;> by_cases old : d.addr ∈ p.clients <;>
      simp [PyGroup.Server.check, PyGroup.Server.startReceive, PyGroup.Server.appendClient,
        PyGroup.Server.transmit, empty, old]
  · by_cases empty : received d = [] <;> by_cases old : d.addr ∈ p.clients <;>
      simp [PyGroup.Server.check, PyGroup.Server.startReceive, PyGroup.Server.appendClient,
        PyGroup.Server.transmit, empty, old]
  · by_cases empty : received d = [] <;> by_cases old : d.addr ∈ p.clients <;>
      simp [PyGroup.Server.check, PyGroup.Server.startReceive, PyGroup.Server.appendClient,
        PyGroup.Server.transmit, empty, old]
  · rw [PyGroup.Server.check_readers, count]

theorem Kind.branch_eq (kind : Kind) (data : Bytes) :
    kind.branch data = if data = [] then .test else .transmit 0 := by
  cases kind <;> by_cases empty : data = [] <;> simp [branch, empty]

/-- A datagram that is read has all its handling before it. -/
theorem Server.Finishes.recvfrom (h : s.Finishes k r p) (idle : s.Idle) {j : Nat} {d : Datagram α}
    (step : s.step (.recvfrom j d) = some t) :
    ∃ q p', p.step (j, d) = some p' ∧ t.Finishes j q p' := by
  obtain ⟨clients, sent, connected, readers⟩ := h.agrees idle
  simp only [Server.step, Server.recvfrom] at step
  split at step
  · cases step
  next q here =>
    rw [if_pos (idle q (List.mem_of_getElem? here))] at step
    obtain rfl := Option.some.inj step
    have below := (List.getElem?_eq_some_iff.mp here).1
    obtain ⟨p', taken, clients', sent', connected', readers'⟩ := pool_step d (readers ▸ below)
    refine ⟨_, p', taken, Slots.get_set here, ?_, fun _ => by simp, ?_, ?_, ?_, ?_⟩
    · intro i x other at_i
      rw [Server.put, List.getElem?_set_ne (Ne.symm other)] at at_i
      exact idle x (List.mem_of_getElem? at_i)
    · rw [clients', ← clients, Kind.branch_eq]
      by_cases empty : received d = [] <;> by_cases old : d.addr ∈ s.clients <;>
        simp [Reader.appends, Server.put, empty, old]
    · rw [sent', ← sent, ← clients, Kind.branch_eq]
      by_cases empty : received d = [] <;> simp [Reader.sends, Server.put, empty]
    · rw [connected', ← connected]
    · rw [readers', ← readers, Kind.branch_eq]
      by_cases empty : received d = [] <;> simp [Reader.starts, Server.put, empty]

theorem Server.finishes_run {es : List (Event α)} (h : run Server.stepAlone .init es = some s) :
    ∃ k r p, run PyGroup.Server.step .start (es.filterMap Event.taken) = some p ∧
      s.Finishes k r p := by
  induction es using List.reverseRecOn generalizing s with
  | nil => cases h; exact ⟨0, _, _, rfl, .start⟩
  | append_singleton es e ih =>
      obtain ⟨u, before, step⟩ := run_concat h
      obtain ⟨k, r, p, pool, finishes⟩ := ih before
      rw [List.filterMap_append]
      cases e with
      | recvfrom j d =>
          simp only [stepAlone, Option.ite_none_right_eq_some] at step
          obtain ⟨q, p', taken, finishes'⟩ := finishes.recvfrom step.1 step.2
          exact ⟨j, q, p', run_trans pool (Option.bind_eq_some_iff.mpr ⟨p', taken, rfl⟩), finishes'⟩
      | thread j =>
          obtain ⟨i, r', finishes', _⟩ := finishes.thread step
          exact ⟨i, r', p, run_trans pool rfl, finishes'⟩

/-- A reader with a datagram in hand has a next statement. -/
theorem Server.Finishes.next (h : s.Finishes k r p) (busy : r.pc ≠ .recvfrom) :
    ∃ t, s.step (.thread k) = some t := by
  have here := h.here
  have named := h.named
  simp only [Server.step, Server.thread, here]
  cases pc : r.pc with
  | recvfrom => exact absurd pc busy
  | transmit i =>
      cases slot : s.clients[i]? with
      | none => simp [slot]
      | some a => simp [slot]
  | test | append | start =>
      obtain ⟨a, addr⟩ := Option.ne_none_iff_exists'.mp (named (by simp [pc]))
      simp only [addr]
      exact ⟨_, rfl⟩

/-- It gets to its `recvfrom` without any other reader. -/
theorem Server.Finishes.completes {n : Nat} (h : s.Finishes k r p) (bound : r.left s.clients ≤ n) :
    ∃ fs t, run Server.stepAlone s fs = some t ∧ t.Idle ∧ fs.filterMap Event.taken = [] := by
  induction n generalizing s k r with
  | zero =>
      have pc : r.pc = .recvfrom := by
        cases pc : r.pc with
        | recvfrom => rfl
        | test | append | start | transmit i => simp [Reader.left, pc] at bound
      exact ⟨[], s, rfl, h.idle_iff.mpr pc, rfl⟩
  | succ n ih =>
      by_cases pc : r.pc = .recvfrom
      · exact ⟨[], s, rfl, h.idle_iff.mpr pc, rfl⟩
      · obtain ⟨u, step⟩ := h.next pc
        obtain ⟨i, q, finishes, less⟩ := h.thread step
        obtain ⟨fs, t, reached, idle, none⟩ := ih finishes (by omega)
        exact ⟨.thread k :: fs, t, Option.bind_eq_some_iff.mpr ⟨u, step, reached⟩, idle, none⟩

/-- Statement by statement, a server that reads one datagram at a time is the pool
of readers: never ahead of it, able to finish what it is at without reading another,
and equal to it whenever it has. -/
theorem sequential_refines {es : List (Event α)} (h : run Server.stepAlone .init es = some s) :
    ∃ p, run PyGroup.Server.step .start (es.filterMap Event.taken) = some p ∧
      s.clients <+: p.clients ∧ s.sent <+: p.sent ∧
      (s.Idle → s.clients = p.clients ∧ s.sent = p.sent ∧ s.connected = p.connected ∧
        s.readers.length = p.readers.length) ∧
      ∃ fs t, fs.filterMap Event.taken = [] ∧ run Server.stepAlone s fs = some t ∧ t.Idle ∧
        t.clients = p.clients ∧ t.sent = p.sent := by
  obtain ⟨k, r, p, pool, finishes⟩ := Server.finishes_run h
  obtain ⟨fs, t, reached, idle, none⟩ := finishes.completes le_rfl
  obtain ⟨k', r', p', pool', finishes'⟩ := Server.finishes_run (run_trans h reached)
  rw [List.filterMap_append, none, List.append_nil] at pool'
  obtain rfl := Option.some.inj (pool.symm.trans pool')
  obtain ⟨clients, sent, _⟩ := finishes'.agrees idle
  exact ⟨p, pool, ⟨_, finishes.clients.symm⟩, ⟨_, finishes.sent.symm⟩, finishes.agrees, fs, t,
    none, reached, idle, clients, sent⟩

/-- Two clients join one after the other, and the second one writes. -/
def oneByOne : List (Event Nat) :=
  [.recvfrom 0 ⟨7, []⟩, .thread 0, .thread 0, .thread 0, .recvfrom 1 ⟨8, []⟩, .thread 1, .thread 1,
    .thread 1, .recvfrom 0 ⟨8, ascii "hi"⟩, .thread 0]

theorem sequential_refines_oneByOne : ∃ s : Server Nat,
    run Server.stepAlone .init oneByOne = some s ∧ s.sent = [(ascii "hi", 7)] ∧
    ∃ p, run PyGroup.Server.step .start (oneByOne.filterMap Event.taken) = some p ∧
      s.sent <+: p.sent := by
  obtain ⟨s, reached⟩ : ∃ s, run Server.stepAlone (.init : Server Nat) oneByOne = some s := ⟨_, rfl⟩
  obtain ⟨p, pool, _, sent, _⟩ := sequential_refines reached
  refine ⟨s, reached, ?_, p, pool, sent⟩
  cases reached
  rfl

end PyThreads
