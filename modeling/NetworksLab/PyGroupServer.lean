import Mathlib.Data.List.Induction
import Mathlib.Data.List.Nodup
import NetworksLab.CString
import NetworksLab.Transition

/-! The Python group-chat server: the loop of `check` and a thread of `receive`
for every empty datagram, all reading one UDP socket. A datagram goes to
whichever of them reads next. -/
namespace PyGroup
open CString Transition

variable {α : Type*} [DecidableEq α]

structure Datagram (α : Type*) where
  addr : α
  payload : Bytes
  deriving DecidableEq

/-- A thread at its `recvfrom`; `receive` rebinds its parameter there. -/
inductive Reader (α : Type*)
  | check
  | receive (addr : α)
  deriving DecidableEq

/-- `connected` are the addresses printed, `sent` the calls of `sendto`. -/
structure Server (α : Type*) where
  clients : List α
  readers : List (Reader α)
  connected : List α
  sent : List (Bytes × α)
  deriving DecidableEq

def Server.start : Server α := ⟨[], [.check], [], []⟩

def Server.transmit (s : Server α) (data : Bytes) : Server α :=
  { s with sent := s.sent ++ s.clients.map fun addr => (data, addr) }

/-- `if addr not in clients: clients.append(addr)`. -/
def Server.appendClient (s : Server α) (addr : α) : Server α :=
  if addr ∉ s.clients then { s with clients := s.clients ++ [addr] } else s

def Server.startReceive (s : Server α) (addr : α) : Server α :=
  { s with readers := s.readers ++ [.receive addr] }

/-- The body of the loop in `check`, from what `recvfrom` returns on. -/
def Server.check (s : Server α) (data : Bytes) (addr : α) : Server α :=
  if data = [] then
    Server.startReceive (Server.appendClient { s with connected := s.connected ++ [addr] } addr) addr
  else s.transmit data

/-- The body of the loop in `receive`. -/
def Server.receive (s : Server α) (data : Bytes) (addr : α) : Server α :=
  if data ≠ [] then s.transmit data
  else
    Server.startReceive (Server.appendClient { s with connected := s.connected ++ [addr] } addr) addr

/-- `recvfrom(1024)` drops what does not fit. -/
def received (d : Datagram α) : Bytes := d.payload.take 1024

/-- Reader `k` takes the datagram and handles it. -/
def Server.step (s : Server α) (e : Nat × Datagram α) : Option (Server α) :=
  match s.readers[e.1]? with
  | none => none
  | some .check => some (s.check (received e.2) e.2.addr)
  | some (.receive _) => some (Server.receive
      { s with readers := s.readers.set e.1 (.receive e.2.addr) } (received e.2) e.2.addr)

/-- The server with `check` alone. -/
def Server.loop (s : Server α) (d : Datagram α) : Option (Server α) :=
  some (s.check (received d) d.addr)

/-- The senders of empty datagrams, each at its first. -/
def joined (ds : List (Datagram α)) : List α :=
  ((ds.filter (·.payload = [])).map (·.addr)).eraseDups

/-- Every other datagram, cut to 1024 bytes, to all who have joined before it. -/
def relayed (ds : List (Datagram α)) : List (Bytes × α) :=
  ds.zipIdx.flatMap fun (d, i) =>
    if d.payload = [] then [] else (joined (ds.take i)).map fun addr => (d.payload.take 1024, addr)

omit [DecidableEq α] in
theorem received_eq_nil {d : Datagram α} : received d = [] ↔ d.payload = [] := by
  simp [received]

theorem joined_concat (ds : List (Datagram α)) (d : Datagram α) :
    joined (ds ++ [d]) =
      joined ds ++ if d.payload = [] ∧ d.addr ∉ joined ds then [d.addr] else [] := by
  unfold joined
  rw [List.filter_append, List.map_append, List.eraseDups_append]
  congr 1
  by_cases empty : d.payload = []
  · by_cases old : d.addr ∈ (ds.filter (·.payload = [])).map (·.addr)
    · rw [if_neg fun new => new.2 (List.mem_eraseDups.mpr old)]
      simp [empty, List.removeAll, old]
    · rw [if_pos ⟨empty, fun mem => old (List.mem_eraseDups.mp mem)⟩]
      simp [empty, List.removeAll, old, List.eraseDups_cons]
  · rw [if_neg fun new => empty new.1]
    simp [empty]

theorem relayed_concat (ds : List (Datagram α)) (d : Datagram α) :
    relayed (ds ++ [d]) = relayed ds ++
      if d.payload = [] then [] else (joined ds).map fun addr => (d.payload.take 1024, addr) := by
  unfold relayed
  rw [List.zipIdx_append, List.flatMap_append]
  congr 1
  · apply List.flatMap_congr
    rintro ⟨earlier, i⟩ hp
    have below : i < ds.length := List.snd_lt_of_mem_zipIdx hp
    simp only [List.take_append_of_le_length below.le]
  · simp

/-- What the clients and the network see. -/
structure Server.Agrees (s t : Server α) : Prop where
  clients : s.clients = t.clients
  connected : s.connected = t.connected
  sent : s.sent = t.sent

theorem Server.receive_eq_check (s : Server α) (data : Bytes) (addr : α) :
    s.receive data addr = s.check data addr := by
  unfold receive check
  by_cases empty : data = []
  · rw [if_neg (not_not.mpr empty), if_pos empty]
  · rw [if_pos empty, if_neg empty]

theorem Server.Agrees.check {s t : Server α} (h : s.Agrees t) (data : Bytes) (addr : α) :
    (s.check data addr).Agrees (t.check data addr) := by
  obtain ⟨clients, connected, sent⟩ := h
  unfold Server.check
  by_cases empty : data = []
  · rw [if_pos empty, if_pos empty]
    by_cases old : addr ∈ t.clients <;>
      constructor <;>
      simp [Server.appendClient, Server.startReceive, clients, connected, sent, old]
  · rw [if_neg empty, if_neg empty]
    constructor <;> simp [Server.transmit, clients, connected, sent]

/-- Whichever reader takes the datagram, it does what `check` does. -/
theorem Server.step_check {s t : Server α} {e : Nat × Datagram α} (step : s.step e = some t) :
    ∃ readers : List (Reader α), readers.length = s.readers.length ∧
      Server.check { s with readers } (received e.2) e.2.addr = t := by
  unfold Server.step at step
  cases reader : s.readers[e.1]? with
  | none => simp [reader] at step
  | some r =>
      cases r with
      | check =>
          simp only [reader, Option.some.injEq] at step
          exact ⟨s.readers, rfl, step⟩
      | receive own =>
          simp only [reader, Option.some.injEq, Server.receive_eq_check] at step
          exact ⟨s.readers.set e.1 (.receive e.2.addr), List.length_set, step⟩

theorem Server.Agrees.step {s s' t : Server α} {e : Nat × Datagram α} (h : s.Agrees t)
    (step : s.step e = some s') : ∃ t', t.loop e.2 = some t' ∧ s'.Agrees t' := by
  obtain ⟨readers, _, rfl⟩ := Server.step_check step
  have rebound : Server.Agrees { s with readers } t := ⟨h.clients, h.connected, h.sent⟩
  exact ⟨_, rfl, rebound.check _ _⟩

theorem joined_nodup (ds : List (Datagram α)) : (joined ds).Nodup := by
  induction ds using List.reverseRecOn with
  | nil => simp [joined]
  | append_singleton ds d ih =>
      rw [joined_concat]
      by_cases new : d.payload = [] ∧ d.addr ∉ joined ds
      · rw [if_pos new, ← List.concat_eq_append]
        exact ih.concat new.2
      · rwa [if_neg new, List.append_nil]

theorem Server.loop_run (ds : List (Datagram α)) :
    ∃ t : Server α, run Server.loop .start ds = some t ∧ t.clients = joined ds ∧
      t.sent = relayed ds := by
  induction ds using List.reverseRecOn with
  | nil => exact ⟨.start, rfl, by simp [joined, start], rfl⟩
  | append_singleton ds d ih =>
      obtain ⟨t, reached, clients, sent⟩ := ih
      refine ⟨t.check (received d) d.addr, ?_, ?_, ?_⟩
      · exact run_trans reached rfl
      · rw [joined_concat, check]
        by_cases empty : d.payload = []
        · rw [if_pos (received_eq_nil.mpr empty)]
          by_cases old : d.addr ∈ joined ds <;>
            simp [startReceive, appendClient, clients, empty, old]
        · rw [if_neg (mt received_eq_nil.mp empty)]
          simp [transmit, clients, empty]
      · rw [relayed_concat, check]
        by_cases empty : d.payload = []
        · rw [if_pos (received_eq_nil.mpr empty)]
          by_cases old : d.addr ∈ joined ds <;>
            simp [startReceive, appendClient, clients, sent, empty, old]
        · rw [if_neg (mt received_eq_nil.mp empty)]
          simp [transmit, clients, sent, empty, received]

theorem Server.pool_run {es : List (Nat × Datagram α)} {s : Server α}
    (h : run Server.step .start es = some s) :
    ∃ t, run Server.loop .start (es.map (·.2)) = some t ∧ s.Agrees t :=
  run_simulates (fun _ _ _ _ agrees step => agrees.step step) ⟨rfl, rfl, rfl⟩ h

theorem Server.outcome_run {es : List (Nat × Datagram α)} {s : Server α}
    (h : run Server.step .start es = some s) :
    s.clients = joined (es.map (·.2)) ∧ s.sent = relayed (es.map (·.2)) := by
  obtain ⟨t, loop, agrees⟩ := Server.pool_run h
  obtain ⟨t', loop', clients, sent⟩ := Server.loop_run (es.map (·.2))
  obtain rfl := Option.some.inj (loop.symm.trans loop')
  exact ⟨agrees.clients.trans clients, agrees.sent.trans sent⟩

/-- Whoever reads which datagram, the server ends and sends as the loop of
`check` alone does on the same datagrams. -/
theorem pool_refines_loop {es : List (Nat × Datagram α)} {s : Server α}
    (h : run Server.step .start es = some s) :
    (∃ t, run Server.loop .start (es.map (·.2)) = some t ∧ s.clients = t.clients ∧
      s.sent = t.sent) ∧
    s.clients = joined (es.map (·.2)) ∧ s.clients.Nodup ∧ s.sent = relayed (es.map (·.2)) ∧
    ∀ (es' : List (Nat × Datagram α)) (s' : Server α), es'.map (·.2) = es.map (·.2) →
      run Server.step .start es' = some s' → s'.clients = s.clients ∧ s'.sent = s.sent := by
  obtain ⟨t, loop, agrees⟩ := Server.pool_run h
  obtain ⟨clients, sent⟩ := Server.outcome_run h
  refine ⟨⟨t, loop, agrees.clients, agrees.sent⟩, clients, clients ▸ joined_nodup _, sent, ?_⟩
  intro es' s' same h'
  obtain ⟨clients', sent'⟩ := Server.outcome_run h'
  exact ⟨by rw [clients', clients, same], by rw [sent', sent, same]⟩

/-- Two clients join and one writes; the second reader takes the last datagram. -/
def twoJoin : List (Nat × Datagram Nat) :=
  [(0, ⟨7, []⟩), (1, ⟨8, []⟩), (2, ⟨7, []⟩), (1, ⟨8, ascii "hi"⟩)]

theorem pool_refines_loop_twoJoin : ∃ s, run Server.step .start twoJoin = some s ∧
    s.clients = [7, 8] ∧ s.sent = [(ascii "hi", 7), (ascii "hi", 8)] := by
  obtain ⟨s, reached⟩ : ∃ s, run Server.step .start twoJoin = some s := ⟨_, rfl⟩
  obtain ⟨_, clients, _, sent, _⟩ := pool_refines_loop reached
  exact ⟨s, reached, clients, sent⟩

end PyGroup
