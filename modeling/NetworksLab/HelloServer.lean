import NetworksLab.CString
import NetworksLab.Parallel

/-! The server that forks a process to greet each client, and its clients. A copy of the
socket is open in the parent and in the child, and nobody waits for the children. -/
namespace HelloServer
open CString Transition

/-- `send(newsockfd, "Hello World!", 13, 0)`. -/
def greeting : Bytes := ascii "Hello World!" ++ [0]

def bufferLen : Nat := 100

/-- The call a child makes next; one that has ended stays as a zombie. -/
inductive ChildPc
  | close
  | send
  | exit
  | zombie
  deriving DecidableEq

inductive ClientPc
  | recv
  | printf
  | done
  deriving DecidableEq

/-- `got` is what `recv` has written into the buffer, nothing for 0; `printed` is what `%s`
has shown, `none` for one that runs past the buffer. -/
structure Client where
  pc : ClientPc
  buffer : Bytes
  got : Bytes
  printed : Option Bytes
  deriving DecidableEq

/-- An accepted connection: the child forked for it, whether the parent still has
`newsockfd` open, and what is on its way to the client. -/
structure Connection where
  child : Option ChildPc
  parentOpen : Bool
  toClient : Bytes
  client : Client
  deriving DecidableEq

/-- The buffer of the client is not initialised. -/
def Connection.accepted (buffer : Bytes) : Connection := ⟨none, true, [], ⟨.recv, buffer, [], none⟩⟩

inductive ParentPc
  | accept
  | fork
  | close
  | exited
  deriving DecidableEq

structure Server where
  pc : ParentPc
  waiting : List Bytes
  connections : List Connection
  deriving DecidableEq

def Server.start : Server := ⟨.accept, [], []⟩

/-- What happens to a connection; the parent's part is `forked` and `closed`. -/
inductive Act
  | forked
  | closed
  | child (failed : Bool)
  | client (n : Nat)

/-- The client's stream ends once both copies of the socket are closed. -/
def Connection.hungUp (c : Connection) : Bool :=
  !c.parentOpen && (c.child = none || c.child = some .zombie)

def Connection.childStep (c : Connection) (failed : Bool) : Option Connection :=
  match c.child with
  | some .close => some { c with child := some .send }
  | some .send => some { c with
      child := some .exit, toClient := if failed then c.toClient else c.toClient ++ greeting }
  | some .exit => some { c with child := some .zombie }
  | some .zombie | none => none

/-- `recv` returns `n` bytes, or 0 at the end of the stream. -/
def Connection.clientStep (c : Connection) (n : Nat) : Option Connection :=
  match c.client.pc with
  | .recv =>
      if n ≤ bufferLen ∧ n ≤ c.toClient.length ∧ (n = 0 → c.toClient = [] ∧ c.hungUp = true) then
        let got := c.toClient.take n
        some { c with
          toClient := c.toClient.drop n
          client := { c.client with pc := .printf, got := got, buffer := store c.client.buffer got } }
      else none
  | .printf => some { c with
      client := { c.client with pc := .done, printed := read c.client.buffer } }
  | .done => none

def Connection.step (c : Connection) : Act → Option Connection
  | .forked => some { c with child := some .close }
  | .closed => some { c with parentOpen := false }
  | .child failed => c.childStep failed
  | .client n => c.clientStep n

/-- The parent and all the children it has forked. -/
def Server.started (s : Server) : Nat := 1 + s.connections.countP (·.child.isSome)

/-- The processes of the server. A child that has ended is one of them as long as its parent
runs; after that there is nobody left to wait for it. -/
def Server.processes (s : Server) : Nat :=
  if s.pc = .exited then s.connections.countP (·.child.any (· ≠ .zombie)) else s.started

/-- `newsockfd` is the last connection. -/
def Server.last (s : Server) (act : Act) : Option (List Connection) :=
  Parallel.step Connection.step s.connections (s.connections.length - 1) act

/-- There is no room for more than `limit` processes. -/
def Server.parentStep (limit : Nat) (s : Server) (failed : Bool) : Option Server :=
  match s.pc with
  | .accept =>
      if failed then some { s with pc := .exited }
      else match s.waiting with
        | [] => none
        | buffer :: rest => some ⟨.fork, rest, s.connections ++ [.accepted buffer]⟩
  | .fork =>
      -- -1 is not 0: without a child the parent goes on as with one
      if failed ∨ limit ≤ s.processes then some { s with pc := .close }
      else (s.last .forked).map fun cs => { s with pc := .close, connections := cs }
  | .close => (s.last .closed).map fun cs => { s with pc := .accept, connections := cs }
  | .exited => none

inductive Event
  | connect (buffer : Bytes)
  | parent (failed : Bool)
  | child (k : Nat) (failed : Bool)
  | client (k n : Nat)

def Server.step (limit : Nat) (s : Server) : Event → Option Server
  | .connect buffer => some { s with waiting := s.waiting ++ [buffer] }
  | .parent failed => s.parentStep limit failed
  | .child k failed => (Parallel.step Connection.step s.connections k (.child failed)).map fun cs =>
      { s with connections := cs }
  | .client k n => (Parallel.step Connection.step s.connections k (.client n)).map fun cs =>
      { s with connections := cs }

/-- The greeting has been sent whole or not at all, and the client has been told whatever
there was to tell. -/
structure Connection.Sound (c : Connection) : Prop where
  stream : c.client.got ++ c.toClient = [] ∨
    c.client.got ++ c.toClient = greeting ∧ (c.child = some .exit ∨ c.child = some .zombie)
  fresh : c.client.pc = .recv → c.client.got = []
  stored : c.client.pc ≠ .recv → ∃ old, c.client.buffer = store old c.client.got
  printed : c.client.pc = .done → c.client.printed = read c.client.buffer
  ended : c.client.pc ≠ .recv → c.client.got = [] → c.toClient = [] ∧ c.hungUp = true

variable {c d : Connection} {n k limit : Nat} {failed : Bool} {s t : Server}

theorem Connection.Sound.accepted (buffer : Bytes) : (Connection.accepted buffer).Sound :=
  ⟨.inl rfl, fun _ => rfl, fun pc => absurd rfl pc, nofun, fun pc => absurd rfl pc⟩

theorem Connection.hungUp_iff : c.hungUp = true ↔
    c.parentOpen = false ∧ (c.child = none ∨ c.child = some .zombie) := by
  simp [hungUp]

/-- While the connection is open the client has not met its end. -/
theorem Connection.Sound.unended (h : c.Sound) (up : c.hungUp = false) (pc : c.client.pc ≠ .recv) :
    c.client.got ≠ [] := by
  intro none
  rw [(h.ended pc none).2] at up
  cases up

theorem Connection.Sound.silent (h : c.Sound) (exit : c.child ≠ some .exit)
    (zombie : c.child ≠ some .zombie) : c.client.got = [] ∧ c.toClient = [] := by
  rcases h.stream with nothing | ⟨_, sent | sent⟩
  · exact List.append_eq_nil_iff.mp nothing
  · exact absurd sent exit
  · exact absurd sent zombie

theorem Connection.Sound.forked (h : c.Sound) (unforked : c.child = none) (here : c.parentOpen = true) :
    ({ c with child := some .close } : Connection).Sound := by
  have up : c.hungUp = false := by simp [hungUp, here]
  obtain ⟨got, toClient⟩ := h.silent (by simp [unforked]) (by simp [unforked])
  exact ⟨.inl (by simp [got, toClient]), h.fresh, h.stored, h.printed,
    fun pc none => absurd none (h.unended up pc)⟩

theorem Connection.Sound.closed (h : c.Sound) (here : c.parentOpen = true) :
    ({ c with parentOpen := false } : Connection).Sound := by
  have up : c.hungUp = false := by simp [hungUp, here]
  exact ⟨h.stream, h.fresh, h.stored, h.printed, fun pc none => absurd none (h.unended up pc)⟩

theorem Connection.Sound.childStep (h : c.Sound) (step : c.childStep failed = some d) : d.Sound := by
  cases child : c.child with
  | none =>
      simp only [Connection.childStep, child] at step
      cases step
  | some pc =>
      have running (busy : pc ≠ .zombie) : c.hungUp = false := by simp [hungUp, child, busy]
      cases pc with
      | close =>
          obtain ⟨got, toClient⟩ := h.silent (by simp [child]) (by simp [child])
          simp only [Connection.childStep, child, Option.some.injEq] at step
          subst step
          exact ⟨.inl (by simp [got, toClient]), h.fresh, h.stored, h.printed,
            fun pc none => absurd none (h.unended (running (by decide)) pc)⟩
      | send =>
          obtain ⟨got, toClient⟩ := h.silent (by simp [child]) (by simp [child])
          simp only [Connection.childStep, child, Option.some.injEq] at step
          subst step
          refine ⟨?_, h.fresh, h.stored, h.printed,
            fun pc none => absurd none (h.unended (running (by decide)) pc)⟩
          cases failed with
          | true => exact .inl (by simp [got, toClient])
          | false => exact .inr ⟨by simp [got, toClient], .inl rfl⟩
      | exit =>
          simp only [Connection.childStep, child, Option.some.injEq] at step
          subst step
          refine ⟨h.stream.imp_right fun told => ⟨told.1, .inr rfl⟩, h.fresh, h.stored, h.printed,
            fun pc none => absurd none (h.unended (running (by decide)) pc)⟩
      | zombie =>
          simp only [Connection.childStep, child] at step
          cases step

theorem Connection.Sound.clientStep (h : c.Sound) (step : c.clientStep n = some d) : d.Sound := by
  cases pc : c.client.pc with
  | recv =>
      simp only [Connection.clientStep, pc, Option.ite_none_right_eq_some, Option.some.injEq] at step
      obtain ⟨⟨_, there, ends⟩, rfl⟩ := step
      have stream := h.stream
      rw [h.fresh pc, List.nil_append] at stream
      refine ⟨by simpa using stream, nofun, fun _ => ⟨c.client.buffer, rfl⟩, nofun, fun _ none => ?_⟩
      have zero : n = 0 := by
        rcases List.take_eq_nil_iff.mp none with zero | empty
        · exact zero
        · rw [empty] at there
          exact Nat.le_zero.mp there
      obtain ⟨empty, hungUp⟩ := ends zero
      exact ⟨by simp [empty], hungUp⟩
  | printf =>
      simp only [Connection.clientStep, pc, Option.some.injEq] at step
      subst step
      have behind : c.client.pc ≠ .recv := by simp [pc]
      exact ⟨h.stream, nofun, fun _ => h.stored behind, fun _ => rfl, fun _ => h.ended behind⟩
  | done =>
      simp only [Connection.clientStep, pc] at step
      cases step

/-- The parent has the last connection open from `accept` to `close`, and no other. -/
structure Server.Holds (s : Server) : Prop where
  sound : ∀ (k : Nat) c, s.connections[k]? = some c → c.Sound
  held : ∀ (k : Nat) c, s.connections[k]? = some c →
    (c.parentOpen = true ↔ k + 1 = s.connections.length ∧ (s.pc = .fork ∨ s.pc = .close))
  unforked : ∀ (k : Nat) c, s.connections[k]? = some c → k + 1 = s.connections.length →
    s.pc = .fork → c.child = none

/-- A step that leaves the parent alone. -/
theorem Server.Holds.act (h : s.Holds) {act : Act} {cs : List Connection}
    (step : Parallel.step Connection.step s.connections k act = some cs)
    (sound : ∀ c d : Connection, c.Sound → c.step act = some d → d.Sound)
    (parentOpen : ∀ c d : Connection, c.step act = some d → d.parentOpen = c.parentOpen)
    (unforked : ∀ c d : Connection, c.step act = some d → c.child = none → d.child = none) :
    ({ s with connections := cs } : Server).Holds := by
  obtain ⟨c, d, here, moves, rfl⟩ := Parallel.step_eq_some.mp step
  refine ⟨Slots.forall_set h.sound (sound c d (h.sound k c here) moves),
    Slots.forall_set ?_ ?_, Slots.forall_set ?_ ?_⟩
  · rw [List.length_set]
    exact h.held
  · rw [List.length_set, parentOpen c d moves]
    exact h.held k c here
  · rw [List.length_set]
    exact h.unforked
  · rw [List.length_set]
    exact fun last pc => unforked c d moves (h.unforked k c here last pc)

theorem Connection.childStep_frame (step : c.childStep failed = some d) :
    d.parentOpen = c.parentOpen ∧ d.client = c.client ∧ (d.child.isSome = true ∧ c.child.isSome = true) := by
  unfold childStep at step
  split at step <;> rename_i child
  · obtain rfl := Option.some.inj step
    exact ⟨rfl, rfl, rfl, by rw [child]; rfl⟩
  · obtain rfl := Option.some.inj step
    exact ⟨rfl, rfl, rfl, by rw [child]; rfl⟩
  · obtain rfl := Option.some.inj step
    exact ⟨rfl, rfl, rfl, by rw [child]; rfl⟩
  · cases step
  · cases step

theorem Connection.clientStep_frame (step : c.clientStep n = some d) :
    d.parentOpen = c.parentOpen ∧ d.child = c.child := by
  unfold clientStep at step
  split at step
  · rw [Option.ite_none_right_eq_some] at step
    obtain rfl := Option.some.inj step.2
    exact ⟨rfl, rfl⟩
  · obtain rfl := Option.some.inj step
    exact ⟨rfl, rfl⟩
  · cases step

/-- What the parent does to the connection it has open. -/
theorem Server.Holds.own (h : s.Holds) {act : Act} {cs : List Connection} {next : ParentPc}
    (open' : s.pc = .fork ∨ s.pc = .close) (step : s.last act = some cs) (further : next ≠ .fork)
    (moves : ∀ c d : Connection, c.Sound → c.parentOpen = true → (s.pc = .fork → c.child = none) →
      c.step act = some d → d.Sound ∧ (d.parentOpen = true ↔ next = .close)) :
    ({ s with pc := next, connections := cs } : Server).Holds := by
  obtain ⟨c, d, here, moved, rfl⟩ := Parallel.step_eq_some.mp step
  have below := (List.getElem?_eq_some_iff.mp here).1
  have last : s.connections.length - 1 + 1 = s.connections.length := by omega
  obtain ⟨sound, parentOpen⟩ := moves c d (h.sound _ c here) ((h.held _ c here).mpr ⟨last, open'⟩)
    (h.unforked _ c here last) moved
  refine ⟨Slots.forall_set h.sound sound, fun k e entry => ?_, fun _ _ _ _ pc => absurd pc further⟩
  rw [List.length_set]
  rcases Slots.set_cases entry with ⟨rfl, rfl⟩ | ⟨other, entry⟩
  · simp [last, parentOpen, further]
  · have shut : ¬ e.parentOpen = true := fun held => by
      have := ((h.held k e entry).mp held).1
      omega
    refine ⟨fun held => absurd held shut, fun ⟨here, _⟩ => ?_⟩
    omega

theorem Server.Holds.parentStep (h : s.Holds) (step : s.parentStep limit failed = some t) : t.Holds := by
  cases pc : s.pc with
  | accept =>
      have shut (k : Nat) (c : Connection) (here : s.connections[k]? = some c) : c.parentOpen = false := by
        have held := h.held k c here
        simpa [pc] using held
      simp only [Server.parentStep, pc] at step
      split at step
      · obtain rfl := Option.some.inj step
        exact ⟨h.sound, fun k c here => by simp [shut k c here], fun _ _ _ _ pc => by cases pc⟩
      · split at step
        · cases step
        · next buffer rest waiting =>
            obtain rfl := Option.some.inj step
            refine ⟨Slots.forall_concat h.sound (.accepted buffer), fun k c entry => ?_, fun k c entry => ?_⟩
            · rcases Slots.concat_cases entry with ⟨rfl, rfl⟩ | entry
              · simp [Connection.accepted]
              · have below := (List.getElem?_eq_some_iff.mp entry).1
                simp [shut k c entry]
                omega
            · rcases Slots.concat_cases entry with ⟨rfl, rfl⟩ | entry
              · exact fun _ _ => rfl
              · have below := (List.getElem?_eq_some_iff.mp entry).1
                simp
                omega
  | fork =>
      simp only [Server.parentStep, pc] at step
      split at step
      · obtain rfl := Option.some.inj step
        exact ⟨h.sound, fun k c here => by simpa [pc] using h.held k c here, fun _ _ _ _ pc => by cases pc⟩
      · obtain ⟨cs, forked, rfl⟩ := Option.map_eq_some_iff.mp step
        refine h.own (.inl pc) forked (by decide) fun c d sound here unforked moved => ?_
        obtain rfl := Option.some.inj moved
        exact ⟨sound.forked (unforked pc) here, by simp [here]⟩
  | close =>
      simp only [Server.parentStep, pc] at step
      obtain ⟨cs, closed, rfl⟩ := Option.map_eq_some_iff.mp step
      refine h.own (.inr pc) closed (by decide) fun c d sound here _ moved => ?_
      obtain rfl := Option.some.inj moved
      exact ⟨sound.closed here, by simp⟩
  | exited =>
      simp only [Server.parentStep, pc] at step
      cases step

theorem Server.Holds.step (h : s.Holds) {e : Event} (step : s.step limit e = some t) : t.Holds := by
  cases e with
  | connect buffer => exact Option.some.inj step ▸ ⟨h.sound, h.held, h.unforked⟩
  | parent failed => exact h.parentStep step
  | child k failed =>
      obtain ⟨cs, moved, rfl⟩ := Option.map_eq_some_iff.mp step
      refine h.act moved (fun _ _ sound => sound.childStep) (fun _ _ moved => ?_) fun _ _ moved none => ?_
      · exact (Connection.childStep_frame moved).1
      · have some := (Connection.childStep_frame moved).2.2.2
        rw [none] at some
        cases some
  | client k n =>
      obtain ⟨cs, moved, rfl⟩ := Option.map_eq_some_iff.mp step
      refine h.act moved (fun _ _ sound => sound.clientStep) (fun _ _ moved => ?_) fun _ _ moved none => ?_
      · exact (Connection.clientStep_frame moved).1
      · exact (Connection.clientStep_frame moved).2.trans none

theorem Server.holds (reached : Reach (Server.step limit) anyStep .start s) : s.Holds :=
  reached.invariant (I := Server.Holds) ⟨nofun, nofun, nofun⟩ fun _ _ _ h _ step => h.step step

/-- Every client is greeted whole or not at all, whatever was in its buffer; one that gets
nothing was hung up on for a `fork` or a `send` that failed. Nobody is left waiting: where
the parent is through with a connection and nothing can happen on it, its client is done. -/
theorem greeted_or_hung_up (reached : Reach (Server.step limit) anyStep .start s)
    (connection : s.connections[k]? = some c) :
    (c.client.got ++ c.toClient = [] ∨ c.client.got ++ c.toClient = greeting) ∧
    (c.client.pc = .done → c.client.got = greeting → c.client.printed = some (ascii "Hello World!")) ∧
    (c.client.pc ≠ .recv → c.client.got = [] →
      c.toClient = [] ∧ c.parentOpen = false ∧ (c.child = none ∨ c.child = some .zombie)) ∧
    (c.parentOpen = true ↔ k + 1 = s.connections.length ∧ (s.pc = .fork ∨ s.pc = .close)) ∧
    (c.parentOpen = false → (∀ failed, s.step limit (.child k failed) = none) →
      (∀ n, s.step limit (.client k n) = none) → c.client.pc = .done) := by
  have holds := Server.holds reached
  have sound := holds.sound k c connection
  refine ⟨sound.stream.imp_right And.left, fun done whole => ?_, fun behind nothing => ?_,
    holds.held k c connection, fun shut child client => ?_⟩
  · obtain ⟨old, stored⟩ := sound.stored (by rw [done]; decide)
    rw [sound.printed done, stored, whole, store, greeting, List.append_assoc]
    exact read_append_nul (by decide) _
  · obtain ⟨empty, hungUp⟩ := sound.ended behind nothing
    exact ⟨empty, Connection.hungUp_iff.mp hungUp⟩
  · have stuck (act : Act) (still : (Parallel.step Connection.step s.connections k act).map
        (fun cs => ({ s with connections := cs } : Server)) = none) : c.step act = none := by
      rw [Parallel.step_of connection, Option.map_eq_none_iff, Option.map_eq_none_iff] at still
      exact still
    have idle : c.childStep false = none := stuck (.child false) (child false)
    have waits (n : Nat) : c.clientStep n = none := stuck (.client n) (client n)
    have hungUp : c.hungUp = true := by
      refine Connection.hungUp_iff.mpr ⟨shut, ?_⟩
      cases pc : c.child with
      | none => exact .inl rfl
      | some pc' =>
          cases pc' with
          | close | send | exit => simp [Connection.childStep, pc] at idle
          | zombie => exact .inr rfl
    cases pc : c.client.pc with
    | recv =>
        cases stream : c.toClient with
        | nil => simpa [Connection.clientStep, pc, stream, hungUp] using waits 0
        | cons b bs => simpa [Connection.clientStep, pc, stream, bufferLen] using waits 1
    | printf => simpa [Connection.clientStep, pc] using waits 0
    | done => rfl

/-- With room for one child only: the first client is greeted, the second one is not. -/
def twoGuests : List Event :=
  [.connect (List.replicate bufferLen 7), .parent false, .parent false, .parent false, .child 0 false,
    .child 0 false, .child 0 false, .client 0 13, .client 0 0, .connect (List.replicate bufferLen 7),
    .parent false, .parent false, .parent false, .client 1 0, .client 1 0]

theorem greeted_or_hung_up_twoGuests : ∃ s c, run (Server.step 2) .start twoGuests = some s ∧
    s.connections[0]? = some c ∧ c.client.printed = some (ascii "Hello World!") := by
  obtain ⟨s, ran⟩ : ∃ s, run (Server.step 2) .start twoGuests = some s := ⟨_, rfl⟩
  obtain ⟨c, connection, done, whole⟩ : ∃ c, s.connections[0]? = some c ∧ c.client.pc = .done ∧
      c.client.got = greeting := by
    obtain rfl := Option.some.inj ran
    exact ⟨_, rfl, rfl, rfl⟩
  obtain ⟨_, printed, _⟩ := greeted_or_hung_up (reach_of_run ran) connection
  exact ⟨s, c, ran, connection, printed done whole⟩

/-- Everything a step can do to the connections. -/
theorem Server.step_connections {e : Event} (step : s.step limit e = some t) :
    t.connections = s.connections ∨ (∃ buffer, t.connections = s.connections ++ [.accepted buffer]) ∨
    ∃ (k : Nat) (c d : Connection), s.connections[k]? = some c ∧ t.connections = s.connections.set k d ∧
      (d.child.isSome = c.child.isSome ∨ d.child.isSome = true ∧ s.started < limit) := by
  cases e with
  | connect buffer => exact .inl (Option.some.inj step ▸ rfl)
  | parent failed =>
      simp only [Server.step, parentStep] at step
      split at step
      · split at step
        · exact .inl (Option.some.inj step ▸ rfl)
        · split at step
          · cases step
          · obtain rfl := Option.some.inj step
            exact .inr (.inl ⟨_, rfl⟩)
      · next pc =>
          have counted : s.processes = s.started := if_neg (by simp [pc])
          split at step
          · exact .inl (Option.some.inj step ▸ rfl)
          · next room =>
              obtain ⟨cs, forked, rfl⟩ := Option.map_eq_some_iff.mp step
              obtain ⟨c, d, here, moved, rfl⟩ := Parallel.step_eq_some.mp forked
              obtain rfl := Option.some.inj moved
              rw [not_or, Nat.not_le, counted] at room
              exact .inr (.inr ⟨_, c, _, here, rfl, .inr ⟨rfl, room.2⟩⟩)
      · obtain ⟨cs, closed, rfl⟩ := Option.map_eq_some_iff.mp step
        obtain ⟨c, d, here, moved, rfl⟩ := Parallel.step_eq_some.mp closed
        obtain rfl := Option.some.inj moved
        exact .inr (.inr ⟨_, c, _, here, rfl, .inl rfl⟩)
      · cases step
  | child k failed =>
      obtain ⟨cs, ran, rfl⟩ := Option.map_eq_some_iff.mp step
      obtain ⟨c, d, here, moved, rfl⟩ := Parallel.step_eq_some.mp ran
      obtain ⟨_, _, after, before⟩ := Connection.childStep_frame moved
      exact .inr (.inr ⟨k, c, d, here, rfl, .inl (after.trans before.symm)⟩)
  | client k n =>
      obtain ⟨cs, ran, rfl⟩ := Option.map_eq_some_iff.mp step
      obtain ⟨c, d, here, moved, rfl⟩ := Parallel.step_eq_some.mp ran
      exact .inr (.inr ⟨k, c, d, here, rfl, .inl (by rw [(Connection.clientStep_frame moved).2])⟩)

theorem Server.started_step {e : Event} (step : s.step limit e = some t) :
    s.started ≤ t.started ∧ t.started ≤ max s.started limit := by
  unfold started
  rcases Server.step_connections step with same | ⟨buffer, more⟩ | ⟨k, c, d, here, moved, kept⟩
  · rw [same]
    exact ⟨Nat.le_refl _, Nat.le_max_left ..⟩
  · rw [more, List.countP_append]
    exact ⟨Nat.le_refl _, Nat.le_max_left ..⟩
  · have count := Slots.countP_set (b := d) here (·.child.isSome)
    rw [moved]
    rcases kept with same | ⟨forked, room⟩
    · rw [same] at count
      omega
    · rw [forked, if_pos rfl] at count
      unfold started at room
      split at count <;> omega

theorem Server.started_le (positive : 0 < limit) (reached : Reach (Server.step limit) anyStep .start s) :
    s.started ≤ limit := by
  refine reached.invariant (I := fun s => s.started ≤ limit) positive fun t e u fits _ step => ?_
  have next := (Server.started_step step).2
  rwa [Nat.max_eq_right fits] at next

theorem Server.started_mono (later : Reach (Server.step limit) anyStep s t) : s.started ≤ t.started :=
  later.invariant (I := fun t => s.started ≤ t.started) (Nat.le_refl _)
    fun _ _ _ grown _ step => grown.trans (Server.started_step step).1

theorem Server.processes_running (runs : s.pc ≠ .exited) : s.processes = s.started := if_neg runs

theorem Server.processes_le_started : s.processes ≤ s.started := by
  by_cases exited : s.pc = .exited
  · have fewer : s.connections.countP (·.child.any (· ≠ .zombie)) ≤
        s.connections.countP (·.child.isSome) := by
      refine List.countP_mono_left fun c _ runs => ?_
      cases child : c.child with
      | none => simp [child] at runs
      | some pc => rfl
    rw [processes, if_pos exited, started]
    omega
  · exact Nat.le_of_eq (processes_running exited)

/-- Where no process can be added, none is. -/
theorem Server.full (full : limit ≤ s.started) (later : Reach (Server.step limit) anyStep s t) :
    ∀ (k : Nat) c, s.connections.length ≤ k → t.connections[k]? = some c → c.child = none := by
  refine (later.invariant (I := fun t => limit ≤ t.started ∧ ∀ (k : Nat) c,
    s.connections.length ≤ k → t.connections[k]? = some c → c.child = none) ⟨full, ?_⟩ ?_).2
  · intro k c behind here
    exact absurd (List.getElem?_eq_some_iff.mp here).1 (Nat.not_lt.mpr behind)
  · rintro t e u ⟨full, childless⟩ _ step
    refine ⟨full.trans (Server.started_step step).1, fun k c behind here => ?_⟩
    rcases Server.step_connections step with same | ⟨buffer, more⟩ | ⟨j, a, d, there, moved, kept⟩
    · exact childless k c behind (same ▸ here)
    · rw [more] at here
      rcases Slots.concat_cases here with ⟨rfl, rfl⟩ | here
      · rfl
      · exact childless k c behind here
    · rw [moved] at here
      rcases Slots.set_cases here with ⟨rfl, rfl⟩ | ⟨_, here⟩
      · rcases kept with same | ⟨_, room⟩
        · rw [childless k a behind there] at same
          exact Option.isSome_eq_false_iff.mp same |> Option.isNone_iff_eq_none.mp
        · exact absurd room (Nat.not_lt.mpr full)
      · exact childless k c behind here

/-- The ended children fill up the process table: fewer clients than it has room for are
ever greeted, and once it is full it stays so until the parent exits, and every client
accepted from then on is hung up on. -/
theorem greets_fewer_than (positive : 0 < limit)
    (reached : Reach (Server.step limit) anyStep .start s) :
    s.processes ≤ limit ∧ s.connections.countP (fun c => c.client.got ≠ []) < limit ∧
    (s.pc ≠ .exited → s.processes = limit → ∀ t, Reach (Server.step limit) anyStep s t →
      (t.pc ≠ .exited → t.processes = limit) ∧
      ∀ (k : Nat) c, s.connections.length ≤ k → t.connections[k]? = some c →
        c.child = none ∧ c.client.got = [] ∧ c.toClient = []) := by
  have room := Server.started_le positive reached
  refine ⟨Server.processes_le_started.trans room, ?_, fun runs full t later => ?_⟩
  · have forked : s.connections.countP (fun c => c.client.got ≠ []) ≤
        s.connections.countP (·.child.isSome) := by
      refine List.countP_mono_left fun c mem got => ?_
      obtain ⟨k, here⟩ := List.getElem?_of_mem mem
      by_contra childless
      have none : c.child = none := by simpa using childless
      have silent := ((Server.holds reached).sound k c here).silent (by simp [none]) (by simp [none])
      exact of_decide_eq_true got silent.1
    unfold Server.started at room
    omega
  · rw [Server.processes_running runs] at full
    have behind := reached.trans later
    refine ⟨fun still => ?_, fun k c new here => ?_⟩
    · rw [Server.processes_running still]
      exact Nat.le_antisymm (Server.started_le positive behind) (full ▸ Server.started_mono later)
    · have none := Server.full (Nat.le_of_eq full.symm) later k c new here
      exact ⟨none, ((Server.holds behind).sound k c here).silent (by simp [none]) (by simp [none])⟩

theorem greets_fewer_than_twoGuests : ∃ s, run (Server.step 2) .start twoGuests = some s ∧
    s.connections.countP (fun c => c.client.got ≠ []) < 2 ∧
    ∀ t, Reach (Server.step 2) anyStep s t → t.pc ≠ .exited → t.processes = 2 := by
  obtain ⟨s, ran⟩ : ∃ s, run (Server.step 2) .start twoGuests = some s := ⟨_, rfl⟩
  obtain ⟨runs, full⟩ : s.pc ≠ .exited ∧ s.processes = 2 := by
    obtain rfl := Option.some.inj ran
    exact ⟨nofun, rfl⟩
  obtain ⟨_, few, later⟩ := greets_fewer_than (by decide) (reach_of_run ran)
  exact ⟨s, ran, few, fun t reached => (later runs full t reached).1⟩

end HelloServer
