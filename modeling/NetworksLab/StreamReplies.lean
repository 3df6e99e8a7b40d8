import Mathlib.Data.Fin.Basic
import Mathlib.Order.Nat
import NetworksLab.DateText
import NetworksLab.Transition

/-! The programs in C in which one message over a connection is answered with one: the
acknowledgement, and the date. Each side reads once, as many bytes as have come, into a
zeroed buffer, and prints that. -/
namespace StreamReplies
open CString DateText Transition

def bufferSize : ℕ := 256

/-- What one program writes: the client's message, and the server's at a given time. -/
structure Exchange where
  request : Bytes
  answer : ℕ → Bytes

inductive ClientPc
  | write
  | read
  | print
  | done
  | failed
  deriving DecidableEq

inductive ServerPc
  | read
  | print
  | make
  | write
  | done
  | failed
  deriving DecidableEq

/-- `asked` is when the client wrote its message; the bytes each side has read are `got`, and
what it has printed of them is `printed`, the client's with the time. -/
structure Client where
  pc : ClientPc
  asked : Option ℕ
  got : Bytes
  printed : Option (ℕ × Option Bytes)
  deriving DecidableEq

structure Server where
  pc : ServerPc
  got : Bytes
  printed : Option (Option Bytes)
  reply : Bytes
  deriving DecidableEq

structure Session where
  now : ℕ
  client : Client
  server : Server
  toServer : Bytes
  toClient : Bytes
  deriving DecidableEq

def Session.start : Session := ⟨0, ⟨.write, none, [], none⟩, ⟨.read, [], none, []⟩, [], []⟩

/-- `printf("%s\n", buffer)` of a zeroed buffer that has been read into. -/
def shown (got : Bytes) : Option Bytes := read (store (zeros bufferSize) got)

def Client.closed (c : Client) : Bool := c.pc = .done ∨ c.pc = .failed

def Server.closed (v : Server) : Bool := v.pc = .done ∨ v.pc = .failed

/-- `read(sockfd, buffer, 255)` may return `n`; 0 is the end of the stream. -/
def Returns (n : ℕ) (stream : Bytes) (hungUp : Bool) : Prop :=
  n ≤ bufferSize - 1 ∧ n ≤ stream.length ∧ (n = 0 → stream = [] ∧ hungUp = true)

instance (n : ℕ) (stream : Bytes) (hungUp : Bool) : Decidable (Returns n stream hungUp) :=
  inferInstanceAs (Decidable (_ ∧ _ ∧ _))

def Session.clientStep (x : Exchange) (s : Session) (n : ℕ) : Option Session :=
  match s.client.pc with
  | .write => some { s with
      client := { s.client with pc := .read, asked := some s.now }
      toServer := s.toServer ++ x.request }
  | .read =>
      if Returns n s.toClient s.server.closed then
        some { s with
          client := { s.client with pc := .print, got := s.toClient.take n }
          toClient := s.toClient.drop n }
      else none
  | .print => some { s with
      client := { s.client with pc := .done, printed := some (s.now, shown s.client.got) } }
  | .done | .failed => none

def Session.serverStep (x : Exchange) (s : Session) (n : ℕ) : Option Session :=
  match s.server.pc with
  | .read =>
      if Returns n s.toServer s.client.closed then
        some { s with
          server := { s.server with pc := .print, got := s.toServer.take n }
          toServer := s.toServer.drop n }
      else none
  | .print => some { s with
      server := { s.server with pc := .make, printed := some (shown s.server.got) } }
  | .make => some { s with server := { s.server with pc := .write, reply := x.answer s.now } }
  | .write => some { s with
      server := { s.server with pc := .done }
      toClient := s.toClient ++ s.server.reply }
  | .done | .failed => none

/-- `n` is what a `read` returns. A `read` or `write` that fails ends its process. -/
inductive Event
  | tick
  | client (n : ℕ)
  | server (n : ℕ)
  | clientFails
  | serverFails

def Session.step (x : Exchange) (s : Session) : Event → Option Session
  | .tick => some { s with now := s.now + 1 }
  | .client n => s.clientStep x n
  | .server n => s.serverStep x n
  | .clientFails =>
      if s.client.pc = .write ∨ s.client.pc = .read then
        some { s with client := { s.client with pc := .failed } }
      else none
  | .serverFails =>
      if s.server.pc = .read ∨ s.server.pc = .write then
        some { s with server := { s.server with pc := .failed } }
      else none

/-- Everything a step can do. -/
inductive Session.Move (x : Exchange) (s : Session) : Event → Session → Prop
  | tick : Move x s .tick { s with now := s.now + 1 }
  | ask {n} (pc : s.client.pc = .write) : Move x s (.client n) { s with
      client := { s.client with pc := .read, asked := some s.now }
      toServer := s.toServer ++ x.request }
  | hear {n} (pc : s.client.pc = .read) (returns : Returns n s.toClient s.server.closed) :
      Move x s (.client n) { s with
        client := { s.client with pc := .print, got := s.toClient.take n }
        toClient := s.toClient.drop n }
  | tell {n} (pc : s.client.pc = .print) : Move x s (.client n) { s with
      client := { s.client with pc := .done, printed := some (s.now, shown s.client.got) } }
  | take {n} (pc : s.server.pc = .read) (returns : Returns n s.toServer s.client.closed) :
      Move x s (.server n) { s with
        server := { s.server with pc := .print, got := s.toServer.take n }
        toServer := s.toServer.drop n }
  | print {n} (pc : s.server.pc = .print) : Move x s (.server n) { s with
      server := { s.server with pc := .make, printed := some (shown s.server.got) } }
  | make {n} (pc : s.server.pc = .make) : Move x s (.server n) { s with
      server := { s.server with pc := .write, reply := x.answer s.now } }
  | answer {n} (pc : s.server.pc = .write) : Move x s (.server n) { s with
      server := { s.server with pc := .done }, toClient := s.toClient ++ s.server.reply }
  | clientFails (pc : s.client.pc = .write ∨ s.client.pc = .read) : Move x s .clientFails
      { s with client := { s.client with pc := .failed } }
  | serverFails (pc : s.server.pc = .read ∨ s.server.pc = .write) : Move x s .serverFails
      { s with server := { s.server with pc := .failed } }

variable {x : Exchange} {s t : Session}

theorem Session.move {e : Event} (step : s.step x e = some t) : Session.Move x s e t := by
  cases e with
  | tick => exact Option.some.inj step ▸ .tick
  | client n =>
      simp only [Session.step, clientStep] at step
      split at step <;> rename_i pc
      · exact Option.some.inj step ▸ .ask pc
      · rw [Option.ite_none_right_eq_some] at step
        exact Option.some.inj step.2 ▸ .hear pc step.1
      · exact Option.some.inj step ▸ .tell pc
      · cases step
      · cases step
  | server n =>
      simp only [Session.step, serverStep] at step
      split at step <;> rename_i pc
      · rw [Option.ite_none_right_eq_some] at step
        exact Option.some.inj step.2 ▸ .take pc step.1
      · exact Option.some.inj step ▸ .print pc
      · exact Option.some.inj step ▸ .make pc
      · exact Option.some.inj step ▸ .answer pc
      · cases step
      · cases step
  | clientFails =>
      simp only [Session.step, Option.ite_none_right_eq_some] at step
      exact Option.some.inj step.2 ▸ .clientFails step.1
  | serverFails =>
      simp only [Session.step, Option.ite_none_right_eq_some] at step
      exact Option.some.inj step.2 ▸ .serverFails step.1

/-- The client's message on its way. A server that goes on with nothing has been given up
by its client. -/
structure Session.Asking (x : Exchange) (s : Session) : Prop where
  silent : s.client.pc = .write → s.client.asked = none
  asked : s.client.pc ≠ .write → s.client.pc ≠ .failed → ∃ asked, s.client.asked = some asked
  before : ∀ asked, s.client.asked = some asked → asked ≤ s.now
  stream : s.server.got ++ s.toServer = if s.client.asked = none then [] else x.request
  fresh : s.server.pc = .read → s.server.got = []
  heard : s.server.pc ≠ .read → s.server.pc ≠ .failed → s.server.got = [] → s.client.pc = .failed
  small : s.server.got.length < bufferSize
  printed : ∀ m, s.server.printed = some m → s.server.pc ≠ .read ∧ m = shown s.server.got

/-- By now, and not before the client asked. -/
def Session.Between (s : Session) (made time : ℕ) : Prop :=
  made ≤ time ∧ ∀ asked, s.client.asked = some asked → asked ≤ made

/-- The server's message on its way. -/
structure Session.Answering (x : Exchange) (s : Session) : Prop where
  reply : s.server.pc = .write → ∃ made, s.Between made s.now ∧ s.server.reply = x.answer made
  stream : s.client.got ++ s.toClient = [] ∨
    s.server.pc = .done ∧ ∃ made, s.Between made s.now ∧ s.client.got ++ s.toClient = x.answer made
  fresh : s.client.pc = .write ∨ s.client.pc = .read → s.client.got = []
  told : s.client.pc = .print ∨ s.client.pc = .done → s.server.closed = true
  small : s.client.got.length < bufferSize
  printed : ∀ time m, s.client.printed = some (time, m) → s.client.pc = .done ∧ m = shown s.client.got ∧
    (s.client.got = [] ∨ ∃ made, s.Between made time ∧ s.client.got <+: x.answer made)

theorem Returns.small {n : ℕ} {stream : Bytes} {hungUp : Bool} (h : Returns n stream hungUp) :
    (stream.take n).length < bufferSize := by
  have within := h.1
  have room : bufferSize = 256 := rfl
  rw [List.length_take]
  omega

theorem Returns.hungUp {n : ℕ} {stream : Bytes} {hungUp : Bool} (h : Returns n stream hungUp)
    (nothing : stream.take n = []) : hungUp = true := by
  have none : n = 0 := by
    have length := congrArg List.length nothing
    rw [List.length_take_of_le h.2.1] at length
    exact length
  exact (h.2.2 none).2

/-- A server that has read something has a client that is past its `write`. -/
theorem Session.Asking.early (h : s.Asking x) (pc : s.client.pc = .write) :
    s.server.pc = .read ∨ s.server.pc = .failed := by
  by_contra later
  obtain ⟨past, works⟩ := not_or.mp later
  have nothing : s.server.got = [] := by
    have stream := h.stream
    rw [if_pos (h.silent pc)] at stream
    exact (List.append_eq_nil_iff.mp stream).1
  have failed := h.heard past works nothing
  rw [pc] at failed
  cases failed

theorem Session.Asking.move (h : s.Asking x) (down : s.Answering x) {e : Event}
    (move : Session.Move x s e t) : t.Asking x := by
  cases move with
  | tick =>
      exact ⟨h.silent, h.asked, fun asked time => (h.before asked time).trans (Nat.le_succ _), h.stream,
        h.fresh, h.heard, h.small, h.printed⟩
  | ask pc =>
      have silent := h.silent pc
      have stream := h.stream
      rw [if_pos silent] at stream
      refine ⟨nofun, fun _ _ => ⟨s.now, rfl⟩, fun asked time => ?_, ?_, h.fresh, fun past works => ?_,
        h.small, h.printed⟩
      · exact (Option.some.inj time).ge
      · dsimp only
        rw [← List.append_assoc, stream]
        rfl
      · exact absurd (h.early pc) (not_or.mpr ⟨past, works⟩)
  | hear pc | tell pc =>
      refine ⟨nofun, fun _ _ => ?_, h.before, h.stream, h.fresh, fun past works nothing => ?_, h.small,
        h.printed⟩
      · exact h.asked (by rw [pc]; nofun) (by rw [pc]; nofun)
      · have failed := h.heard past works nothing
        rw [pc] at failed
        cases failed
  | @take n pc returns =>
      refine ⟨h.silent, h.asked, h.before, ?_, nofun, fun _ _ nothing => ?_, returns.small, fun m out => ?_⟩
      · have stream := h.stream
        rw [h.fresh pc, List.nil_append] at stream
        dsimp only
        rw [List.take_append_drop]
        exact stream
      · have closed := returns.hungUp nothing
        by_contra works
        have done : s.client.pc = .done := by
          simpa [Client.closed, show s.client.pc ≠ .failed from works] using closed
        have ended := down.told (.inr done)
        rw [Server.closed, pc] at ended
        cases ended
      · exact absurd pc (h.printed m out).1
  | print pc =>
      have heard := h.heard (by rw [pc]; nofun) (by rw [pc]; nofun)
      refine ⟨h.silent, h.asked, h.before, h.stream, nofun, fun _ _ => heard, h.small, fun m out => ?_⟩
      exact ⟨nofun, (Option.some.inj out).symm⟩
  | make pc | answer pc =>
      have heard := h.heard (by rw [pc]; nofun) (by rw [pc]; nofun)
      exact ⟨h.silent, h.asked, h.before, h.stream, nofun, fun _ _ => heard, h.small,
        fun m out => ⟨nofun, (h.printed m out).2⟩⟩
  | clientFails pc =>
      exact ⟨nofun, fun _ works => absurd rfl works, h.before, h.stream, h.fresh, fun _ _ _ => rfl, h.small,
        h.printed⟩
  | serverFails pc =>
      exact ⟨h.silent, h.asked, h.before, h.stream, nofun, fun _ works => absurd rfl works, h.small,
        fun m out => ⟨nofun, (h.printed m out).2⟩⟩

/-- As long as the server runs there is nothing on its way to the client. -/
theorem Session.Answering.waits (h : s.Answering x) (runs : s.server.closed = false) :
    s.client.got ++ s.toClient = [] ∧ ¬ (s.client.pc = .print ∨ s.client.pc = .done) := by
  refine ⟨h.stream.resolve_right fun ⟨done, _⟩ => ?_, fun told => ?_⟩
  · simp [Server.closed, done] at runs
  · cases (h.told told).symm.trans runs

theorem Session.Answering.move (h : s.Answering x) (up : s.Asking x) {e : Event}
    (move : Session.Move x s e t) : t.Answering x := by
  cases move with
  | tick =>
      refine ⟨fun pc => ?_, ?_, h.fresh, h.told, h.small, h.printed⟩
      · obtain ⟨made, ⟨before, after⟩, reply⟩ := h.reply pc
        exact ⟨made, ⟨before.trans (Nat.le_succ _), after⟩, reply⟩
      · refine h.stream.imp_right fun ⟨pc, made, ⟨before, after⟩, stream⟩ => ?_
        exact ⟨pc, made, ⟨before.trans (Nat.le_succ _), after⟩, stream⟩
  | ask pc =>
      have early := up.early pc
      refine ⟨fun writes => ?_, .inl ?_, fun _ => h.fresh (.inl pc), nofun, h.small, fun time m out => ?_⟩
      · rcases early with reads | failed
        · cases reads.symm.trans writes
        · cases failed.symm.trans writes
      · refine h.stream.resolve_right fun ⟨done, _⟩ => ?_
        rcases early with reads | failed
        · cases reads.symm.trans done
        · cases failed.symm.trans done
      · cases pc.symm.trans (h.printed time m out).1
  | @hear n pc returns =>
      have stream := h.stream
      rw [h.fresh (.inr pc), List.nil_append] at stream
      refine ⟨h.reply, ?_, nofun, fun _ => ?_, returns.small, fun time m out => ?_⟩
      · dsimp only
        rw [List.take_append_drop]
        exact stream
      · rcases stream with nothing | ⟨done, _⟩
        · exact returns.hungUp (by rw [nothing, List.take_nil])
        · simp [Server.closed, done]
      · cases pc.symm.trans (h.printed time m out).1
  | tell pc =>
      refine ⟨h.reply, h.stream, nofun, fun _ => h.told (.inl pc), h.small, fun time m out => ?_⟩
      obtain ⟨rfl, rfl⟩ := Prod.mk.inj (Option.some.inj out)
      refine ⟨rfl, rfl, ?_⟩
      rcases h.stream with nothing | ⟨_, made, between, stream⟩
      · exact .inl (List.append_eq_nil_iff.mp nothing).1
      · exact .inr ⟨made, between, s.toClient, stream⟩
  | take pc | print pc =>
      obtain ⟨nothing, untold⟩ := h.waits (by rw [Server.closed, pc]; rfl)
      exact ⟨nofun, .inl nothing, h.fresh, fun told => absurd told untold, h.small, h.printed⟩
  | make pc =>
      obtain ⟨nothing, untold⟩ := h.waits (by rw [Server.closed, pc]; rfl)
      refine ⟨fun _ => ⟨s.now, ⟨le_rfl, up.before⟩, rfl⟩, .inl nothing, h.fresh,
        fun told => absurd told untold, h.small, h.printed⟩
  | answer pc =>
      obtain ⟨nothing, _⟩ := h.waits (by rw [Server.closed, pc]; rfl)
      obtain ⟨made, between, reply⟩ := h.reply pc
      refine ⟨nofun, .inr ⟨rfl, made, between, ?_⟩, h.fresh, fun _ => rfl, h.small, h.printed⟩
      dsimp only
      rw [← List.append_assoc, nothing, reply]
      rfl
  | clientFails pc =>
      refine ⟨h.reply, h.stream, nofun, nofun, h.small, fun time m out => ?_⟩
      have done := (h.printed time m out).1
      rcases pc with writes | reads
      · cases writes.symm.trans done
      · cases reads.symm.trans done
  | serverFails pc =>
      have runs : s.server.closed = false := by
        rcases pc with reads | writes
        · rw [Server.closed, reads]
          rfl
        · rw [Server.closed, writes]
          rfl
      exact ⟨nofun, .inl (h.waits runs).1, h.fresh, fun _ => rfl, h.small, h.printed⟩

theorem Session.sound (reached : Reach (Session.step x) anyStep .start s) : s.Asking x ∧ s.Answering x :=
  reached.invariant (I := fun s => s.Asking x ∧ s.Answering x)
    ⟨⟨fun _ => rfl, nofun, nofun, rfl, fun _ => rfl, nofun, by decide, nofun⟩,
      ⟨nofun, .inl rfl, fun _ => rfl, nofun, by decide, nofun⟩⟩
    fun _ _ _ h _ step => ⟨h.1.move h.2 (Session.move step), h.2.move h.1 (Session.move step)⟩

theorem shown_eq {got : Bytes} (small : got.length < bufferSize) : shown got = some (text got) := by
  have more : bufferSize - got.length = (bufferSize - got.length - 1) + 1 := by omega
  have buffer : store (zeros bufferSize) got = got ++ 0 :: zeros (bufferSize - got.length - 1) := by
    rw [store, zeros, List.drop_replicate, more]
    rfl
  rw [shown, buffer, read_of_mem (by simp)]
  by_cases nul : 0 ∈ got
  · rw [text_append_of_mem nul]
  · rw [text_append_nul nul, text_eq_self.mpr nul]

/-- What the client prints is the start of an answer made between its message and its `printf`,
unless the server has failed. -/
theorem Session.client_prints (reached : Reach (Session.step x) anyStep .start s) {time : ℕ}
    {m : Option Bytes} (out : s.client.printed = some (time, m)) :
    m = some (text s.client.got) ∧ (s.client.got = [] ∨ ∃ asked made, s.client.asked = some asked ∧
      asked ≤ made ∧ made ≤ time ∧ s.client.got <+: x.answer made) := by
  obtain ⟨up, down⟩ := Session.sound reached
  obtain ⟨done, rfl, source⟩ := down.printed time m out
  obtain ⟨asked, request⟩ := up.asked (by rw [done]; nofun) (by rw [done]; nofun)
  refine ⟨shown_eq down.small, source.imp_right fun ⟨made, ⟨before, after⟩, start⟩ => ?_⟩
  exact ⟨asked, made, request, after asked request, before, start⟩

theorem Session.server_prints (reached : Reach (Session.step x) anyStep .start s) {m : Option Bytes}
    (out : s.server.printed = some m) : m = some (text s.server.got) ∧ s.server.got <+: x.request := by
  obtain ⟨up, _⟩ := Session.sound reached
  obtain ⟨_, rfl⟩ := up.printed m out
  refine ⟨shown_eq up.small, ?_⟩
  have stream := up.stream
  split at stream
  · rw [(List.append_eq_nil_iff.mp stream).1]
    exact List.nil_prefix
  · exact ⟨_, stream⟩

/-- Neither process can go on. -/
def Session.Stuck (x : Exchange) (s : Session) : Prop :=
  ∀ n, s.step x (.client n) = none ∧ s.step x (.server n) = none

/-- A `read` blocks on an empty stream of a running process. -/
theorem blocked {stream : Bytes} {hungUp : Bool} (h : ∀ n, ¬ Returns n stream hungUp) :
    stream = [] ∧ hungUp = false := by
  have nothing : stream = [] := by
    by_contra more
    exact h 1 ⟨by decide, List.length_pos_iff.mpr more, fun zero => by cases zero⟩
  refine ⟨nothing, ?_⟩
  by_contra ended
  exact h 0 ⟨Nat.zero_le _, Nat.zero_le _, fun _ => ⟨nothing, by simpa using ended⟩⟩

theorem Session.Stuck.client (h : s.Stuck x) : s.client.closed = true ∨
    s.client.pc = .read ∧ s.toClient = [] ∧ s.server.closed = false := by
  have one (n : ℕ) : s.clientStep x n = none := (h n).1
  cases pc : s.client.pc with
  | read =>
      refine .inr ⟨rfl, blocked fun n returns => ?_⟩
      have none := one n
      simp only [clientStep, pc, if_pos returns] at none
      cases none
  | done | failed => exact .inl (by simp [Client.closed, pc])
  | write | print =>
      have none := one 0
      simp only [clientStep, pc] at none
      cases none

theorem Session.Stuck.server (h : s.Stuck x) : s.server.closed = true ∨
    s.server.pc = .read ∧ s.toServer = [] ∧ s.client.closed = false := by
  have one (n : ℕ) : s.serverStep x n = none := (h n).2
  cases pc : s.server.pc with
  | read =>
      refine .inr ⟨rfl, blocked fun n returns => ?_⟩
      have none := one n
      simp only [serverStep, pc, if_pos returns] at none
      cases none
  | done | failed => exact .inl (by simp [Server.closed, pc])
  | print | make | write =>
      have none := one 0
      simp only [serverStep, pc] at none
      cases none

/-- While neither has failed, an exchange can only stop short before an empty message, and
an empty message is never answered. -/
theorem Session.ends (reached : Reach (Session.step x) anyStep .start s)
    (client : s.client.pc ≠ .failed) (server : s.server.pc ≠ .failed) :
    (x.request = [] → s.server.pc = .read ∧ (s.client.pc = .write ∨ s.client.pc = .read)) ∧
    (s.Stuck x → x.request ≠ [] → s.client.pc = .done ∧ s.server.pc = .done) := by
  obtain ⟨up, down⟩ := Session.sound reached
  refine ⟨fun nothing => ?_, fun stuck some => ?_⟩
  · have reads : s.server.pc = .read := by
      by_contra past
      have stream := up.stream
      rw [nothing, ite_self] at stream
      exact client (up.heard past server (List.append_eq_nil_iff.mp stream).1)
    refine ⟨reads, ?_⟩
    have untold := (down.waits (by rw [Server.closed, reads]; rfl)).2
    cases pc : s.client.pc with
    | write => exact .inl rfl
    | read => exact .inr rfl
    | print => exact absurd (.inl pc) untold
    | done => exact absurd (.inr pc) untold
    | failed => exact absurd pc client
  · have clientDone : s.client.closed = true → s.client.pc = .done := by
      simp [Client.closed, client]
    have serverDone : s.server.closed = true → s.server.pc = .done := by
      simp [Server.closed, server]
    rcases stuck.client with clientEnded | ⟨clientReads, _, serverRuns⟩
    · rcases stuck.server with serverEnded | ⟨_, _, clientRuns⟩
      · exact ⟨clientDone clientEnded, serverDone serverEnded⟩
      · cases clientEnded.symm.trans clientRuns
    · rcases stuck.server with serverEnded | ⟨serverReads, idle, _⟩
      · cases serverEnded.symm.trans serverRuns
      · obtain ⟨asked, request⟩ := up.asked (by rw [clientReads]; nofun) client
        have stream := up.stream
        rw [up.fresh serverReads, idle, if_neg (by rw [request]; nofun)] at stream
        exact absurd stream.symm some

/-- `fgets(buffer, BUFFER_SIZE-1, stdin)` into zeros, and what `strlen` counts of it; at the
end of the input there is no line. -/
def typed (line : Option Bytes) : Bytes :=
  text (match line with
    | some l => store (zeros bufferSize) (l ++ [0])
    | none => zeros bufferSize)

/-- The client that sends a line and the server that has got its message. -/
def acknowledged (line : Option Bytes) : Exchange := ⟨typed line, fun _ => ascii "I got your message"⟩

theorem typed_eq_nil {line : Option Bytes} :
    typed line = [] ↔ ∀ l, line = some l → l = [] ∨ l[0]? = some 0 := by
  cases line with
  | none => exact iff_of_true (by decide) nofun
  | some l =>
      have ended : text (store (zeros bufferSize) (l ++ [0])) = text l := by
        rw [store, List.append_assoc, List.singleton_append]
        by_cases nul : 0 ∈ l
        · exact text_append_of_mem nul _
        · rw [text_append_nul nul, text_eq_self.mpr nul]
      simp only [typed, ended, text_eq_nil, Option.some.injEq, forall_eq']

/-- The server prints the start of the line and the client the start of the acknowledgement.
If neither fails both end, unless the line is empty: then each waits for the other. A line
is empty that starts with a NUL, and so is no line at the end of the input. -/
theorem acknowledged_ends {line : Option Bytes}
    (reached : Reach (Session.step (acknowledged line)) anyStep .start s) :
    (∀ m, s.server.printed = some m → ∃ n, m = some ((typed line).take n)) ∧
    (∀ time m, s.client.printed = some (time, m) → ∃ n, m = some ((ascii "I got your message").take n)) ∧
    (s.client.pc ≠ .failed → s.server.pc ≠ .failed →
      (typed line = [] → s.server.pc = .read ∧ (s.client.pc = .write ∨ s.client.pc = .read)) ∧
      (s.Stuck (acknowledged line) → typed line ≠ [] → s.client.pc = .done ∧ s.server.pc = .done)) ∧
    (typed line = [] ↔ ∀ l, line = some l → l = [] ∨ l[0]? = some 0) := by
  have start {got whole : Bytes} (nulFree : 0 ∉ whole) (h : got <+: whole) :
      text got = whole.take got.length := by
    rw [text_eq_self.mpr fun mem => nulFree (h.subset mem)]
    exact List.prefix_iff_eq_take.mp h
  refine ⟨fun m out => ?_, fun time m out => ?_, Session.ends reached, typed_eq_nil⟩
  · obtain ⟨rfl, h⟩ := Session.server_prints reached out
    exact ⟨_, congrArg some (start (text_nulFree _) h)⟩
  · obtain ⟨rfl, nothing | ⟨_, _, _, _, _, h⟩⟩ := Session.client_prints reached out
    · exact ⟨0, by rw [nothing]; rfl⟩
    · exact ⟨_, congrArg some (start (by decide) h)⟩

/-- A line is read in two halves, of which the server takes the first. -/
def halfHeard : List Event :=
  [.client 0, .server 2, .server 0, .server 0, .server 0, .client 18, .client 0]

theorem acknowledged_ends_halfHeard : ∃ s,
    run (Session.step (acknowledged (some (ascii "hi all\n")))) .start halfHeard = some s ∧
    (∃ n, s.server.printed = some (some ((ascii "hi all\n").take n))) ∧
    s.client.pc = .done ∧ s.server.pc = .done := by
  obtain ⟨s, ran⟩ : ∃ s, run (Session.step (acknowledged (some (ascii "hi all\n")))) .start halfHeard =
      some s := ⟨_, rfl⟩
  obtain ⟨⟨m, out⟩, client, server, stuck⟩ : (∃ m, s.server.printed = some m) ∧ s.client.pc ≠ .failed ∧
      s.server.pc ≠ .failed ∧ s.Stuck (acknowledged (some (ascii "hi all\n"))) := by
    obtain rfl := Option.some.inj ran
    exact ⟨⟨_, rfl⟩, by decide, by decide, fun n => ⟨rfl, rfl⟩⟩
  have line : typed (some (ascii "hi all\n")) = ascii "hi all\n" := by decide
  obtain ⟨heard, _, ends, _⟩ := acknowledged_ends (reach_of_run ran)
  obtain ⟨n, shown⟩ := heard m out
  refine ⟨s, ran, ⟨n, ?_⟩, (ends client server).2 stuck (by rw [line]; decide)⟩
  rw [out, shown, line]

/-- The client that asks for the date and the server that formats it into an array of its
own, which is sent whole; `junk` is what the array holds before. -/
def dated (junk : Bytes) (localtime : ℕ → Tm) : Exchange :=
  ⟨ascii "Send me current date please!", fun now => snprintf junk (dateText (localtime now))⟩

/-- Nothing behind the terminator shows. -/
theorem text_of_prefix_snprintf {junk s got : Bytes} (nulFree : 0 ∉ s) (room : s.length < junk.length)
    (start : got <+: snprintf junk s) : text got = s.take got.length := by
  have formatted : snprintf junk s = s ++ 0 :: junk.drop (s.length + 1) := by
    have nonempty : junk ≠ [] := List.length_pos_iff.mp (by omega)
    rw [snprintf, if_neg nonempty, List.take_of_length_le (by omega), store, List.append_assoc,
      List.length_append]
    rfl
  rw [formatted] at start
  have cut := List.prefix_iff_eq_take.mp start
  by_cases whole : got.length ≤ s.length
  · rw [List.take_append_of_le_length whole] at cut
    rw [← cut, text_eq_self.mpr]
    intro mem
    rw [cut] at mem
    exact nulFree (List.mem_of_mem_take mem)
  · obtain ⟨k, more⟩ := Nat.exists_eq_add_of_lt (Nat.not_le.mp whole)
    rw [List.take_append, List.take_of_length_le (by omega), more] at cut
    rw [List.take_of_length_le (by omega), cut, Nat.add_assoc, Nat.add_sub_cancel_left]
    exact text_append_nul nulFree _

/-- The client prints a date that the server took between its request and its `printf`, cut
off where its `read` was; a whole date determines the fields of `tm`. -/
theorem shows_date {junk : Bytes} {localtime : ℕ → Tm} (size : junk.length = bufferSize)
    (reached : Reach (Session.step (dated junk localtime)) anyStep .start s) {time : ℕ} {m : Option Bytes}
    (out : s.client.printed = some (time, m)) :
    s.client.got = [] ∧ m = some [] ∨ ∃ asked made, s.client.asked = some asked ∧ asked ≤ made ∧ made ≤ time ∧
      m = some ((dateText (localtime made)).take s.client.got.length) ∧
      ∀ t, (dateText (localtime made)).length ≤ s.client.got.length → m = some (dateText t) →
        t = localtime made := by
  obtain ⟨rfl, nothing | ⟨asked, made, request, after, before, start⟩⟩ := Session.client_prints reached out
  · exact .inl ⟨nothing, by rw [nothing]; rfl⟩
  · have room : (dateText (localtime made)).length < junk.length := size ▸ dateText_length_lt _
    have shows := text_of_prefix_snprintf (dateText_nulFree _) room start
    refine .inr ⟨asked, made, request, after, before, congrArg some shows, fun t whole same => ?_⟩
    rw [shows, List.take_of_length_le whole] at same
    exact dateText_injective (Option.some.inj same).symm

def july (now : ℕ) : Tm :=
  ⟨Fin.clamp 24 31, Fin.clamp 6 11, 119, Fin.clamp 10 23, Fin.clamp 30 59, Fin.clamp now 60⟩

/-- The client reads ten bytes of the date. -/
def cutOff : List Event :=
  [.client 0, .tick, .server 28, .server 0, .server 0, .tick, .server 0, .client 10, .client 0]

theorem shows_date_cutOff : ∃ s m,
    run (Session.step (dated (List.replicate bufferSize 255) july)) .start cutOff = some s ∧
    s.client.printed = some (2, m) ∧ ∃ made ≤ 2, m = some ((dateText (july made)).take 10) := by
  have read : (run (Session.step (dated (List.replicate bufferSize 255) july)) .start cutOff).map
      (fun s => (s.client.printed.map Prod.fst, s.client.got.length)) = some (some 2, 10) := by
    decide +kernel
  obtain ⟨s, ran, facts⟩ := Option.map_eq_some_iff.mp read
  obtain ⟨printed, length⟩ := Prod.mk.inj facts
  obtain ⟨⟨time, m⟩, out, same⟩ := Option.map_eq_some_iff.mp printed
  cases same
  rcases shows_date List.length_replicate (reach_of_run ran) out with ⟨nothing, _⟩ | found
  · rw [nothing] at length
    cases length
  · obtain ⟨_, made, _, _, before, shown, _⟩ := found
    exact ⟨s, m, ran, out, made, before, length ▸ shown⟩

end StreamReplies
