import Mathlib.Logic.Function.Basic
import NetworksLab.ChatSession
import NetworksLab.GroupOrder

/-! The group chat with its clients. A connection is named by its descriptor at the
server; towards the server frames travel whole, towards a client the bytes of the
frames are one stream, of which each `recv` takes what it gets. -/
namespace GroupChat
open CString Transition
open Chat (bufferLen End Tick Talking)

structure System where
  server : Server
  ends : Nat → End
  up : Nat → List Bytes
  down : Nat → Bytes

def System.start (hearBuffer talkBuffer : Nat → Bytes) : System where
  server := .start
  ends fd := .start (hearBuffer fd) (talkBuffer fd)
  up _ := []
  down _ := []

/-- `recv k` is the `recv` of the server's thread `k`, `hear fd n` one of client `fd`
that returns `n` bytes. -/
inductive SystemEvent
  | server (e : Event)
  | recv (k : Nat)
  | client (fd : Nat) (tick : Tick)
  | hear (fd n : Nat)

/-- What the server sends goes down the connections. -/
def System.serve (s : System) (e : Event) : Option System :=
  (s.server.step e).map fun t => { s with
    server := t
    down := fun fd => s.down fd ++
      ((t.sends.drop s.server.sends.length).filter (·.1 = fd)).flatMap (·.2) }

/-- Client `fd` and its two directions. -/
def System.put (s : System) (fd : Nat) (e : End) (up : List Bytes) (down : Bytes) : System :=
  { s with
    ends := Function.update s.ends fd e
    up := Function.update s.up fd up
    down := Function.update s.down fd down }

def System.step (s : System) : SystemEvent → Option System
  | .server (.recv _ _) => none
  | .server e => s.serve e
  | .recv k =>
      match s.server.threads[k]? with
      | none => none
      | some th =>
          match s.up th.sockfd with
          | [] => none
          | frame :: rest =>
              System.serve { s with up := Function.update s.up th.sockfd rest } (.recv k (some frame))
  | .client _ (.recv _) => none
  | .client fd tick => ((s.ends fd).step [] tick).map fun e =>
      s.put fd e (s.up fd ++ e.talking.sent.drop (s.ends fd).talking.sent.length) (s.down fd)
  | .hear fd n =>
      if 1 ≤ n ∧ n ≤ (s.down fd).length then
        ((s.ends fd).step [] (.recv ((s.down fd).take n))).map fun e =>
          s.put fd e (s.up fd) ((s.down fd).drop n)
      else none

/-- The table is not overrun, and the users type NUL-free lines without end. -/
def typedWithin (s : System) : SystemEvent → Prop
  | .server (.accept (some _)) => s.server.accepted.length < maxNumClient
  | .client _ tick => tick.typing
  | _ => True

/-- The frames that thread `k` has received. -/
def Server.framesOf (s : Server) (k : Nat) : List Bytes :=
  ((s.threads[k]?).map (·.received)).getD []

/-- A connection of the server: what it has read of it is the beginning of what the
client has sent, and what it has sent on it is the beginning of what the client reads.
The server has come from `first`. -/
structure System.Carried (first : Server) (s : System) : Prop where
  served : Reach Server.step ordinary .start s.server
  since : Reach Server.step ordinary first s.server
  talking : ∀ fd, Talking (s.ends fd).endCom (s.ends fd).talking
  up : ∀ k fd : Nat, s.server.accepted[k]? = some fd →
    (s.ends fd).talking.sent = s.server.framesOf k ++ s.up fd
  waiting : ∀ fd, fd ∉ s.server.accepted → (s.ends fd).talking.sent = s.up fd
  down : ∀ fd, (s.ends fd).hearing.heard.flatten ++ s.down fd = (s.server.sentTo fd).flatten

variable {s s₀ t : System} {first u v : Server} {e : Event} {k : Nat} {got : Bytes}

theorem Server.framesOf_of_threads (threads : u.threads[k]? = v.threads[k]?) :
    u.framesOf k = v.framesOf k := by
  rw [framesOf, threads, framesOf]

/-- A thread that receives nothing has the frames it had. -/
theorem Server.framesOf_set {j : Nat} {th th' : HearAll} (here : u.threads[j]? = some th)
    (threads : v.threads = u.threads.set j th') (received : th'.received = th.received) :
    v.framesOf k = u.framesOf k := by
  by_cases same : j = k
  · subst same
    rw [framesOf, framesOf, threads, Slots.get_set here, here, Option.map_some, Option.map_some,
      received]
  · exact framesOf_of_threads (by rw [threads, List.getElem?_set_ne same])

theorem Server.Move.framesOf (move : Move u e v) (other : ∀ j got, e ≠ .recv j got) (k : Nat) :
    v.framesOf k = u.framesOf k := by
  cases move with
  | exit | accept | overrun | setSockfd | setId | greet | incr => rfl
  | create =>
      rcases Nat.lt_trichotomy k u.threads.length with below | rfl | past
      · exact Server.framesOf_of_threads (List.getElem?_append_left below)
      · simp [Server.framesOf]
      · exact Server.framesOf_of_threads (by
          rw [List.getElem?_eq_none (by simpa using Nat.succ_le_of_lt past),
            List.getElem?_eq_none past.le])
  | recv => exact absurd rfl (other _ _)
  | loadSockfd at' | loadId at' | lock at' | relay at' | skip at' | endShout at' | unlock at'
  | wildLoad at' | wildText at' | wildSlot at' => exact Server.framesOf_set at' rfl rfl

theorem Server.Move.sends_append (move : Move u e v) : ∃ new, v.sends = u.sends ++ new := by
  cases move with
  | greet | relay => exact ⟨_, rfl⟩
  | _ => exact ⟨[], (List.append_nil _).symm⟩

theorem Server.Move.accepted (move : Move u e v) : v.accepted = u.accepted ∨
    ∃ fd, fd ∉ u.accepted ∧ v.accepted = u.accepted ++ [fd] := by
  cases move with
  | accept _ fresh => exact .inr ⟨_, fresh, rfl⟩
  | _ => exact .inl rfl

theorem Server.recv_framesOf (step : u.step (.recv k (some got)) = some v) :
    (∃ th, u.threads[k]? = some th ∧ th.pc = .recv) ∧ v.sends = u.sends ∧
      v.accepted = u.accepted ∧
      ∀ j, v.framesOf j = u.framesOf j ++ if j = k then [got] else [] := by
  simp only [Server.step, Server.recvStep] at step
  split at step
  · cases step
  · split at step
    next th here =>
      rw [Option.ite_none_right_eq_some] at step
      obtain ⟨⟨pc, _⟩, same⟩ := step
      obtain rfl := Option.some.inj same
      refine ⟨⟨th, here, pc⟩, rfl, rfl, fun j => ?_⟩
      by_cases own : j = k
      · subst own
        rw [Server.framesOf, Server.put, Slots.get_set here, Server.framesOf, here, if_pos rfl]
        rfl
      · rw [if_neg own, List.append_nil]
        exact Server.framesOf_of_threads (List.getElem?_set_ne (Ne.symm own))
    · cases step

theorem Server.sentTo_append {new : List (Nat × Bytes)} (sends : v.sends = u.sends ++ new) (fd : Nat) :
    (v.sentTo fd).flatten = (u.sentTo fd).flatten ++ (new.filter (·.1 = fd)).flatMap (·.2) := by
  rw [Server.sentTo, sends, List.filter_append, List.map_append, List.flatten_append,
    List.flatMap_def]
  rfl

theorem Server.Registry.threads_le (h : u.Registry) : u.threads.length ≤ u.accepted.length := by
  rw [h.threadCount, h.acceptedCount]
  by_cases incr : u.mainPc = .incr
  · simp [incr]
  · simp [incr]

/-- A statement of the server that is no `recv`. -/
theorem System.Carried.serve (h : s.Carried first) (other : ∀ j got, e ≠ .recv j got)
    (ok : ordinary s.server e) (step : s.serve e = some t) : t.Carried first := by
  obtain ⟨v, ran, rfl⟩ := Option.map_eq_some_iff.mp step
  have move := Server.step_move ran
  obtain ⟨new, sends⟩ := move.sends_append
  refine ⟨h.served.tail ok ran, h.since.tail ok ran, h.talking, fun k fd conn => ?_,
    fun fd unknown => ?_, fun fd => ?_⟩
  · rw [move.framesOf other]
    rcases move.accepted with same | ⟨fresh, unknown, more⟩
    · exact h.up k fd (same ▸ conn)
    · rw [more] at conn
      rcases Slots.concat_cases conn with ⟨rfl, rfl⟩ | conn
      · -- a connection that nobody reads yet
        have none_yet : s.server.framesOf s.server.accepted.length = [] := by
          rw [Server.framesOf, List.getElem?_eq_none (Server.ordered_run h.served).registry.threads_le]
          rfl
        rw [none_yet]
        exact h.waiting fd unknown
      · exact h.up k fd conn
  · refine h.waiting fd fun known => unknown ?_
    rcases move.accepted with same | ⟨fresh, _, more⟩
    · exact same ▸ known
    · exact more ▸ List.mem_append_left _ known
  · rw [Server.sentTo_append sends, ← h.down fd, List.append_assoc, sends, List.drop_left]

/-- The frame that a thread receives is one that its client has sent. -/
theorem System.Carried.recv (h : s.Carried first) {th : HearAll} {frame : Bytes} {rest : List Bytes}
    (here : s.server.threads[k]? = some th) (flying : s.up th.sockfd = frame :: rest)
    (step : System.serve { s with up := Function.update s.up th.sockfd rest }
      (.recv k (some frame)) = some t) : t.Carried first := by
  obtain ⟨v, ran, rfl⟩ := Option.map_eq_some_iff.mp step
  obtain ⟨⟨th', here', pc⟩, sends, accepted, frames⟩ := Server.recv_framesOf ran
  obtain rfl := Option.some.inj (here.symm.trans here')
  have registry := (Server.ordered_run h.served).registry
  have conn := registry.sockets k th here (by simp [pc])
  have sent := h.up k th.sockfd conn
  have whole : wholeFrame frame := by
    apply (h.talking th.sockfd).frames
    rw [sent, flying]
    simp
  change v.sends = s.server.sends at sends
  change v.accepted = s.server.accepted at accepted
  refine ⟨h.served.tail (e := .recv k (some frame)) whole ran,
    h.since.tail (e := .recv k (some frame)) whole ran, h.talking, fun j fd at_j => ?_,
    fun fd unknown => ?_, fun fd => ?_⟩
  · change v.accepted[j]? = some fd at at_j
    change (s.ends fd).talking.sent = v.framesOf j ++ Function.update s.up th.sockfd rest fd
    rw [accepted] at at_j
    rw [frames]
    by_cases own : j = k
    · subst own
      obtain rfl := Option.some.inj (conn.symm.trans at_j)
      rw [if_pos rfl, Function.update_self, sent, flying, List.append_assoc]
      rfl
    · rw [if_neg own, List.append_nil, Function.update_of_ne (registry.sockfd_ne at_j conn own)]
      exact h.up j fd at_j
  · change fd ∉ v.accepted at unknown
    change (s.ends fd).talking.sent = Function.update s.up th.sockfd rest fd
    rw [accepted] at unknown
    have apart : fd ≠ th.sockfd := by
      rintro rfl
      exact unknown (List.mem_of_getElem? conn)
    rw [Function.update_of_ne apart]
    exact h.waiting fd unknown
  · change (s.ends fd).hearing.heard.flatten ++ (s.down fd ++
      ((v.sends.drop s.server.sends.length).filter (·.1 = fd)).flatMap (·.2)) = (v.sentTo fd).flatten
    rw [Server.sentTo, sends, List.drop_length, List.filter_nil, List.flatMap_nil, List.append_nil]
    exact h.down fd

/-- What a client has sent goes up, and what it has heard has come down. -/
theorem System.Carried.put (h : s.Carried first) {fd : Nat} {e : End} {new : List Bytes} {rest : Bytes}
    (talking : Talking e.endCom e.talking) (sent : e.talking.sent = (s.ends fd).talking.sent ++ new)
    (heard : e.hearing.heard.flatten ++ rest = (s.ends fd).hearing.heard.flatten ++ s.down fd) :
    (s.put fd e (s.up fd ++ new) rest).Carried first := by
  refine ⟨h.served, h.since, fun fd' => ?_, fun k fd' conn => ?_, fun fd' unknown => ?_, fun fd' => ?_⟩ <;>
    by_cases own : fd' = fd
  · subst own
    simpa [System.put] using talking
  · simpa [System.put, own] using h.talking fd'
  · subst own
    simp [System.put, sent, h.up k fd' conn]
  · simpa [System.put, own] using h.up k fd' conn
  · subst own
    simp [System.put, sent, h.waiting fd' unknown]
  · simpa [System.put, own] using h.waiting fd' unknown
  · subst own
    simpa [System.put, heard] using h.down fd'
  · simpa [System.put, own] using h.down fd'

theorem System.Carried.step {ev : SystemEvent} (h : s.Carried first) (ok : typedWithin s ev)
    (step : s.step ev = some t) : t.Carried first := by
  cases ev with
  | server e =>
      cases e with
      | recv k got => cases step
      | accept fd => exact h.serve (e := .accept fd) (by simp) (by cases fd <;> exact ok) step
      | main => exact h.serve (e := .main) (by simp) trivial step
      | create stack => exact h.serve (e := .create stack) (by simp) trivial step
      | thread k => exact h.serve (e := .thread k) (by simp) trivial step
  | recv k =>
      simp only [System.step] at step
      split at step
      · cases step
      next th here =>
        split at step
        · cases step
        next frame rest flying => exact h.recv here flying step
  | client fd tick =>
      cases tick with
      | recv got => cases step
      | hear | talk | fgets line =>
          obtain ⟨e, ran, rfl⟩ := Option.map_eq_some_iff.mp step
          have move := End.step_move ran
          have talking : Talking e.endCom e.talking := Talking.move (h.talking fd) (by exact ok) move
          refine h.put talking move.sent_append ?_
          rw [move.heard_eq]
          simp [Chat.Tick.taken]
  | hear fd n =>
      simp only [System.step, Option.ite_none_right_eq_some] at step
      obtain ⟨_, step⟩ := step
      obtain ⟨e, ran, rfl⟩ := Option.map_eq_some_iff.mp step
      have move := End.step_move ran
      have sent : e.talking.sent = (s.ends fd).talking.sent ++ [] := by
        cases move with
        | recv => exact (List.append_nil _).symm
      have talking : Talking e.endCom e.talking := Talking.move (h.talking fd) (by trivial) move
      have next : (s.put fd e (s.up fd ++ []) ((s.down fd).drop n)).Carried first := by
        refine h.put talking sent ?_
        rw [move.heard_eq]
        simp [Chat.Tick.taken]
      rwa [List.append_nil] at next

theorem System.carried {hearBuffer talkBuffer : Nat → Bytes}
    (sized : ∀ fd, (talkBuffer fd).length = bufferLen)
    (before : Reach System.step typedWithin (.start hearBuffer talkBuffer) s₀)
    (after : Reach System.step typedWithin s₀ s) : s.Carried s₀.server := by
  have carried : s₀.Carried .start := by
    apply before.invariant
    · exact ⟨.refl, .refl, fun fd => .start (sized fd), nofun, fun _ _ => rfl, fun _ => rfl⟩
    · exact fun _ _ _ inv ok step => inv.step ok step
  apply after.invariant
  · exact { carried with since := .refl }
  · exact fun _ _ _ inv ok step => inv.step ok step

theorem HearAll.heard_begins_received (th : HearAll) : th.heard <+: th.received := by
  unfold heard
  split
  · exact List.dropLast_prefix _
  · exact List.dropLast_prefix _
  · exact List.prefix_rfl

/-- Of the lines typed at a client the server has shouted the first ones. -/
theorem System.Carried.texts_typed (h : s.Carried first) {fd : Nat}
    (conn : s.server.accepted[k]? = some fd) :
    s.server.textsOf k <+: (s.ends fd).talking.typed := by
  have ordered := Server.ordered_run h.served
  have typed : (s.ends fd).talking.sent.map text <+: (s.ends fd).talking.typed := by
    by_cases pc : (s.ends fd).talking.pc = .send
    · rw [((h.talking fd).pending pc).2]
      exact List.prefix_append ..
    · exact (h.talking fd).settled pc ▸ List.prefix_rfl
  cases here : s.server.threads[k]? with
  | none =>
      have silent : s.server.textsOf k = [] := by
        rw [Server.textsOf, List.map_eq_nil_iff, List.filter_eq_nil_iff]
        intro e logged same
        have below := ordered.accounted.senders e logged
        have past := List.getElem?_eq_none_iff.mp here
        have := of_decide_eq_true same
        omega
      rw [silent]
      exact List.nil_prefix
  | some th =>
      obtain ⟨stack, accounted⟩ := ordered.accounted.threads k th here
      rw [accounted.whole (ordered.whole k th here)]
      have received : s.server.framesOf k = th.received := by rw [Server.framesOf, here]; rfl
      have sent : th.received <+: (s.ends fd).talking.sent := by
        rw [h.up k fd conn, received]
        exact List.prefix_append ..
      exact ((th.heard_begins_received.trans sent).map text).trans typed

/-- Whenever no shout is in progress, what a greeted client has received and what is
on its way are its greeting and then, under their labels, the texts of the other
clients from one position of the log on, which it has by the time `client_id` is past
it; and in the log are, for each client, the first of the lines typed there, in order. -/
theorem relayed_end_to_end {hearBuffer talkBuffer : Nat → Bytes}
    (sized : ∀ fd, (talkBuffer fd).length = bufferLen)
    (before : Reach System.step typedWithin (.start hearBuffer talkBuffer) s₀)
    (after : Reach System.step typedWithin s₀ s)
    (idle : ∀ th ∈ s.server.threads, th.pc.index = none) :
    (∀ i fd : Nat, s.server.accepted[i]? = some fd → (fd, greeting i) ∈ s.server.sends →
      ∃ join ≤ s.server.log.length, (s.ends fd).hearing.heard.flatten ++ s.down fd = greeting i ++
        (((s.server.log.drop join).filter (·.sender ≠ i)).flatMap fun e =>
          labelled e.sender e.text ++ [0]) ∧
        (i < s₀.server.clientId → join ≤ s₀.server.log.length)) ∧
    ∀ k fd : Nat, s.server.accepted[k]? = some fd →
      s.server.textsOf k <+: (s.ends fd).talking.typed := by
  have first := System.carried sized before .refl
  have carried := System.carried sized before after
  have ordered := Server.ordered_run carried.served
  refine ⟨fun i fd conn greeted => ?_, fun k fd conn => carried.texts_typed conn⟩
  obtain ⟨join, bound, sent, joined⟩ := Server.sent_from_join first.served carried.since idle conn greeted
  refine ⟨join, bound, ?_, joined⟩
  rw [carried.down fd, sent, List.flatten_cons, ← List.flatMap_def]
  congr 1
  exact List.flatMap_congr fun e mem =>
    ordered.frame (List.mem_of_mem_drop (List.mem_of_mem_filter mem))

instance (s : System) : (ev : SystemEvent) → Decidable (typedWithin s ev)
  | .server (.accept (some _)) => inferInstanceAs (Decidable (_ < _))
  | .client _ (.fgets none) => .isFalse nofun
  | .client _ (.fgets (some l)) => decidable_of_iff (0 ∉ l)
      ⟨fun nulFree => ⟨l, rfl, nulFree⟩, fun ⟨_, same, nulFree⟩ => Option.some.inj same ▸ nulFree⟩
  | .client _ .hear | .client _ .talk | .client _ (.recv _) | .recv _ | .hear _ _
  | .server (.accept none) | .server .main | .server (.create _) | .server (.thread _)
  | .server (.recv _ _) => inferInstanceAs (Decidable True)

/-- The first one of two clients types a line, and the second one gets it together
with its greeting. -/
def helloTyped : List SystemEvent :=
  [Event.thread 0, .thread 0].map .server ++
    [.client 5 .talk, .client 5 (.fgets (some (ascii "hello\n"))), .client 5 .talk, .recv 0] ++
    (List.replicate 5 (Event.thread 0)).map .server ++
    [.client 6 .hear, .hear 6 32]

theorem helloTyped_heard : (run (fun s ev => if typedWithin s ev then System.step s ev else none)
    (.start (fun _ => zeros bufferLen) fun _ => zeros bufferLen) (twoJoin.map .server)).any (fun s₀ =>
      s₀.server.clientId = 2 ∧ s₀.server.log = [] ∧
      (run (fun s ev => if typedWithin s ev then System.step s ev else none) s₀ helloTyped).any fun s =>
        s.server.threads.map (·.pc.index) = List.replicate 2 none ∧ s.server.accepted[1]? = some 6 ∧
        (6, greeting 1) ∈ s.server.sends ∧ s.server.log = [⟨5, 0, ascii "hello\n"⟩]) := by
  decide +kernel

theorem relayed_end_to_end_hello : ∃ s₀ s,
    Reach System.step typedWithin (.start (fun _ => zeros bufferLen) fun _ => zeros bufferLen) s₀ ∧
    s₀.server.clientId = 2 ∧ Reach System.step typedWithin s₀ s ∧
    s.server.log = [⟨5, 0, ascii "hello\n"⟩] ∧
    (s.ends 6).hearing.heard.flatten ++ s.down 6 =
      ascii "You are Client1\n" ++ ascii "CLIENT0: hello\n" ++ [0] := by
  obtain ⟨s₀, joins, facts⟩ := (Option.any_eq_true _ _).mp helloTyped_heard
  obtain ⟨two, silent, goesOn⟩ := of_decide_eq_true facts
  obtain ⟨s, reached, facts⟩ := (Option.any_eq_true _ _).mp goesOn
  obtain ⟨idle, conn, greeted, log⟩ := of_decide_eq_true facts
  have before := reach_of_guarded joins
  have after := reach_of_guarded reached
  have sized : ∀ fd : Nat, ((fun _ => zeros bufferLen) fd : Bytes).length = bufferLen :=
    fun _ => List.length_replicate
  obtain ⟨join, _, heard, early⟩ :=
    (relayed_end_to_end sized before after (Server.idle_of_indices idle)).1 1 6 conn greeted
  obtain rfl : join = 0 := by
    have first := early (by omega)
    rw [silent] at first
    exact Nat.le_zero.mp first
  rw [log] at heard
  exact ⟨s₀, s, before, two, after, log, heard.trans (by decide +kernel)⟩

end GroupChat
