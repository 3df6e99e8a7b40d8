import NetworksLab.ChatThreads

/-! The UDP chat. `hear` and `talk` keep the same `addr` pointer: `recvfrom`
writes the sender of each datagram there, and `sendto` takes its destination
from there. All addresses of a socket have one family and so one length; the
length that each thread copies says nothing more. -/
namespace UdpChat
open CString Transition
open Chat (End bufferLen)

variable {α : Type*}

/-- `arrivals` are the results of `recvfrom` in order, `none` for a failure;
`sent` are the calls of `sendto`. -/
structure Session (α : Type*) where
  threads : End
  addr : α
  arrivals : List (Option (α × Bytes)) := []
  sent : List (α × Bytes) := []

def Session.start (addr : α) (hearBuffer talkBuffer : Bytes) : Session α where
  threads := .start hearBuffer talkBuffer
  addr := addr

inductive Tick (α : Type*)
  | hear
  | recvfrom (got : Option (α × Bytes))
  | talk
  | fgets (line : Option Bytes)

def Session.step (label : Bytes) (s : Session α) : Tick α → Option (Session α)
  | .hear => (s.threads.step label .hear).map fun e => { s with threads := e }
  | .recvfrom none => (s.threads.step label (.recv [])).map fun e =>
      { s with threads := e, arrivals := s.arrivals ++ [none] }
  | .recvfrom (some (src, data)) => (s.threads.step label (.recv data)).map fun e =>
      { s with threads := e, addr := src, arrivals := s.arrivals ++ [some (src, data)] }
  | .talk => (s.threads.step label .talk).map fun e => { s with
      threads := e
      sent := if s.threads.talking.pc = .send then
        s.sent ++ [(s.addr, s.threads.talking.buffer)] else s.sent }
  | .fgets line => (s.threads.step label (.fgets line)).map fun e => { s with threads := e }

/-- The datagram is the peer's, or there is none. -/
def fromPeer [DecidableEq α] (peer : α) (got : Option (α × Bytes)) : Bool :=
  got.all (·.1 = peer)

/-- What the session owes its peer: everything is sent to it, and some run on the
peer's datagrams alone types, sends and prints the same and ends the same. -/
def Session.staysWith [DecidableEq α] (label hearBuffer talkBuffer : Bytes) (peer : α)
    (s : Session α) : Prop :=
  (∀ p ∈ s.sent, p.1 = peer) ∧
    ∃ t, Reach (Session.step label) anyStep (.start peer hearBuffer talkBuffer) t ∧
      t.arrivals = s.arrivals.filter (fromPeer peer) ∧
      t.threads.talking.typed = s.threads.talking.typed ∧ t.sent = s.sent ∧
      t.threads.endCom = s.threads.endCom ∧
      t.threads.hearing.printed = s.threads.hearing.printed

/-- Everything a step of the session can do. -/
inductive Session.Move (label : Bytes) (s : Session α) : Tick α → Session α → Prop
  | hear {e} (move : End.Move label s.threads .hear e) : Move label s .hear { s with threads := e }
  | lost {e} (move : End.Move label s.threads (.recv []) e) :
      Move label s (.recvfrom none) { s with threads := e, arrivals := s.arrivals ++ [none] }
  | arrive {e src data} (move : End.Move label s.threads (.recv data) e) :
      Move label s (.recvfrom (some (src, data)))
        { s with threads := e, addr := src, arrivals := s.arrivals ++ [some (src, data)] }
  | talk {e} (move : End.Move label s.threads .talk e) : Move label s .talk { s with
      threads := e
      sent := if s.threads.talking.pc = .send then
        s.sent ++ [(s.addr, s.threads.talking.buffer)] else s.sent }
  | fgets {e line} (move : End.Move label s.threads (.fgets line) e) :
      Move label s (.fgets line) { s with threads := e }

theorem Session.step_move {label : Bytes} {s t : Session α} {tick : Tick α}
    (h : s.step label tick = some t) : Move label s tick t := by
  cases tick with
  | recvfrom got =>
      cases got with
      | none =>
          obtain ⟨e, he, rfl⟩ := Option.map_eq_some_iff.mp h
          exact .lost (End.step_move he)
      | some got =>
          obtain ⟨e, he, rfl⟩ := Option.map_eq_some_iff.mp h
          exact .arrive (End.step_move he)
  | hear =>
      obtain ⟨e, he, rfl⟩ := Option.map_eq_some_iff.mp h
      exact .hear (End.step_move he)
  | talk =>
      obtain ⟨e, he, rfl⟩ := Option.map_eq_some_iff.mp h
      exact .talk (End.step_move he)
  | fgets line =>
      obtain ⟨e, he, rfl⟩ := Option.map_eq_some_iff.mp h
      exact .fgets (End.step_move he)

/-- As long as the peer alone is heard, it alone is spoken to. -/
def Session.Faithful (peer : α) (s : Session α) : Prop :=
  (∀ src data, some (src, data) ∈ s.arrivals → src = peer) →
    s.addr = peer ∧ ∀ p ∈ s.sent, p.1 = peer

theorem Session.Faithful.move {label : Bytes} {peer : α} {s t : Session α} {tick : Tick α}
    (h : s.Faithful peer) (move : Move label s tick t) : t.Faithful peer := by
  cases move with
  | hear | fgets => exact h
  | lost =>
      intro peers
      exact h fun src data hsrc => peers src data (List.mem_append_left _ hsrc)
  | arrive =>
      intro peers
      have before := h fun src data hsrc => peers src data (List.mem_append_left _ hsrc)
      exact ⟨peers _ _ (List.mem_append_right _ (List.mem_singleton.mpr rfl)), before.2⟩
  | talk =>
      intro peers
      obtain ⟨addr, sent⟩ := h peers
      refine ⟨addr, ?_⟩
      intro p hp
      change p ∈ (if s.threads.talking.pc = .send then _ else _) at hp
      split at hp
      · rcases List.mem_append.mp hp with old | new
        · exact sent p old
        · rw [List.mem_singleton.mp new]
          exact addr
      · exact sent p hp

/-- `hear` has a datagram in its buffer that it has not printed yet. -/
def unprinted (s : End) : Nat :=
  match s.hearing.pc with
  | .setEnd | .print => 1
  | _ => 0

theorem printed_move {label : Bytes} {s e : End} {tick : Chat.Tick} (move : End.Move label s tick e) :
    e.hearing.printed.length + unprinted e = s.hearing.printed.length + unprinted s +
      match tick with
      | .recv _ => 1
      | _ => 0 := by
  cases move with
  | @recv got pc fits =>
      by_cases key : startsWith (store s.hearing.buffer got) Chat.endKey = true <;>
        simp [unprinted, pc, Chat.HearThread.recv, key]
  | @fgets line pc returns => cases line <;> simp [unprinted]
  | listen pc | stopHearing pc | hearEnd pc | clearHear pc => simp [unprinted, pc]
  | print pc => simp [unprinted, pc, Chat.HearThread.print]
  | ask | stopTalking | send | talkEnd | clearTalk => simp [unprinted]

theorem Session.printed_count {label hearBuffer talkBuffer : Bytes} {peer : α} {s : Session α}
    (run : Reach (Session.step label) anyStep (.start peer hearBuffer talkBuffer) s) :
    s.threads.hearing.printed.length + unprinted s.threads = s.arrivals.length := by
  apply run.invariant (I := fun s : Session α =>
    s.threads.hearing.printed.length + unprinted s.threads = s.arrivals.length) rfl
  intro t tick u before _ step
  cases Session.step_move step with
  | hear move | talk move | fgets move => exact (printed_move move).trans before
  | lost move | arrive move =>
      rw [List.length_append, ← before]
      exact printed_move move

theorem Session.faithful_run {label hearBuffer talkBuffer : Bytes} {peer : α} {s : Session α}
    (run : Reach (Session.step label) anyStep (.start peer hearBuffer talkBuffer) s) :
    s.Faithful peer :=
  run.invariant (I := Session.Faithful peer) (fun _ => ⟨rfl, nofun⟩)
    fun _ _ _ h _ step => h.move (Session.step_move step)

/-- While every datagram comes from the peer the session stays with it; and
whenever `hear` has printed all that arrived, it stays only then. -/
theorem session_stays [DecidableEq α] {label hearBuffer talkBuffer : Bytes} {peer : α}
    {s : Session α}
    (run : Reach (Session.step label) anyStep (.start peer hearBuffer talkBuffer) s) :
    ((∀ got ∈ s.arrivals, fromPeer peer got) → s.staysWith label hearBuffer talkBuffer peer) ∧
    (s.threads.hearing.pc ≠ .setEnd → s.threads.hearing.pc ≠ .print →
      s.staysWith label hearBuffer talkBuffer peer → ∀ got ∈ s.arrivals, fromPeer peer got) := by
  refine ⟨?_, ?_⟩
  · intro peers
    have sent := (Session.faithful_run run fun src data hsrc => by
      simpa [fromPeer] using peers _ hsrc).2
    exact ⟨sent, s, run, (List.filter_eq_self.mpr peers).symm, rfl, rfl, rfl, rfl⟩
  · rintro noEnd noPrint ⟨_, t, toT, arrivals, _, _, _, printed⟩
    have settled : unprinted s.threads = 0 := by
      cases pc : s.threads.hearing.pc <;> simp_all [unprinted]
    have here := Session.printed_count run
    have there := Session.printed_count toT
    rw [printed, arrivals] at there
    have kept : s.arrivals.filter (fromPeer peer) = s.arrivals := by
      apply List.Sublist.eq_of_length_le List.filter_sublist
      omega
    exact List.filter_eq_self.mp kept

/-- One datagram from `src`, then a line of the user. -/
def oneEach (src : Nat) : List (Tick Nat) :=
  [.hear, .recvfrom (some (src, ascii "hi\n" ++ [0])), .hear, .talk,
    .fgets (some (ascii "yes\n")), .talk]

theorem oneEach_runs (src : Nat) : (run (Session.step (ascii "CLIENT: "))
    (.start 1 (zeros bufferLen) (zeros bufferLen)) (oneEach src)).map
      (fun s => (s.arrivals, s.sent.map (·.1))) =
    some ([some (src, ascii "hi\n" ++ [0])], [src]) := rfl

theorem session_stays_oneEach : ∃ s, Reach (Session.step (ascii "CLIENT: ")) anyStep
      (.start 1 (zeros bufferLen) (zeros bufferLen)) s ∧ s.sent.map (·.1) = [1] ∧
      s.staysWith (ascii "CLIENT: ") (zeros bufferLen) (zeros bufferLen) 1 := by
  obtain ⟨s, reached, facts⟩ := Option.map_eq_some_iff.mp (oneEach_runs 1)
  obtain ⟨arrivals, sent⟩ := Prod.mk.inj facts
  have run := reach_of_run reached
  refine ⟨s, run, sent, (session_stays run).1 ?_⟩
  intro got hgot
  rw [arrivals] at hgot
  rw [List.mem_singleton.mp hgot]
  rfl

/-- A stranger's datagram takes the session over. -/
theorem session_taken_over : ¬ ∀ s, Reach (Session.step (ascii "CLIENT: ")) anyStep
    (.start 1 (zeros bufferLen) (zeros bufferLen)) s →
    s.staysWith (ascii "CLIENT: ") (zeros bufferLen) (zeros bufferLen) 1 := by
  intro stays
  obtain ⟨s, reached, facts⟩ := Option.map_eq_some_iff.mp (oneEach_runs 2)
  have sent := (Prod.mk.inj facts).2
  have toPeer := (stays s (reach_of_run reached)).1
  have stranger : 2 ∈ s.sent.map (·.1) := by
    rw [sent]
    exact List.mem_singleton.mpr rfl
  obtain ⟨p, hp, two⟩ := List.mem_map.mp stranger
  have one := toPeer p hp
  omega

end UdpChat
