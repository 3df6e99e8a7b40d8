import NetworksLab.GroupBroadcast

/-! Runs of the group-chat server within its table, on whole frames: what each
client has been sent whenever no shout is in progress. -/
namespace GroupChat
open CString Transition OrderedLog
open Chat (bufferLen)

def ordinary (s : Server) : Event → Prop
  | .accept (some _) => s.accepted.length < maxNumClient
  | .recv _ (some frame) => wholeFrame frame
  | .recv _ none => False
  | _ => True

structure Server.Ordered (s : Server) : Prop where
  registry : s.Registry
  mutex : s.Mutex
  accounted : s.Accounted
  logged : s.Logged
  deliveries : s.Deliveries
  whole : s.AllReceived wholeFrame
  bounded : s.accepted.length ≤ maxNumClient

theorem Server.ordered_start : Server.start.Ordered :=
  ⟨registry_start, mutex_start, accounted_start, nofun, deliveries_start, nofun, Nat.zero_le _⟩

theorem Server.Move.bounded {s t : Server} {ev : Event}
    (room : ∀ fd, ev = .accept (some fd) → s.accepted.length < maxNumClient)
    (bounded : s.accepted.length ≤ maxNumClient) (move : Move s ev t) :
    t.accepted.length ≤ maxNumClient := by
  cases move with
  | @accept fd pc fresh =>
      change (s.accepted ++ [_]).length ≤ maxNumClient
      rw [List.length_append]
      exact room fd rfl
  | _ => exact bounded

theorem Server.Ordered.step {s t : Server} {ev : Event} (h : s.Ordered) (ok : ordinary s ev)
    (step : s.step ev = some t) : t.Ordered := by
  have move := Server.step_move step
  refine ⟨h.registry.move move, h.mutex.move move, h.accounted.move h.registry move,
    h.logged.move h.registry move, h.deliveries.move h.registry h.mutex move,
    h.whole.move ?_ move, move.bounded ?_ h.bounded⟩
  · rintro k got rfl
    exact ok
  · rintro fd rfl
    exact ok

theorem Server.ordered_run {s : Server} (h : Reach Server.step ordinary .start s) : s.Ordered :=
  h.invariant ordered_start fun _ _ _ inv ok step => inv.step ok step

theorem Server.Move.keeps {s t : Server} {ev : Event} (move : Move s ev t) :
    s.clientId ≤ t.clientId ∧
      ∀ i fd : Nat, s.accepted[i]? = some fd → t.accepted[i]? = some fd := by
  cases move with
  | accept pc fresh =>
      refine ⟨le_rfl, ?_⟩
      intro i fd conn
      exact (List.getElem?_append_left (List.getElem?_eq_some_iff.mp conn).1).trans conn
  | incr pc => exact ⟨Nat.le_succ _, fun _ _ => id⟩
  | _ => exact ⟨le_rfl, fun _ _ => id⟩

/-- A client that has joined keeps its join position for the rest of the run. -/
theorem Server.Ordered.kept {s₀ s : Server} {i fd join : Nat} (h : s₀.Ordered)
    (below : i < s₀.clientId) (conn : s₀.accepted[i]? = some fd)
    (delivered : s₀.Delivered i fd join) (after : Reach Server.step ordinary s₀ s) :
    s.accepted[i]? = some fd ∧ s.Delivered i fd join := by
  have all : s.Ordered ∧ i < s.clientId ∧ s.accepted[i]? = some fd ∧ s.Delivered i fd join := by
    apply after.invariant ⟨h, below, conn, delivered⟩
    rintro t ev u ⟨inv, below, conn, delivered⟩ ok step
    have move := Server.step_move step
    exact ⟨inv.step ok step, Nat.lt_of_lt_of_le below move.keeps.1, move.keeps.2 i fd conn,
      delivered.move inv.registry inv.mutex conn below move⟩
  exact ⟨all.2.2.1, all.2.2.2⟩

theorem Server.Ordered.delivered {s : Server} {i fd : Nat} (h : s.Ordered)
    (conn : s.accepted[i]? = some fd) (greeted : (fd, greeting i) ∈ s.sends) :
    ∃ join, s.Delivered i fd join := by
  have inside : i < s.accepted.length := (List.getElem?_eq_some_iff.mp conn).1
  have count := h.registry.acceptedCount
  by_cases joined : i < s.clientId
  · exact h.deliveries.joined i fd joined conn
  · by_cases waiting : s.mainPc = .accept
    · rw [if_pos waiting] at count
      omega
    · rw [if_neg waiting] at count
      obtain rfl : i = s.clientId := by omega
      obtain rfl : s.newsockfd = fd :=
        Option.some.inj ((h.registry.newest waiting).symm.trans conn)
      have sent := h.deliveries.newest waiting
      have some : greeting s.clientId ∈ s.sentTo s.newsockfd := by
        rw [Server.sentTo]
        exact List.mem_map.mpr ⟨_, List.mem_filter.mpr ⟨greeted, by simp⟩, rfl⟩
      by_cases done : s.mainPc.greeted = true
      · refine ⟨(s.seen s.clientId).length, le_rfl, ?_⟩
        rw [sent, if_pos done, relayed, view_now, List.map_nil]
      · rw [sent, if_neg done] at some
        cases some

theorem Server.walk_idle {s : Server} (idle : ∀ th ∈ s.threads, th.pc.index = none) :
    s.walk = none := by
  unfold walk
  cases s.shouting with
  | none => rfl
  | some k =>
      cases at' : s.threads[k]? with
      | none => simp [at']
      | some th => simpa [at'] using idle th (List.mem_of_getElem? at')

/-- A shout reaches its receivers whole, under the number of its connection. -/
theorem Server.Ordered.frame {s : Server} {e : Entry} (h : s.Ordered) (logged : e ∈ s.log) :
    e.frame = ascii "CLIENT" ++ decimal e.sender ++ ascii ": " ++ e.text ++ [0] := by
  have conn := h.logged e logged
  have small : e.sender < maxNumClient :=
    Nat.lt_of_lt_of_le (List.getElem?_eq_some_iff.mp conn).1 h.bounded
  exact shoutFrame_eq small e.text

theorem Server.Ordered.received {s : Server} {e : Entry} (h : s.Ordered) (logged : e ∈ s.log) :
    ∃ th, s.threads[e.sender]? = some th ∧ ∃ frame ∈ th.received, read frame = some e.text := by
  have at' := List.getElem?_eq_getElem (h.accounted.senders e logged)
  obtain ⟨stack, accounted⟩ := h.accounted.threads _ _ at'
  have shouted : e.text ∈ s.textsOf e.sender := by
    rw [Server.textsOf]
    exact List.mem_map.mpr ⟨e, List.mem_filter.mpr ⟨logged, by simp⟩, rfl⟩
  rw [accounted.whole (h.whole _ _ at')] at shouted
  obtain ⟨frame, heard, str⟩ := List.mem_map.mp shouted
  have received := (HearAll.heard_sublist _).subset heard
  exact ⟨_, at', frame, received, (read_of_mem (h.whole _ _ at' frame received).2).trans
    (congrArg some str)⟩

/-- What a client has been sent, and where in the log its part starts. -/
theorem Server.sent_from_join {s₀ s : Server} {i fd : Nat}
    (before : Reach Server.step ordinary .start s₀) (after : Reach Server.step ordinary s₀ s)
    (idle : ∀ th ∈ s.threads, th.pc.index = none) (conn : s.accepted[i]? = some fd)
    (greeted : (fd, greeting i) ∈ s.sends) :
    ∃ join ≤ s.log.length,
      s.sentTo fd =
        greeting i :: ((s.log.drop join).filter (·.sender ≠ i)).map Entry.frame ∧
      (i < s₀.clientId → join ≤ s₀.log.length) := by
  have first := Server.ordered_run before
  have seen := Server.seen_none (Server.walk_idle idle) i
  by_cases below : i < s₀.clientId
  · have conn₀ := List.getElem?_eq_getElem (first.registry.walked below)
    obtain ⟨join, delivered₀⟩ := first.deliveries.joined i _ below conn₀
    obtain ⟨conn', delivered⟩ := first.kept below conn₀ delivered₀ after
    obtain rfl := Option.some.inj (conn'.symm.trans conn)
    refine ⟨join, seen ▸ delivered.joined, ?_, fun _ => ?_⟩
    · rw [delivered.sent, seen]
      rfl
    · exact delivered₀.joined.trans (s₀.seen_length_le i)
  · obtain ⟨join, delivered⟩ := (Server.ordered_run (before.trans after)).delivered conn greeted
    refine ⟨join, seen ▸ delivered.joined, ?_, fun joined => absurd joined below⟩
    rw [delivered.sent, seen]
    rfl

/-- Whenever no shout is in progress, client `i` has been sent its greeting and
every shout of the others from its join position on, in the order of the mutex;
it has joined by the time `client_id` is past `i`. -/
theorem broadcast_total_order {s₀ s : Server} {i fd : Nat}
    (before : Reach Server.step ordinary .start s₀) (after : Reach Server.step ordinary s₀ s)
    (idle : ∀ th ∈ s.threads, th.pc.index = none) (conn : s.accepted[i]? = some fd)
    (greeted : (fd, greeting i) ∈ s.sends) :
    (∃ join ≤ s.log.length,
      s.sentTo fd =
        greeting i :: ((s.log.drop join).filter (·.sender ≠ i)).map Entry.frame ∧
      (i < s₀.clientId → join ≤ s₀.log.length)) ∧
    ∀ e ∈ s.log, s.accepted[e.sender]? = some e.sockfd ∧
      e.frame = ascii "CLIENT" ++ decimal e.sender ++ ascii ": " ++ e.text ++ [0] ∧
      ∃ th, s.threads[e.sender]? = some th ∧
        ∃ frame ∈ th.received, read frame = some e.text := by
  have last := Server.ordered_run (before.trans after)
  exact ⟨Server.sent_from_join before after idle conn greeted,
    fun e logged => ⟨last.logged e logged, last.frame logged, last.received logged⟩⟩

instance (s : Server) : (ev : Event) → Decidable (ordinary s ev)
  | .accept (some _) => inferInstanceAs (Decidable (_ < _))
  | .recv _ (some _) => inferInstanceAs (Decidable (_ ∧ _))
  | .recv _ none => inferInstanceAs (Decidable False)
  | .accept none | .main | .create _ | .thread _ => inferInstanceAs (Decidable True)

theorem Server.idle_of_indices {s : Server} {n : Nat}
    (idle : s.threads.map (·.pc.index) = List.replicate n none) :
    ∀ th ∈ s.threads, th.pc.index = none := by
  intro th hth
  have entry := List.mem_map_of_mem (f := fun th : HearAll => th.pc.index) hth
  rw [idle] at entry
  exact (List.mem_replicate.mp entry).2

/-- Two clients connect. -/
def twoJoin : List Event :=
  let joins := fun fd => [Event.accept (some fd), .main, .main, .main,
    .create (zeros bufferLen), .main]
  joins 5 ++ joins 6

/-- The first of them says hello. -/
def saysHello : List Event :=
  [.thread 0, .thread 0, .recv 0 (some (store (zeros bufferLen) (ascii "hello\n"))),
    .thread 0, .thread 0, .thread 0, .thread 0, .thread 0]

theorem hello_relayed : (run (fun s ev => if ordinary s ev then Server.step s ev else none) .start
    twoJoin).any (fun s₀ => s₀.clientId = 2 ∧ s₀.log = [] ∧
      (run (fun s ev => if ordinary s ev then Server.step s ev else none) s₀ saysHello).any fun s =>
        s.threads.map (·.pc.index) = List.replicate 2 none ∧ s.accepted[1]? = some 6 ∧
        (6, greeting 1) ∈ s.sends ∧ s.log = [⟨5, 0, ascii "hello\n"⟩]) := by
  decide +kernel

/-- The second one has joined by then, and gets the hello behind its greeting. -/
theorem broadcast_total_order_hello :
    ∃ s₀ s, Reach Server.step ordinary .start s₀ ∧ s₀.clientId = 2 ∧ Reach Server.step ordinary s₀ s ∧
      s.log = [⟨5, 0, ascii "hello\n"⟩] ∧
      s.sentTo 6 = [greeting 1, ascii "CLIENT0: hello\n" ++ [0]] := by
  obtain ⟨s₀, joined, facts⟩ := (Option.any_eq_true _ _).mp hello_relayed
  obtain ⟨two, silent, goesOn⟩ := of_decide_eq_true facts
  obtain ⟨s, reached, facts⟩ := (Option.any_eq_true _ _).mp goesOn
  obtain ⟨idle, conn, greeted, log⟩ := of_decide_eq_true facts
  have before := reach_of_guarded joined
  have after := reach_of_guarded reached
  obtain ⟨⟨join, _, sent, early⟩, _⟩ :=
    broadcast_total_order before after (Server.idle_of_indices idle) conn greeted
  obtain rfl : join = 0 := by
    have first := early (by omega)
    rw [silent] at first
    exact Nat.le_zero.mp first
  rw [log] at sent
  exact ⟨s₀, s, before, two, after, log, sent.trans (by decide +kernel)⟩

/-- Of what third parties shout, one of two clients has an end of what the
other has. -/
theorem clients_agree {s : Server} {i j fd fd' : Nat}
    (reached : Reach Server.step ordinary .start s) (idle : ∀ th ∈ s.threads, th.pc.index = none)
    (conn : s.accepted[i]? = some fd) (greeted : (fd, greeting i) ∈ s.sends)
    (conn' : s.accepted[j]? = some fd') (greeted' : (fd', greeting j) ∈ s.sends) :
    ∃ mine yours : List Entry,
      s.sentTo fd = greeting i :: mine.map Entry.frame ∧
      s.sentTo fd' = greeting j :: yours.map Entry.frame ∧
      (mine.filter (·.sender ≠ j) <:+ yours.filter (·.sender ≠ i) ∨
        yours.filter (·.sender ≠ i) <:+ mine.filter (·.sender ≠ j)) := by
  have inv := Server.ordered_run reached
  have seen := Server.seen_none (Server.walk_idle idle)
  obtain ⟨join, delivered⟩ := inv.delivered conn greeted
  obtain ⟨join', delivered'⟩ := inv.delivered conn' greeted'
  refine ⟨view (·.sender ≠ i) join s.log, view (·.sender ≠ j) join' s.log, ?_, ?_, ?_⟩
  · rw [delivered.sent, seen]
    rfl
  · rw [delivered'.sent, seen]
    rfl
  · rcases Nat.le_total join join' with later | later
    · right
      rw [view_agree]
      exact (view_suffix _ later s.log).filter _
    · left
      rw [view_agree]
      exact (view_suffix _ later s.log).filter _

end GroupChat
