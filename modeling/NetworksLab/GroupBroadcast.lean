import NetworksLab.GroupShouting
import NetworksLab.GroupReceiving
import NetworksLab.OrderedLog

/-! The broadcast of the group-chat server is totally ordered: a connection is
sent its greeting and then, from its join position on, every shout of the
others in the order of the mutex. -/
namespace GroupChat
open CString Transition OrderedLog
open Chat (bufferLen)

def HearAllPc.index : HearAllPc → Option Nat
  | .shout i _ => some i
  | _ => none

/-- The slot the shout in progress looks at next. -/
def Server.walk (s : Server) : Option Nat :=
  s.shouting.bind fun k => s.threads[k]?.bind fun th => th.pc.index

/-- The shouts that are past slot `i`. -/
def Server.seen (s : Server) (i : Nat) : List Entry :=
  match s.walk with
  | some w => if i < w then s.log else s.log.dropLast
  | none => s.log

def Server.sentTo (s : Server) (fd : Nat) : List Bytes :=
  (s.sends.filter (·.1 = fd)).map (·.2)

/-- What client `i` is sent of a log it joins at `join`. -/
def relayed (i join : Nat) (log : List Entry) : List Bytes :=
  (view (·.sender ≠ i) join log).map Entry.frame

structure Server.Delivered (s : Server) (i fd join : Nat) : Prop where
  joined : join ≤ (s.seen i).length
  sent : s.sentTo fd = greeting i :: relayed i join (s.seen i)

theorem relayed_concat {i join : Nat} {log : List Entry} (joined : join ≤ log.length) (e : Entry) :
    relayed i join (log ++ [e]) =
      relayed i join log ++ if e.sender ≠ i then [e.frame] else [] := by
  rw [relayed, view_concat joined, List.map_append]
  by_cases other : e.sender ≠ i <;> simp [other, relayed]

theorem Server.sentTo_send {s t : Server} {fd : Nat} {frame : Bytes}
    (sends : t.sends = s.sends ++ [(fd, frame)]) (fd' : Nat) :
    t.sentTo fd' = s.sentTo fd' ++ if fd = fd' then [frame] else [] := by
  rw [sentTo, sends, List.filter_append, List.map_append]
  by_cases same : fd = fd' <;> simp [same, sentTo]

theorem Server.sentTo_other {s t : Server} {fd fd' : Nat} {frame : Bytes}
    (sends : t.sends = s.sends ++ [(fd, frame)]) (other : fd ≠ fd') : t.sentTo fd' = s.sentTo fd' := by
  rw [sentTo_send sends, if_neg other, List.append_nil]

theorem Server.seen_length_le (s : Server) (i : Nat) : (s.seen i).length ≤ s.log.length := by
  unfold seen
  split
  · split
    · exact le_rfl
    · simp
  · exact le_rfl

theorem Server.seen_none {s : Server} (idle : s.walk = none) (i : Nat) : s.seen i = s.log := by
  simp only [seen, idle]

theorem Server.walk_free {s : Server} (free : s.shouting = none) : s.walk = none := by
  simp only [walk, free, Option.bind_none]

theorem Server.Mutex.walk_at {s : Server} (h : s.Mutex) {k : Nat} {th : HearAll}
    (at' : s.threads[k]? = some th) (inside : th.pc.inShout = true) : s.walk = th.pc.index := by
  simp only [Server.walk, h.holder k th at' inside, at', Option.bind_some]

theorem Server.walk_holder {s t : Server} {k : Nat} {th th' : HearAll} {w : Option Nat}
    (shouting : t.shouting = some k) (at' : s.threads[k]? = some th)
    (threads : t.threads = s.threads.set k th') (index : th'.pc.index = w) : t.walk = w := by
  simp only [walk, shouting, threads, Slots.get_set at', Option.bind_some, index]

theorem Server.Mutex.walk_shout {s : Server} (h : s.Mutex) {k w : Nat} {th : HearAll} {msg : Bytes}
    (at' : s.threads[k]? = some th) (pc : th.pc = .shout w msg) : s.walk = some w := by
  rw [h.walk_at at' (by simp [pc, HearAllPc.inShout]), pc]
  rfl

/-- The thread in `shout` is the one whose step moves the walk on. -/
theorem Server.Mutex.walk_next {s t : Server} (h : s.Mutex) {k w : Nat} {th th' : HearAll}
    {msg : Bytes} {next : Option Nat} (at' : s.threads[k]? = some th) (pc : th.pc = .shout w msg)
    (shouting : t.shouting = s.shouting) (threads : t.threads = s.threads.set k th')
    (index : th'.pc.index = next) : t.walk = next :=
  walk_holder (shouting.trans (h.held at' pc)) at' threads index

/-- A thread that has just been created is not the one in `shout`. -/
theorem Server.walk_create {s t : Server} {th : HearAll} (shouting : t.shouting = s.shouting)
    (threads : t.threads = s.threads ++ [th]) (index : th.pc.index = none) : t.walk = s.walk := by
  simp only [walk, shouting, threads]
  congr 1
  funext k
  by_cases old : k < s.threads.length
  · rw [List.getElem?_append_left old]
  · rw [List.getElem?_append_right (by omega), List.getElem?_eq_none (by omega : _ ≤ k)]
    cases k - s.threads.length with
    | zero => exact index
    | succ n => rfl

theorem Server.walk_put {s t : Server} {k : Nat} {th th' : HearAll}
    (shouting : t.shouting = s.shouting) (threads : t.threads = s.threads.set k th')
    (at' : s.threads[k]? = some th) (index : th'.pc.index = th.pc.index) : t.walk = s.walk := by
  simp only [walk, shouting, threads]
  congr 1
  funext j
  by_cases same : k = j
  · subst j
    rw [Slots.get_set at', at']
    exact index
  · rw [List.getElem?_set_ne same]

theorem Server.seen_locked {s t : Server} {e : Entry} (walk : t.walk = some 0)
    (log : t.log = s.log ++ [e]) (i : Nat) : t.seen i = s.log := by
  simp only [seen, walk, log, List.dropLast_concat, Nat.not_lt_zero, if_false]

theorem Server.Delivered.reseen {s t : Server} {i fd join : Nat} (h : s.Delivered i fd join)
    (seen : t.seen i = s.seen i) (sent : t.sentTo fd = s.sentTo fd) : t.Delivered i fd join := by
  refine ⟨seen ▸ h.joined, ?_⟩
  rw [seen, sent]
  exact h.sent

/-- The walk passes slot `w`: only the client of that slot is sent anything, and
it is sent the newest shout unless that is its own. -/
theorem Server.Delivered.pass {s t : Server} {i fd join w : Nat} {e : Entry}
    (h : s.Delivered i fd join) (before : s.walk = some w) (after : t.walk = some (w + 1))
    (log : t.log = s.log) (last : s.log.getLast? = some e)
    (elsewhere : i ≠ w → t.sentTo fd = s.sentTo fd)
    (here : i = w → t.sentTo fd = s.sentTo fd ++ if e.sender ≠ i then [e.frame] else []) :
    t.Delivered i fd join := by
  have seenBefore : s.seen i = if i < w then s.log else s.log.dropLast := by
    simp only [Server.seen, before]
  have seenAfter : t.seen i = if i < w + 1 then s.log else s.log.dropLast := by
    simp only [Server.seen, after, log]
  by_cases same : i = w
  · rw [if_neg (by omega)] at seenBefore
    rw [if_pos (by omega)] at seenAfter
    obtain ⟨earlier, whole⟩ := List.getLast?_eq_some_iff.mp last
    rw [whole, List.dropLast_concat] at seenBefore
    have joined : join ≤ earlier.length := seenBefore ▸ h.joined
    refine ⟨?_, ?_⟩
    · rw [seenAfter, whole, List.length_append]
      omega
    · rw [here same, h.sent, seenBefore, seenAfter, whole, relayed_concat joined]
      rfl
  · have seen : t.seen i = s.seen i := by
      rw [seenBefore, seenAfter]
      by_cases passed : i < w
      · rw [if_pos passed, if_pos (by omega)]
      · rw [if_neg passed, if_neg (by omega)]
    exact ⟨seen ▸ h.joined, by rw [elsewhere same, seen]; exact h.sent⟩

theorem Server.Registry.sockfd_ne {s : Server} (h : s.Registry) {i j fd fd' : Nat}
    (conn : s.accepted[i]? = some fd) (conn' : s.accepted[j]? = some fd') (other : i ≠ j) :
    fd ≠ fd' := by
  rintro rfl
  obtain ⟨inside, at'⟩ := List.getElem?_eq_some_iff.mp conn
  exact other ((List.getElem?_inj inside h.nodup).mp (conn.trans conn'.symm))

/-- What a step does to the walk of the shout in progress and to what the client
of slot `i` is sent. -/
inductive Server.Passage (s t : Server) (i fd : Nat) : Prop
  | still (walk : t.walk = s.walk) (log : t.log = s.log) (sent : t.sentTo fd = s.sentTo fd)
  | begins {e : Entry} (before : s.walk = none) (after : t.walk = some 0)
      (log : t.log = s.log ++ [e]) (sent : t.sentTo fd = s.sentTo fd)
  | passes {w : Nat} {e : Entry} (before : s.walk = some w) (after : t.walk = some (w + 1))
      (log : t.log = s.log) (last : s.log.getLast? = some e)
      (elsewhere : i ≠ w → t.sentTo fd = s.sentTo fd)
      (here : i = w → t.sentTo fd = s.sentTo fd ++ if e.sender ≠ i then [e.frame] else [])
  | ends {w : Nat} (before : s.walk = some w) (last : ¬ w < s.clientId) (after : t.walk = none)
      (log : t.log = s.log) (sent : t.sentTo fd = s.sentTo fd)

theorem Server.Move.passage {s t : Server} {ev : Event} {i fd : Nat} (registry : s.Registry)
    (mutex : s.Mutex) (conn : s.accepted[i]? = some fd)
    (greeted : s.mainPc = .greet → i ≠ s.clientId) (move : Move s ev t) : Passage s t i fd := by
  cases move with
  | exit | accept | overrun | setSockfd | setId | incr => exact .still rfl rfl rfl
  | greet pc =>
      have newest := registry.newest (by simp [pc])
      have other : s.newsockfd ≠ fd := registry.sockfd_ne newest conn (Ne.symm (greeted pc))
      exact .still rfl rfl (Server.sentTo_other (s := s) rfl other)
  | create pc size => exact .still (Server.walk_create rfl rfl rfl) rfl rfl
  | loadSockfd at' pc | loadId at' pc | recv at' pc =>
      exact .still (Server.walk_put rfl rfl at' (by simp [pc, HearAllPc.index])) rfl rfl
  | wildLoad at' pc =>
      refine .still (Server.walk_put rfl rfl at' ?_) rfl rfl
      rcases pc with pc | pc <;> simp [pc, HearAllPc.index]
  | lock at' pc free readable =>
      exact .begins (Server.walk_free free) (Server.walk_holder rfl at' rfl rfl) rfl rfl
  | @relay k th w msg c at' pc more other slot =>
      have walking := mutex.walking k th at' w msg pc
      have wConn := registry.sockfd_slot more slot
      refine .passes (mutex.walk_shout at' pc) (mutex.walk_next at' pc rfl rfl rfl) rfl
        walking.last ?_ ?_
      · intro elsewhere
        exact Server.sentTo_other (s := s) rfl (registry.sockfd_ne wConn conn (Ne.symm elsewhere))
      · rintro rfl
        obtain rfl := Option.some.inj (conn.symm.trans wConn)
        rw [Server.sentTo_send (s := s) rfl, if_pos rfl, if_pos (Ne.symm other), walking.zeroed]
        rfl
  | @skip k th w msg at' pc more self =>
      have walking := mutex.walking k th at' w msg pc
      refine .passes (mutex.walk_shout at' pc) (mutex.walk_next at' pc rfl rfl rfl) rfl
        walking.last (fun _ => rfl) ?_
      rintro rfl
      rw [if_neg (not_not.mpr self.symm), List.append_nil]
      rfl
  | endShout at' pc last =>
      exact .ends (mutex.walk_shout at' pc) last (mutex.walk_next at' pc rfl rfl rfl) rfl rfl
  | unlock at' pc =>
      have idle : s.walk = none := by
        rw [mutex.walk_at at' (by simp [pc, HearAllPc.inShout]), pc]
        rfl
      exact .still ((Server.walk_free rfl).trans idle.symm) rfl rfl
  | wildText at' pc free unreadable =>
      refine .still ?_ rfl rfl
      rw [Server.walk_free free]
      exact Server.walk_holder rfl at' rfl rfl
  | wildSlot at' pc more past => exact absurd past (registry.slot_ne_none more)

/-- Once joined, whatever the server does keeps the join position. -/
theorem Server.Delivered.move {s t : Server} {ev : Event} {i fd join : Nat}
    (h : s.Delivered i fd join) (registry : s.Registry) (mutex : s.Mutex)
    (conn : s.accepted[i]? = some fd) (below : i < s.clientId) (move : Move s ev t) :
    t.Delivered i fd join := by
  cases move.passage registry mutex conn fun _ => Nat.ne_of_lt below with
  | still walk log sent =>
      apply h.reseen _ sent
      simp only [Server.seen, walk, log]
  | begins before after log sent =>
      apply h.reseen _ sent
      rw [Server.seen_none before, Server.seen_locked after log]
  | passes before after log last elsewhere here =>
      exact h.pass before after log last elsewhere here
  | ends before last after log sent =>
      apply h.reseen _ sent
      rw [Server.seen_none after, log]
      simp only [Server.seen, before]
      exact (if_pos (by omega)).symm

/-- The greeting of the newest connection is sent. -/
def MainPc.greeted : MainPc → Bool
  | .create | .incr => true
  | _ => false

structure Server.Deliveries (s : Server) : Prop where
  known : ∀ p ∈ s.sends, p.1 ∈ s.accepted
  newest : s.mainPc ≠ .accept →
    s.sentTo s.newsockfd = if s.mainPc.greeted then [greeting s.clientId] else []
  joined : ∀ i fd : Nat, i < s.clientId → s.accepted[i]? = some fd → ∃ join, s.Delivered i fd join

theorem Server.deliveries_start : Server.start.Deliveries := ⟨nofun, fun no => absurd rfl no, nofun⟩

theorem Server.sentTo_unknown {s : Server} (h : s.Deliveries) {fd : Nat}
    (unknown : fd ∉ s.accepted) : s.sentTo fd = [] := by
  rw [sentTo, List.map_eq_nil_iff, List.filter_eq_nil_iff]
  intro p hp same
  exact unknown (of_decide_eq_true same ▸ h.known p hp)

theorem Server.Deliveries.move_known {s t : Server} {ev : Event} (h : s.Deliveries)
    (registry : s.Registry) (move : Move s ev t) : ∀ p ∈ t.sends, p.1 ∈ t.accepted := by
  cases move with
  | accept pc fresh => exact fun p hp => List.mem_append_left _ (h.known p hp)
  | greet pc =>
      rw [List.forall_mem_append, List.forall_mem_singleton]
      exact ⟨h.known, List.mem_of_getElem? (registry.newest (by simp [pc]))⟩
  | @relay k th w msg c at' pc more other slot =>
      rw [List.forall_mem_append, List.forall_mem_singleton]
      exact ⟨h.known, List.mem_of_getElem? (registry.sockfd_slot more slot)⟩
  | _ => exact h.known

theorem Server.Deliveries.move_newest {s t : Server} {ev : Event} (h : s.Deliveries)
    (registry : s.Registry) (move : Move s ev t) (busy : t.mainPc ≠ .accept) :
    t.sentTo t.newsockfd = if t.mainPc.greeted then [greeting t.clientId] else [] := by
  cases move with
  | accept pc fresh => exact Server.sentTo_unknown h fresh
  | overrun pc past =>
      have before := h.newest (by rcases pc with pc | pc <;> simp [pc])
      rcases pc with pc | pc
      · rw [pc] at before
        exact before
      · rw [pc] at before
        exact before
  | setSockfd pc slot | setId pc slot | create pc size =>
      have before := h.newest (by simp [pc])
      rw [pc] at before
      exact before
  | greet pc =>
      have before := h.newest (by simp [pc])
      simp only [pc, MainPc.greeted, Bool.false_eq_true, if_false] at before
      rw [Server.sentTo_send (s := s) rfl, if_pos rfl, before]
      rfl
  | incr pc => exact absurd rfl busy
  | @relay k th w msg c at' pc more other slot =>
      have conn := registry.sockfd_slot more slot
      have apart := registry.sockfd_ne conn (registry.newest busy) (by omega)
      exact (Server.sentTo_other (s := s) rfl apart).trans (h.newest busy)
  | _ => exact h.newest busy

/-- The connections below `client_id` stay as they are; `incr` adds the newest. -/
theorem Server.Move.below {s t : Server} {ev : Event} (registry : s.Registry)
    (move : Move s ev t) {i fd : Nat} (below : i < t.clientId) (conn : t.accepted[i]? = some fd) :
    i < s.clientId ∧ s.accepted[i]? = some fd ∨
      s.mainPc = .incr ∧ i = s.clientId ∧ t = { s with
        clientId := s.clientId + 1, mainPc := .accept } := by
  cases move with
  | accept pc fresh =>
      have count : s.accepted.length = s.clientId := by simpa [pc] using registry.acceptedCount
      change i < s.clientId at below
      change (s.accepted ++ [_])[i]? = some fd at conn
      rw [List.getElem?_append_left (count ▸ below)] at conn
      exact .inl ⟨below, conn⟩
  | incr pc =>
      rcases Nat.lt_succ_iff_lt_or_eq.mp below with old | new
      · exact .inl ⟨old, conn⟩
      · exact .inr ⟨pc, new, rfl⟩
  | _ => exact .inl ⟨below, conn⟩

theorem Server.Deliveries.move {s t : Server} {ev : Event} (h : s.Deliveries)
    (registry : s.Registry) (mutex : s.Mutex) (move : Move s ev t) : t.Deliveries := by
  refine ⟨h.move_known registry move, h.move_newest registry move, ?_⟩
  intro i fd below conn
  rcases move.below registry below conn with ⟨old, conn⟩ | ⟨pc, rfl, rfl⟩
  · obtain ⟨join, delivered⟩ := h.joined i fd old conn
    exact ⟨join, delivered.move registry mutex conn old move⟩
  · have sent := h.newest (by simp [pc])
    have newest := registry.newest (by simp [pc])
    obtain rfl : s.newsockfd = fd := Option.some.inj (newest.symm.trans conn)
    simp only [pc, MainPc.greeted, if_true] at sent
    refine ⟨(s.seen s.clientId).length, le_rfl, ?_⟩
    rw [relayed]
    change s.sentTo s.newsockfd = _ :: (view _ _ (s.seen s.clientId)).map _
    rw [sent, view_now, List.map_nil]

end GroupChat
