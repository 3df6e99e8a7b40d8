import NetworksLab.GroupRegistry

/-! The mutex of the group-chat server: one thread at a time is in `shout`, and
the walk it is on belongs to the newest entry of the log. -/
namespace GroupChat
open CString Transition

/-- What a thread in the loop of `shout` relies on. -/
structure Server.Walking (s : Server) (th : HearAll) (i : Nat) (msg : Bytes) : Prop where
  reach : i ≤ s.clientId
  zeroed : msg = zeros ((text th.buffer).length + 10)
  last : s.log.getLast? = some ⟨th.sockfd, th.id, text th.buffer⟩

structure Server.Mutex (s : Server) : Prop where
  holder : ∀ (k : Nat) (th : HearAll), s.threads[k]? = some th → th.pc.inShout = true →
    s.shouting = some k
  walking : ∀ (k : Nat) (th : HearAll), s.threads[k]? = some th →
    ∀ i msg, th.pc = .shout i msg → s.Walking th i msg

theorem Server.Mutex.held {s : Server} (h : s.Mutex) {k i : Nat} {th : HearAll} {msg : Bytes}
    (at' : s.threads[k]? = some th) (pc : th.pc = .shout i msg) : s.shouting = some k :=
  h.holder k th at' (by simp [pc, HearAllPc.inShout])

/-- A step of thread `k`: the other threads either see the mutex and the log as
before, or are all outside `shout`. -/
theorem Server.Mutex.put {s t : Server} (h : s.Mutex) {k : Nat} {th' : HearAll}
    (clientId : t.clientId = s.clientId) (threads : t.threads = s.threads.set k th')
    (others : t.shouting = s.shouting ∧ t.log = s.log ∨ s.shouting = none ∨ s.shouting = some k)
    (holder : th'.pc.inShout = true → t.shouting = some k)
    (walking : ∀ i msg, th'.pc = .shout i msg → t.Walking th' i msg) : t.Mutex := by
  have outside : ∀ (j : Nat) (th : HearAll), j ≠ k → s.threads[j]? = some th →
      th.pc.inShout = true → t.shouting = s.shouting ∧ t.log = s.log := by
    intro j th other at' inside
    have held := h.holder j th at' inside
    rcases others with same | free | mine
    · exact same
    · rw [free] at held
      cases held
    · exact absurd (Option.some.inj (held.symm.trans mine)) other
  constructor
  · intro j th at' inside
    rw [threads] at at'
    rcases Slots.set_cases at' with ⟨rfl, rfl⟩ | ⟨other, at'⟩
    · exact holder inside
    · exact (outside j th other at' inside).1.trans (h.holder j th at' inside)
  · intro j th at' i msg pc
    rw [threads] at at'
    rcases Slots.set_cases at' with ⟨rfl, rfl⟩ | ⟨other, at'⟩
    · exact walking i msg pc
    · have log := (outside j th other at' (by simp [pc, HearAllPc.inShout])).2
      have old := h.walking j th at' i msg pc
      exact ⟨clientId ▸ old.reach, old.zeroed, log ▸ old.last⟩

/-- A step of the accept loop: it may start a thread and raise `client_id`. -/
theorem Server.Mutex.main {s t : Server} (h : s.Mutex) (clientId : s.clientId ≤ t.clientId)
    (shouting : t.shouting = s.shouting) (log : t.log = s.log)
    (threads : ∀ (k : Nat) (th : HearAll), t.threads[k]? = some th →
      s.threads[k]? = some th ∨ th.pc = .loadSockfd) : t.Mutex := by
  constructor
  · intro k th at' inside
    rcases threads k th at' with old | new
    · exact shouting.trans (h.holder k th old inside)
    · simp [new, HearAllPc.inShout] at inside
  · intro k th at' i msg pc
    rcases threads k th at' with old | new
    · have walking := h.walking k th old i msg pc
      exact ⟨walking.reach.trans clientId, walking.zeroed, log ▸ walking.last⟩
    · cases new.symm.trans pc

theorem Server.mutex_start : Server.start.Mutex := ⟨nofun, nofun⟩

theorem Server.Mutex.move {s t : Server} {e : Event} (h : s.Mutex) (move : Move s e t) :
    t.Mutex := by
  cases move with
  | exit | accept | overrun | setSockfd | setId | greet =>
      exact h.main le_rfl rfl rfl fun _ _ => Or.inl
  | incr => exact h.main (Nat.le_succ _) rfl rfl fun _ _ => Or.inl
  | create =>
      exact h.main le_rfl rfl rfl
        (Slots.forall_concat (p := fun k th => s.threads[k]? = some th ∨ th.pc = .loadSockfd)
          (fun _ _ => Or.inl) (.inr rfl))
  | loadSockfd | loadId | recv | wildLoad | wildSlot =>
      exact h.put rfl rfl (.inl ⟨rfl, rfl⟩) nofun nofun
  | @lock k th t at' pc unlocked str =>
      refine h.put rfl rfl (.inr (.inl unlocked)) (fun _ => rfl) ?_
      rintro i msg ⟨⟩
      obtain rfl := text_of_read str
      exact ⟨Nat.zero_le _, rfl, List.getLast?_concat⟩
  | @relay k th i msg c at' pc more other slot =>
      have old := h.walking k th at' i msg pc
      refine h.put rfl rfl (.inl ⟨rfl, rfl⟩) (fun _ => h.held at' pc) ?_
      rintro _ _ ⟨⟩
      exact ⟨more, by rw [old.zeroed, zeros_length], old.last⟩
  | @skip k th i msg at' pc more self =>
      have old := h.walking k th at' i msg pc
      refine h.put rfl rfl (.inl ⟨rfl, rfl⟩) (fun _ => h.held at' pc) ?_
      rintro _ _ ⟨⟩
      exact ⟨more, old.zeroed, old.last⟩
  | @endShout k th i msg at' pc last =>
      exact h.put rfl rfl (.inl ⟨rfl, rfl⟩) (fun _ => h.held at' pc) nofun
  | @unlock k th at' pc =>
      exact h.put rfl rfl (.inr (.inr (h.holder k th at' (by simp [pc, HearAllPc.inShout]))))
        nofun nofun
  | wildText at' pc unlocked _ => exact h.put rfl rfl (.inr (.inl unlocked)) nofun nofun

/-- Every shout carries the accept-order number of the connection its text was
received on. -/
def Server.Logged (s : Server) : Prop :=
  ∀ e ∈ s.log, s.accepted[e.sender]? = some e.sockfd

theorem Server.Logged.move {s t : Server} {e : Event} (h : s.Logged) (registry : s.Registry)
    (move : Move s e t) : t.Logged := by
  cases move with
  | accept =>
      intro e he
      obtain ⟨inside, _⟩ := List.getElem?_eq_some_iff.mp (h e he)
      exact (List.getElem?_append_left inside).trans (h e he)
  | @lock k th t at' pc =>
      intro e he
      rcases List.mem_append.mp he with old | new
      · exact h e old
      · obtain rfl := List.mem_singleton.mp new
        change s.accepted[th.id]? = some th.sockfd
        rw [registry.ids k th at' (by simp [pc, HearAllPc.loaded])]
        exact registry.sockets k th at' (by simp [pc])
  | _ => exact h

end GroupChat
