import NetworksLab.GroupOrder

/-! Between its greeting and the increment of `client_id` a client is not seen by
the loop of `shout`. A shout that ends before the increment passes it by. -/
namespace GroupChat
open CString Transition
open Chat (bufferLen)

/-- Thread `j` takes the mutex for the shout `e` in the step from `s₀` to `s₁`; in
`s₂` that shout's loop is at its end. -/
structure WholeShout (j : Nat) (e : Entry) (s₀ s₁ s₂ : Server) : Prop where
  begins : s₀.step (.thread j) = some s₁
  logged : s₁.log = s₀.log ++ [e]
  during : Reach Server.step ordinary s₁ s₂
  same : s₂.log = s₁.log
  ends : ∃ th w msg, s₂.threads[j]? = some th ∧ th.pc = .shout w msg ∧ ¬ w < s₂.clientId

variable {s₀ s₁ s₂ s t : Server} {ev : Event} {i j fd : Nat} {e : Entry}

theorem Server.sentTo_ne_nil {frame : Bytes} (sent : (fd, frame) ∈ s.sends) : s.sentTo fd ≠ [] := by
  have mem : frame ∈ s.sentTo fd :=
    List.mem_map.mpr ⟨(fd, frame), List.mem_filter.mpr ⟨sent, decide_eq_true rfl⟩, rfl⟩
  exact List.ne_nil_of_mem mem

/-- A client that has been sent something is not the one about to be greeted. -/
theorem Server.Ordered.greeted_ne (h : s.Ordered) (conn : s.accepted[i]? = some fd)
    (sent : s.sentTo fd ≠ []) (pc : s.mainPc = .greet) : i ≠ s.clientId := by
  rintro rfl
  have newest := h.registry.newest (by rw [pc]; nofun)
  obtain rfl : s.newsockfd = fd := Option.some.inj (newest.symm.trans conn)
  have none := h.deliveries.newest (by rw [pc]; nofun)
  rw [pc] at none
  exact sent none

/-- What client `i` has been sent during the shout `e`, whose walk begins in `s₁`. -/
structure Passing (s₁ : Server) (e : Entry) (i fd : Nat) (t : Server) : Prop where
  ordered : t.Ordered
  conn : t.accepted[i]? = some fd
  greeted : t.sentTo fd ≠ []
  later : s₁.log.length ≤ t.log.length
  sent : t.log = s₁.log → ∀ w, t.walk = some w →
    t.sentTo fd = s₁.sentTo fd ++ if i < w then [e.frame] else []

theorem Passing.step (h : Passing s₁ e i fd s) (last : s₁.log.getLast? = some e)
    (other : e.sender ≠ i) (ok : ordinary s ev) (step : s.step ev = some t) :
    Passing s₁ e i fd t := by
  have move := Server.step_move step
  have ordered := h.ordered.step ok step
  have conn := move.keeps.2 i fd h.conn
  cases move.passage h.ordered.registry h.ordered.mutex h.conn
      (h.ordered.greeted_ne h.conn h.greeted) with
  | still walk log sent =>
      refine ⟨ordered, conn, sent ▸ h.greeted, log ▸ h.later, ?_⟩
      rw [log, walk, sent]
      exact h.sent
  | begins before after log sent =>
      refine ⟨ordered, conn, sent ▸ h.greeted, ?_, ?_⟩
      · rw [log, List.length_append]
        exact Nat.le_add_right_of_le h.later
      · intro same
        have longer := congrArg List.length same
        rw [log, List.length_append, List.length_singleton] at longer
        have := h.later
        omega
  | @passes w e' before after log newest elsewhere here =>
      by_cases at_i : i = w
      · have sent := here at_i
        refine ⟨ordered, conn, ?_, log ▸ h.later, ?_⟩
        · rw [sent]
          exact List.append_ne_nil_of_left_ne_nil h.greeted _
        · intro same v at_v
          rw [log] at same
          obtain rfl : e' = e := by
            rw [same] at newest
            exact Option.some.inj (newest.symm.trans last)
          obtain rfl : w + 1 = v := Option.some.inj (after.symm.trans at_v)
          rw [sent, if_pos other, h.sent same w before, if_neg (by omega : ¬ i < w),
            if_pos (by omega : i < w + 1), List.append_nil]
      · have sent := elsewhere at_i
        refine ⟨ordered, conn, sent ▸ h.greeted, log ▸ h.later, ?_⟩
        intro same v at_v
        rw [log] at same
        obtain rfl : w + 1 = v := Option.some.inj (after.symm.trans at_v)
        rw [sent, h.sent same w before]
        by_cases passed : i < w
        · rw [if_pos passed, if_pos (by omega)]
        · rw [if_neg passed, if_neg (by omega)]
  | ends before last after log sent =>
      refine ⟨ordered, conn, sent ▸ h.greeted, log ▸ h.later, ?_⟩
      intro _ w at_w
      rw [after] at at_w
      cases at_w

/-- Only the thread that takes the mutex adds to the log. -/
theorem Server.Move.lock_of_log (registry : s.Registry) (log : t.log = s.log ++ [e])
    (move : Move s (.thread j) t) : e.sender = j ∧ t.walk = some 0 := by
  have grown : t.log ≠ s.log := by
    rw [log]
    exact fun same => List.cons_ne_nil _ _ (List.append_right_eq_self.mp same)
  cases move with
  | @lock _ th str at' pc free readable =>
      obtain rfl : _ = e := List.singleton_inj.mp (List.append_cancel_left log)
      refine ⟨registry.ids j th at' ?_, Server.walk_holder rfl at' rfl rfl⟩
      rw [pc]
      rfl
  | exit | loadSockfd | loadId | relay | skip | endShout | unlock | wildLoad | wildText
  | wildSlot => exact absurd rfl grown

theorem WholeShout.sent (shout : WholeShout j e s₀ s₁ s₂)
    (reached : Reach Server.step ordinary .start s₀) (conn : s₀.accepted[i]? = some fd)
    (greeted : (fd, greeting i) ∈ s₀.sends) (other : i ≠ j) :
    s₂.sentTo fd = s₁.sentTo fd ++ if i < s₂.clientId then [e.frame] else [] := by
  have before := Server.ordered_run reached
  have move := Server.step_move shout.begins
  obtain ⟨rfl, walk⟩ := move.lock_of_log before.registry shout.logged
  have ok : ordinary s₀ (.thread e.sender) := trivial
  have last : s₁.log.getLast? = some e := by rw [shout.logged, List.getLast?_concat]
  have first : Passing s₁ e i fd s₁ := by
    refine ⟨before.step ok shout.begins, move.keeps.2 i fd conn, ?_, Nat.le_refl _, ?_⟩
    · cases move.passage before.registry before.mutex conn
        (before.greeted_ne conn (Server.sentTo_ne_nil greeted)) with
      | still _ _ sent | begins _ _ _ sent | ends _ _ _ _ sent =>
          rw [sent]
          exact Server.sentTo_ne_nil greeted
      | passes _ after =>
          rw [walk] at after
          cases after
    · intro _ w at_w
      obtain rfl : 0 = w := Option.some.inj (walk.symm.trans at_w)
      rw [if_neg (Nat.not_lt_zero i), List.append_nil]
  have passing : Passing s₁ e i fd s₂ := by
    apply shout.during.invariant first
    intro t ev u inv ok step
    exact inv.step last (Ne.symm other) ok step
  obtain ⟨th, w, msg, at', pc, ended⟩ := shout.ends
  have mutex := passing.ordered.mutex
  have reach := (mutex.walking e.sender th at' w msg pc).reach
  obtain rfl : w = s₂.clientId := by omega
  exact passing.sent shout.same _ (mutex.walk_shout at' pc)

/-- A client that was greeted before a shout of another one began is sent its frame
exactly when `client_id` has passed its slot by the end of that shout's loop. -/
theorem greeted_shout (reached : Reach Server.step ordinary .start s₀)
    (conn : s₀.accepted[i]? = some fd) (greeted : (fd, greeting i) ∈ s₀.sends) (other : i ≠ j)
    (shout : WholeShout j e s₀ s₁ s₂) :
    s₂.sentTo fd = s₁.sentTo fd ++ [e.frame] ↔ i < s₂.clientId := by
  rw [shout.sent reached conn greeted other, List.append_right_inj]
  by_cases passed : i < s₂.clientId
  · rw [if_pos passed]
    exact iff_of_true rfl passed
  · rw [if_neg passed]
    exact iff_of_false nofun passed

/-- Two runs around one step of thread `j`, with a test of the states between. -/
def around (before : List Event) (j : Nat) (after : List Event)
    (p : Server → Server → Server → Bool) : Option Bool :=
  let step := fun s ev => if ordinary s ev then Server.step s ev else none
  (run step .start before).bind fun s₀ => (s₀.step (.thread j)).bind fun s₁ =>
    (run step s₁ after).map fun s₂ => p s₀ s₁ s₂

theorem wholeShout_of_around {before after : List Event} {q : Server → Server → Server → Bool}
    (h : around before j after (fun s₀ s₁ s₂ => q s₀ s₁ s₂ && decide
      (s₁.log = s₀.log ++ [e] ∧ s₂.log = s₁.log ∧
        s₂.threads[j]?.bind (·.pc.index) = some s₂.clientId)) = some true) :
    ∃ s₀ s₁ s₂, Reach Server.step ordinary .start s₀ ∧ WholeShout j e s₀ s₁ s₂ ∧
      q s₀ s₁ s₂ = true := by
  obtain ⟨s₀, reached, h⟩ := Option.bind_eq_some_iff.mp h
  obtain ⟨s₁, begins, h⟩ := Option.bind_eq_some_iff.mp h
  obtain ⟨s₂, during, h⟩ := Option.map_eq_some_iff.mp h
  obtain ⟨seen, facts⟩ := Bool.and_eq_true_iff.mp h
  obtain ⟨logged, same, index⟩ := of_decide_eq_true facts
  obtain ⟨th, at', index⟩ := Option.bind_eq_some_iff.mp index
  refine ⟨s₀, s₁, s₂, reach_of_guarded reached, ⟨begins, logged, reach_of_guarded during, same, ?_⟩,
    seen⟩
  cases pc : th.pc with
  | shout w msg =>
      rw [pc] at index
      obtain rfl : w = s₂.clientId := Option.some.inj index
      exact ⟨th, s₂.clientId, msg, at', pc, Nat.lt_irrefl _⟩
  | loadSockfd | loadId | recv | lock | unlock | wild =>
      rw [pc] at index
      cases index

/-- Client 0 is registered and has typed "hello"; client 1 has been greeted. -/
def helloGreeted : List Event :=
  [.accept (some 5), .main, .main, .main, .create (zeros bufferLen), .main, .thread 0, .thread 0,
    .accept (some 6), .main, .main, .main,
    .recv 0 (some (store (zeros bufferLen) (ascii "hello\n")))]

def helloEntry : Entry := ⟨5, 0, ascii "hello\n"⟩

/-- The shout goes on until client 1 is registered. -/
theorem hello_waits : around helloGreeted 0 [.create (zeros bufferLen), .main, .thread 0, .thread 0]
    (fun s₀ s₁ s₂ => decide (s₀.accepted[1]? = some 6 ∧ (6, greeting 1) ∈ s₀.sends ∧
        s₂.clientId = 2) && decide
      (s₁.log = s₀.log ++ [helloEntry] ∧ s₂.log = s₁.log ∧
        s₂.threads[0]?.bind (·.pc.index) = some s₂.clientId)) = some true := by
  decide +kernel

/-- The shout is over before client 1 is registered. -/
theorem hello_hurries : around helloGreeted 0 [.thread 0]
    (fun s₀ s₁ s₂ => decide (s₀.accepted[1]? = some 6 ∧ (6, greeting 1) ∈ s₀.sends ∧
        s₂.clientId = 1) && decide
      (s₁.log = s₀.log ++ [helloEntry] ∧ s₂.log = s₁.log ∧
        s₂.threads[0]?.bind (·.pc.index) = some s₂.clientId)) = some true := by
  decide +kernel

theorem greeted_shout_hello : ∃ s₁ s₂, Reach Server.step ordinary s₁ s₂ ∧
    s₂.sentTo 6 = s₁.sentTo 6 ++ [helloEntry.frame] := by
  obtain ⟨s₀, s₁, s₂, reached, shout, facts⟩ := wholeShout_of_around hello_waits
  obtain ⟨conn, greeted, count⟩ := of_decide_eq_true facts
  have passed : 1 < s₂.clientId := by omega
  exact ⟨s₁, s₂, shout.during,
    (greeted_shout reached conn greeted (by decide) shout).mpr passed⟩

theorem greeted_shout_missed : ¬ ∀ (s₀ s₁ s₂ : Server) (i j fd : Nat) (e : Entry),
    Reach Server.step ordinary .start s₀ → s₀.accepted[i]? = some fd →
    (fd, greeting i) ∈ s₀.sends → i ≠ j → WholeShout j e s₀ s₁ s₂ →
    s₂.sentTo fd = s₁.sentTo fd ++ [e.frame] := by
  intro claim
  obtain ⟨s₀, s₁, s₂, reached, shout, facts⟩ := wholeShout_of_around hello_hurries
  obtain ⟨conn, greeted, count⟩ := of_decide_eq_true facts
  have sent := claim s₀ s₁ s₂ 1 0 6 _ reached conn greeted (by decide) shout
  rw [shout.sent reached conn greeted (by decide), if_neg (by omega),
    List.append_right_inj] at sent
  cases sent

end GroupChat
