import NetworksLab.GroupOrder

/-! What becomes of a client that closes its connection. From then on `recv`
returns 0, the buffer keeps the last frame, and `hear_all` tests for -1 only. -/
namespace GroupChat
open CString Transition
open Chat (bufferLen)

/-- Whole frames and orderly disconnections. -/
def orderly (s : Server) : Event → Prop
  | .accept (some _) => s.accepted.length < maxNumClient
  | .recv _ (some got) => wholeFrame got ∨ got = []
  | .recv _ none => False
  | _ => True

instance (s : Server) : (ev : Event) → Decidable (orderly s ev)
  | .accept (some _) => inferInstanceAs (Decidable (_ < _))
  | .recv _ (some _) => inferInstanceAs (Decidable ((_ ∧ _) ∨ _))
  | .recv _ none => inferInstanceAs (Decidable False)
  | .accept none | .main | .create _ | .thread _ => inferInstanceAs (Decidable True)

/-- From `s₀` on, where client `k` was gone, no shout carries its id and, if
none was in progress, nothing is sent to it; and whenever its thread is at
`recv` it has shouted once for each frame received. -/
def Server.departedSilent (s₀ s : Server) : Prop :=
  ∀ (k : Nat) (th₀ th : HearAll), s₀.threads[k]? = some th₀ → s.threads[k]? = some th →
    (th₀.eof = true →
      (∀ e ∈ s.log.drop s₀.log.length, e.sender ≠ k) ∧
      ((∀ t ∈ s₀.threads, t.pc.index = none) →
        ∀ p ∈ s.sends.drop s₀.sends.length, p.1 ≠ th₀.sockfd)) ∧
    (th.pc = .recv → (s.textsOf k).length = (th.received.filter (· ≠ [])).length)

theorem Server.Ordered.present {s : Server} (h : s.Ordered) {k : Nat} {th : HearAll}
    (at' : s.threads[k]? = some th) : th.eof = false := by
  obtain ⟨stack, accounted⟩ := h.accounted.threads k th at'
  apply Bool.eq_false_iff.mpr
  intro gone
  have size := (h.whole k th at' [] (accounted.ended.mp gone)).1
  cases size

theorem Server.Ordered.departedSilent {s₀ s : Server} (h₀ : s₀.Ordered) (h : s.Ordered) :
    s₀.departedSilent s := by
  intro k th₀ th at₀ at'
  refine ⟨?_, ?_⟩
  · intro gone
    rw [h₀.present at₀] at gone
    cases gone
  · intro pc
    obtain ⟨stack, accounted⟩ := h.accounted.threads k th at'
    have whole := h.whole k th at'
    have frames : th.received.filter (· ≠ []) = th.received := by
      apply List.filter_eq_self.mpr
      intro got hgot
      have size := (whole got hgot).1
      rw [decide_eq_true_eq]
      rintro rfl
      cases size
    rw [accounted.whole whole, List.length_map, frames]
    simp only [HearAll.heard, pc]

/-- The mutex is held by a thread in `shout` or stopped at one. -/
def Server.Held (s : Server) : Prop :=
  ∀ k, s.shouting = some k →
    ∃ th, s.threads[k]? = some th ∧ (th.pc.inShout = true ∨ th.pc = .wild)

theorem Server.Held.put {s t : Server} (h : s.Held) {k : Nat} {th th' : HearAll}
    (shouting : t.shouting = s.shouting) (threads : t.threads = s.threads.set k th')
    (at' : s.threads[k]? = some th)
    (stays : th.pc.inShout = true ∨ th.pc = .wild → th'.pc.inShout = true ∨ th'.pc = .wild) :
    t.Held := by
  intro j held
  obtain ⟨u, hu, inside⟩ := h j (shouting ▸ held)
  by_cases same : k = j
  · subst j
    obtain rfl := Option.some.inj (at'.symm.trans hu)
    exact ⟨th', threads ▸ Slots.get_set at', stays inside⟩
  · exact ⟨u, by rwa [threads, List.getElem?_set_ne same], inside⟩

theorem Server.Held.take {s t : Server} {k : Nat} {th th' : HearAll}
    (shouting : t.shouting = some k) (threads : t.threads = s.threads.set k th')
    (at' : s.threads[k]? = some th) (inside : th'.pc.inShout = true ∨ th'.pc = .wild) :
    t.Held := by
  intro j held
  obtain rfl : k = j := Option.some.inj (shouting.symm.trans held)
  exact ⟨th', threads ▸ Slots.get_set at', inside⟩

theorem Server.Held.move {s t : Server} {ev : Event} (h : s.Held) (move : Move s ev t) :
    t.Held := by
  cases move with
  | exit | accept | overrun | setSockfd | setId | greet | incr => exact h
  | create =>
      intro k held
      obtain ⟨th, at', inside⟩ := h k held
      exact ⟨th, (List.getElem?_append_left (List.getElem?_eq_some_iff.mp at').1).trans at', inside⟩
  | loadSockfd at' pc | loadId at' pc | recv at' pc =>
      exact h.put rfl rfl at' (by simp [pc, HearAllPc.inShout])
  | relay at' | skip at' | endShout at' => exact h.put rfl rfl at' fun _ => .inl rfl
  | wildLoad at' | wildSlot at' => exact h.put rfl rfl at' fun _ => .inr rfl
  | lock at' => exact Server.Held.take rfl rfl at' (.inl rfl)
  | wildText at' => exact Server.Held.take rfl rfl at' (.inr rfl)
  | unlock =>
      intro k held
      cases held

/-- What is known of every run with disconnections. -/
structure Server.Attended (s : Server) : Prop where
  registry : s.Registry
  mutex : s.Mutex
  held : s.Held
  accounted : s.Accounted
  frames : s.AllReceived fun got => wholeFrame got ∨ got = []

theorem Server.Attended.step {s t : Server} {ev : Event} (h : s.Attended) (ok : orderly s ev)
    (step : s.step ev = some t) : t.Attended := by
  have move := Server.step_move step
  refine ⟨h.registry.move move, h.mutex.move move, h.held.move move,
    h.accounted.move h.registry move, h.frames.move ?_ move⟩
  rintro k got rfl
  exact ok

theorem Server.attended_run {s : Server} (h : Reach Server.step orderly .start s) : s.Attended :=
  h.invariant ⟨registry_start, mutex_start, nofun, accounted_start, nofun⟩
    fun _ _ _ inv ok step => inv.step ok step

/-- Once a whole frame is in it, the buffer always holds one. -/
theorem foldl_store_whole {buffer : Bytes} {gots : List Bytes} (size : buffer.length = bufferLen)
    (frames : ∀ got ∈ gots, wholeFrame got ∨ got = [])
    (some : wholeFrame buffer ∨ ∃ got ∈ gots, got ≠ []) : wholeFrame (gots.foldl store buffer) := by
  induction gots generalizing buffer with
  | nil => exact some.resolve_right nofun
  | cons got rest ih =>
      have later : ∀ got ∈ rest, wholeFrame got ∨ got = [] := fun g hg =>
        frames g (List.mem_cons_of_mem got hg)
      rw [List.foldl_cons]
      rcases frames got List.mem_cons_self with whole | rfl
      · rw [store_full (whole.1.trans size.symm)]
        exact ih whole.1 later (.inl whole)
      · rw [store_nil]
        refine ih size later (some.imp_right ?_)
        rintro ⟨frame, hframe, nonempty⟩
        rcases List.mem_cons.mp hframe with rfl | inRest
        · exact absurd rfl nonempty
        · exact ⟨frame, inRest, nonempty⟩

theorem orderly_thread (s : Server) (k : Nat) : orderly s (.thread k) := trivial

theorem Server.shoutStep_more {s : Server} (registry : s.Registry) {k i : Nat} {th : HearAll}
    {msg : Bytes} (more : i < s.clientId) :
    ∃ msg' sends, s.shoutStep k th i msg =
      { s.put k { th with pc := .shout (i + 1) msg' } with sends := sends } := by
  obtain ⟨c, row, _⟩ := registry.slot more
  unfold shoutStep
  rw [if_pos more, row]
  by_cases other : i ≠ th.id
  · exact ⟨_, _, by rw [if_pos other]⟩
  · exact ⟨_, _, by rw [if_neg other]⟩

theorem Server.step_shout {s : Server} (alive : s.exited = false) {k i : Nat} {th : HearAll}
    {msg : Bytes} (at' : s.threads[k]? = some th) (pc : th.pc = .shout i msg) :
    s.step (.thread k) = some (s.shoutStep k th i msg) := by
  simp only [step, alive, Bool.false_eq_true, if_false, threadStep, at', pc]

theorem Server.step_unlock {s : Server} (alive : s.exited = false) {k : Nat} {th : HearAll}
    (at' : s.threads[k]? = some th) (pc : th.pc = .unlock) :
    s.step (.thread k) = some { s.put k { th with pc := .recv } with shouting := none } := by
  simp only [step, alive, Bool.false_eq_true, if_false, threadStep, at', pc]

/-- A shout in progress can finish; nothing is logged on the way. -/
theorem Server.Attended.finish {s : Server} (h : s.Attended) (alive : s.exited = false) {k i : Nat}
    {th : HearAll} {msg : Bytes} (at' : s.threads[k]? = some th) (pc : th.pc = .shout i msg) :
    ∃ t, Reach Server.step orderly s t ∧ t.exited = false ∧ t.log = s.log ∧
      t.shouting = none ∧ t.threads = s.threads.set k { th with pc := .recv } := by
  -- induction on the slots the walk has still to pass
  induction left : s.clientId - i generalizing s th i msg with
  | zero =>
      have stop : s.step (.thread k) = some (s.put k { th with pc := .unlock }) := by
        rw [Server.step_shout alive at' pc, Server.shoutStep,
          if_neg (Nat.not_lt.mpr (Nat.sub_eq_zero_iff_le.mp left))]
      have unlock := Server.step_unlock (s := s.put k { th with pc := .unlock }) alive
        (Slots.get_set at') rfl
      refine ⟨_, (Reach.single (orderly_thread _ _) stop).tail (orderly_thread _ _) unlock,
        alive, rfl, rfl, ?_⟩
      simp only [Server.put, List.set_set]
  | succ n ih =>
      have more : i < s.clientId := by omega
      obtain ⟨msg', sends, next⟩ : ∃ msg' sends, s.shoutStep k th i msg =
          { s.put k { th with pc := .shout (i + 1) msg' } with sends := sends } :=
        Server.shoutStep_more h.registry more
      have step := Server.step_shout alive at' pc
      rw [next] at step
      obtain ⟨t, reached, alive', log, free, threads⟩ := ih
        (h.step (orderly_thread s k) step) alive (Slots.get_set at') rfl
        (by change s.clientId - (i + 1) = n; omega)
      refine ⟨t, (Reach.single (orderly_thread _ _) step).trans reached, alive', log, free, ?_⟩
      rw [threads]
      simp only [Server.put, List.set_set]

/-- Unless a thread is stopped where C gives no meaning, the mutex can be free
again before the next shout, and no other thread has moved. -/
theorem Server.Attended.release {s : Server} (h : s.Attended) (alive : s.exited = false)
    (tame : ∀ t ∈ s.threads, t.pc ≠ .wild) :
    ∃ t, Reach Server.step orderly s t ∧ t.exited = false ∧ t.log = s.log ∧ t.shouting = none ∧
      ∀ (k : Nat) (th : HearAll), s.threads[k]? = some th →
        t.threads[k]? = some th ∨
          th.pc.inShout = true ∧ t.threads[k]? = some { th with pc := .recv } := by
  cases holder : s.shouting with
  | none => exact ⟨s, .refl, alive, rfl, holder, fun _ _ => Or.inl⟩
  | some j =>
      obtain ⟨holding, atJ, inside⟩ := h.held j holder
      have inShout := inside.resolve_right (tame holding (List.mem_of_getElem? atJ))
      obtain ⟨t, reached, alive', log, free, threads⟩ :
          ∃ t, Reach Server.step orderly s t ∧ t.exited = false ∧ t.log = s.log ∧
            t.shouting = none ∧ t.threads = s.threads.set j { holding with pc := .recv } := by
        cases pc : holding.pc with
        | shout i msg => exact h.finish alive atJ pc
        | unlock =>
            have unlock := Server.step_unlock alive atJ pc
            exact ⟨_, Reach.single (orderly_thread _ _) unlock, alive, rfl, rfl, rfl⟩
        | loadSockfd | loadId | recv | lock | wild => simp [pc, HearAllPc.inShout] at inShout
      refine ⟨t, reached, alive', log, free, ?_⟩
      intro k th at'
      by_cases same : j = k
      · subst k
        obtain rfl := Option.some.inj (atJ.symm.trans at')
        exact .inr ⟨inShout, threads ▸ Slots.get_set atJ⟩
      · exact .inl (by rw [threads, List.getElem?_set_ne same, at'])

theorem Server.step_lock {s : Server} (alive : s.exited = false) (free : s.shouting = none)
    {k : Nat} {th : HearAll} {str : Bytes} (at' : s.threads[k]? = some th) (pc : th.pc = .lock)
    (readable : read th.buffer = some str) : s.step (.thread k) =
      some { s.put k { th with pc := .shout 0 (zeros (str.length + 10)) } with
        shouting := some k, log := s.log ++ [⟨th.sockfd, th.id, str⟩] } := by
  simp only [Server.step, alive, Bool.false_eq_true, if_false, Server.threadStep, at', pc, free,
    if_true, readable]

/-- The thread of a client that is gone goes on to shout its last frame. -/
theorem Server.Attended.shout_again {s : Server} (h : s.Attended) (alive : s.exited = false)
    (free : s.shouting = none) {k : Nat} {th : HearAll} {str : Bytes}
    (at' : s.threads[k]? = some th) (pc : th.pc = .recv ∨ th.pc = .lock)
    (readable : read th.buffer = some str) :
    ∃ t e, Reach Server.step orderly s t ∧ t.log = s.log ++ [e] ∧ e.sender = k := by
  have own : th.id = k := by
    apply h.registry.ids k th at'
    rcases pc with pc | pc <;> simp [pc, HearAllPc.loaded]
  rcases pc with pc | pc
  · have recv : s.step (.recv k (some [])) = some (s.put k { th with
        received := th.received ++ [[]], eof := true, pc := .lock }) := by
      simp [Server.step, alive, Server.recvStep, at', pc]
    have lock := Server.step_lock
      (s := s.put k { th with received := th.received ++ [[]], eof := true, pc := .lock })
      alive free (Slots.get_set at') rfl readable
    exact ⟨_, ⟨th.sockfd, th.id, str⟩,
      (Reach.single (.inr rfl) recv).tail (orderly_thread _ _) lock, rfl, own⟩
  · have lock := Server.step_lock alive free at' pc readable
    exact ⟨_, ⟨th.sockfd, th.id, str⟩, .single (orderly_thread _ _) lock, rfl, own⟩

theorem Server.Move.threads_length {s t : Server} {ev : Event} (move : Move s ev t) :
    s.threads.length ≤ t.threads.length := by
  cases move with
  | create => simp
  | loadSockfd | loadId | recv | lock | relay | skip | endShout | unlock | wildLoad | wildText
  | wildSlot => exact (List.length_set ..).ge
  | _ => exact le_rfl

theorem Server.Attended.departed_shouts {s : Server} (h : s.Attended) (alive : s.exited = false)
    (tame : ∀ t ∈ s.threads, t.pc ≠ .wild) {k : Nat} {th : HearAll}
    (at' : s.threads[k]? = some th) (gone : th.eof = true) (spoke : ∃ got ∈ th.received, got ≠ []) :
    ∃ t, Reach Server.step orderly s t ∧ ¬ s.departedSilent t := by
  obtain ⟨stack, accounted⟩ := h.accounted.threads k th at'
  have whole := foldl_store_whole accounted.size (h.frames k th at') (.inr spoke)
  rw [← accounted.buffer] at whole
  have loaded : th.pc.loaded = true := by
    by_contra unread
    obtain ⟨got, hgot, _⟩ := spoke
    rw [accounted.unread (Bool.eq_false_iff.mpr unread)] at hgot
    cases hgot
  have tameK := tame th (List.mem_of_getElem? at')
  obtain ⟨u, toU, alive', log, free, threads⟩ := h.release alive tame
  have attended : u.Attended := toU.invariant h fun _ _ _ inv ok step => inv.step ok step
  have quiet : ∀ th', u.threads[k]? = some th' → th'.pc.inShout = false := by
    intro th' hth'
    apply Bool.eq_false_iff.mpr
    intro inside
    rw [attended.mutex.holder k th' hth' inside] at free
    cases free
  obtain ⟨th', atU, pc, buffer⟩ : ∃ th', u.threads[k]? = some th' ∧
      (th'.pc = .recv ∨ th'.pc = .lock) ∧ th'.buffer = th.buffer := by
    rcases threads k th at' with same | ⟨_, back⟩
    · refine ⟨th, same, ?_, rfl⟩
      have outside := quiet th same
      cases pc : th.pc <;> simp_all [HearAllPc.loaded, HearAllPc.inShout]
    · exact ⟨_, back, .inl rfl, rfl⟩
  obtain ⟨t, e, toT, log', sender⟩ := attended.shout_again alive' free atU pc
    (buffer ▸ read_of_mem whole.2)
  have reached := toU.trans toT
  have longer : s.threads.length ≤ t.threads.length := by
    apply reached.invariant (I := fun v => s.threads.length ≤ v.threads.length) le_rfl
    intro v ev w le _ step
    exact le.trans (Server.step_move step).threads_length
  have below : k < s.threads.length := (List.getElem?_eq_some_iff.mp at').1
  refine ⟨t, reached, ?_⟩
  intro silent
  refine ((silent k th _ at' (List.getElem?_eq_getElem (by omega))).1 gone).1 e ?_ sender
  rw [log', log, List.drop_left]
  exact List.mem_singleton.mpr rfl

/-- As long as every `recv` brings a whole frame, the server keeps what is asked
of departed clients; and once the `recv` of a client that has sent something
returns 0, the run can go on to break it. -/
theorem departed_client_silent {s : Server} (reached : Reach Server.step orderly .start s) :
    (Reach Server.step ordinary .start s →
      ∀ t, Reach Server.step ordinary s t → s.departedSilent t) ∧
    ∀ (k : Nat) (th : HearAll), s.exited = false → (∀ t ∈ s.threads, t.pc ≠ .wild) →
      s.threads[k]? = some th → th.eof = true → (∃ got ∈ th.received, got ≠ []) →
      ∃ t, Reach Server.step orderly s t ∧ ¬ s.departedSilent t := by
  refine ⟨?_, ?_⟩
  · intro before t after
    exact (Server.ordered_run before).departedSilent (Server.ordered_run (before.trans after))
  · intro k th alive tame at' gone spoke
    exact (Server.attended_run reached).departed_shouts alive tame at' gone spoke

/-- A client sends `#END` and its process ends. -/
def normalWayOut : List Event :=
  [.accept (some 5), .main, .main, .main, .create (zeros bufferLen), .main, .thread 0, .thread 0,
    .recv 0 (some (store (zeros bufferLen) (ascii "#END\n"))), .thread 0, .thread 0, .thread 0,
    .thread 0, .recv 0 (some []), .thread 0, .thread 0, .thread 0, .thread 0]

theorem normalWayOut_ends : (run (fun s ev => if orderly s ev then Server.step s ev else none)
    .start normalWayOut).map (fun s => (s.exited, s.threads.map fun th =>
      (th.pc, th.eof, (s.textsOf 0).length, (th.received.filter (· ≠ [])).length))) =
    some (false, [(.recv, true, 2, 1)]) := by decide +kernel

theorem departed_client_silent_normalWayOut :
    ∃ s t, Reach Server.step orderly .start s ∧ Reach Server.step orderly s t ∧
      ¬ s.departedSilent t := by
  obtain ⟨s, reached, facts⟩ := Option.map_eq_some_iff.mp normalWayOut_ends
  simp only [Prod.mk.injEq] at facts
  obtain ⟨alive, threads⟩ := facts
  obtain ⟨th, threads, values⟩ := List.map_eq_singleton_iff.mp threads
  simp only [Prod.mk.injEq] at values
  obtain ⟨pc, gone, _, frames⟩ := values
  have run := reach_of_guarded reached
  have at' : s.threads[0]? = some th := by rw [threads]; rfl
  have tame : ∀ t ∈ s.threads, t.pc ≠ .wild := by
    intro t ht
    rw [threads] at ht
    rw [List.mem_singleton.mp ht, pc]
    nofun
  have spoke : ∃ got ∈ th.received, got ≠ [] := by
    obtain ⟨got, only⟩ := List.length_eq_one_iff.mp frames
    have kept : got ∈ th.received.filter (· ≠ []) := by rw [only]; exact List.mem_singleton.mpr rfl
    exact ⟨got, (List.mem_filter.mp kept).1, of_decide_eq_true (List.mem_filter.mp kept).2⟩
  obtain ⟨t, reached', loud⟩ := (departed_client_silent run).2 0 th alive tame at' gone spoke
  exact ⟨s, t, run, reached', loud⟩

theorem departed_client_shouts : ¬ ∀ s₀ s : Server, Reach Server.step orderly .start s₀ →
    Reach Server.step orderly s₀ s → s₀.departedSilent s := by
  intro silent
  obtain ⟨s, reached, facts⟩ := Option.map_eq_some_iff.mp normalWayOut_ends
  simp only [Prod.mk.injEq] at facts
  obtain ⟨th, threads, values⟩ := List.map_eq_singleton_iff.mp facts.2
  simp only [Prod.mk.injEq] at values
  obtain ⟨pc, _, shouts, frames⟩ := values
  have at' : s.threads[0]? = some th := by rw [threads]; rfl
  have equal := (silent s s (reach_of_guarded reached) .refl 0 th th at' at').2 pc
  rw [shouts, frames] at equal
  cases equal

end GroupChat
