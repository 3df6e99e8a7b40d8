import NetworksLab.GroupRegistry

/-! What a `hear_all` thread hands to `shout`: after each `recv`, the string its
buffer then holds. A `recv` overwrites only as much of the buffer as it
returns. -/
namespace GroupChat
open CString Transition
open Chat (bufferLen)

def hearAllTexts (buffer : Bytes) : List Bytes → List (Option Bytes)
  | [] => []
  | got :: rest => read (store buffer got) :: hearAllTexts (store buffer got) rest

theorem hearAllTexts_concat (buffer : Bytes) (before : List Bytes) (got : Bytes) :
    hearAllTexts buffer (before ++ [got]) =
      hearAllTexts buffer before ++ [read ((before ++ [got]).foldl store buffer)] := by
  induction before generalizing buffer with
  | nil => rfl
  | cons first rest ih =>
      simp only [List.cons_append, hearAllTexts, List.foldl_cons, ih (store buffer first)]

theorem hearAllTexts_whole {buffer : Bytes} {frames : List Bytes}
    (size : ∀ frame ∈ frames, frame.length = buffer.length) :
    hearAllTexts buffer frames = frames.map read := by
  induction frames generalizing buffer with
  | nil => rfl
  | cons frame rest ih =>
      have first := size frame List.mem_cons_self
      rw [hearAllTexts, store_full first, List.map_cons]
      congr 1
      apply ih
      intro later hlater
      exact (size later (List.mem_cons_of_mem frame hlater)).trans first.symm

/-- What the thread is done with: the last `recv` waits for the mutex at `lock`. -/
def HearAll.heard (th : HearAll) : List Bytes :=
  match th.pc with
  | .lock | .wild => th.received.dropLast
  | _ => th.received

def Server.textsOf (s : Server) (k : Nat) : List Bytes :=
  (s.log.filter (·.sender = k)).map (·.text)

/-- The thread started with `stack` in its buffer and has shouted `texts`. -/
structure HearAll.Accounted (th : HearAll) (stack : Bytes) (texts : List Bytes) : Prop where
  size : stack.length = bufferLen
  fits : ∀ got ∈ th.received, got.length ≤ bufferLen
  buffer : th.buffer = th.received.foldl store stack
  shouted : texts.map some = hearAllTexts stack th.heard
  pending : th.pc = .lock → th.received ≠ []
  unread : th.pc.loaded = false → th.received = []
  ended : th.eof = true ↔ [] ∈ th.received

structure Server.Accounted (s : Server) : Prop where
  senders : ∀ e ∈ s.log, e.sender < s.threads.length
  threads : ∀ (k : Nat) (th : HearAll), s.threads[k]? = some th →
    ∃ stack, th.Accounted stack (s.textsOf k)

theorem Server.accounted_start : Server.start.Accounted := ⟨nofun, nofun⟩

theorem Server.textsOf_log {s t : Server} {e : Entry} (log : t.log = s.log ++ [e]) (k : Nat) :
    t.textsOf k = s.textsOf k ++ if e.sender = k then [e.text] else [] := by
  rw [textsOf, log, List.filter_append, List.map_append]
  by_cases same : e.sender = k <;> simp [same, textsOf]

/-- The same as to what is received and shouted. -/
theorem HearAll.Accounted.same {th th' : HearAll} {stack : Bytes} {texts : List Bytes}
    (h : th.Accounted stack texts) (buffer : th'.buffer = th.buffer)
    (received : th'.received = th.received) (eof : th'.eof = th.eof)
    (heard : th'.heard = th.heard) (unlocked : th'.pc ≠ .lock)
    (loaded : th.pc.loaded = true → th'.pc.loaded = true) : th'.Accounted stack texts where
  size := h.size
  fits := received ▸ h.fits
  buffer := by rw [buffer, received]; exact h.buffer
  shouted := heard ▸ h.shouted
  pending locked := absurd locked unlocked
  unread no := received.trans (h.unread (Bool.eq_false_iff.mpr fun yes => by
    rw [loaded yes] at no
    cases no))
  ended := by rw [eof, received]; exact h.ended

theorem Server.Accounted.put {s t : Server} (h : s.Accounted) {k : Nat} {th' : HearAll}
    (threads : t.threads = s.threads.set k th') (log : t.log = s.log)
    (new : ∃ stack, th'.Accounted stack (s.textsOf k)) : t.Accounted := by
  have texts : t.textsOf = s.textsOf := by
    funext j
    rw [Server.textsOf, log]
    rfl
  refine ⟨?_, ?_⟩
  · rw [log, threads, List.length_set]
    exact h.senders
  · rw [texts, threads]
    exact Slots.forall_set h.threads new

theorem HearAll.Accounted.recv {th : HearAll} {stack texts got : _}
    (h : th.Accounted stack texts) (pc : th.pc = .recv) (fits : got.length ≤ bufferLen) :
    HearAll.Accounted { th with
      buffer := store th.buffer got, received := th.received ++ [got],
      eof := th.eof || got.isEmpty, pc := .lock } stack texts where
  size := h.size
  fits := by
    intro later hlater
    rcases List.mem_append.mp hlater with old | new
    · exact h.fits later old
    · exact List.mem_singleton.mp new ▸ fits
  buffer := by rw [h.buffer, List.foldl_append]; rfl
  shouted := by
    rw [h.shouted]
    simp only [HearAll.heard, pc, List.dropLast_concat]
  pending _ := by simp
  unread := nofun
  ended := by
    simp only [Bool.or_eq_true, List.isEmpty_iff, List.mem_append, List.mem_singleton, h.ended]
    exact or_congr_right eq_comm

theorem HearAll.Accounted.lock {th : HearAll} {stack texts : _} {t msg : Bytes}
    (h : th.Accounted stack texts) (pc : th.pc = .lock) (str : read th.buffer = some t) :
    HearAll.Accounted { th with pc := .shout 0 msg } stack (texts ++ [t]) where
  size := h.size
  fits := h.fits
  buffer := h.buffer
  shouted := by
    have whole := List.dropLast_concat_getLast (h.pending pc)
    have shouted := h.shouted
    simp only [HearAll.heard, pc] at shouted ⊢
    rw [List.map_append, shouted, ← whole, hearAllTexts_concat, whole, ← h.buffer, str]
    rfl
  pending := nofun
  unread := nofun
  ended := h.ended

theorem Server.Accounted.create {s : Server} (h : s.Accounted) {stack : Bytes}
    (size : stack.length = bufferLen) : Server.Accounted { s with
      threads := s.threads ++ [{ cli := s.clientId, buffer := stack }], mainPc := .incr } := by
  refine ⟨?_, ?_⟩
  · intro e he
    have old := h.senders e he
    rw [List.length_append]
    omega
  · apply Slots.forall_concat h.threads
    have silent : s.textsOf s.threads.length = [] := by
      rw [Server.textsOf, List.map_eq_nil_iff, List.filter_eq_nil_iff]
      intro e he same
      have sender := h.senders e he
      rw [of_decide_eq_true same] at sender
      exact Nat.lt_irrefl _ sender
    refine ⟨stack, size, by simp, rfl, ?_, nofun, fun _ => rfl, by simp⟩
    rw [silent]
    rfl

theorem Server.Accounted.move {s t : Server} {e : Event} (h : s.Accounted)
    (registry : s.Registry) (move : Move s e t) : t.Accounted := by
  cases move with
  | exit | accept | overrun | setSockfd | setId | greet | incr => exact ⟨h.senders, h.threads⟩
  | create pc size => exact h.create size
  | @loadSockfd k th c at' pc | @loadId k th c at' pc | @skip k th i msg at' pc
  | @endShout k th i msg at' pc | @unlock k th at' pc | @relay k th i msg c at' pc =>
      obtain ⟨stack, accounted⟩ := h.threads k th at'
      refine h.put rfl rfl ⟨stack, accounted.same rfl rfl rfl ?_ (by simp) ?_⟩
      · simp only [HearAll.heard, pc]
      · simp [pc, HearAllPc.loaded]
  | @recv k th got at' pc fits drained =>
      obtain ⟨stack, accounted⟩ := h.threads k th at'
      exact h.put rfl rfl ⟨stack, accounted.recv pc fits⟩
  | @lock k th str at' pc free readable =>
      obtain ⟨stack, accounted⟩ := h.threads k th at'
      have own : th.id = k := registry.ids k th at' (by simp [pc, HearAllPc.loaded])
      have below : k < s.threads.length := (List.getElem?_eq_some_iff.mp at').1
      refine ⟨?_, ?_⟩
      · intro e he
        change e.sender < (s.threads.set k _).length
        rw [List.length_set]
        rcases List.mem_append.mp he with old | new
        · exact h.senders e old
        · obtain rfl := List.mem_singleton.mp new
          exact own ▸ below
      · intro j th' at''
        rw [Server.textsOf_log (s := s) rfl]
        rcases Slots.set_cases at'' with ⟨rfl, rfl⟩ | ⟨other, at''⟩
        · rw [if_pos own]
          exact ⟨stack, accounted.lock pc readable⟩
        · rw [if_neg (own ▸ Ne.symm other), List.append_nil]
          exact h.threads j th' at''
  | @wildText k th at' pc free unreadable =>
      obtain ⟨stack, accounted⟩ := h.threads k th at'
      refine h.put rfl rfl ⟨stack, accounted.same rfl rfl rfl ?_ (by simp) fun _ => rfl⟩
      simp only [HearAll.heard, pc]
  | wildLoad at' pc past =>
      obtain ⟨fd, _, row⟩ := registry.row at'
      rw [registry.slots _ _ at', row] at past
      cases past
  | wildSlot at' pc more past => exact absurd past (registry.slot_ne_none more)

def Server.AllReceived (p : Bytes → Prop) (s : Server) : Prop :=
  ∀ (k : Nat) (th : HearAll), s.threads[k]? = some th → ∀ got ∈ th.received, p got

theorem Server.AllReceived.move {s t : Server} {e : Event} {p : Bytes → Prop}
    (h : s.AllReceived p) (admitted : ∀ k got, e = .recv k (some got) → p got)
    (move : Move s e t) : t.AllReceived p := by
  cases move with
  | exit | accept | overrun | setSockfd | setId | greet | incr => exact h
  | create pc size =>
      exact Slots.forall_concat h (by simp)
  | recv at' =>
      apply Slots.forall_set h
      intro later hlater
      rcases List.mem_append.mp hlater with old | new
      · exact h _ _ at' later old
      · exact List.mem_singleton.mp new ▸ admitted _ _ rfl
  | loadSockfd at' | loadId at' | lock at' | relay at' | skip at' | endShout at' | unlock at'
  | wildLoad at' | wildText at' | wildSlot at' =>
      have kept := h _ _ at'
      exact Slots.forall_set h kept

/-- A frame as `talk` sends it: the whole buffer, with a string in it. -/
def wholeFrame (frame : Bytes) : Prop := frame.length = bufferLen ∧ 0 ∈ frame

theorem HearAll.heard_sublist (th : HearAll) : th.heard.Sublist th.received := by
  unfold heard
  split
  · exact List.dropLast_sublist _
  · exact List.dropLast_sublist _
  · exact List.Sublist.refl _

/-- Where every `recv` brings a whole frame, the texts shouted are those of the
frames, one for each. -/
theorem HearAll.Accounted.whole {th : HearAll} {stack texts : _}
    (h : th.Accounted stack texts) (whole : ∀ got ∈ th.received, wholeFrame got) :
    texts = th.heard.map text := by
  have frames : ∀ got ∈ th.heard, wholeFrame got := fun got hgot =>
    whole got (th.heard_sublist.subset hgot)
  have shouted : texts.map some = th.heard.map read := by
    rw [h.shouted, hearAllTexts_whole]
    exact fun got hgot => (frames got hgot).1.trans h.size.symm
  have strings : th.heard.map read = (th.heard.map text).map some := by
    rw [List.map_map]
    exact List.map_congr_left fun got hgot => read_of_mem (frames got hgot).2
  exact (List.map_inj_right fun _ _ => Option.some.inj).mp (shouted.trans strings)

end GroupChat
