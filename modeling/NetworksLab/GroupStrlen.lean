import NetworksLab.GroupServer
import NetworksLab.Slots

/-! The `strlen` of `hear_all`. Its buffer has no byte to spare for a NUL: one has
to be among the bytes received and still be there. -/
namespace GroupChat
open CString Transition
open Chat (bufferLen)

/-- Threads find their buffer zeroed. -/
def zeroed (_ : Server) (e : Event) : Prop := ∀ stack, e = .create stack → stack = zeros bufferLen

/-- Some byte of the buffer is NUL in the newest result of `recv` that got there,
or no result got there. -/
def Terminated (gots : List Bytes) : Prop :=
  ∃ p < bufferLen, ∀ got, Overlay.latest p gots = some got → got[p]? = some 0

/-- A buffer that was zeroed and then only received into. -/
structure HearAll.Received (th : HearAll) : Prop where
  fits : ∀ got ∈ th.received, got.length ≤ bufferLen
  buffer : th.buffer = th.received.foldl store (zeros bufferLen)

theorem HearAll.Received.size {th : HearAll} (h : th.Received) : th.buffer.length = bufferLen := by
  rw [h.buffer, store_eq_write, Overlay.length_foldl_write, zeros_length]
  intro got mem
  rw [zeros_length]
  exact h.fits got mem

theorem HearAll.Received.nul_iff {th : HearAll} (h : th.Received) :
    0 ∈ th.buffer ↔ Terminated th.received := by
  have visible {p : Nat} (room : p < bufferLen) : th.buffer[p]? = some 0 ↔
      ∀ got, Overlay.latest p th.received = some got → got[p]? = some 0 := by
    rw [h.buffer, store_eq_write]
    exact Overlay.get_foldl_write_eq_some (List.getElem?_replicate_of_lt room)
  rw [List.mem_iff_getElem?]
  constructor
  · rintro ⟨p, nul⟩
    have room : p < bufferLen := by
      rw [← h.size]
      exact (List.getElem?_eq_some_iff.mp nul).1
    exact ⟨p, room, (visible room).mp nul⟩
  · rintro ⟨p, room, newest⟩
    exact ⟨p, (visible room).mpr newest⟩

theorem HearAll.Received.recv {th : HearAll} (h : th.Received) {got : Bytes}
    (fits : got.length ≤ bufferLen) : HearAll.Received { th with
      buffer := store th.buffer got, received := th.received ++ [got],
      eof := th.eof || got.isEmpty, pc := .lock } where
  fits later mem := by
    rcases List.mem_append.mp mem with old | new
    · exact h.fits later old
    · exact List.mem_singleton.mp new ▸ fits
  buffer := by
    rw [List.foldl_append, ← h.buffer]
    rfl

def Server.Received (s : Server) : Prop :=
  ∀ (k : Nat) (th : HearAll), s.threads[k]? = some th → th.Received

theorem Server.Received.move {s t : Server} {e : Event} (h : s.Received) (ok : zeroed s e)
    (move : Move s e t) : t.Received := by
  cases move with
  | exit | accept | overrun | setSockfd | setId | greet | incr => exact h
  | create =>
      apply Slots.forall_concat h
      exact ⟨nofun, ok _ rfl⟩
  | recv at' pc fits => exact Slots.forall_set h ((h _ _ at').recv fits)
  | loadSockfd at' | loadId at' | lock at' | relay at' | skip at' | endShout at' | unlock at'
  | wildLoad at' | wildText at' | wildSlot at' =>
      obtain ⟨fits, buffer⟩ := h _ _ at'
      exact Slots.forall_set h ⟨fits, buffer⟩

/-- At any time, and so when `hear_all` computes `strlen`, there is a string in its
buffer exactly when what it has received so far leaves a NUL there, and then
`shout` allocates 265 bytes at most. -/
theorem strlen_inside {s : Server} (reached : Reach Server.step zeroed .start s) {k : Nat}
    {th : HearAll} (at' : s.threads[k]? = some th) :
    (∃ t, read th.buffer = some t ∧ t.length < bufferLen ∧ t.length + 10 ≤ 265) ↔
      Terminated th.received := by
  have received : s.Received := by
    apply reached.invariant (I := Server.Received) nofun
    intro t e u before ok step
    exact before.move ok (Server.step_move step)
  have here := received k th at'
  rw [← here.nul_iff]
  constructor
  · rintro ⟨t, str, _⟩
    by_contra none
    rw [read_eq_none.mpr none] at str
    cases str
  · intro nul
    have short := text_length_lt nul
    rw [here.size] at short
    exact ⟨text th.buffer, read_of_mem nul, short, Nat.add_le_add_right (Nat.le_of_lt_succ short) 10⟩

/-- A client connects and sends these bytes. -/
def oneRecv (got : Bytes) : List Event :=
  [.accept (some 5), .main, .main, .main, .create (zeros bufferLen), .main, .thread 0, .thread 0,
    .recv 0 (some got)]

/-- In addition every `recv` brings something. -/
def zeroedOpen (s : Server) (e : Event) : Prop :=
  zeroed s e ∧ ∀ k got, e = .recv k (some got) → 1 ≤ got.length ∧ got.length ≤ bufferLen

theorem oneRecv_lock {got : Bytes} (some : 1 ≤ got.length) (fits : got.length ≤ bufferLen) :
    ∃ s th, Reach Server.step zeroedOpen .start s ∧
      s.threads[0]? = .some th ∧ th.pc = .lock ∧ th.received = [got] ∧
      th.buffer = store (zeros bufferLen) got := by
  have ran : ∃ s, run Server.step .start (oneRecv got) = .some s ∧
      s.threads[0]?.map (fun th => (th.pc, th.received, th.buffer)) =
        .some (.lock, [got], store (zeros bufferLen) got) := by
    simp [oneRecv, run, Server.step, Server.start, Server.acceptStep, Server.mainStep,
      Server.createStep, Server.recvStep, Server.threadStep, Server.put, maxNumClient, fits]
  obtain ⟨s, reached, thread⟩ := ran
  obtain ⟨th, at', fields⟩ := Option.map_eq_some_iff.mp thread
  simp only [Prod.mk.injEq] at fields
  refine ⟨s, th, reach_of_run_events (p := zeroedOpen s) ?_ reached, at', fields⟩
  simp [oneRecv, zeroedOpen, zeroed, some, fits]

theorem strlen_inside_hi : ∃ (th : HearAll) (t : Bytes), th.received = [ascii "hi" ++ [0]] ∧
    read th.buffer = some t ∧ t.length + 10 ≤ 265 := by
  obtain ⟨s, th, reached, at', _, received, _⟩ :=
    oneRecv_lock (by decide : 1 ≤ (ascii "hi" ++ [0]).length) (by decide)
  have ends : Terminated [ascii "hi" ++ [0]] := by
    refine ⟨2, by decide, fun got newest => ?_⟩
    obtain rfl := Option.some.inj newest
    rfl
  have zeroedRun := reached.mono fun _ _ ok => ok.1
  obtain ⟨t, str, _, size⟩ := (strlen_inside zeroedRun at').mpr (received ▸ ends)
  exact ⟨th, t, received, str, size⟩

theorem strlen_overrun : ¬ ∀ (s : Server) (k : Nat) (th : HearAll),
    Reach Server.step zeroedOpen .start s → s.threads[k]? = some th →
    th.pc = .lock → 0 ∈ th.buffer := by
  intro inside
  have full : (List.replicate bufferLen (97 : Byte)).length = bufferLen := List.length_replicate
  obtain ⟨s, th, reached, at', pc, _, buffer⟩ :=
    oneRecv_lock (by rw [full]; decide) (Nat.le_of_eq full)
  have nul := inside s 0 th reached at' pc
  rw [buffer, store_full (full.trans (zeros_length _).symm)] at nul
  exact absurd (List.eq_of_mem_replicate nul) (by decide)

end GroupChat
