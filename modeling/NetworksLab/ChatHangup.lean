import NetworksLab.ChatThreads

/-! An end of the chat whose peer is gone without "#END": each `recv` returns at once
and leaves the buffer as it is. -/
namespace Chat
open CString Transition

/-- `recv` returns 0, or -1. -/
def Tick.Silent : Tick → Prop
  | .recv got => got = []
  | .hear | .talk | .fgets _ => True

/-- A thread about to write `END_COM` has seen the key in its own buffer, and `hear` leaves
its loop behind a written `END_COM` only. -/
structure End.Keyed (e : End) : Prop where
  hear : e.hearing.pc = .setEnd → startsWith e.hearing.buffer endKey = true
  talk : e.talking.pc = .setEnd → ∃ f ∈ e.talking.sent, startsWith f endKey = true
  left : e.hearing.pc = .setHear ∨ e.hearing.pc = .done → e.endCom = true

/-- What has happened since `s`, where the peer was gone. -/
structure Repeats (label : Bytes) (s t : End) : Prop where
  buffer : t.hearing.buffer = s.hearing.buffer
  printed : ∃ m, t.hearing.printed = s.hearing.printed ++ List.replicate m (s.hearing.output label)
  hear : t.hearing.pc ≠ .setEnd
  talk : t.endCom = true ∨ t.talking.pc = .setEnd → ∃ f ∈ t.talking.sent, startsWith f endKey = true

variable {label hearBuffer talkBuffer : Bytes} {s t u : End} {tick : Tick}

theorem TalkThread.send_setEnd {t : TalkThread} (pc : t.send.pc = .setEnd) :
    ∃ f ∈ t.send.sent, startsWith f endKey = true := by
  refine ⟨t.buffer, List.mem_append_right _ (List.mem_singleton_self _), ?_⟩
  by_contra other
  simp [TalkThread.send, other] at pc

theorem TalkThread.fgets_frame (t : TalkThread) (line : Option Bytes) :
    (t.fgets line).pc = .send ∧ (t.fgets line).sent = t.sent := by
  cases line <;> exact ⟨rfl, rfl⟩

theorem HearThread.recv_cases (h : HearThread) (got : Bytes) :
    ((h.recv got).pc = .setEnd ∧ startsWith (h.recv got).buffer endKey = true) ∨
      (h.recv got).pc = .print := by
  rw [HearThread.recv]
  dsimp only
  split
  · next key => exact .inl ⟨rfl, key⟩
  · exact .inr rfl

theorem End.Keyed.move (h : s.Keyed) (move : End.Move label s tick t) : t.Keyed := by
  cases move with
  | listen | hearEnd | print => exact ⟨nofun, h.talk, by rintro (pc | pc) <;> cases pc⟩
  | stopHearing _ ended => exact ⟨nofun, h.talk, fun _ => ended⟩
  | clearHear pc => exact ⟨nofun, h.talk, fun _ => h.left (.inl pc)⟩
  | @recv got =>
      rcases s.hearing.recv_cases got with ⟨setEnd, key⟩ | print
      · exact ⟨fun _ => key, h.talk, fun left => absurd left (by rw [setEnd]; decide)⟩
      · exact ⟨fun pc => absurd pc (by rw [print]; decide), h.talk,
          fun left => absurd left (by rw [print]; decide)⟩
  | ask | stopTalking | clearTalk => exact ⟨h.hear, nofun, h.left⟩
  | talkEnd => exact ⟨h.hear, nofun, fun _ => rfl⟩
  | @fgets line =>
      refine ⟨h.hear, fun pc => ?_, h.left⟩
      exact absurd ((s.talking.fgets_frame line).1.symm.trans pc) (by decide)
  | send => exact ⟨h.hear, TalkThread.send_setEnd, h.left⟩

theorem End.keyed (reached : Reach (End.step label) anyStep (.start hearBuffer talkBuffer) s) :
    s.Keyed :=
  reached.invariant (I := End.Keyed) ⟨nofun, nofun, by rintro (pc | pc) <;> cases pc⟩
    fun _ _ _ h _ step => h.move (End.step_move step)

theorem Repeats.start (keyed : s.Keyed) (running : s.endCom = false)
    (other : startsWith s.hearing.buffer endKey = false) : Repeats label s s where
  buffer := rfl
  printed := ⟨0, (List.append_nil _).symm⟩
  hear := fun pc => by rw [keyed.hear pc] at other; cases other
  talk := fun ended => ended.elim (fun ended => by rw [running] at ended; cases ended) keyed.talk

theorem Repeats.output (h : Repeats label s t) : t.hearing.output label = s.hearing.output label := by
  rw [HearThread.output, HearThread.output, h.buffer]

theorem Repeats.move (other : startsWith s.hearing.buffer endKey = false) (h : Repeats label s t)
    (silent : tick.Silent) (move : End.Move label t tick u) : Repeats label s u := by
  cases move with
  | listen | stopHearing | clearHear => exact ⟨h.buffer, h.printed, fun pc => (by cases pc), h.talk⟩
  | hearEnd pc => exact absurd pc h.hear
  | @recv got =>
      obtain rfl : got = [] := silent
      refine ⟨h.buffer, h.printed, ?_, h.talk⟩
      simp [HearThread.recv, store, h.buffer, other]
  | print =>
      obtain ⟨m, printed⟩ := h.printed
      refine ⟨h.buffer, ⟨m + 1, ?_⟩, fun pc => (by cases pc), h.talk⟩
      simp [HearThread.print, printed, h.output, List.replicate_succ']
  | ask | stopTalking | clearTalk =>
      exact ⟨h.buffer, h.printed, h.hear, fun ended => h.talk (ended.imp_right fun pc => (by cases pc))⟩
  | @fgets line =>
      obtain ⟨pc, sent⟩ := t.talking.fgets_frame line
      refine ⟨h.buffer, h.printed, h.hear, fun ended => ?_⟩
      rw [sent]
      exact h.talk (ended.imp_right fun here => by rw [pc] at here; cases here)
  | send =>
      refine ⟨h.buffer, h.printed, h.hear, fun ended => ?_⟩
      rcases ended with ended | here
      · obtain ⟨f, sent, key⟩ := h.talk (.inl ended)
        exact ⟨f, List.mem_append_left _ sent, key⟩
      · exact TalkThread.send_setEnd here
  | talkEnd pc => exact ⟨h.buffer, h.printed, h.hear, fun _ => h.talk (.inr pc)⟩

theorem HearThread.recv_nothing {h : HearThread} (other : startsWith h.buffer endKey = false) :
    h.recv [] = { h with heard := h.heard ++ [[]], pc := .print } := by
  have buffer : store h.buffer [] = h.buffer := rfl
  rw [HearThread.recv]
  simp only [buffer, other, Bool.false_eq_true, if_false]

/-- `u` comes `m` prints after `t`, with `hear` back at its loop test. -/
structure Again (label : Bytes) (t u : End) (m : Nat) : Prop where
  reached : Reach (End.step label) (fun _ e => e.Silent) t u
  running : u.endCom = false
  test : u.hearing.pc = .test
  buffer : u.hearing.buffer = t.hearing.buffer
  printed : u.hearing.printed = t.hearing.printed ++ List.replicate m (t.hearing.output label)

theorem Again.trans {v : End} {m n : Nat} (first : Again label t u m) (next : Again label u v n) :
    Again label t v (m + n) where
  reached := first.reached.trans next.reached
  running := next.running
  test := next.test
  buffer := next.buffer.trans first.buffer
  printed := by
    rw [next.printed, first.printed, HearThread.output, HearThread.output, first.buffer,
      List.append_assoc, List.replicate_append_replicate]

/-- A step of `hear` in front that neither stores nor prints anything. -/
theorem Again.after {v : End} {m : Nat} (e : Tick) (silent : e.Silent) (step : t.step label e = some v)
    (buffer : v.hearing.buffer = t.hearing.buffer) (printed : v.hearing.printed = t.hearing.printed)
    (again : Again label v u m) : Again label t u m where
  reached := by
    have one : Reach (End.step label) (fun _ e => e.Silent) t v := .single silent step
    exact one.trans again.reached
  running := again.running
  test := again.test
  buffer := again.buffer.trans buffer
  printed := by
    rw [again.printed, printed, HearThread.output, HearThread.output, buffer]

theorem End.print_again (label : Bytes) (running : t.endCom = false) (pc : t.hearing.pc = .print) :
    ∃ u, Again label t u 1 := by
  have print : t.step label .hear = some { t with hearing := t.hearing.print label } := by
    simp only [End.step, End.hearStep, pc]
  exact ⟨_, .single (e := .hear) trivial print, running, rfl, rfl, rfl⟩

/-- `recv` returns at once, and the buffer is printed as the last message has left it. -/
theorem End.recv_again (label : Bytes) (running : t.endCom = false) (pc : t.hearing.pc = .recv)
    (other : startsWith t.hearing.buffer endKey = false) : ∃ u, Again label t u 1 := by
  have recv : t.step label (.recv []) =
      some { t with hearing := { t.hearing with heard := t.hearing.heard ++ [[]], pc := .print } } := by
    rw [End.step, End.recvStep, if_pos ⟨pc, Nat.zero_le _⟩, HearThread.recv_nothing other]
  obtain ⟨u, print⟩ := End.print_again label (t := { t with
    hearing := { t.hearing with heard := t.hearing.heard ++ [[]], pc := .print } }) running rfl
  exact ⟨u, print.after (.recv []) rfl recv rfl rfl⟩

/-- A whole round of `hear`. -/
theorem End.round_again (label : Bytes) (running : t.endCom = false) (pc : t.hearing.pc = .test)
    (other : startsWith t.hearing.buffer endKey = false) : ∃ u, Again label t u 1 := by
  have listen : t.step label .hear = some { t with hearing := { t.hearing with pc := .recv } } := by
    simp [End.step, End.hearStep, pc, running]
  obtain ⟨u, recv⟩ := End.recv_again label (t := { t with hearing := { t.hearing with pc := .recv } })
    running rfl other
  exact ⟨u, recv.after .hear trivial listen rfl rfl⟩

/-- As often as you like. -/
theorem End.rounds_again (label : Bytes) (running : t.endCom = false) (pc : t.hearing.pc = .test)
    (other : startsWith t.hearing.buffer endKey = false) (m : Nat) : ∃ u, Again label t u m := by
  induction m with
  | zero => exact ⟨t, .refl, running, pc, rfl, (List.append_nil _).symm⟩
  | succ m ih =>
      obtain ⟨u, rounds⟩ := ih
      obtain ⟨v, round⟩ := End.round_again label rounds.running rounds.test (rounds.buffer ▸ other)
      exact ⟨v, rounds.trans round⟩

/-- From wherever `hear` is in its loop. -/
theorem End.prints_again (label : Bytes) (keyed : t.Keyed) (running : t.endCom = false)
    (other : startsWith t.hearing.buffer endKey = false) (m : Nat) :
    ∃ u, Reach (End.step label) (fun _ e => e.Silent) t u ∧
      u.hearing.printed = t.hearing.printed ++ List.replicate m (t.hearing.output label) := by
  have goesOn (once : ∃ u, Again label t u 1) (k : Nat) : ∃ u, Again label t u (1 + k) := by
    obtain ⟨u, first⟩ := once
    obtain ⟨v, rounds⟩ := End.rounds_again label first.running first.test (first.buffer ▸ other) k
    exact ⟨v, first.trans rounds⟩
  have once : ∃ u, Again label t u 1 := by
    cases pc : t.hearing.pc with
    | test => exact End.round_again label running pc other
    | recv => exact End.recv_again label running pc other
    | print => exact End.print_again label running pc
    | setEnd => cases (keyed.hear pc).symm.trans other
    | setHear => cases (keyed.left (.inl pc)).symm.trans running
    | done => cases (keyed.left (.inr pc)).symm.trans running
  cases m with
  | zero => exact ⟨t, .refl, (List.append_nil _).symm⟩
  | succ m =>
      obtain ⟨u, more⟩ := goesOn once m
      exact ⟨u, more.reached, Nat.add_comm m 1 ▸ more.printed⟩

/-- Once the peer is gone without "#END", `hear` prints its last message again and again, as
often as it gets to run, and nothing else. Of what the program itself tests, only "#END" typed
at this end stops it; a second `send` to a peer that is gone kills the process by SIGPIPE. -/
theorem repeats_last (reached : Reach (End.step label) anyStep (.start hearBuffer talkBuffer) s)
    (running : s.endCom = false) (other : startsWith s.hearing.buffer endKey = false)
    (later : Reach (End.step label) (fun _ e => e.Silent) s t) :
    (∃ m, t.hearing.printed = s.hearing.printed ++ List.replicate m (s.hearing.output label)) ∧
    (t.endCom = true → ∃ f ∈ t.talking.sent, startsWith f endKey = true) ∧
    (t.endCom = false → ∀ m, ∃ u, Reach (End.step label) (fun _ e => e.Silent) t u ∧
      u.hearing.printed = t.hearing.printed ++ List.replicate m (s.hearing.output label)) := by
  have repeats : Repeats label s t :=
    later.invariant (I := Repeats label s) (.start (End.keyed reached) running other)
      fun _ _ _ h silent step => h.move other silent (End.step_move step)
  refine ⟨repeats.printed, fun ended => repeats.talk (.inl ended), fun running m => ?_⟩
  have keyed := End.keyed (reached.trans (later.mono fun _ _ _ => trivial))
  obtain ⟨u, more, printed⟩ := End.prints_again label keyed running (repeats.buffer ▸ other) m
  rw [repeats.output] at printed
  exact ⟨u, more, printed⟩

/-- "hi" is heard, and the peer is gone. -/
theorem repeats_last_hi : ∃ s t,
    run (End.step (ascii "PEER")) (.start (zeros bufferLen) (zeros bufferLen))
      [.hear, .recv (ascii "hi" ++ [0]), .hear] = some s ∧
    run (End.step (ascii "PEER")) s [.hear, .recv [], .hear, .hear, .recv [], .hear] = some t ∧
    ∀ m, ∃ u, Reach (End.step (ascii "PEER")) (fun _ e => e.Silent) t u ∧
      u.hearing.printed = List.replicate (3 + m) (some (ascii "PEERhi")) := by
  obtain ⟨s, ran⟩ : ∃ s, run (End.step (ascii "PEER")) (.start (zeros bufferLen) (zeros bufferLen))
      [.hear, .recv (ascii "hi" ++ [0]), .hear] = some s := ⟨_, rfl⟩
  obtain ⟨t, more⟩ : ∃ t, run (End.step (ascii "PEER")) s
      [.hear, .recv [], .hear, .hear, .recv [], .hear] = some t := by
    obtain rfl := Option.some.inj ran
    exact ⟨_, rfl⟩
  obtain ⟨running, other, output⟩ : s.endCom = false ∧ startsWith s.hearing.buffer endKey = false ∧
      s.hearing.output (ascii "PEER") = some (ascii "PEERhi") := by
    obtain rfl := Option.some.inj ran
    exact ⟨rfl, by decide, by decide⟩
  obtain ⟨going, printed⟩ : t.endCom = false ∧
      t.hearing.printed = List.replicate 3 (some (ascii "PEERhi")) := by
    obtain rfl := Option.some.inj ran
    obtain rfl := Option.some.inj more
    exact ⟨rfl, by decide⟩
  have later := reach_of_run_events (p := Tick.Silent) (by simp [Tick.Silent]) more
  refine ⟨s, t, ran, more, fun m => ?_⟩
  obtain ⟨u, reached, again⟩ := (repeats_last (reach_of_run ran) running other later).2.2 going m
  exact ⟨u, reached, by rw [again, printed, output, List.replicate_append_replicate]⟩

end Chat
