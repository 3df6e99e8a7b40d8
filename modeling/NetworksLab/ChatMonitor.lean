import NetworksLab.ChatThreads

/-! The monitoring loop of `chat()` beside the threads it watches. Each of its
reads of `HEAR` and `TALK` is a step, and the threads move between any two. -/
namespace Chat
open CString Transition

inductive MonitorPc
  | hearOff | talkOn | talkOff | hearOn | sleep | killTalk | killHear | left
  deriving DecidableEq, Repr

/-- Inside `while(1)`, with no break taken. -/
def MonitorPc.polling : MonitorPc → Bool
  | .hearOff | .talkOn | .talkOff | .hearOn | .sleep => true
  | .killTalk | .killHear | .left => false

structure Watched where
  threads : End
  monitor : MonitorPc
  deriving DecidableEq, Repr

def Watched.start (hearBuffer talkBuffer : Bytes) : Watched :=
  ⟨.start hearBuffer talkBuffer, .hearOff⟩

inductive Act
  | thread (tick : Tick)
  | monitor
  deriving DecidableEq, Repr

/-- `if(!HEAR && TALK) ... if(!TALK && HEAR) ... sleep(TIMEOUT)`. -/
def monitorStep (hear talk : Bool) : MonitorPc → Option MonitorPc
  | .hearOff => some (if hear then .talkOff else .talkOn)
  | .talkOn => some (if talk then .killTalk else .talkOff)
  | .talkOff => some (if talk then .sleep else .hearOn)
  | .hearOn => some (if hear then .killHear else .sleep)
  | .sleep => some .hearOff
  | .killTalk | .killHear => some .left
  | .left => none

/-- The signal of `pthread_kill` may end the process at any later moment, as
any run may stop; until it does, the threads go on. -/
def Watched.step (label : Bytes) (s : Watched) : Act → Option Watched
  | .thread tick => (s.threads.step label tick).map fun e => { s with threads := e }
  | .monitor => (monitorStep s.threads.hear s.threads.talk s.monitor).map
      fun pc => { s with monitor := pc }

/-- Both threads have ended and the monitor looks for exactly one. -/
def Watched.stranded (s : Watched) : Bool :=
  !s.threads.talk && !s.threads.hear && s.monitor.polling

def HearPc.out (pc : HearPc) : Bool := pc = .setHear || pc = .done
def TalkPc.out (pc : TalkPc) : Bool := pc = .setTalk || pc = .done

/-- While the monitor polls, a thread sets `END_COM` only when the other one waits in its
`recv` or `fgets`, and that call does not return then. -/
def Watched.otherWaits (s : Watched) : Act → Prop
  | .thread .hear => s.threads.hearing.pc = .setEnd → s.monitor.polling = true →
      s.threads.talking.pc = .fgets
  | .thread .talk => s.threads.talking.pc = .setEnd → s.monitor.polling = true →
      s.threads.hearing.pc = .recv
  | .thread (.recv _) | .thread (.fgets _) => s.threads.endCom = true → s.monitor.polling = false
  | .monitor => True

instance (s : Watched) (a : Act) : Decidable (s.otherWaits a) :=
  match a with
  | .thread .hear | .thread .talk => inferInstanceAs (Decidable (_ → _ → _))
  | .thread (.recv _) | .thread (.fgets _) => inferInstanceAs (Decidable (_ → _))
  | .monitor => isTrue trivial

/-- The threads move on their own: no input, and the monitor sleeps. -/
def unaided (_ : Watched) (a : Act) : Prop := a = .thread .hear ∨ a = .thread .talk

theorem Watched.step_cases {label : Bytes} {s t : Watched} {a : Act}
    (h : s.step label a = some t) :
    (∃ tick e, a = .thread tick ∧ End.Move label s.threads tick e ∧ t = { s with threads := e }) ∨
    (∃ pc, a = .monitor ∧ monitorStep s.threads.hear s.threads.talk s.monitor = some pc ∧
      t = { s with monitor := pc }) := by
  cases a with
  | thread tick =>
      obtain ⟨e, he, rfl⟩ := Option.map_eq_some_iff.mp h
      exact .inl ⟨tick, e, rfl, End.step_move he, rfl⟩
  | monitor =>
      obtain ⟨pc, hpc, rfl⟩ := Option.map_eq_some_iff.mp h
      exact .inr ⟨pc, rfl, hpc, rfl⟩

/-- A flag is 0 exactly when its thread has ended. -/
structure End.Flags (e : End) : Prop where
  hear : e.hear = false ↔ e.hearing.pc = .done
  talk : e.talk = false ↔ e.talking.pc = .done

theorem End.Flags.move {label : Bytes} {s t : End} {tick : Tick} (h : s.Flags)
    (move : Move label s tick t) : t.Flags := by
  obtain ⟨hear, talk⟩ := h
  cases move with
  | listen pc _ | stopHearing pc _ | hearEnd pc | print pc =>
      exact ⟨by simpa [pc, HearThread.print] using hear, talk⟩
  | @recv got pc _ =>
      refine ⟨?_, talk⟩
      by_cases key : startsWith (store s.hearing.buffer got) endKey <;>
        simpa [pc, HearThread.recv, key] using hear
  | clearHear pc => exact ⟨by simp, talk⟩
  | ask pc _ | stopTalking pc _ | talkEnd pc => exact ⟨hear, by simpa [pc] using talk⟩
  | @fgets line pc _ =>
      refine ⟨hear, ?_⟩
      cases line <;> simpa [pc, TalkThread.fgets] using talk
  | send pc =>
      refine ⟨hear, ?_⟩
      by_cases key : startsWith s.talking.buffer endKey <;>
        simpa [pc, TalkThread.send, key] using talk
  | clearTalk pc => exact ⟨hear, by simp⟩

/-- `hear` leaves its loop only at a test that reads `END_COM == 1`. -/
theorem End.Move.hear_out {label : Bytes} {s t : End} {tick : Tick} (move : Move label s tick t)
    (out : t.hearing.pc.out = true) :
    s.hearing.pc.out = true ∨
      tick = .hear ∧ s.hearing.pc = .test ∧ s.endCom = true ∧ t.talking = s.talking := by
  cases move with
  | stopHearing pc ended => exact .inr ⟨rfl, pc, ended, rfl⟩
  | clearHear pc => exact .inl (by simp [pc, HearPc.out])
  | listen | hearEnd | print => cases out
  | @recv got _ _ =>
      by_cases key : startsWith (store s.hearing.buffer got) endKey <;>
        simp [HearThread.recv, key, HearPc.out] at out
  | _ => exact .inl out

theorem End.Move.talk_out {label : Bytes} {s t : End} {tick : Tick} (move : Move label s tick t)
    (out : t.talking.pc.out = true) :
    s.talking.pc.out = true ∨
      tick = .talk ∧ s.talking.pc = .test ∧ s.endCom = true ∧ t.hearing = s.hearing := by
  cases move with
  | stopTalking pc ended => exact .inr ⟨rfl, pc, ended, rfl⟩
  | clearTalk pc => exact .inl (by simp [pc, TalkPc.out])
  | ask | talkEnd => cases out
  | @fgets line _ _ => cases line <;> cases out
  | send =>
      by_cases key : startsWith s.talking.buffer endKey <;>
        simp [TalkThread.send, key, TalkPc.out] at out
  | _ => exact .inl out

/-- Where `END_COM` is set and the monitor still polls, one thread waits in its call. -/
structure Watched.Attended (s : Watched) : Prop where
  flags : s.threads.Flags
  running : s.threads.endCom = false →
    s.threads.hearing.pc.out = false ∧ s.threads.talking.pc.out = false
  waits : s.monitor.polling = true → s.threads.endCom = true →
    s.threads.hearing.pc = .recv ∨ s.threads.talking.pc = .fgets

theorem monitorStep_polling {hear talk : Bool} {pc pc' : MonitorPc}
    (h : monitorStep hear talk pc = some pc') (polling : pc'.polling = true) :
    pc.polling = true := by
  cases pc <;> simp only [monitorStep, Option.some.injEq, reduceCtorEq] at h <;>
    first | rfl | (subst h; cases polling)

theorem End.Move.still_running {label : Bytes} {s t : End} {tick : Tick} (move : Move label s tick t)
    (running : s.endCom = false → s.hearing.pc.out = false ∧ s.talking.pc.out = false)
    (still : t.endCom = false) : t.hearing.pc.out = false ∧ t.talking.pc.out = false := by
  have before : s.endCom = false := by
    by_contra ended
    rw [move.endCom_mono (Bool.not_eq_false _ ▸ ended)] at still
    cases still
  obtain ⟨hearIn, talkIn⟩ := running before
  refine ⟨?_, ?_⟩ <;> by_contra out <;> rw [Bool.not_eq_false] at out
  · rcases move.hear_out out with was | ⟨_, _, ended, _⟩
    · exact absurd (was.symm.trans hearIn) (by decide)
    · exact absurd (ended.symm.trans before) (by decide)
  · rcases move.talk_out out with was | ⟨_, _, ended, _⟩
    · exact absurd (was.symm.trans talkIn) (by decide)
    · exact absurd (ended.symm.trans before) (by decide)

/-- Who waits when `END_COM` is set goes on waiting. -/
theorem Watched.still_waits {label : Bytes} {s : Watched} {tick : Tick} {t : End}
    (waits : s.threads.endCom = true → s.threads.hearing.pc = .recv ∨ s.threads.talking.pc = .fgets)
    (ok : s.otherWaits (.thread tick)) (polling : s.monitor.polling = true)
    (move : End.Move label s.threads tick t) (ended : t.endCom = true) :
    t.hearing.pc = .recv ∨ t.talking.pc = .fgets := by
  cases move with
  | listen _ running | ask _ running =>
      rw [running] at ended
      cases ended
  | stopHearing pc | print pc | clearHear pc =>
      exact .inr ((waits ended).resolve_left (by simp [pc]))
  | hearEnd pc => exact .inr (ok pc polling)
  | stopTalking pc | clearTalk pc => exact .inl ((waits ended).resolve_right (by simp [pc]))
  | send pc => exact .inl ((waits ended).resolve_right (by simp [pc]))
  | talkEnd pc => exact .inl (ok pc polling)
  | recv | fgets => exact absurd (polling.symm.trans (ok ended)) (by decide)

theorem Watched.Attended.step {label : Bytes} {s t : Watched} {a : Act} (h : s.Attended)
    (ok : s.otherWaits a) (step : s.step label a = some t) : t.Attended := by
  rcases step_cases step with ⟨tick, e, rfl, move, rfl⟩ | ⟨pc, rfl, hpc, rfl⟩
  · exact ⟨h.flags.move move, move.still_running h.running,
      fun polling => Watched.still_waits (h.waits polling) ok polling move⟩
  · exact ⟨h.flags, h.running, fun polling => h.waits (monitorStep_polling hpc polling)⟩

theorem Watched.attended_start (hearBuffer talkBuffer : Bytes) :
    (Watched.start hearBuffer talkBuffer).Attended :=
  ⟨⟨⟨nofun, nofun⟩, nofun, nofun⟩, fun _ => ⟨rfl, rfl⟩, nofun⟩

theorem Watched.Attended.not_stranded {s : Watched} (h : s.Attended) : s.stranded = false := by
  by_contra stranded
  simp only [Watched.stranded, Bool.not_eq_false, Bool.and_eq_true, Bool.not_eq_true'] at stranded
  obtain ⟨⟨talk, hear⟩, polling⟩ := stranded
  have hearing := h.flags.hear.mp hear
  have talking := h.flags.talk.mp talk
  have ended : s.threads.endCom = true := by
    by_contra running
    have still := (h.running (Bool.not_eq_true _ ▸ running)).1
    simp [hearing, HearPc.out] at still
  rcases h.waits polling ended with inRecv | inFgets
  · cases hearing.symm.trans inRecv
  · cases talking.symm.trans inFgets

/-- Of any run: a thread that waits when `END_COM` is set waits alone. -/
structure End.Settled (e : End) : Prop where
  flags : e.Flags
  one : e.endCom = true → e.hearing.pc = .recv → e.talking.pc ≠ .fgets

theorem End.Settled.move {label : Bytes} {s t : End} {tick : Tick} (h : s.Settled)
    (move : Move label s tick t) : t.Settled := by
  refine ⟨h.flags.move move, ?_⟩
  cases move with
  | listen _ running | ask _ running =>
      intro ended
      rw [running] at ended
      cases ended
  | stopHearing | hearEnd | print | clearHear => exact fun _ => nofun
  | @recv got =>
      intro _ inRecv
      by_cases key : startsWith (store s.hearing.buffer got) endKey <;>
        simp [HearThread.recv, key] at inRecv
  | stopTalking | talkEnd | clearTalk => exact fun _ _ => nofun
  | @fgets line => cases line <;> exact fun _ _ => nofun
  | send =>
      intro _ _
      by_cases key : startsWith s.talking.buffer endKey <;> simp [TalkThread.send, key]

theorem Watched.settled {label hearBuffer talkBuffer : Bytes} {s : Watched}
    (run : Reach (Watched.step label) anyStep (.start hearBuffer talkBuffer) s) :
    s.threads.Settled := by
  refine run.invariant (I := fun s => s.threads.Settled) ⟨(attended_start _ _).flags, nofun⟩
    fun t a u h _ step => ?_
  rcases step_cases step with ⟨tick, e, rfl, move, rfl⟩ | ⟨pc, rfl, _, rfl⟩
  · exact h.move move
  · exact h

theorem unaided_run {label : Bytes} {s t : Watched} {as : List Act}
    (own : ∀ a ∈ as, a = .thread .hear ∨ a = .thread .talk)
    (ran : run (Watched.step label) s as = some t) : Reach (Watched.step label) unaided s t :=
  reach_of_run_events own ran

/-- `hear` ends without further input once `END_COM` is set, unless it waits in `recv`. -/
theorem Watched.hear_ends (label : Bytes) {s : Watched} (flag : s.threads.Flags)
    (ended : s.threads.endCom = true) (returned : s.threads.hearing.pc ≠ .recv) :
    ∃ h, Reach (Watched.step label) unaided s
      { s with threads := { s.threads with hear := false, hearing := h } } := by
  obtain ⟨⟨endCom, hear, talk, ⟨pc, buffer, heard, printed⟩, talking⟩, monitor⟩ := s
  obtain rfl : endCom = true := ended
  have ticks (n : Nat) : ∀ a ∈ List.replicate n (Act.thread .hear),
      a = .thread .hear ∨ a = .thread .talk := fun a mem => .inl (List.eq_of_mem_replicate mem)
  cases pc with
  | test => exact ⟨_, unaided_run (ticks 2) rfl⟩
  | recv => exact absurd rfl returned
  | setEnd => exact ⟨_, unaided_run (ticks 4) rfl⟩
  | print => exact ⟨_, unaided_run (ticks 3) rfl⟩
  | setHear => exact ⟨_, unaided_run (ticks 1) rfl⟩
  | done =>
      obtain rfl : hear = false := flag.hear.mpr rfl
      exact ⟨_, .refl⟩

theorem Watched.talk_ends (label : Bytes) {s : Watched}
    (flag : s.threads.talking.pc = .done → s.threads.talk = false)
    (ended : s.threads.endCom = true) (returned : s.threads.talking.pc ≠ .fgets) :
    ∃ h, Reach (Watched.step label) unaided s
      { s with threads := { s.threads with talk := false, talking := h } } := by
  obtain ⟨⟨endCom, hear, talk, hearing, ⟨pc, buffer, typed, sent⟩⟩, monitor⟩ := s
  obtain rfl : endCom = true := ended
  have ticks (n : Nat) : ∀ a ∈ List.replicate n (Act.thread .talk),
      a = .thread .hear ∨ a = .thread .talk := fun a mem => .inr (List.eq_of_mem_replicate mem)
  cases pc with
  | test => exact ⟨_, unaided_run (ticks 2) rfl⟩
  | fgets => exact absurd rfl returned
  | send =>
      have sends : Watched.step label ⟨⟨true, hear, talk, hearing, ⟨.send, buffer, typed, sent⟩⟩, monitor⟩
          (.thread .talk) = some ⟨⟨true, hear, talk, hearing,
            TalkThread.send ⟨.send, buffer, typed, sent⟩⟩, monitor⟩ := rfl
      have first : Reach (Watched.step label) unaided _ _ := .single (.inr rfl) sends
      by_cases key : startsWith buffer endKey
      · simp only [TalkThread.send, key, if_true] at first
        exact ⟨_, first.trans (unaided_run (ticks 3) rfl)⟩
      · simp only [TalkThread.send, if_neg key] at first
        exact ⟨_, first.trans (unaided_run (ticks 2) rfl)⟩
  | setEnd => exact ⟨_, unaided_run (ticks 3) rfl⟩
  | setTalk => exact ⟨_, unaided_run (ticks 1) rfl⟩
  | done =>
      obtain rfl : talk = false := flag rfl
      exact ⟨_, .refl⟩

theorem Watched.both_end {label : Bytes} {s : Watched} (flags : s.threads.Flags)
    (ended : s.threads.endCom = true) (polling : s.monitor.polling = true)
    (hearing : s.threads.hearing.pc ≠ .recv) (talking : s.threads.talking.pc ≠ .fgets) :
    ∃ t, Reach (Watched.step label) unaided s t ∧ t.stranded = true := by
  obtain ⟨h, hears⟩ := hear_ends label flags ended hearing
  obtain ⟨k, talks⟩ := talk_ends label
    (s := { s with threads := { s.threads with hear := false, hearing := h } })
    flags.talk.mpr ended talking
  exact ⟨_, hears.trans talks, by simp [stranded, polling]⟩

/-- A step that breaks the condition leaves the threads on their way to strand the monitor. -/
theorem Watched.unattended {label hearBuffer talkBuffer : Bytes} {s t : Watched} {a : Act}
    (run : Reach (Watched.step label) anyStep (.start hearBuffer talkBuffer) s)
    (breaks : ¬ s.otherWaits a) (step : s.step label a = some t) :
    ∃ u, Reach (Watched.step label) unaided t u ∧ u.stranded = true := by
  have settled := Watched.settled run
  rcases step_cases step with ⟨tick, e, rfl, move, rfl⟩ | ⟨pc, rfl, _, rfl⟩
  · have flags := settled.flags.move move
    cases tick with
    | hear =>
        simp only [otherWaits, Classical.not_imp] at breaks
        obtain ⟨pc, polling, talking⟩ := breaks
        cases move with
        | hearEnd => exact both_end flags rfl polling nofun talking
        | listen other | stopHearing other | print other | clearHear other => cases pc.symm.trans other
    | talk =>
        simp only [otherWaits, Classical.not_imp] at breaks
        obtain ⟨pc, polling, hearing⟩ := breaks
        cases move with
        | talkEnd => exact both_end flags rfl polling hearing nofun
        | ask other | stopTalking other | send other | clearTalk other => cases pc.symm.trans other
    | recv got =>
        simp only [otherWaits, Classical.not_imp, Bool.not_eq_false] at breaks
        obtain ⟨ended, polling⟩ := breaks
        cases move with
        | recv pc =>
            refine both_end flags ended polling ?_ (settled.one ended pc)
            by_cases key : startsWith (store s.threads.hearing.buffer got) endKey <;>
              simp [HearThread.recv, key]
    | fgets line =>
        simp only [otherWaits, Classical.not_imp, Bool.not_eq_false] at breaks
        obtain ⟨ended, polling⟩ := breaks
        cases move with
        | fgets pc =>
            refine both_end flags ended polling (fun inRecv => settled.one ended inRecv pc) ?_
            cases line <;> nofun
  · exact absurd trivial breaks

/-- The monitor on the pass that finds `HEAR == 0`. -/
def Watched.endingTalk (s : Watched) : Prop :=
  s.threads.hear = false ∧
    (s.monitor = .hearOff ∨ s.monitor = .talkOn ∨ s.monitor = .killTalk ∨ s.monitor = .left)

/-- The monitor on the pass that finds `TALK == 0`. -/
def Watched.endingHear (s : Watched) : Prop :=
  s.threads.talk = false ∧ (s.monitor = .hearOff ∨ s.monitor = .talkOff ∨
    s.monitor = .hearOn ∨ s.monitor = .killHear ∨ s.monitor = .left)

theorem End.Move.flags_mono {label : Bytes} {s t : End} {tick : Tick}
    (move : Move label s tick t) :
    (s.hear = false → t.hear = false) ∧ (s.talk = false → t.talk = false) := by
  cases move <;> exact ⟨fun h => by first | exact h | rfl, fun h => by first | exact h | rfl⟩

theorem Watched.endingTalk_step {label : Bytes} {s t : Watched} {a : Act} (h : s.endingTalk)
    (attended : s.Attended) (step : s.step label a = some t) : t.endingTalk := by
  obtain ⟨hear, at'⟩ := h
  rcases step_cases step with ⟨tick, e, rfl, move, rfl⟩ | ⟨pc, rfl, hpc, rfl⟩
  · exact ⟨move.flags_mono.1 hear, at'⟩
  · refine ⟨hear, ?_⟩
    rw [hear] at hpc
    rcases at' with at' | at' | at' | at' <;> rw [at'] at hpc
    · obtain rfl := Option.some.inj hpc
      exact .inr (.inl rfl)
    · have talk : s.threads.talk = true := by
        simpa [stranded, hear, at', MonitorPc.polling] using attended.not_stranded
      rw [talk] at hpc
      obtain rfl := Option.some.inj hpc
      exact .inr (.inr (.inl rfl))
    · obtain rfl := Option.some.inj hpc
      exact .inr (.inr (.inr rfl))
    · cases hpc

theorem Watched.endingHear_step {label : Bytes} {s t : Watched} {a : Act} (h : s.endingHear)
    (attended : s.Attended) (step : s.step label a = some t) : t.endingHear := by
  obtain ⟨talk, at'⟩ := h
  rcases step_cases step with ⟨tick, e, rfl, move, rfl⟩ | ⟨pc, rfl, hpc, rfl⟩
  · exact ⟨move.flags_mono.2 talk, at'⟩
  · refine ⟨talk, ?_⟩
    have running (polling : s.monitor.polling = true) : s.threads.hear = true := by
      simpa [stranded, talk, polling] using attended.not_stranded
    rw [talk] at hpc
    rcases at' with at' | at' | at' | at' | at' <;> rw [at'] at hpc
    · rw [running (by rw [at']; rfl)] at hpc
      obtain rfl := Option.some.inj hpc
      exact .inr (.inl rfl)
    · obtain rfl := Option.some.inj hpc
      exact .inr (.inr (.inl rfl))
    · rw [running (by rw [at']; rfl)] at hpc
      obtain rfl := Option.some.inj hpc
      exact .inr (.inr (.inr (.inl rfl)))
    · obtain rfl := Option.some.inj hpc
      exact .inr (.inr (.inr (.inr rfl)))
    · cases hpc

theorem Watched.pass_leaves {label : Bytes} {s₀ s : Watched} (attended : s₀.Attended)
    (pass : s₀.monitor = .hearOff) (ended : s₀.threads.talk = false ∨ s₀.threads.hear = false)
    (run : Reach (Watched.step label) Watched.otherWaits s₀ s) : s.monitor ≠ .sleep := by
  rcases ended with talk | hear
  · have both := run.invariant (I := fun s => s.Attended ∧ s.endingHear) ⟨attended, talk, .inl pass⟩
      fun _ _ _ h ok step => ⟨h.1.step ok step, endingHear_step h.2 h.1 step⟩
    rcases both.2.2 with at' | at' | at' | at' | at' <;> simp [at']
  · have both := run.invariant (I := fun s => s.Attended ∧ s.endingTalk) ⟨attended, hear, .inl pass⟩
      fun _ _ _ h ok step => ⟨h.1.step ok step, endingTalk_step h.2 h.1 step⟩
    rcases both.2.2 with at' | at' | at' | at' <;> simp [at']

/-- While each thread sets `END_COM` only when the other waits, and goes on waiting until
the monitor has taken a break, the monitor is never stranded, and a pass that starts after
a thread has ended does not reach its `sleep`. After a step that breaks this the threads
strand it on their own, unless it gets to a break in between. -/
theorem monitor_attended (label hearBuffer talkBuffer : Bytes) :
    (∀ s, Reach (Watched.step label) Watched.otherWaits (.start hearBuffer talkBuffer) s →
      s.stranded = false) ∧
    (∀ s₀ s, Reach (Watched.step label) Watched.otherWaits (.start hearBuffer talkBuffer) s₀ →
      s₀.monitor = .hearOff → (s₀.threads.talk = false ∨ s₀.threads.hear = false) →
      Reach (Watched.step label) Watched.otherWaits s₀ s → s.monitor ≠ .sleep) ∧
    ∀ s a t, Reach (Watched.step label) anyStep (.start hearBuffer talkBuffer) s →
      ¬ s.otherWaits a → s.step label a = some t →
      ∃ u, Reach (Watched.step label) unaided t u ∧ u.stranded = true := by
  have attended : ∀ s, Reach (Watched.step label) Watched.otherWaits
      (.start hearBuffer talkBuffer) s → s.Attended := fun s run =>
    run.invariant (I := Watched.Attended) (Watched.attended_start _ _)
      fun _ _ _ h ok step => h.step ok step
  refine ⟨fun s run => (attended s run).not_stranded, ?_, ?_⟩
  · intro s₀ s before pass ended run
    exact Watched.pass_leaves (attended s₀ before) pass ended run
  · intro s a t run breaks step
    exact Watched.unattended run breaks step

/-- The user types `#END` while `hear` waits in `recv`: `talk` ends. -/
def typedEnd : List Act :=
  [.thread .talk, .thread .hear, .thread (.fgets (some (ascii "#END\n"))), .thread .talk,
    .thread .talk, .thread .talk, .thread .talk]

/-- The pass of the monitor after it. -/
def nextPass : List Act := [.monitor, .monitor, .monitor, .monitor]

theorem monitor_attended_typedEnd : ∃ s t,
    run (Watched.step (ascii "SERVER: ")) (.start (zeros bufferLen) (zeros bufferLen)) typedEnd = some s ∧
    s.threads.talk = false ∧ s.stranded = false ∧
    run (Watched.step (ascii "SERVER: ")) s nextPass = some t ∧ t.monitor = .left ∧
    ∀ u, Reach (Watched.step (ascii "SERVER: ")) Watched.otherWaits s u → u.monitor ≠ .sleep := by
  have ends : (run (fun s a => if s.otherWaits a then Watched.step (ascii "SERVER: ") s a else none)
      (.start (zeros bufferLen) (zeros bufferLen)) typedEnd).any (fun s =>
        run (Watched.step (ascii "SERVER: ")) (.start (zeros bufferLen) (zeros bufferLen)) typedEnd = some s ∧
        s.monitor = .hearOff ∧ s.threads.talk = false ∧
        (run (Watched.step (ascii "SERVER: ")) s nextPass).any (·.monitor = .left)) := by decide +kernel
  obtain ⟨s, guarded, facts⟩ := (Option.any_eq_true _ _).mp ends
  obtain ⟨ran, pass, talk, breaks⟩ := of_decide_eq_true facts
  obtain ⟨t, next, left⟩ := (Option.any_eq_true _ _).mp breaks
  obtain ⟨attended, leaves, _⟩ :=
    monitor_attended (ascii "SERVER: ") (zeros bufferLen) (zeros bufferLen)
  have reached := reach_of_guarded guarded
  exact ⟨s, t, ran, talk, attended s reached, next, of_decide_eq_true left,
    fun u => leaves s u reached pass (.inl talk)⟩

/-- The user types `#END` while a line of the peer arrives, all between two
passes of the monitor. -/
def bothEnd : List Act :=
  [.thread .talk, .thread .hear, .thread (.fgets (some (ascii "#END\n"))), .thread .talk,
    .thread .talk, .thread (.recv (ascii "hi\n" ++ [0])), .thread .hear, .thread .hear,
    .thread .hear, .thread .talk, .thread .talk]

theorem bothEnd_strands : (run (Watched.step (ascii "SERVER: "))
    (.start (zeros bufferLen) (zeros bufferLen)) bothEnd).map Watched.stranded = some true := by
  decide +kernel

theorem monitor_stranded : ¬ ∀ s, Reach (Watched.step (ascii "SERVER: ")) anyStep
    (.start (zeros bufferLen) (zeros bufferLen)) s → s.stranded = false := by
  intro never
  obtain ⟨s, reached, stranded⟩ := Option.map_eq_some_iff.mp bothEnd_strands
  exact absurd (stranded.symm.trans (never s (reach_of_run reached))) (by decide)

end Chat
