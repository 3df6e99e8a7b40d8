import NetworksLab.ChatSession

/-! The end-of-communication protocol of the two-party chat, over every
interleaving of the four threads. -/
namespace Chat
open CString Transition

/-- Frames that `talk` may still send once `END_COM` is 1. -/
def TalkThread.framesLeft (t : TalkThread) : Nat :=
  if t.pc = .fgets ∨ t.pc = .send then 1 else 0

/-- Texts that `hear` may still print once `END_COM` is 1. -/
def HearThread.printsLeft (h : HearThread) : Nat :=
  if h.pc = .recv ∨ h.pc = .setEnd ∨ h.pc = .print then 1 else 0

theorem TalkThread.framesLeft_le (t : TalkThread) : t.framesLeft ≤ 1 := by
  unfold framesLeft
  split <;> omega

theorem HearThread.printsLeft_le (h : HearThread) : h.printsLeft ≤ 1 := by
  unfold printsLeft
  split <;> omega

theorem TalkThread.framesLeft_send {t : TalkThread} (pc : t.pc = .send) :
    t.send.framesLeft = 0 ∧ t.framesLeft = 1 := by
  constructor
  · by_cases key : startsWith t.buffer endKey <;> simp [framesLeft, send, key]
  · simp [framesLeft, pc]

theorem HearThread.printsLeft_recv {h : HearThread} (pc : h.pc = .recv) (got : Bytes) :
    (h.recv got).printsLeft = 1 ∧ h.printsLeft = 1 := by
  constructor
  · by_cases key : startsWith (store h.buffer got) endKey <;> simp [printsLeft, recv, key]
  · simp [printsLeft, pc]

theorem End.Move.framesLeft {label : Bytes} {s t : End} {tick : Tick}
    (move : Move label s tick t) (ended : s.endCom = true) :
    t.talking.sent.length + t.talking.framesLeft ≤
      s.talking.sent.length + s.talking.framesLeft := by
  cases move with
  | listen _ running | ask _ running => exact absurd (ended.symm.trans running) (by decide)
  | stopTalking pc _ | talkEnd pc | clearTalk pc => simp [TalkThread.framesLeft, pc]
  | @fgets line pc _ => cases line <;> simp [TalkThread.framesLeft, TalkThread.fgets, pc]
  | send pc =>
      obtain ⟨after, before⟩ := TalkThread.framesLeft_send pc
      change s.talking.send.sent.length + s.talking.send.framesLeft ≤ _
      rw [after, before, TalkThread.send, List.length_append, List.length_singleton]
  | _ => exact le_rfl

theorem End.Move.printsLeft {label : Bytes} {s t : End} {tick : Tick}
    (move : Move label s tick t) (ended : s.endCom = true) :
    t.hearing.printed.length + t.hearing.printsLeft ≤
      s.hearing.printed.length + s.hearing.printsLeft := by
  cases move with
  | listen _ running | ask _ running => exact absurd (ended.symm.trans running) (by decide)
  | stopHearing pc _ | hearEnd pc | clearHear pc => simp [HearThread.printsLeft, pc]
  | @recv got pc _ =>
      obtain ⟨after, before⟩ := HearThread.printsLeft_recv pc got
      rw [after, before]
      exact le_rfl
  | print pc => simp [HearThread.printsLeft, HearThread.print, pc]
  | _ => exact le_rfl

/-- An end whose `END_COM` is 1, with bounds on what it will ever have sent and
printed. -/
def End.Closing (frames prints : Nat) (e : End) : Prop :=
  e.endCom = true ∧ e.talking.sent.length + e.talking.framesLeft ≤ frames ∧
    e.hearing.printed.length + e.hearing.printsLeft ≤ prints

theorem Session.closing_step {recvName : Side → Bytes} {s t : Session} {event : Side × Tick}
    {d : Side} {frames prints : Nat} (h : (s.ends d).Closing frames prints)
    (step : s.step recvName event = some t) : (t.ends d).Closing frames prints := by
  obtain ⟨c, tick⟩ := event
  obtain ⟨e, inbox, move, _, rfl⟩ := step_move step
  by_cases same : d = c
  · subst d
    have closed : e.Closing frames prints :=
      ⟨move.endCom_mono h.1, (move.framesLeft h.1).trans h.2.1, (move.printsLeft h.1).trans h.2.2⟩
    simpa [put] using closed
  · simpa [put, same] using h

theorem Session.closing_run {recvName : Side → Bytes} {s₀ s : Session} {d : Side}
    (run : Reach (Session.step recvName) typedLines s₀ s) (ended : (s₀.ends d).endCom = true) :
    (s.ends d).Closing ((s₀.ends d).talking.sent.length + 1)
      ((s₀.ends d).hearing.printed.length + 1) := by
  refine run.invariant ⟨ended, ?_, ?_⟩ fun _ _ _ h _ step => closing_step h step
  · exact Nat.add_le_add_left (TalkThread.framesLeft_le _) _
  · exact Nat.add_le_add_left (HearThread.printsLeft_le _) _

theorem Hearing.printed_prefix {label : Bytes} {h : HearThread} (inv : Hearing label h) :
    h.printed <+: h.heard.map (shownAs label) := by
  by_cases at' : h.pc = .setEnd ∨ h.pc = .print
  · exact ⟨_, (inv.unread at').symm⟩
  · obtain ⟨noEnd, noPrint⟩ := not_or.mp at'
    exact inv.shown noEnd noPrint ▸ List.prefix_rfl

theorem Talking.typed_eq {t : TalkThread} {c : Bool} (inv : Talking c t) :
    t.typed = t.sent.map text ∨ ∃ last, t.typed = t.sent.map text ++ [last] := by
  by_cases at' : t.pc = .send
  · exact .inr ⟨_, (inv.pending at').2⟩
  · exact .inl (inv.settled at')

/-- Frames with a NUL are shown as their text. -/
theorem map_shownAs {label : Bytes} {frames : List Bytes} (nul : ∀ f ∈ frames, 0 ∈ f) :
    frames.map (shownAs label) = (frames.map text).map fun t => some (label ++ t) := by
  rw [List.map_map]
  apply List.map_congr_left
  intro f hf
  simp [shownAs, read_of_mem (nul f hf)]

theorem Session.Sound.printed_prefix {recvName : Side → Bytes} {s : Session}
    (h : s.Sound recvName) (d : Side) :
    ∃ texts, (s.ends d.other).hearing.printed =
        texts.map (fun t => some (chatLabel (recvName d.other) ++ t)) ∧
      texts <+: (s.ends d).talking.sent.map text := by
  have carried := h.carried d.other
  rw [Side.other_other] at carried
  have heard : (s.ends d.other).hearing.heard <+: (s.ends d).talking.sent := ⟨_, carried.symm⟩
  have shown := (h.ends d.other).hearing.printed_prefix
  rw [map_shownAs fun f hf => ((h.ends d).talking.frames f (heard.subset hf)).2] at shown
  obtain ⟨texts, whole, printed⟩ := List.prefix_map_iff.mp shown
  exact ⟨texts, printed, whole.trans (heard.map text)⟩

theorem Session.Sound.endCom_cause {recvName : Side → Bytes} {s : Session}
    (h : s.Sound recvName) {d : Side} (ended : (s.ends d).endCom = true) :
    ∃ c, ∃ f ∈ (s.ends c).talking.sent, startsWith f endKey := by
  obtain ⟨f, sent | heard, key⟩ := (h.ends d).cause ended
  · exact ⟨d, f, sent, key⟩
  · exact ⟨d.other, f, h.carried d ▸ List.mem_append_left _ heard, key⟩

/-- In each direction what is printed is a prefix of what is sent, and what is
sent is what is typed but for at most the last line; `#END` is the last frame
of its direction; `END_COM` stays 1 and has a sent `#END` behind it; and an end
where it is 1 sends and prints at most once more. -/
theorem end_of_communication {recvName hearBuffer talkBuffer : Side → Bytes} {s₀ s : Session}
    (hear : ∀ d, (hearBuffer d).length = bufferLen)
    (talk : ∀ d, (talkBuffer d).length = bufferLen)
    (before : Reach (Session.step recvName) typedLines (.start hearBuffer talkBuffer) s₀)
    (after : Reach (Session.step recvName) typedLines s₀ s) :
    (∀ d, (∃ texts, (s.ends d.other).hearing.printed =
          texts.map (fun t => some (chatLabel (recvName d.other) ++ t)) ∧
        texts <+: (s.ends d).talking.sent.map text) ∧
      ((s.ends d).talking.typed = (s.ends d).talking.sent.map text ∨
        ∃ last, (s.ends d).talking.typed = (s.ends d).talking.sent.map text ++ [last])) ∧
    (∀ d, (s.ends d).talking.sent.Pairwise fun f _ => ¬ startsWith f endKey) ∧
    (∀ d, (s₀.ends d).endCom = true → (s.ends d).endCom = true) ∧
    (∀ d, (s.ends d).endCom = true →
      ∃ c, ∃ f ∈ (s.ends c).talking.sent, startsWith f endKey) ∧
    ∀ d, (s₀.ends d).endCom = true →
      (s.ends d).talking.sent.length ≤ (s₀.ends d).talking.sent.length + 1 ∧
      (s.ends d).hearing.printed.length ≤ (s₀.ends d).hearing.printed.length + 1 := by
  have sound : s.Sound recvName :=
    (before.trans after).invariant (Session.sound_start hear talk)
      fun _ _ _ h typing step => h.step typing step
  refine ⟨fun d => ⟨sound.printed_prefix d, (sound.ends d).talking.typed_eq⟩,
    fun d => (sound.ends d).talking.lastOnly,
    fun d ended => (Session.closing_run after ended).1,
    fun d ended => sound.endCom_cause ended, fun d ended => ?_⟩
  obtain ⟨_, frames, prints⟩ := Session.closing_run after ended
  exact ⟨Nat.le_of_add_right_le frames, Nat.le_of_add_right_le prints⟩

/-- The client types `#END` and the server, at its own `fgets`, hears it. -/
def goodbye : List (Side × Tick) :=
  [(.server, .talk), (.client, .talk), (.client, .fgets (some (ascii "#END\n"))), (.client, .talk),
    (.client, .talk), (.server, .hear),
    (.server, .recv (store (zeros bufferLen) (ascii "#END\n" ++ [0]))), (.server, .hear)]

/-- The server prints it and sends the line it was waiting for. -/
def lastWords : List (Side × Tick) :=
  [(.server, .hear), (.server, .fgets (some (ascii "bye\n"))), (.server, .talk), (.server, .talk),
    (.server, .hear)]

theorem goodbye_ends : (run (Session.step fun _ => ascii "PEER")
    (.start (fun _ => zeros bufferLen) fun _ => zeros bufferLen) goodbye).any (fun s₀ =>
      (s₀.ends .server).endCom = true ∧ (s₀.ends .server).talking.sent = [] ∧
      (run (Session.step fun _ => ascii "PEER") s₀ lastWords).any fun s =>
        (s.ends .server).hearing.printed = [some (ascii "PEER: #END\n")] ∧
        (s.ends .server).talking.sent.map text = [ascii "bye\n"]) := by decide +kernel

theorem end_of_communication_goodbye :
    ∃ s₀ s, run (Session.step fun _ => ascii "PEER")
        (.start (fun _ => zeros bufferLen) fun _ => zeros bufferLen) goodbye = some s₀ ∧
      run (Session.step fun _ => ascii "PEER") s₀ lastWords = some s ∧
      (s.ends .server).hearing.printed = [some (ascii "PEER: #END\n")] ∧
      (∃ texts, (s.ends .server).hearing.printed =
          texts.map (fun t => some (chatLabel (ascii "PEER") ++ t)) ∧
        texts <+: (s.ends .client).talking.sent.map text) ∧
      (∃ c, ∃ f ∈ (s.ends c).talking.sent, startsWith f endKey) ∧
      (∀ d, (s.ends d).talking.sent.Pairwise fun f _ => ¬ startsWith f endKey) ∧
      (s.ends .server).endCom = true ∧
      (s.ends .server).talking.sent.length = (s₀.ends .server).talking.sent.length + 1 ∧
      (s.ends .server).hearing.printed.length ≤ (s₀.ends .server).hearing.printed.length + 1 := by
  obtain ⟨s₀, reached, facts⟩ := (Option.any_eq_true _ _).mp goodbye_ends
  obtain ⟨ended, unsent, goesOn⟩ := of_decide_eq_true facts
  obtain ⟨s, next, shown⟩ := (Option.any_eq_true _ _).mp goesOn
  obtain ⟨printed, sent⟩ := of_decide_eq_true shown
  have typing : ∀ event ∈ goodbye, event.2.typing := by
    simp only [goodbye, List.forall_mem_cons]
    exact ⟨trivial, trivial, ⟨_, rfl, by decide⟩, trivial, trivial, trivial, trivial, trivial, nofun⟩
  have typingOn : ∀ event ∈ lastWords, event.2.typing := by
    simp only [lastWords, List.forall_mem_cons]
    exact ⟨trivial, ⟨_, rfl, by decide⟩, trivial, trivial, trivial, nofun⟩
  obtain ⟨texts, lastOnly, stays, cause, bound⟩ := end_of_communication (fun _ => zeros_length _)
    (fun _ => zeros_length _) (reach_of_run_events typing reached) (reach_of_run_events typingOn next)
  have one := congrArg List.length sent
  rw [List.length_map, List.length_singleton] at one
  exact ⟨s₀, s, reached, next, printed, (texts .client).1, cause .server (stays .server ended), lastOnly,
    stays .server ended, by rw [one, unsent]; rfl, (bound .server ended).2⟩

end Chat
