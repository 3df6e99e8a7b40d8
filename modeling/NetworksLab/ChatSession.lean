import Mathlib.Logic.Function.Basic
import NetworksLab.ChatThreads

/-! Two ends of one TCP connection. A frame travels whole: `recv` returns the
oldest frame in flight towards its end, and blocks while there is none. -/
namespace Chat
open CString Transition

inductive Side
  | server | client
  deriving DecidableEq, Repr

def Side.other : Side → Side
  | .server => .client
  | .client => .server

@[simp] theorem Side.other_other (d : Side) : d.other.other = d := by cases d <;> rfl

@[simp] theorem Side.other_ne (d : Side) : d.other ≠ d := by cases d <;> decide

@[simp] theorem Side.ne_other (d : Side) : d ≠ d.other := d.other_ne.symm

theorem Side.eq_or_other (c d : Side) : c = d ∨ c = d.other := by
  cases c <;> cases d <;> decide

structure Session where
  ends : Side → End
  wire : Side → List Bytes

def Session.start (hearBuffer talkBuffer : Side → Bytes) : Session where
  ends d := .start (hearBuffer d) (talkBuffer d)
  wire _ := []

/-- What `printf("%s: %s", RECV_NAME, buffer)` puts in front of the buffer. -/
def chatLabel (recvName : Bytes) : Bytes := recvName ++ ascii ": "

/-- What an end adds to its sent frames goes on the wire to the other end. -/
def Session.put (s : Session) (d : Side) (inbox : List Bytes) (e : End) : Session where
  ends := Function.update s.ends d e
  wire := Function.update (Function.update s.wire d inbox) d.other
    (s.wire d.other ++ e.talking.sent.drop (s.ends d).talking.sent.length)

def Session.step (recvName : Side → Bytes) (s : Session) : Side × Tick → Option Session
  | (d, .recv got) =>
      match s.wire d with
      | [] => none
      | frame :: rest =>
          if got = frame then
            ((s.ends d).step (chatLabel (recvName d)) (.recv got)).map (s.put d rest)
          else none
  | (d, tick) => ((s.ends d).step (chatLabel (recvName d)) tick).map (s.put d (s.wire d))

/-- Standard input goes on, and holds no NUL. -/
def Tick.typing : Tick → Prop
  | .fgets line => ∃ l, line = some l ∧ 0 ∉ l
  | _ => True

/-- Such input, and frames that arrive whole. -/
def Tick.regular : Tick → Prop
  | .recv got => got.length = bufferLen
  | tick => tick.typing

/-- What a step takes off the wire. -/
def Tick.taken : Tick → List Bytes
  | .recv got => [got]
  | _ => []

theorem End.Move.heard_eq {label : Bytes} {s t : End} {tick : Tick}
    (move : Move label s tick t) : t.hearing.heard = s.hearing.heard ++ tick.taken := by
  cases move <;> first | rfl | exact (List.append_nil _).symm

theorem End.Move.sent_append {label : Bytes} {s t : End} {tick : Tick}
    (move : Move label s tick t) :
    t.talking.sent = s.talking.sent ++ t.talking.sent.drop s.talking.sent.length := by
  rcases move.sent_eq with same | ⟨_, rfl⟩
  · simp [same]
  · simp [TalkThread.send]

theorem Session.step_move {recvName : Side → Bytes} {s t : Session} {d : Side} {tick : Tick}
    (h : s.step recvName (d, tick) = some t) :
    ∃ e inbox, End.Move (chatLabel (recvName d)) (s.ends d) tick e ∧
      s.wire d = tick.taken ++ inbox ∧ t = s.put d inbox e := by
  cases tick with
  | recv got =>
      cases wire : s.wire d with
      | nil => simp [step, wire] at h
      | cons frame rest =>
          simp only [step, wire, Option.ite_none_right_eq_some, Option.map_eq_some_iff] at h
          obtain ⟨rfl, e, he, rfl⟩ := h
          exact ⟨e, rest, End.step_move he, rfl, rfl⟩
  | hear | talk | fgets _ =>
      obtain ⟨e, he, rfl⟩ := Option.map_eq_some_iff.mp h
      exact ⟨e, s.wire d, End.step_move he, rfl, rfl⟩

def shownAs (label frame : Bytes) : Option Bytes := (read frame).map (label ++ ·)

/-- The frames of `talk`, and how far the thread has come with the last one. -/
structure Talking (endCom : Bool) (t : TalkThread) : Prop where
  size : t.buffer.length = bufferLen
  frames : ∀ f ∈ t.sent, f.length = bufferLen ∧ 0 ∈ f
  pending : t.pc = .send → 0 ∈ t.buffer ∧ t.typed = t.sent.map text ++ [text t.buffer]
  settled : t.pc ≠ .send → t.typed = t.sent.map text
  sentEnd : t.pc = .setEnd → ∃ f ∈ t.sent, startsWith f endKey
  closing : (∃ f ∈ t.sent, startsWith f endKey) →
    t.pc = .setEnd ∨ endCom = true ∧ t.pc ≠ .fgets ∧ t.pc ≠ .send
  lastOnly : t.sent.Pairwise fun f _ => ¬ startsWith f endKey

/-- The frames of `hear`, and how far the thread has come with the last one. -/
structure Hearing (label : Bytes) (h : HearThread) : Prop where
  size : h.buffer.length = bufferLen
  unread : h.pc = .setEnd ∨ h.pc = .print →
    h.heard.map (shownAs label) = h.printed ++ [h.output label]
  shown : h.pc ≠ .setEnd → h.pc ≠ .print → h.heard.map (shownAs label) = h.printed
  heardEnd : h.pc = .setEnd → ∃ f ∈ h.heard, startsWith f endKey

structure End.Sound (label : Bytes) (e : End) : Prop where
  talking : Talking e.endCom e.talking
  hearing : Hearing label e.hearing
  cause : e.endCom = true →
    ∃ f, (f ∈ e.talking.sent ∨ f ∈ e.hearing.heard) ∧ startsWith f endKey

theorem Talking.ended {t : TalkThread} {c : Bool} (h : Talking c t) : Talking true t := by
  refine { h with closing := fun key => ?_ }
  exact (h.closing key).imp_right fun closed => ⟨rfl, closed.2⟩

/-- A thread that still has a line to read or to send has not sent `#END`. -/
theorem Talking.noEnd {t : TalkThread} {c : Bool} (h : Talking c t)
    (busy : t.pc = .fgets ∨ t.pc = .send) : ¬ ∃ f ∈ t.sent, startsWith f endKey := by
  intro key
  rcases h.closing key with at' | ⟨_, noFgets, noSend⟩
  · rw [at'] at busy
    exact busy.elim nofun nofun
  · exact busy.elim noFgets noSend

/-- Program points of `talk` away from `send` carry the same history facts. -/
theorem Talking.moveTo {t : TalkThread} {c c' : Bool} {pc : TalkPc} (h : Talking c t)
    (now : t.pc ≠ .send) (next : pc ≠ .send) (notEnd : pc ≠ .setEnd)
    (closing : (∃ f ∈ t.sent, startsWith f endKey) → c' = true ∧ pc ≠ .fgets) :
    Talking c' { t with pc } :=
  { size := h.size
    frames := h.frames
    pending := fun at' => absurd at' next
    settled := fun _ => h.settled now
    sentEnd := fun at' => absurd at' notEnd
    closing := fun key => .inr ⟨(closing key).1, (closing key).2, next⟩
    lastOnly := h.lastOnly }

theorem Talking.fgets {t : TalkThread} {c : Bool} {l : Bytes} (h : Talking c t)
    (pc : t.pc = .fgets) (fits : l.length < bufferLen) (nulFree : 0 ∉ l) :
    Talking c (t.fgets (some l)) := by
  have noEnd := h.noEnd (.inl pc)
  have room : (l ++ [0]).length ≤ t.buffer.length := by
    rw [h.size, List.length_append, List.length_singleton]
    exact fits
  have cut : store t.buffer (l ++ [0]) = l ++ 0 :: t.buffer.drop (l ++ [0]).length := by
    simp [store]
  refine ⟨(store_length room).trans h.size, h.frames, fun _ => ⟨?_, ?_⟩, fun no => absurd rfl no,
    (by intro at'; cases at'), fun key => absurd key noEnd, h.lastOnly⟩
  · change 0 ∈ store t.buffer (l ++ [0])
    simp [cut]
  · change t.typed ++ [l] = t.sent.map text ++ [text (store t.buffer (l ++ [0]))]
    rw [cut, text_append_nul nulFree, h.settled (by simp [pc])]

theorem Talking.send {t : TalkThread} {c : Bool} (h : Talking c t) (pc : t.pc = .send) :
    Talking c t.send := by
  have noEnd := h.noEnd (.inr pc)
  have last : t.buffer ∈ t.sent ++ [t.buffer] := by simp
  refine ⟨h.size, ?_, fun at' => absurd at' t.send_pc_ne, fun _ => ?_, fun at' => ?_, ?_, ?_⟩
  · intro f hf
    rcases List.mem_append.mp hf with old | new
    · exact h.frames f old
    · rw [List.mem_singleton.mp new]
      exact ⟨h.size, (h.pending pc).1⟩
  · simp only [TalkThread.send, List.map_append, List.map_cons, List.map_nil, (h.pending pc).2]
  · refine ⟨t.buffer, last, ?_⟩
    by_contra no
    simp [TalkThread.send, no] at at'
  · rintro ⟨f, hf, key⟩
    rcases List.mem_append.mp hf with old | new
    · exact absurd ⟨f, old, key⟩ noEnd
    · rw [List.mem_singleton.mp new] at key
      exact .inl (by simp [TalkThread.send, key])
  · refine List.pairwise_append.mpr ⟨h.lastOnly, List.pairwise_singleton _ _, ?_⟩
    exact fun f hf _ _ key => noEnd ⟨f, hf, key⟩

theorem Hearing.moveTo {label : Bytes} {h : HearThread} {pc : HearPc} (inv : Hearing label h)
    (now : h.pc ≠ .setEnd ∧ h.pc ≠ .print) (next : pc ≠ .setEnd ∧ pc ≠ .print) :
    Hearing label { h with pc } :=
  { size := inv.size
    unread := fun at' => absurd at' (not_or.mpr next)
    shown := fun _ _ => inv.shown now.1 now.2
    heardEnd := fun at' => absurd at' next.1 }

theorem Hearing.recv {label : Bytes} {h : HearThread} {got : Bytes} (inv : Hearing label h)
    (pc : h.pc = .recv) (whole : got.length = bufferLen) : Hearing label (h.recv got) := by
  have buffer : store h.buffer got = got := store_full (whole.trans inv.size.symm)
  have shown := inv.shown (by simp [pc]) (by simp [pc])
  refine ⟨?_, fun _ => ?_, fun noEnd noPrint => ?_, fun at' => ⟨got, ?_, ?_⟩⟩
  · simp only [HearThread.recv, buffer, whole]
  · simp only [HearThread.recv, HearThread.output, buffer, List.map_append, shown, List.map_cons,
      List.map_nil, shownAs]
  · simp only [HearThread.recv] at noEnd noPrint
    split at noEnd <;> simp_all
  · simp [HearThread.recv]
  · by_contra no
    simp [HearThread.recv, buffer, no] at at'

theorem Hearing.print {label : Bytes} {h : HearThread} (inv : Hearing label h)
    (pc : h.pc = .print) : Hearing label (h.print label) :=
  { size := inv.size
    unread := fun at' => absurd at' (not_or.mpr ⟨nofun, nofun⟩)
    shown := fun _ _ => inv.unread (.inr pc)
    heardEnd := nofun }

theorem Talking.move {label : Bytes} {e e' : End} {tick : Tick} (h : Talking e.endCom e.talking)
    (typing : tick.typing) (move : End.Move label e tick e') : Talking e'.endCom e'.talking := by
  cases move with
  | listen | stopHearing | recv | print | clearHear => exact h
  | hearEnd pc => exact h.ended
  | ask pc running =>
      refine h.moveTo (by simp [pc]) (by decide) (by decide) fun key => ?_
      rcases h.closing key with at' | closed
      · exact absurd (pc.symm.trans at') (by decide)
      · exact absurd (closed.1.symm.trans running) (by decide)
  | stopTalking pc ended =>
      exact h.moveTo (by simp [pc]) (by decide) (by decide) fun _ => ⟨ended, by decide⟩
  | fgets pc returns =>
      obtain ⟨l, rfl, nulFree⟩ := typing
      exact h.fgets pc returns.2 nulFree
  | send pc => exact h.send pc
  | talkEnd pc => exact h.moveTo (by simp [pc]) (by decide) (by decide) fun _ => ⟨rfl, by decide⟩
  | clearTalk pc =>
      refine h.moveTo (by simp [pc]) (by decide) (by decide) fun key => ⟨?_, by decide⟩
      rcases h.closing key with at' | closed
      · exact absurd (pc.symm.trans at') (by decide)
      · exact closed.1

theorem Hearing.move {label : Bytes} {e e' : End} {tick : Tick} (h : Hearing label e.hearing)
    (whole : ∀ got ∈ tick.taken, got.length = bufferLen) (move : End.Move label e tick e') :
    Hearing label e'.hearing := by
  cases move with
  | listen pc _ | stopHearing pc _ | clearHear pc => exact h.moveTo (by simp [pc]) (by decide)
  | @recv got pc _ => exact h.recv pc (whole got List.mem_cons_self)
  | hearEnd pc => exact ⟨h.size, fun _ => h.unread (.inl pc), fun _ no => absurd rfl no, nofun⟩
  | print pc => exact h.print pc
  | ask | stopTalking | fgets | send | talkEnd | clearTalk => exact h

/-- One step of either thread, on whole frames and NUL-free lines. -/
theorem End.Sound.move {label : Bytes} {e e' : End} {tick : Tick} (h : e.Sound label)
    (regular : tick.regular) (move : Move label e tick e') : e'.Sound label := by
  obtain ⟨talking, hearing, cause⟩ := h
  have typing : tick.typing := by
    cases tick with
    | recv got => trivial
    | hear | talk | fgets => exact regular
  have whole : ∀ got ∈ tick.taken, got.length = bufferLen := by
    cases tick with
    | recv got =>
        intro frame mem
        rw [List.mem_singleton.mp mem]
        exact regular
    | hear | talk | fgets => nofun
  refine ⟨talking.move typing move, hearing.move whole move, fun ended => ?_⟩
  cases move with
  | recv pc _ =>
      obtain ⟨f, hf, key⟩ := cause ended
      exact ⟨f, hf.imp_right (List.mem_append_left _), key⟩
  | send pc =>
      obtain ⟨f, hf, key⟩ := cause ended
      exact ⟨f, hf.imp_left (List.mem_append_left _), key⟩
  | hearEnd pc =>
      obtain ⟨f, hf, key⟩ := hearing.heardEnd pc
      exact ⟨f, .inr hf, key⟩
  | talkEnd pc =>
      obtain ⟨f, hf, key⟩ := talking.sentEnd pc
      exact ⟨f, .inl hf, key⟩
  | @fgets line => cases line <;> exact cause ended
  | listen | stopHearing | print | clearHear | ask | stopTalking | clearTalk => exact cause ended

theorem Talking.start {talkBuffer : Bytes} (talk : talkBuffer.length = bufferLen) :
    Talking false { buffer := talkBuffer } := by
  refine ⟨talk, nofun, nofun, fun _ => rfl, nofun, ?_, .nil⟩
  rintro ⟨f, hf, _⟩
  cases hf

theorem End.sound_start {label hearBuffer talkBuffer : Bytes}
    (hear : hearBuffer.length = bufferLen) (talk : talkBuffer.length = bufferLen) :
    (End.start hearBuffer talkBuffer).Sound label :=
  ⟨.start talk, ⟨hear, fun at' => absurd at' (not_or.mpr ⟨nofun, nofun⟩), fun _ _ => rfl, nofun⟩,
    nofun⟩

/-- The invariant of the connection: every frame sent is either heard at the
other end or still on the wire. -/
structure Session.Sound (recvName : Side → Bytes) (s : Session) : Prop where
  ends : ∀ d, (s.ends d).Sound (chatLabel (recvName d))
  carried : ∀ d, (s.ends d.other).talking.sent = (s.ends d).hearing.heard ++ s.wire d

/-- The session is used with NUL-free standard input that does not end. -/
def typedLines (_ : Session) (event : Side × Tick) : Prop := event.2.typing

/-- No step loses or adds a frame between `send` and `recv`. -/
theorem Session.carried_step {recvName : Side → Bytes} {s t : Session} {event : Side × Tick}
    {c : Side} (h : (s.ends c.other).talking.sent = (s.ends c).hearing.heard ++ s.wire c)
    (step : s.step recvName event = some t) :
    (t.ends c.other).talking.sent = (t.ends c).hearing.heard ++ t.wire c := by
  obtain ⟨d, tick⟩ := event
  obtain ⟨e, inbox, move, wire, rfl⟩ := step_move step
  rcases c.eq_or_other d with rfl | rfl
  · simp only [put, Function.update_of_ne c.other_ne, Function.update_self,
      Function.update_of_ne c.ne_other, move.heard_eq, h, wire, List.append_assoc]
  · rw [Side.other_other] at h
    simp only [put, Side.other_other, Function.update_self, Function.update_of_ne d.other_ne]
    rw [← List.append_assoc, ← h, ← move.sent_append]

theorem Session.Sound.step {recvName : Side → Bytes} {s t : Session} {event : Side × Tick}
    (h : s.Sound recvName) (typing : typedLines s event)
    (step : s.step recvName event = some t) : t.Sound recvName := by
  obtain ⟨d, tick⟩ := event
  obtain ⟨e, inbox, move, wire, became⟩ := step_move step
  have regular : tick.regular := by
    cases tick with
    | recv got =>
        have flying : got ∈ (s.ends d.other).talking.sent := by
          rw [h.carried, wire]
          simp [Tick.taken]
        exact ((h.ends d.other).talking.frames got flying).1
    | hear | talk | fgets _ => exact typing
  have sound := (h.ends d).move regular move
  constructor
  · intro c
    subst became
    by_cases same : c = d
    · subst c
      simpa [put] using sound
    · simpa [put, same] using h.ends c
  · exact fun c => carried_step (h.carried c) step

theorem Session.sound_start {recvName hearBuffer talkBuffer : Side → Bytes}
    (hear : ∀ d, (hearBuffer d).length = bufferLen)
    (talk : ∀ d, (talkBuffer d).length = bufferLen) :
    (Session.start hearBuffer talkBuffer).Sound recvName :=
  ⟨fun d => End.sound_start (hear d) (talk d), fun _ => rfl⟩

end Chat
