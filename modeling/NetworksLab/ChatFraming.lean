import Mathlib.Data.Nat.Find
import NetworksLab.ChatCompletion
import NetworksLab.ChatMonitor
import NetworksLab.Pieces

/-! One direction of the chat: the lines typed at one end are the texts that
the other end prints. -/
namespace Chat
open CString Transition

def newline (b : Byte) : Bool := b = 10

/-- What `fgets(buffer, BUFFER_LEN, stdin)` returns at its call `i`. -/
def line (stdin : Bytes) (i : Nat) : Bytes := Pieces.pieceAt newline (bufferLen - 1) stdin i

def lines (stdin : Bytes) (k : Nat) : List Bytes := Pieces.pieces newline (bufferLen - 1) stdin k

/-- The line after those already typed, NULL at the end of the input. -/
def nextLine (stdin : Bytes) (typed : List Bytes) : Option Bytes :=
  Pieces.next newline (bufferLen - 1) (stdin.drop typed.flatten.length)

/-- Line `k` is the first that begins with `#END`. -/
structure FirstEnd (stdin : Bytes) (k : Nat) : Prop where
  ends : startsWith (line stdin k) endKey = true
  goesOn : ∀ i < k, startsWith (line stdin i) endKey = false

theorem exists_firstEnd {stdin : Bytes} (ends : ∃ i, startsWith (line stdin i) endKey = true) :
    ∃ k, FirstEnd stdin k :=
  ⟨Nat.find ends, Nat.find_spec ends, fun _ below => Bool.eq_false_iff.mpr (Nat.find_min ends below)⟩

theorem line_length (stdin : Bytes) (i : Nat) : (line stdin i).length < bufferLen :=
  Nat.lt_of_le_of_lt (Pieces.piece_length_le _ _) (by decide)

theorem line_nulFree {stdin : Bytes} (nulFree : 0 ∉ stdin) (i : Nat) : 0 ∉ line stdin i := by
  intro zero
  have left := (Pieces.piece_isPrefix _ _).subset zero
  rw [Pieces.rest_eq_drop] at left
  exact nulFree (List.mem_of_mem_drop left)

theorem FirstEnd.rest_ne_nil {stdin : Bytes} {k : Nat} (first : FirstEnd stdin k) :
    Pieces.rest newline (bufferLen - 1) stdin k ≠ [] := by
  intro none
  have ends := first.ends
  rw [line, Pieces.pieceAt, none] at ends
  cases ends

theorem FirstEnd.next {stdin : Bytes} {j k : Nat} (first : FirstEnd stdin k) (le : j ≤ k) :
    nextLine stdin (lines stdin j) = some (line stdin j) ∧ line stdin j ≠ [] := by
  have more := Pieces.rest_ne_nil le first.rest_ne_nil
  refine ⟨?_, Pieces.piece_ne_nil (by decide) more⟩
  rw [nextLine, lines, ← Pieces.rest_eq_drop, Pieces.next_eq_some more, line, Pieces.pieceAt]

/-- The first `j` lines hold the one that ends the chat if they go beyond it. -/
theorem FirstEnd.mem_lines {stdin : Bytes} {j k : Nat} (first : FirstEnd stdin k) :
    (∃ l ∈ lines stdin j, startsWith l endKey = true) ↔ k < j := by
  constructor
  · rintro ⟨l, mem, key⟩
    obtain ⟨i, below, rfl⟩ := List.mem_map.mp mem
    by_contra short
    have before : i < k := Nat.lt_of_lt_of_le (List.mem_range.mp below) (Nat.le_of_not_lt short)
    exact absurd (key.symm.trans (first.goesOn i before)) (by decide)
  · intro beyond
    exact ⟨line stdin k, Pieces.mem_pieces _ _ beyond, first.ends⟩

/-- At most one line is sent after all lines that go on. -/
theorem FirstEnd.lines_bound {stdin : Bytes} {j k : Nat} (first : FirstEnd stdin k)
    (lastOnly : (lines stdin j).Pairwise fun l _ => ¬ startsWith l endKey) : j ≤ k + 1 := by
  by_contra long
  have next : k + 1 < (lines stdin j).length := by
    rw [lines, Pieces.pieces_length]
    omega
  have early := List.pairwise_iff_getElem.mp lastOnly k (k + 1) (Nat.lt_of_succ_lt next) next
    (Nat.lt_succ_self k)
  have same : (lines stdin j)[k] = line stdin k := by simp [lines, Pieces.pieces, line]
  exact early (same ▸ first.ends)

/-- The lines of a thread are those of its standard input. -/
structure Reading (stdin : Bytes) (endCom : Bool) (t : TalkThread) : Prop where
  talking : Talking endCom t
  typed : t.typed = lines stdin t.typed.length

/-- An end at which `talk` alone sets `END_COM`, and whose lines are those of
its standard input. -/
structure End.Typing (stdin : Bytes) (e : End) : Prop where
  talking : Talking e.endCom e.talking
  typed : e.talking.typed = lines stdin e.talking.typed.length
  cause : e.endCom = true → ∃ f ∈ e.talking.sent, startsWith f endKey
  out : e.talking.pc.out = true → e.endCom = true

/-- An end at which `hear` alone sets `END_COM`. -/
structure End.Listening (label : Bytes) (e : End) : Prop where
  hearing : Hearing label e.hearing
  cause : e.endCom = true → ∃ f ∈ e.hearing.heard, startsWith f endKey
  closing : (∃ f ∈ e.hearing.heard, startsWith f endKey) →
    e.hearing.pc = .setEnd ∨ e.endCom = true ∧ e.hearing.pc ≠ .recv
  out : e.hearing.pc.out = true → e.endCom = true

theorem endKey_nulFree : 0 ∉ endKey := by decide

theorem ends_map_text {frames : List Bytes} :
    (∃ l ∈ frames.map text, startsWith l endKey = true) ↔ ∃ f ∈ frames, startsWith f endKey := by
  simp only [List.mem_map, exists_exists_and_eq_and, startsWith_text endKey_nulFree]

section
variable {stdin : Bytes} {e e' : End} {k : Nat} {label : Bytes} {tick : Tick}

theorem Reading.sent_text {t : TalkThread} {c : Bool} (h : Reading stdin c t) :
    t.sent.map text = lines stdin t.sent.length := by
  have begins : t.sent.map text <+: t.typed := by
    rcases h.talking.typed_eq with all | ⟨last, most⟩
    · exact all ▸ List.prefix_rfl
    · exact ⟨[last], most.symm⟩
  rw [h.typed] at begins
  have cut := Pieces.eq_pieces begins
  rwa [List.length_map] at cut

theorem Reading.sent_bound {t : TalkThread} {c : Bool} (h : Reading stdin c t)
    (first : FirstEnd stdin k) : t.sent.length ≤ k + 1 := by
  apply first.lines_bound
  rw [← h.sent_text, List.pairwise_map]
  apply h.talking.lastOnly.imp
  intro f _ no
  rwa [startsWith_text endKey_nulFree]

theorem Reading.sentEnd_iff {t : TalkThread} {c : Bool} (h : Reading stdin c t)
    (first : FirstEnd stdin k) :
    (∃ f ∈ t.sent, startsWith f endKey) ↔ k < t.sent.length := by
  rw [← ends_map_text, h.sent_text, first.mem_lines]

/-- The call of `fgets` returns the next line, and that line exists. -/
theorem Reading.asks {t : TalkThread} {c : Bool} (h : Reading stdin c t)
    (first : FirstEnd stdin k) (pc : t.pc = .fgets) :
    ∃ j, t.typed = lines stdin j ∧ nextLine stdin t.typed = some (line stdin j) ∧
      line stdin j ≠ [] := by
  have noEnd := h.talking.noEnd (.inl pc)
  have all : t.typed = lines stdin t.sent.length := by
    rw [← h.sent_text]
    exact h.talking.settled (by simp [pc])
  have le : t.sent.length ≤ k := by
    rw [h.sentEnd_iff first] at noEnd
    omega
  refine ⟨_, all, ?_⟩
  rw [all]
  exact first.next le

/-- Up to the first line with `#END`, whatever sets `END_COM`. -/
theorem Reading.move (h : Reading stdin e.endCom e.talking) (first : FirstEnd stdin k)
    (nulFree : 0 ∉ stdin) (reads : ∀ l, tick = .fgets l → l = nextLine stdin e.talking.typed)
    (move : End.Move label e tick e') : Reading stdin e'.endCom e'.talking := by
  have typing : tick.typing := by
    cases move with
    | @fgets l pc _ =>
        obtain ⟨j, _, next, _⟩ := h.asks first pc
        exact ⟨line stdin j, (reads l rfl).trans next, line_nulFree nulFree j⟩
    | _ => trivial
  refine ⟨h.talking.move typing move, ?_⟩
  cases move with
  | @fgets l pc _ =>
      obtain ⟨j, all, next, _⟩ := h.asks first pc
      obtain rfl := (reads l rfl).trans next
      have more : e.talking.typed ++ [line stdin j] = lines stdin (j + 1) := by
        rw [all]
        exact (Pieces.pieces_succ _ _ j).symm
      have count : (e.talking.typed ++ [line stdin j]).length = j + 1 := by
        rw [more]
        exact Pieces.pieces_length _ _ _
      change e.talking.typed ++ [line stdin j] = lines stdin (_ ++ [_]).length
      rw [count, more]
  | _ => exact h.typed

theorem End.Typing.reading (h : e.Typing stdin) : Reading stdin e.endCom e.talking :=
  ⟨h.talking, h.typed⟩

/-- A thread out of its loop has seen `END_COM`, which stays set. -/
theorem End.Move.out_endCom (move : Move label e tick e')
    (before : e.talking.pc.out = true → e.endCom = true) (out : e'.talking.pc.out = true) :
    e'.endCom = true := by
  rcases move.talk_out out with already | ⟨_, _, ended, _⟩
  · exact move.endCom_mono (before already)
  · exact move.endCom_mono ended

theorem End.Typing.move (h : e.Typing stdin) (first : FirstEnd stdin k) (nulFree : 0 ∉ stdin)
    (reads : ∀ l, tick = .fgets l → l = nextLine stdin e.talking.typed)
    (alone : tick = .hear → e.hearing.pc ≠ .setEnd) (move : Move label e tick e') :
    e'.Typing stdin := by
  obtain ⟨talking, typed⟩ := h.reading.move first nulFree reads move
  refine ⟨talking, typed, ?_, move.out_endCom h.out⟩
  intro ended
  cases move with
  | hearEnd pc => exact absurd pc (alone rfl)
  | send pc =>
      obtain ⟨f, hf, key⟩ := h.cause ended
      exact ⟨f, List.mem_append_left _ hf, key⟩
  | talkEnd pc => exact h.talking.sentEnd pc
  | @fgets l _ _ => cases l <;> exact h.cause ended
  | _ => exact h.cause ended

/-- Away from the branch for `#END`, a thread that has heard it has seen it. -/
theorem End.Listening.closed (h : e.Listening label)
    (key : ∃ f ∈ e.hearing.heard, startsWith f endKey) (pc : e.hearing.pc ≠ .setEnd) :
    e.endCom = true ∧ e.hearing.pc ≠ .recv := (h.closing key).resolve_left pc

theorem End.Listening.move (h : e.Listening label)
    (whole : ∀ got ∈ tick.taken, got.length = bufferLen)
    (alone : tick = .talk → e.talking.pc ≠ .setEnd) (move : Move label e tick e') :
    e'.Listening label := by
  refine ⟨h.hearing.move whole move, ?_, ?_, ?_⟩
  · intro ended
    cases move with
    | talkEnd pc => exact absurd pc (alone rfl)
    | recv pc _ =>
        obtain ⟨f, hf, key⟩ := h.cause ended
        exact ⟨f, List.mem_append_left _ hf, key⟩
    | hearEnd pc => exact h.hearing.heardEnd pc
    | _ => exact h.cause ended
  · intro key
    cases move with
    | talkEnd pc => exact absurd pc (alone rfl)
    | listen pc running =>
        have ended := (h.closed key (by simp [pc])).1
        exact absurd (ended.symm.trans running) (by decide)
    | stopHearing pc ended => exact .inr ⟨ended, by simp⟩
    | @recv got pc _ =>
        have early : ¬ ∃ f ∈ e.hearing.heard, startsWith f endKey := fun key =>
          (h.closed key (by simp [pc])).2 pc
        obtain ⟨f, hf, key⟩ := key
        rcases List.mem_append.mp hf with old | new
        · exact absurd ⟨f, old, key⟩ early
        · have full : got.length = e.hearing.buffer.length :=
            (whole got List.mem_cons_self).trans h.hearing.size.symm
          rw [List.mem_singleton.mp new] at key
          exact .inl (by simp [HearThread.recv, store_full full, key])
    | hearEnd pc => exact .inr ⟨rfl, by simp⟩
    | print pc | clearHear pc => exact .inr ⟨(h.closed key (by simp [pc])).1, by simp [HearThread.print]⟩
    | _ => exact h.closing key
  · intro out
    rcases move.hear_out out with already | ⟨_, _, ended, _⟩
    · exact move.endCom_mono (h.out already)
    · exact move.endCom_mono ended

end

/-- Grows with every step of `talk`. -/
def TalkThread.progress (t : TalkThread) : Nat :=
  4 * t.sent.length + match t.pc with
    | .setEnd => 0
    | .test => 1
    | .fgets => 2
    | .send => 3
    | .setTalk => 4
    | .done => 5

/-- Grows with every step of `hear`. -/
def HearThread.progress (h : HearThread) : Nat :=
  4 * h.heard.length + match h.pc with
    | .setEnd => 0
    | .print => 1
    | .test => 2
    | .recv => 3
    | .setHear => 4
    | .done => 5

def Tick.ofTalk : Tick → Bool
  | .talk | .fgets _ => true
  | .hear | .recv _ => false

theorem TalkThread.progress_le (t : TalkThread) : t.progress ≤ 4 * t.sent.length + 5 := by
  unfold progress
  cases t.pc <;> simp

theorem HearThread.progress_le (h : HearThread) : h.progress ≤ 4 * h.heard.length + 5 := by
  unfold progress
  cases h.pc <;> simp

theorem TalkThread.progress_send {t : TalkThread} (pc : t.pc = .send) :
    t.progress < t.send.progress := by
  by_cases key : startsWith t.buffer endKey <;> simp [progress, send, pc, key] <;> omega

theorem HearThread.progress_recv {h : HearThread} (pc : h.pc = .recv) (got : Bytes) :
    h.progress < (h.recv got).progress := by
  by_cases key : startsWith (store h.buffer got) endKey <;>
    simp [progress, recv, pc, key] <;> omega

theorem End.Move.talk_progress {label : Bytes} {s t : End} {tick : Tick}
    (move : Move label s tick t) :
    s.talking.progress + (if tick.ofTalk then 1 else 0) ≤ t.talking.progress := by
  cases move with
  | ask pc | stopTalking pc | talkEnd pc | clearTalk pc =>
      simp [TalkThread.progress, Tick.ofTalk, pc]
  | @fgets line pc => cases line <;> simp [TalkThread.progress, TalkThread.fgets, Tick.ofTalk, pc]
  | send pc => exact TalkThread.progress_send pc
  | _ => exact Nat.le_refl _

theorem End.Move.hear_progress {label : Bytes} {s t : End} {tick : Tick}
    (move : Move label s tick t) :
    s.hearing.progress + (if tick.ofTalk then 0 else 1) ≤ t.hearing.progress := by
  cases move with
  | listen pc | stopHearing pc | hearEnd pc | clearHear pc =>
      simp [HearThread.progress, Tick.ofTalk, pc]
  | @recv got pc => exact HearThread.progress_recv pc got
  | print pc => simp [HearThread.progress, HearThread.print, Tick.ofTalk, pc]
  | _ => exact Nat.le_refl _

/-- `stdin` is the standard input of end `d`, and nothing sets `END_COM` at
either end but `talk` at `d` and `hear` at the other. -/
def Session.oneWay (stdin : Bytes) (d : Side) (s : Session) : Side × Tick → Prop
  | (c, .fgets l) => c = d → l = nextLine stdin (s.ends d).talking.typed
  | (c, .hear) => c = d → (s.ends d).hearing.pc ≠ .setEnd
  | (c, .talk) => c = d.other → (s.ends d.other).talking.pc ≠ .setEnd
  | (_, .recv _) => True

instance (stdin : Bytes) (d : Side) (s : Session) (event : Side × Tick) :
    Decidable (s.oneWay stdin d event) :=
  match event with
  | (_, .fgets _) | (_, .hear) | (_, .talk) => inferInstanceAs (Decidable (_ → _))
  | (_, .recv _) => inferInstanceAs (Decidable True)

def Session.oneWayStep (recvName : Side → Bytes) (stdin : Bytes) (d : Side) (s : Session)
    (event : Side × Tick) : Option Session :=
  if s.oneWay stdin d event then s.step recvName event else none

/-- A step of `talk` at `d` or of `hear` at the other end. -/
def ofDirection (d : Side) (event : Side × Tick) : Bool :=
  if event.2.ofTalk then event.1 = d else event.1 = d.other

def Session.progress (d : Side) (s : Session) : Nat :=
  (s.ends d).talking.progress + (s.ends d.other).hearing.progress

/-- The invariant of the direction from `d`. -/
structure Session.Framed (recvName : Side → Bytes) (stdin : Bytes) (d : Side) (s : Session) :
    Prop where
  typing : (s.ends d).Typing stdin
  listening : (s.ends d.other).Listening (chatLabel (recvName d.other))
  carried : (s.ends d).talking.sent = (s.ends d.other).hearing.heard ++ s.wire d.other

section
variable {recvName : Side → Bytes} {stdin : Bytes} {d : Side} {s t : Session} {k : Nat}
  {event : Side × Tick}

theorem Session.progress_step (step : s.step recvName event = some t) :
    s.progress d + (if ofDirection d event then 1 else 0) ≤ t.progress d := by
  obtain ⟨c, tick⟩ := event
  obtain ⟨e, inbox, move, _, rfl⟩ := step_move step
  have talk := move.talk_progress
  have hear := move.hear_progress
  rcases c.eq_or_other d with rfl | rfl
  · cases kind : tick.ofTalk <;> simp [progress, put, ofDirection, kind] at talk hear ⊢ <;> omega
  · cases kind : tick.ofTalk <;> simp [progress, put, ofDirection, kind] at talk hear ⊢ <;> omega

theorem Session.Framed.step (h : s.Framed recvName stdin d) (first : FirstEnd stdin k)
    (nulFree : 0 ∉ stdin) (step : s.oneWayStep recvName stdin d event = some t) :
    t.Framed recvName stdin d := by
  rw [oneWayStep, Option.ite_none_right_eq_some] at step
  obtain ⟨allowed, step⟩ := step
  have carried := carried_step (c := d.other) (by simpa using h.carried) step
  obtain ⟨c, tick⟩ := event
  obtain ⟨e, inbox, move, wire, rfl⟩ := step_move step
  rw [Side.other_other] at carried
  refine ⟨?_, ?_, carried⟩
  · rcases c.eq_or_other d with rfl | rfl
    · have typing : e.Typing stdin := by
        apply h.typing.move first nulFree _ _ move
        · rintro l rfl
          exact allowed rfl
        · rintro rfl
          exact allowed rfl
      simpa [put] using typing
    · simpa [put] using h.typing
  · rcases c.eq_or_other d with rfl | rfl
    · simpa [put] using h.listening
    · have listening : e.Listening (chatLabel (recvName d.other)) := by
        apply h.listening.move _ _ move
        · intro got taken
          apply (h.typing.talking.frames got _).1
          rw [h.carried, wire]
          exact List.mem_append_right _ (List.mem_append_left _ taken)
        · rintro rfl
          exact allowed rfl
      simpa [put] using listening

theorem Session.framed_start {hearBuffer talkBuffer : Side → Bytes}
    (hear : ∀ d, (hearBuffer d).length = bufferLen)
    (talk : ∀ d, (talkBuffer d).length = bufferLen) :
    (Session.start hearBuffer talkBuffer).Framed recvName stdin d := by
  refine ⟨⟨.start (talk d), rfl, nofun, nofun⟩,
    ⟨(End.sound_start (hear d.other) (talk d.other)).hearing, nofun, ?_, nofun⟩, rfl⟩
  rintro ⟨f, hf, _⟩
  cases hf

theorem Session.Framed.heard_prefix (h : s.Framed recvName stdin d) :
    (s.ends d.other).hearing.heard <+: (s.ends d).talking.sent := ⟨_, h.carried.symm⟩

theorem Session.Framed.heard_text (h : s.Framed recvName stdin d) :
    (s.ends d.other).hearing.heard.map text = lines stdin (s.ends d.other).hearing.heard.length := by
  have begins := h.heard_prefix.map text
  rw [h.typing.reading.sent_text] at begins
  have cut := Pieces.eq_pieces begins
  rwa [List.length_map] at cut

theorem Session.Framed.shown (h : s.Framed recvName stdin d) :
    (s.ends d.other).hearing.heard.map (shownAs (chatLabel (recvName d.other))) =
      (lines stdin (s.ends d.other).hearing.heard.length).map
        fun l => some (chatLabel (recvName d.other) ++ l) := by
  rw [map_shownAs, h.heard_text]
  intro f heard
  exact (h.typing.talking.frames f (h.heard_prefix.subset heard)).2

/-- The frame with `#END` is the last one in both histories. -/
theorem Session.Framed.heard_all (h : s.Framed recvName stdin d) (first : FirstEnd stdin k)
    (key : ∃ f ∈ (s.ends d.other).hearing.heard, startsWith f endKey) :
    (s.ends d.other).hearing.heard = (s.ends d).talking.sent ∧
      (s.ends d).talking.sent.length = k + 1 := by
  rw [← ends_map_text, h.heard_text, first.mem_lines] at key
  have most := h.heard_prefix.length_le
  have bound := h.typing.reading.sent_bound first
  exact ⟨h.heard_prefix.eq_of_length (by omega), by omega⟩

theorem Session.Framed.talk_out (h : s.Framed recvName stdin d) (first : FirstEnd stdin k)
    (out : (s.ends d).talking.pc.out = true) : (s.ends d).talking.sent.length = k + 1 := by
  have beyond := (h.typing.reading.sentEnd_iff first).mp (h.typing.cause (h.typing.out out))
  have bound := h.typing.reading.sent_bound first
  omega

theorem Session.Framed.talk_goes_on (h : s.Framed recvName stdin d) (first : FirstEnd stdin k)
    (going : (s.ends d).talking.pc ≠ .done) :
    ∃ event, ofDirection d event = true ∧
      (s.oneWayStep recvName stdin d event).isSome = true := by
  cases pc : (s.ends d).talking.pc with
  | done => exact absurd pc going
  | fgets =>
      obtain ⟨j, _, next, some⟩ := h.typing.reading.asks first pc
      refine ⟨(d, .fgets (Option.some (line stdin j))), by simp [ofDirection, Tick.ofTalk], ?_⟩
      have returns : fgetsReturns (Option.some (line stdin j)) := ⟨some, line_length stdin j⟩
      simp [oneWayStep, oneWay, next, Session.step, End.step, End.fgetsStep, pc, returns]
  | test | send | setEnd | setTalk =>
      refine ⟨(d, .talk), by simp [ofDirection, Tick.ofTalk], ?_⟩
      simp [oneWayStep, oneWay, Session.step, End.step, End.talkStep, pc]

/-- Once `talk` has ended, `hear` does not wait for a frame in vain. -/
theorem Session.Framed.hear_goes_on (h : s.Framed recvName stdin d)
    (ended : (s.ends d).talking.pc = .done) (going : (s.ends d.other).hearing.pc ≠ .done) :
    ∃ event, ofDirection d event = true ∧
      (s.oneWayStep recvName stdin d event).isSome = true := by
  cases pc : (s.ends d.other).hearing.pc with
  | done => exact absurd pc going
  | recv =>
      cases wire : s.wire d.other with
      | nil =>
          have cause := h.typing.cause (h.typing.out (by rw [ended]; rfl))
          have carried := h.carried
          rw [wire, List.append_nil] at carried
          rw [carried] at cause
          exact absurd pc (h.listening.closed cause (by simp [pc])).2
      | cons frame rest =>
          refine ⟨(d.other, .recv frame), by simp [ofDirection, Tick.ofTalk], ?_⟩
          have flying : frame ∈ (s.ends d).talking.sent := by
            rw [h.carried, wire]
            exact List.mem_append_right _ List.mem_cons_self
          have fits := Nat.le_of_eq (h.typing.talking.frames frame flying).1
          simp [oneWayStep, oneWay, Session.step, wire, End.step, End.recvStep, pc, fits]
  | test | setEnd | print | setHear =>
      refine ⟨(d.other, .hear), by simp [ofDirection, Tick.ofTalk], ?_⟩
      simp [oneWayStep, oneWay, Session.step, End.step, End.hearStep, pc]

theorem Session.Framed.goes_on (h : s.Framed recvName stdin d) (first : FirstEnd stdin k)
    (going : (s.ends d).talking.pc ≠ .done ∨ (s.ends d.other).hearing.pc ≠ .done) :
    ∃ event, ofDirection d event = true ∧
      (s.oneWayStep recvName stdin d event).isSome = true := by
  by_cases ended : (s.ends d).talking.pc = .done
  · exact h.hear_goes_on ended (going.resolve_left (not_not_intro ended))
  · exact h.talk_goes_on first ended

/-- What the end `d` has sent of the lines up to line `k`, and what the other
end has made of it. -/
structure Session.Conveys (recvName : Side → Bytes) (stdin : Bytes) (d : Side) (k : Nat)
    (s : Session) : Prop where
  frames : ∀ f ∈ (s.ends d).talking.sent, f.length = bufferLen
  sent : (s.ends d).talking.sent.map read =
    (lines stdin (s.ends d).talking.sent.length).map some
  sentBound : (s.ends d).talking.sent.length ≤ k + 1
  heard : (s.ends d.other).hearing.heard <+: (s.ends d).talking.sent
  printed : (s.ends d.other).hearing.printed <+:
    (lines stdin (s.ends d.other).hearing.heard.length).map
      fun l => some (chatLabel (recvName d.other) ++ l)
  talkDone : (s.ends d).talking.pc = .done → (s.ends d).talking.sent.length = k + 1
  hearDone : (s.ends d.other).hearing.pc = .done →
    (s.ends d.other).hearing.heard = (s.ends d).talking.sent ∧
      (s.ends d).talking.sent.length = k + 1 ∧
      (s.ends d.other).hearing.printed =
        (lines stdin (k + 1)).map fun l => some (chatLabel (recvName d.other) ++ l)
  goesOn : (s.ends d).talking.pc ≠ .done ∨ (s.ends d.other).hearing.pc ≠ .done →
    ∃ event, ofDirection d event = true ∧ (s.oneWayStep recvName stdin d event).isSome = true

theorem Session.Framed.conveys (h : s.Framed recvName stdin d) (first : FirstEnd stdin k) :
    s.Conveys recvName stdin d k := by
  refine ⟨fun f sent => (h.typing.talking.frames f sent).1, ?_, h.typing.reading.sent_bound first,
    h.heard_prefix, ?_, fun ended => h.talk_out first (by rw [ended]; rfl), fun ended => ?_,
    h.goes_on first⟩
  · rw [← h.typing.reading.sent_text, List.map_map]
    apply List.map_congr_left
    intro f sent
    exact read_of_mem (h.typing.talking.frames f sent).2
  · rw [← h.shown]
    exact h.listening.hearing.printed_prefix
  · have cause := h.listening.cause (h.listening.out (by rw [ended]; rfl))
    obtain ⟨all, count⟩ := h.heard_all first cause
    refine ⟨all, count, ?_⟩
    rw [← h.listening.hearing.shown (by simp [ended]) (by simp [ended]), h.shown, all, count]

/-- Steps of the two threads in a run. -/
theorem Session.Framed.steps_bound (h : s.Framed recvName stdin d) (first : FirstEnd stdin k) :
    s.progress d ≤ 8 * k + 18 := by
  have talk := (s.ends d).talking.progress_le
  have hear := (s.ends d.other).hearing.progress_le
  have bound := h.typing.reading.sent_bound first
  have most := h.heard_prefix.length_le
  unfold progress
  omega

end

/-- On any NUL-free input with a line that begins with `#END`, one frame is sent
for each line through the first of these, the other end recovers and prints
exactly these lines, and both threads stop there, within a bounded number of
their own steps. Together the lines are a prefix of the input. -/
theorem typed_is_heard (recvName hearBuffer talkBuffer : Side → Bytes) (stdin : Bytes)
    (hear : ∀ d, (hearBuffer d).length = bufferLen)
    (talk : ∀ d, (talkBuffer d).length = bufferLen) (nulFree : 0 ∉ stdin)
    (ends : ∃ i, startsWith (line stdin i) endKey = true) (d : Side) :
    ∃ k, FirstEnd stdin k ∧ (lines stdin (k + 1)).flatten <+: stdin ∧
      ∀ es s, run (Session.oneWayStep recvName stdin d) (.start hearBuffer talkBuffer) es = some s →
        s.Conveys recvName stdin d k ∧ es.countP (ofDirection d) ≤ 8 * k + 15 := by
  obtain ⟨k, first⟩ := exists_firstEnd ends
  refine ⟨k, first, ⟨_, Pieces.pieces_flatten _ stdin (k + 1)⟩, fun es s reached => ?_⟩
  have start : (Session.start hearBuffer talkBuffer).Framed recvName stdin d :=
    Session.framed_start hear talk
  have framed : s.Framed recvName stdin d :=
    (reach_of_run reached).invariant start fun _ _ _ h _ step => h.step first nulFree step
  have count : (Session.start hearBuffer talkBuffer).progress d + es.countP (ofDirection d) ≤
      s.progress d := by
    refine run_count_le start (fun t event u h step => ?_) reached
    exact ⟨h.step first nulFree step,
      Session.progress_step (Option.ite_none_right_eq_some.mp step).2⟩
  have began : (Session.start hearBuffer talkBuffer).progress d = 3 := rfl
  have bound := framed.steps_bound first
  exact ⟨framed.conveys first, by omega⟩

/-- The client types a line and `#END` behind it, in buffers that hold no NUL. -/
def hiThenEnd : List (Side × Tick) :=
  let frame (l : String) (rest : Bytes) : Bytes := store rest (ascii l ++ [0])
  let hi := frame "hi\n" (List.replicate bufferLen 1)
  [(.client, .talk), (.client, .fgets (some (ascii "hi\n"))), (.client, .talk), (.client, .talk),
    (.client, .fgets (some (ascii "#END\n"))), (.client, .talk), (.server, .hear),
    (.server, .recv hi), (.server, .hear), (.client, .talk), (.client, .talk), (.client, .talk),
    (.server, .hear), (.server, .recv (frame "#END\n" hi)), (.server, .hear), (.server, .hear),
    (.server, .hear), (.server, .hear)]

theorem hiThenEnd_done : (run (Session.oneWayStep (fun _ => ascii "PEER") (ascii "hi\n#END\n") .client)
    (.start (fun _ => List.replicate bufferLen 1) fun _ => List.replicate bufferLen 1) hiThenEnd).map
      (fun s => (s.ends .server).hearing.pc) = some .done := by decide +kernel

theorem typed_is_heard_hi :
    ∃ k s, FirstEnd (ascii "hi\n#END\n") k ∧
      run (Session.oneWayStep (fun _ => ascii "PEER") (ascii "hi\n#END\n") .client)
        (.start (fun _ => List.replicate bufferLen 1) fun _ => List.replicate bufferLen 1)
        hiThenEnd = some s ∧
      (s.ends .server).hearing.printed = (lines (ascii "hi\n#END\n") (k + 1)).map
        fun l => some (chatLabel (ascii "PEER") ++ l) := by
  obtain ⟨s, reached, done⟩ := Option.map_eq_some_iff.mp hiThenEnd_done
  obtain ⟨k, first, _, runs⟩ := typed_is_heard (fun _ => ascii "PEER")
    (fun _ => List.replicate bufferLen 1) (fun _ => List.replicate bufferLen 1)
    (ascii "hi\n#END\n") (fun _ => List.length_replicate) (fun _ => List.length_replicate)
    (by decide) ⟨1, by decide⟩ .client
  exact ⟨k, s, first, reached, ((runs _ s reached).1.hearDone done).2.2⟩

end Chat
