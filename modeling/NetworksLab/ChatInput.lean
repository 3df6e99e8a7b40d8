import Mathlib.Data.List.Infix
import NetworksLab.ChatFraming

/-! `talk` on a standard input that ends. From there on `fgets` returns NULL and
leaves the buffer as it is, and `talk` does not look at what `fgets` returned. -/
namespace Chat
open CString Transition

/-- What `fgets(buffer, BUFFER_LEN, stdin)` returns before it returns NULL. -/
def chunks (stdin : Bytes) : List Bytes := Pieces.all newline (bufferLen - 1) stdin

/-- `fgets` returns what `stdin` holds next. -/
def End.fed (stdin : Bytes) (e : End) : Tick → Prop
  | .fgets l => l = nextLine stdin e.talking.typed
  | _ => True

instance (stdin : Bytes) (e : End) (tick : Tick) : Decidable (e.fed stdin tick) :=
  match tick with
  | .fgets _ => inferInstanceAs (Decidable (_ = _))
  | .hear | .recv _ | .talk => inferInstanceAs (Decidable True)

def End.fedStep (label stdin : Bytes) (e : End) (tick : Tick) : Option End :=
  if e.fed stdin tick then e.step label tick else none

/-- `fgets` does not find the end of the input. -/
def beforeEof (_ : End) (tick : Tick) : Prop := tick ≠ .fgets none

/-- What is sent are the first chunks, as texts. -/
def SentOnce (stdin : Bytes) (t : TalkThread) : Prop :=
  t.sent.map text <+: (chunks stdin).map text

section
variable {label stdin : Bytes} {e e' : End} {tick : Tick} {t : TalkThread} {l : Bytes}

theorem nextLine_eq {typed : List Bytes} (begins : typed <+: chunks stdin) :
    nextLine stdin typed = (chunks stdin)[typed.length]? :=
  Pieces.next_eq_getElem? (by decide) begins

theorem exists_line (mem : l ∈ chunks stdin) : ∃ i, line stdin i = l :=
  Pieces.exists_of_mem_all mem

theorem End.fedStep_move (step : e.fedStep label stdin tick = some e') :
    e.fed stdin tick ∧ End.Move label e tick e' := by
  rw [fedStep, Option.ite_none_right_eq_some] at step
  exact ⟨step.1, End.step_move step.2⟩

theorem text_line (b l : Bytes) : text (store b (l ++ [0])) = text l := by
  have nul : (0 : Byte) ∈ l ++ [0] := List.mem_append_right _ List.mem_cons_self
  rw [store, text_append_of_mem nul]
  by_cases inside : 0 ∈ l
  · exact text_append_of_mem inside _
  · rw [text_append_nul inside, text_eq_self.mpr inside]

/-- The keyword test sees the line that `fgets` stored. -/
theorem startsWith_line (b l : Bytes) :
    startsWith (store b (l ++ [0])) endKey = startsWith l endKey := by
  rw [← startsWith_text endKey_nulFree, text_line, startsWith_text endKey_nulFree]

/-- What a step does to the stack of `talk`. -/
theorem End.Move.talking_cases (move : Move label e tick e') :
    e'.talking = e.talking ∨
    (∃ pc, e.talking.pc ≠ .send ∧ pc ≠ .send ∧ pc ≠ .setEnd ∧ e'.talking = { e.talking with pc }) ∨
    (∃ l, tick = .fgets l ∧ e.talking.pc = .fgets ∧ e'.talking = e.talking.fgets l) ∨
    (e.talking.pc = .send ∧ e'.talking = e.talking.send) := by
  cases move with
  | ask pc | stopTalking pc | talkEnd pc | clearTalk pc =>
      exact .inr (.inl ⟨_, by simp [pc], by decide, by decide, rfl⟩)
  | @fgets l pc _ => exact .inr (.inr (.inl ⟨l, rfl, pc, rfl⟩))
  | send pc => exact .inr (.inr (.inr ⟨pc, rfl⟩))
  | _ => exact .inl rfl

/-- The lines that `fgets` has returned are the first chunks. -/
theorem End.Move.typed_isPrefix (move : Move label e tick e')
    (begins : e.talking.typed <+: chunks stdin) (fed : e.fed stdin tick) :
    e'.talking.typed <+: chunks stdin := by
  rcases move.talking_cases with same | ⟨pc, _, _, _, same⟩ | ⟨l, rfl, _, same⟩ | ⟨_, same⟩
  · rwa [same]
  · rwa [same]
  · rw [same]
    cases l with
    | none => exact begins
    | some l =>
        have next : (chunks stdin)[e.talking.typed.length]? = some l :=
          (nextLine_eq begins).symm.trans fed.symm
        obtain ⟨below, value⟩ := List.getElem?_eq_some_iff.mp next
        exact value ▸ List.concat_get_prefix begins below
  · rwa [same]

/-- Before the end of the input every frame carries a chunk of its own. -/
structure Fresh (stdin : Bytes) (t : TalkThread) : Prop where
  typed : t.typed <+: chunks stdin
  pending : t.pc = .send → t.typed.map text = t.sent.map text ++ [text t.buffer]
  settled : t.pc ≠ .send → t.typed.map text = t.sent.map text

theorem Fresh.move (h : Fresh stdin e.talking) (fed : e.fed stdin tick)
    (more : beforeEof e tick) (move : End.Move label e tick e') : Fresh stdin e'.talking := by
  have typed : e'.talking.typed <+: chunks stdin := move.typed_isPrefix h.typed fed
  rcases move.talking_cases with same | ⟨pc, now, next, _, same⟩ | ⟨l, rfl, pc, same⟩ | ⟨pc, same⟩
  · exact same ▸ h
  · rw [same] at typed ⊢
    exact ⟨typed, fun at' => absurd at' next, fun _ => h.settled now⟩
  · rw [same] at typed ⊢
    cases l with
    | none => exact absurd rfl more
    | some l =>
        refine ⟨typed, fun _ => ?_, fun no => absurd rfl no⟩
        simp only [TalkThread.fgets, List.map_append, List.map_cons, List.map_nil, text_line,
          h.settled (by simp [pc] : e.talking.pc ≠ .send)]
  · rw [same] at typed ⊢
    refine ⟨typed, fun at' => absurd at' e.talking.send_pc_ne, fun _ => ?_⟩
    simp only [TalkThread.send, List.map_append, List.map_cons, List.map_nil, h.pending pc]

theorem Fresh.sentOnce (h : Fresh stdin t) : SentOnce stdin t := by
  have sent : t.sent.map text <+: t.typed.map text := by
    by_cases at' : t.pc = .send
    · exact ⟨_, (h.pending at').symm⟩
    · exact h.settled at' ▸ List.prefix_rfl
  exact sent.trans (h.typed.map text)

/-- As many frames as chunks, at most. -/
theorem SentOnce.length_le (h : SentOnce stdin t) : t.sent.length ≤ (chunks stdin).length := by
  have most := List.IsPrefix.length_le h
  rwa [List.length_map, List.length_map] at most

/-- What is sent and what is in the buffer to be sent. -/
def TalkThread.frames (t : TalkThread) : Nat :=
  t.sent.length + if t.pc = .send then 1 else 0

theorem TalkThread.frames_fgets (pc : t.pc = .fgets) (l : Option Bytes) :
    (t.fgets l).frames = t.frames + 1 := by
  cases l <;> simp [frames, fgets, pc]

theorem TalkThread.frames_send (pc : t.pc = .send) : t.send.frames = t.frames := by
  rw [frames, frames, if_pos pc, if_neg t.send_pc_ne]
  exact List.length_append

/-- A line that is typed goes into a frame, and no frame is taken back. -/
theorem End.Move.frames_le (move : Move label e tick e') :
    e.talking.frames ≤ e'.talking.frames ∧
      e'.talking.typed.length + e.talking.frames ≤ e.talking.typed.length + e'.talking.frames := by
  rcases move.talking_cases with same | ⟨pc, now, next, _, same⟩ | ⟨l, _, pc, same⟩ | ⟨pc, same⟩
  · simp [same]
  · have kept : e'.talking.frames = e.talking.frames := by
      rw [same, TalkThread.frames, TalkThread.frames, if_neg now, if_neg next]
    rw [kept, same]
    exact ⟨Nat.le_refl _, Nat.le_refl _⟩
  · rw [same, TalkThread.frames_fgets pc]
    cases l with
    | none => exact ⟨Nat.le_succ _, Nat.le_succ _⟩
    | some l =>
        simp only [TalkThread.fgets, List.length_append, List.length_singleton]
        omega
  · rw [same, TalkThread.frames_send pc]
    exact ⟨Nat.le_refl _, Nat.le_refl _⟩

/-- NULL means that all chunks are typed, and makes one frame more. -/
theorem End.Move.past_eof (move : Move label e (.fgets none) e')
    (fed : e.fed stdin (.fgets none)) (begins : e.talking.typed <+: chunks stdin)
    (before : e.talking.typed.length ≤ e.talking.frames) :
    (chunks stdin).length < e'.talking.frames := by
  cases move with
  | fgets pc _ =>
      have none : (chunks stdin)[e.talking.typed.length]? = none :=
        (nextLine_eq begins).symm.trans fed.symm
      have all := List.getElem?_eq_none_iff.mp none
      have more := TalkThread.frames_fgets pc Option.none
      change _ < (e.talking.fgets Option.none).frames
      omega

end

section
variable {label stdin hearBuffer talkBuffer l : Bytes} {es : List Tick} {e : End} {j : Nat}

theorem nextLine_returns (stdin : Bytes) (typed : List Bytes) :
    fgetsReturns (nextLine stdin typed) := by
  unfold nextLine
  by_cases none : stdin.drop typed.flatten.length = []
  · rw [none]
    trivial
  · rw [Pieces.next_eq_some none]
    have short : (Pieces.piece newline (bufferLen - 1) (stdin.drop typed.flatten.length)).length ≤
        bufferLen - 1 := Pieces.piece_length_le _ _
    exact ⟨Pieces.piece_ne_nil (by decide) none, Nat.lt_of_le_of_lt short (by decide)⟩

/-- Once around the loop of `talk`. -/
theorem End.talk_round (pc : e.talking.pc = .test) (running : e.endCom = false)
    {l : Option Bytes} (fed : l = nextLine stdin e.talking.typed) :
    run (End.fedStep label stdin) e [.talk, .fgets l, .talk] =
      some { e with talking := (TalkThread.fgets { e.talking with pc := .fgets } l).send } := by
  have returns : fgetsReturns l := fed ▸ nextLine_returns stdin e.talking.typed
  have next : (TalkThread.fgets { e.talking with pc := .fgets } l).pc = .send := by cases l <;> rfl
  simp [run, fedStep, End.fed, End.step, talkStep, fgetsStep, pc, running, returns, ← fed, next]

/-- The first `j` chunks are sent, and `talk` is about to test `END_COM`. -/
structure End.Waiting (stdin : Bytes) (j : Nat) (e : End) : Prop where
  pc : e.talking.pc = .test
  running : e.endCom = false
  typed : e.talking.typed = (chunks stdin).take j
  sent : e.talking.sent.map text = ((chunks stdin).take j).map text

theorem End.Waiting.round (label : Bytes) (h : e.Waiting stdin j) (next : (chunks stdin)[j]? = some l) :
    ∃ es e', run (End.fedStep label stdin) e es = some e' ∧ e'.endCom = false ∧
      e'.talking.typed = (chunks stdin).take (j + 1) ∧
      e'.talking.sent.map text = ((chunks stdin).take (j + 1)).map text ∧
      e'.talking.pc = if startsWith l endKey then .setEnd else .test := by
  have below : j < (chunks stdin).length := (List.getElem?_eq_some_iff.mp next).1
  have begins : e.talking.typed <+: chunks stdin := h.typed ▸ List.take_prefix _ _
  have count : e.talking.typed.length = j := by
    rw [h.typed, List.length_take_of_le (Nat.le_of_lt below)]
  have fed : some l = nextLine stdin e.talking.typed := by
    rw [nextLine_eq begins, count, next]
  have more : (chunks stdin).take (j + 1) = (chunks stdin).take j ++ [l] := by
    rw [List.take_add_one, next]
    rfl
  refine ⟨_, _, End.talk_round h.pc h.running fed, h.running, ?_, ?_, ?_⟩
  · rw [more, ← h.typed]
    rfl
  · rw [more, List.map_append, ← h.sent]
    simp [TalkThread.send, TalkThread.fgets, text_line]
  · simp only [TalkThread.send, TalkThread.fgets, startsWith_line]

theorem exists_waiting (label hearBuffer talkBuffer : Bytes)
    (goesOn : ∀ l ∈ (chunks stdin).take j, startsWith l endKey = false)
    (le : j ≤ (chunks stdin).length) :
    ∃ es e, run (End.fedStep label stdin) (.start hearBuffer talkBuffer) es = some e ∧
      e.Waiting stdin j := by
  induction j with
  | zero => exact ⟨[], _, rfl, rfl, rfl, rfl, rfl⟩
  | succ j ih =>
      have next : (chunks stdin)[j]? = some (chunks stdin)[j] := List.getElem?_eq_getElem le
      have more : (chunks stdin).take (j + 1) = (chunks stdin).take j ++ [(chunks stdin)[j]] := by
        rw [List.take_add_one, next]
        rfl
      rw [more] at goesOn
      obtain ⟨es, e, before, waiting⟩ :=
        ih (fun l mem => goesOn l (List.mem_append_left _ mem)) (Nat.le_of_succ_le le)
      obtain ⟨fs, e', after, running, typed, sent, pc⟩ := waiting.round label next
      have noKey := goesOn _ (List.mem_append_right _ List.mem_cons_self)
      refine ⟨es ++ fs, e', run_trans before after, ?_, running, typed, sent⟩
      rw [pc, noKey]
      rfl

theorem fresh_of_reach
    (reached : Reach (End.fedStep label stdin) beforeEof (.start hearBuffer talkBuffer) e) :
    Fresh stdin e.talking := by
  have start : Fresh stdin (End.start hearBuffer talkBuffer).talking :=
    ⟨List.nil_prefix, nofun, fun _ => rfl⟩
  apply reached.invariant start
  intro e tick e' h more step
  obtain ⟨fed, move⟩ := End.fedStep_move step
  exact h.move fed more move

/-- The facts about the lines that hold on both sides of the end of the input. -/
theorem typed_of_reach
    (reached : Reach (End.fedStep label stdin) anyStep (.start hearBuffer talkBuffer) e) :
    e.talking.typed <+: chunks stdin ∧ e.talking.typed.length ≤ e.talking.frames := by
  apply reached.invariant ⟨List.nil_prefix, Nat.zero_le _⟩
  intro e tick e' h _ step
  obtain ⟨fed, move⟩ := End.fedStep_move step
  have grown := move.frames_le.2
  exact ⟨move.typed_isPrefix h.1 fed, by omega⟩

/-- Once NULL has been returned there are more frames than chunks. -/
theorem frames_past_eof (null : .fgets none ∈ es)
    (reached : run (End.fedStep label stdin) (.start hearBuffer talkBuffer) es = some e) :
    (chunks stdin).length < e.talking.frames := by
  obtain ⟨before, after, rfl⟩ := List.append_of_mem null
  rw [run_append] at reached
  obtain ⟨e₁, first, rest⟩ := Option.bind_eq_some_iff.mp reached
  obtain ⟨e₂, one, last⟩ := Option.bind_eq_some_iff.mp rest
  obtain ⟨fed, move⟩ := End.fedStep_move one
  obtain ⟨begins, behind⟩ := typed_of_reach (reach_of_run first)
  apply (reach_of_run last).invariant (move.past_eof fed begins behind)
  intro s tick t h _ step
  exact Nat.lt_of_lt_of_le h (End.fedStep_move step).2.frames_le.1

theorem not_sentOnce_past_eof (null : .fgets none ∈ es) (pc : e.talking.pc ≠ .send)
    (reached : run (End.fedStep label stdin) (.start hearBuffer talkBuffer) es = some e) :
    (chunks stdin).length < e.talking.sent.length ∧ ¬ SentOnce stdin e.talking := by
  have more : (chunks stdin).length < e.talking.frames := frames_past_eof null reached
  rw [TalkThread.frames, if_neg pc] at more
  exact ⟨more, fun once => absurd once.length_le (Nat.not_le.mpr more)⟩

theorem chunk_nulFree (nulFree : 0 ∉ stdin) (mem : l ∈ chunks stdin) : 0 ∉ l := by
  obtain ⟨i, rfl⟩ := exists_line mem
  exact line_nulFree nulFree i

theorem chunks_text (nulFree : 0 ∉ stdin) : (chunks stdin).map text = chunks stdin := by
  have same : (chunks stdin).map text = (chunks stdin).map id := by
    apply List.map_congr_left
    intro l mem
    exact text_eq_self.mpr (chunk_nulFree nulFree mem)
  rw [same, List.map_id]

end

/-- On every input without `#END` some run goes beyond the end of the input.
Before it the texts sent are the first chunks, whatever `hear` does. From there
on `talk` sends its old buffer again, and there are more frames than chunks. -/
theorem sent_once (label stdin hearBuffer talkBuffer : Bytes)
    (goesOn : ∀ l ∈ chunks stdin, startsWith l endKey = false) :
    (∃ es e, run (End.fedStep label stdin) (.start hearBuffer talkBuffer) es = some e ∧
      ¬ SentOnce stdin e.talking) ∧
    ∀ es e, run (End.fedStep label stdin) (.start hearBuffer talkBuffer) es = some e →
      (.fgets none ∉ es → SentOnce stdin e.talking ∧
        (0 ∉ stdin → e.talking.sent.map text <+: chunks stdin) ∧
        e.talking.sent.length ≤ (chunks stdin).length) ∧
      (.fgets none ∈ es → e.talking.pc ≠ .send →
        (chunks stdin).length < e.talking.sent.length ∧ ¬ SentOnce stdin e.talking) := by
  constructor
  · obtain ⟨es, e, before, waiting⟩ := exists_waiting label hearBuffer talkBuffer
      (fun l mem => goesOn l (List.mem_of_mem_take mem)) (Nat.le_refl (chunks stdin).length)
    have typed : e.talking.typed = chunks stdin := waiting.typed.trans (List.take_length ..)
    have eof : none = nextLine stdin e.talking.typed := by
      rw [nextLine_eq (typed ▸ List.prefix_rfl), typed, List.getElem?_length]
    have reached := run_trans before (End.talk_round waiting.pc waiting.running eof)
    exact ⟨_, _, reached, (not_sentOnce_past_eof (by simp) (TalkThread.send_pc_ne _) reached).2⟩
  · intro es e reached
    refine ⟨fun noNull => ?_, fun null pc => not_sentOnce_past_eof null pc reached⟩
    have fresh : Fresh stdin e.talking := by
      apply fresh_of_reach
      exact reach_of_run_events (fun tick mem => ne_of_mem_of_not_mem mem noNull) reached
    have once : SentOnce stdin e.talking := fresh.sentOnce
    refine ⟨once, fun nulFree => ?_, once.length_le⟩
    rwa [SentOnce, chunks_text nulFree] at once

/-- One line and the end of the input, with buffers that hold no NUL. -/
def hiThenEof : List Tick :=
  [.talk, .fgets (some (ascii "hi\n")), .talk, .talk, .fgets none, .talk]

theorem sent_once_hi :
    (∃ es e, run (End.fedStep (ascii "PEER: ") (ascii "hi\n"))
      (.start (List.replicate bufferLen 1) (List.replicate bufferLen 1)) es = some e ∧
        ¬ SentOnce (ascii "hi\n") e.talking) ∧
    ∀ e, run (End.fedStep (ascii "PEER: ") (ascii "hi\n"))
      (.start (List.replicate bufferLen 1) (List.replicate bufferLen 1)) (hiThenEof.take 3) = some e →
        e.talking.sent.map text <+: chunks (ascii "hi\n") := by
  obtain ⟨beyond, runs⟩ := sent_once (ascii "PEER: ") (ascii "hi\n")
    (List.replicate bufferLen 1) (List.replicate bufferLen 1) (by decide)
  exact ⟨beyond, fun e reached => ((runs _ e reached).1 (by decide)).2.1 (by decide)⟩

/-- The only line is sent twice. -/
theorem hi_twice : ∃ e,
    run (End.fedStep (ascii "PEER: ") (ascii "hi\n"))
      (.start (List.replicate bufferLen 1) (List.replicate bufferLen 1)) hiThenEof = some e ∧
    (∀ l ∈ chunks (ascii "hi\n"), startsWith l endKey = false) ∧
    chunks (ascii "hi\n") = [ascii "hi\n"] ∧
    e.talking.sent.map text = [ascii "hi\n", ascii "hi\n"] ∧
    ¬ e.talking.sent.map text <+: chunks (ascii "hi\n") := by
  have sent : (run (End.fedStep (ascii "PEER: ") (ascii "hi\n"))
      (.start (List.replicate bufferLen 1) (List.replicate bufferLen 1)) hiThenEof).map
        (fun e => e.talking.sent.map text) = some [ascii "hi\n", ascii "hi\n"] := by decide +kernel
  obtain ⟨e, reached, texts⟩ := Option.map_eq_some_iff.mp sent
  refine ⟨e, reached, by decide, by decide, texts, ?_⟩
  rw [texts]
  decide

end Chat
