import NetworksLab.ChatInput

/-! On which input `talk` ends the session at a line that begins with `#END`. It
tests every chunk, and a line longer than the buffer is more than one. -/
namespace Chat
open CString Transition

/-- A line begins at `p`. -/
def LineStart (stdin : Bytes) (p : Nat) : Prop := p = 0 ∨ stdin[p - 1]? = some 10

/-- A line that begins with `#END` begins at `p`. -/
structure EndLine (stdin : Bytes) (p : Nat) : Prop where
  start : LineStart stdin p
  key : startsWith (stdin.drop p) endKey = true

structure FirstEndLine (stdin : Bytes) (p : Nat) : Prop where
  here : EndLine stdin p
  earlier : ∀ q < p, ¬ EndLine stdin q

/-- Where chunk `k` begins. -/
def offset (stdin : Bytes) (k : Nat) : Nat := (lines stdin k).flatten.length

/-- `talk` sets `END_COM` at no place but the first line that begins with `#END`,
with everything in front of that line sent; if there is such a line, `END_COM` is
1 after a number of steps of `talk`; and `talk` can always take its next step. -/
structure EndsAtLine (label hearBuffer talkBuffer stdin : Bytes) : Prop where
  only : ∀ e, Reach (End.fedStep label stdin) anyStep (.start hearBuffer talkBuffer) e →
    e.talking.pc = .setEnd → ∃ p, FirstEndLine stdin p ∧ ∃ before last,
      e.talking.sent.map text = before ++ [last] ∧ before.flatten = stdin.take p ∧
        last <+: stdin.drop p ∧ startsWith last endKey = true
  ever : (∃ p, EndLine stdin p) → ∃ n, ∀ es e,
    run (End.fedStep label stdin) (.start hearBuffer talkBuffer) es = some e →
      n ≤ es.countP Tick.ofTalk → e.endCom = true
  goesOn : ∀ e, Reach (End.fedStep label stdin) anyStep (.start hearBuffer talkBuffer) e →
    e.talking.pc ≠ .done → ∃ tick, tick.ofTalk = true ∧ (e.fedStep label stdin tick).isSome = true

section
variable {label stdin hearBuffer talkBuffer : Bytes} {e e' : End} {tick : Tick} {k p : Nat}

theorem line_isPrefix (stdin : Bytes) (k : Nat) : line stdin k <+: stdin.drop (offset stdin k) := by
  rw [offset, lines, ← Pieces.rest_eq_drop]
  exact Pieces.piece_isPrefix _ _

/-- The keyword fits into a chunk and holds no newline. -/
theorem startsWith_chunk (stdin : Bytes) (k : Nat) :
    startsWith (line stdin k) endKey = startsWith (stdin.drop (offset stdin k)) endKey := by
  rw [offset, lines, ← Pieces.rest_eq_drop, Bool.eq_iff_iff]
  unfold startsWith
  rw [List.isPrefixOf_iff_prefix, List.isPrefixOf_iff_prefix]
  apply Pieces.prefix_piece (by decide)
  intro a mem
  apply decide_eq_false
  rintro rfl
  exact absurd mem (by decide)

theorem lines_flatten (stdin : Bytes) (k : Nat) :
    (lines stdin k).flatten = stdin.take (offset stdin k) :=
  List.prefix_iff_eq_take.mp ⟨_, Pieces.pieces_flatten _ stdin k⟩

theorem offset_mono {i : Nat} (le : i ≤ k) : offset stdin i ≤ offset stdin k := by
  obtain ⟨more, whole⟩ : lines stdin i <+: lines stdin k := Firsts.map_range_mono _ le
  rw [offset, offset, ← whole, List.flatten_append, List.length_append]
  exact Nat.le_add_right _ _

theorem EndLine.le_length (h : EndLine stdin p) : p ≤ stdin.length := by
  by_contra beyond
  have key := h.key
  rw [List.drop_eq_nil_of_le (Nat.le_of_lt (Nat.lt_of_not_le beyond))] at key
  cases key

/-- No chunk reaches over the start of a line. -/
theorem EndLine.exists_chunk (h : EndLine stdin p) :
    ∃ k, offset stdin k = p ∧ startsWith (line stdin k) endKey = true := by
  have starts : p = 0 ∨ ∃ a, stdin[p - 1]? = some a ∧ newline a = true :=
    h.start.imp_right fun before => ⟨10, before, rfl⟩
  obtain ⟨k, offset⟩ := Pieces.exists_offset (n := bufferLen - 1) (by decide) h.le_length starts
  refine ⟨k, offset, ?_⟩
  rw [startsWith_chunk, Chat.offset, lines, offset]
  exact h.key

theorem FirstEnd.firstEndLine (first : FirstEnd stdin k) (start : LineStart stdin (offset stdin k)) :
    FirstEndLine stdin (offset stdin k) := by
  refine ⟨⟨start, startsWith_chunk stdin k ▸ first.ends⟩, fun q below early => ?_⟩
  obtain ⟨i, rfl, key⟩ := early.exists_chunk
  have before : i < k := by
    by_contra late
    exact absurd below (Nat.not_lt.mpr (offset_mono (Nat.le_of_not_lt late)))
  exact absurd (key.symm.trans (first.goesOn i before)) (by decide)

/-- Where some chunk holds the keyword, `talk` works on the lines through it. -/
theorem reading_of_reach (first : FirstEnd stdin k) (nulFree : 0 ∉ stdin)
    (size : talkBuffer.length = bufferLen)
    (reached : Reach (End.fedStep label stdin) anyStep (.start hearBuffer talkBuffer) e) :
    Reading stdin e.endCom e.talking ∧ (e.talking.pc.out = true → e.endCom = true) := by
  have start : Reading stdin false { buffer := talkBuffer } := ⟨.start size, rfl⟩
  apply reached.invariant ⟨start, nofun⟩
  intro e tick e' h _ step
  obtain ⟨fed, move⟩ := End.fedStep_move step
  refine ⟨h.1.move first nulFree ?_ move, move.out_endCom h.2⟩
  rintro l rfl
  exact fed

/-- The keyword frame is the one behind the chunks before it. -/
theorem Reading.sent_lines {t : TalkThread} {c : Bool} (h : Reading stdin c t)
    (first : FirstEnd stdin k) (pc : t.pc = .setEnd) :
    t.sent.map text = lines stdin k ++ [line stdin k] := by
  have beyond : k < t.sent.length := (h.sentEnd_iff first).mp (h.talking.sentEnd pc)
  have all : t.sent.length = k + 1 := Nat.le_antisymm (h.sent_bound first) beyond
  rw [h.sent_text, all]
  exact Pieces.pieces_succ _ _ k

/-- While `END_COM` is 0 the keyword is not behind `talk`. -/
theorem Reading.progress_le {t : TalkThread} (h : Reading stdin false t)
    (first : FirstEnd stdin k) (inside : t.pc.out = false) : t.progress ≤ 4 * k + 4 := by
  have bound := h.sent_bound first
  by_cases ending : t.pc = .setEnd
  · simp only [TalkThread.progress, ending]
    omega
  · have early : ¬ k < t.sent.length := by
      intro beyond
      rcases h.talking.closing ((h.sentEnd_iff first).mpr beyond) with at' | ⟨ended, _⟩
      · exact ending at'
      · cases ended
    cases pc : t.pc with
    | setEnd => exact absurd pc ending
    | setTalk | done => exact absurd (pc ▸ inside) (by decide)
    | test | fgets | send =>
        simp only [TalkThread.progress, pc]
        omega

theorem endCom_of_ticks {es : List Tick} (first : FirstEnd stdin k) (nulFree : 0 ∉ stdin)
    (size : talkBuffer.length = bufferLen)
    (reached : run (End.fedStep label stdin) (.start hearBuffer talkBuffer) es = some e)
    (ticks : 4 * k + 4 ≤ es.countP Tick.ofTalk) : e.endCom = true := by
  have count : (End.start hearBuffer talkBuffer).talking.progress + es.countP Tick.ofTalk ≤
      e.talking.progress := by
    refine run_count_le (μ := fun e => e.talking.progress) (I := fun _ => True) trivial ?_ reached
    exact fun _ _ _ _ step => ⟨trivial, (End.fedStep_move step).2.talk_progress⟩
  obtain ⟨reading, out⟩ := reading_of_reach first nulFree size (reach_of_run reached)
  have began : (End.start hearBuffer talkBuffer).talking.progress = 1 := rfl
  by_contra running
  rw [Bool.not_eq_true] at running
  rw [running] at reading out
  have inside : e.talking.pc.out = false := Bool.eq_false_iff.mpr (nofun ∘ out)
  have bound := reading.progress_le first inside
  omega

theorem talk_enabled (label stdin : Bytes) (e : End) (going : e.talking.pc ≠ .done) :
    ∃ tick, Tick.ofTalk tick = true ∧ (e.fedStep label stdin tick).isSome = true := by
  cases pc : e.talking.pc with
  | done => exact absurd pc going
  | fgets =>
      refine ⟨.fgets (nextLine stdin e.talking.typed), rfl, ?_⟩
      have returns := nextLine_returns stdin e.talking.typed
      simp [End.fedStep, End.fed, End.step, End.fgetsStep, pc, returns]
  | test | send | setEnd | setTalk =>
      exact ⟨.talk, rfl, by simp [End.fedStep, End.fed, End.step, End.talkStep, pc]⟩

/-- No chunk begins with the keyword, and the buffer does not hold it either
where it is tested. -/
structure Endless (stdin : Bytes) (t : TalkThread) : Prop where
  typed : t.typed <+: chunks stdin
  pc : t.pc ≠ .setEnd
  buffer : startsWith t.buffer endKey = false ∨ t.typed = [] ∧ stdin ≠ [] ∧ t.pc ≠ .send

theorem Endless.move (h : Endless stdin e.talking)
    (noKey : ∀ l ∈ chunks stdin, startsWith l endKey = false) (fed : e.fed stdin tick)
    (move : End.Move label e tick e') : Endless stdin e'.talking := by
  have typed : e'.talking.typed <+: chunks stdin := move.typed_isPrefix h.typed fed
  rcases move.talking_cases with same | ⟨pc, _, next, noEnd, same⟩ | ⟨l, rfl, pc, same⟩ | ⟨pc, same⟩
  · exact same ▸ h
  · rw [same] at typed ⊢
    exact ⟨typed, noEnd, h.buffer.imp_right fun early => ⟨early.1, early.2.1, next⟩⟩
  · rw [same] at typed ⊢
    cases l with
    | none =>
        refine ⟨typed, nofun, .inl (h.buffer.resolve_right ?_)⟩
        rintro ⟨first, some, _⟩
        have eof : none = (chunks stdin)[0]? := by
          have next := fed.trans (nextLine_eq h.typed)
          rwa [first] at next
        have empty : chunks stdin = [] := List.length_eq_zero_iff.mp
          (Nat.le_zero.mp (List.getElem?_eq_none_iff.mp eof.symm))
        have whole : (chunks stdin).flatten = stdin := Pieces.all_flatten (by decide) stdin
        rw [empty] at whole
        exact some whole.symm
    | some l =>
        have mem : l ∈ chunks stdin :=
          typed.subset (List.mem_append_right _ List.mem_cons_self)
        refine ⟨typed, nofun, .inl ?_⟩
        exact (startsWith_line _ l).trans (noKey l mem)
  · rw [same] at typed ⊢
    have noEnd : startsWith e.talking.buffer endKey = false :=
      h.buffer.resolve_right fun early => early.2.2 pc
    exact ⟨typed, by simp [TalkThread.send, noEnd], .inl noEnd⟩

theorem endless_of_reach (noKey : ∀ l ∈ chunks stdin, startsWith l endKey = false)
    (noise : stdin = [] → startsWith talkBuffer endKey = false)
    (reached : Reach (End.fedStep label stdin) anyStep (.start hearBuffer talkBuffer) e) :
    Endless stdin e.talking := by
  have start : Endless stdin { buffer := talkBuffer } := by
    refine ⟨List.nil_prefix, nofun, ?_⟩
    by_cases empty : stdin = []
    · exact .inl (noise empty)
    · exact .inr ⟨rfl, empty, nofun⟩
  apply reached.invariant start
  intro e tick e' h _ step
  obtain ⟨fed, move⟩ := End.fedStep_move step
  exact h.move noKey fed move

theorem exists_keyword (label hearBuffer talkBuffer : Bytes) (first : FirstEnd stdin k) :
    ∃ es e, run (End.fedStep label stdin) (.start hearBuffer talkBuffer) es = some e ∧
      e.talking.pc = .setEnd := by
  have next : (chunks stdin)[k]? = some (line stdin k) :=
    Pieces.getElem?_all (by decide) first.rest_ne_nil
  have below : k < (chunks stdin).length := (List.getElem?_eq_some_iff.mp next).1
  have earlier : (chunks stdin).take k = lines stdin k := by
    have cut := Pieces.eq_pieces_of_all (by decide) (List.take_prefix k (chunks stdin))
    rwa [List.length_take_of_le (Nat.le_of_lt below)] at cut
  have goesOn : ∀ l ∈ (chunks stdin).take k, startsWith l endKey = false := by
    rw [earlier]
    intro l mem
    obtain ⟨i, before, rfl⟩ := List.mem_map.mp mem
    exact first.goesOn i (List.mem_range.mp before)
  obtain ⟨es, e, before, waiting⟩ :=
    exists_waiting label hearBuffer talkBuffer goesOn (Nat.le_of_lt below)
  obtain ⟨fs, e', after, _, _, _, pc⟩ := waiting.round label next
  exact ⟨es ++ fs, e', run_trans before after, pc.trans (if_pos first.ends)⟩

/-- What the input has in front of the line is what the chunks before the
keyword hold. -/
theorem EndsAtLine.lineStart (h : EndsAtLine label hearBuffer talkBuffer stdin)
    (nulFree : 0 ∉ stdin) (size : talkBuffer.length = bufferLen) (first : FirstEnd stdin k) :
    LineStart stdin (offset stdin k) := by
  obtain ⟨es, e, ran, pc⟩ := exists_keyword label hearBuffer talkBuffer first
  have reached := reach_of_run ran
  obtain ⟨p, firstLine, before, last, sent, taken, _⟩ := h.only e reached pc
  have texts := (reading_of_reach first nulFree size reached).1.sent_lines first pc
  rw [sent] at texts
  obtain ⟨rfl, _⟩ := List.append_inj' texts rfl
  have same : offset stdin k = p := by
    rw [offset, taken, List.length_take_of_le firstLine.here.le_length]
  exact same ▸ firstLine.here.start

/-- Without any input the first frame is what the buffer held before. -/
theorem EndsAtLine.noise (h : EndsAtLine label hearBuffer talkBuffer []) :
    startsWith talkBuffer endKey = false := by
  rw [Bool.eq_false_iff]
  intro key
  have ran : run (End.fedStep label []) (.start hearBuffer talkBuffer)
      [.talk, .fgets none, .talk] = some _ := End.talk_round rfl rfl rfl
  obtain ⟨p, firstLine, _⟩ := h.only _ (reach_of_run ran) (if_pos key)
  have none := firstLine.here.key
  rw [List.drop_nil] at none
  cases none

end

/-- On NUL-free input, and under any interleaving with `hear`, `talk` keeps to
the lines exactly if the first chunk that begins with `#END`, where there is one,
begins a line, and the buffer does not hold `#END` when there is no input. -/
theorem ends_at_line (label hearBuffer talkBuffer stdin : Bytes) (nulFree : 0 ∉ stdin)
    (size : talkBuffer.length = bufferLen) :
    EndsAtLine label hearBuffer talkBuffer stdin ↔
      (∀ k, FirstEnd stdin k → LineStart stdin (offset stdin k)) ∧
        (stdin = [] → startsWith talkBuffer endKey = false) := by
  constructor
  · intro h
    refine ⟨fun k first => h.lineStart nulFree size first, ?_⟩
    rintro rfl
    exact h.noise
  · rintro ⟨atStart, noise⟩
    refine ⟨fun e reached pc => ?_, ?_, fun e _ going => talk_enabled label stdin e going⟩
    · by_cases keyed : ∃ i, startsWith (line stdin i) endKey = true
      · obtain ⟨k, first⟩ := exists_firstEnd keyed
        have reading := (reading_of_reach first nulFree size reached).1
        exact ⟨offset stdin k, first.firstEndLine (atStart k first), lines stdin k, line stdin k,
          reading.sent_lines first pc, lines_flatten stdin k, line_isPrefix stdin k, first.ends⟩
      · have noKey : ∀ l ∈ chunks stdin, startsWith l endKey = false := by
          intro l mem
          obtain ⟨i, rfl⟩ := exists_line mem
          exact Bool.eq_false_iff.mpr fun key => keyed ⟨i, key⟩
        exact absurd pc (endless_of_reach noKey noise reached).pc
    · rintro ⟨p, here⟩
      obtain ⟨i, _, key⟩ := here.exists_chunk
      obtain ⟨k, first⟩ := exists_firstEnd ⟨i, key⟩
      exact ⟨4 * k + 4, fun es e ran ticks => endCom_of_ticks first nulFree size ran ticks⟩

theorem ends_at_line_hi : EndsAtLine (ascii "PEER: ") (List.replicate bufferLen 1)
    (List.replicate bufferLen 1) (ascii "hi\n#END\n") := by
  apply (ends_at_line _ _ _ _ (by decide) List.length_replicate).mpr
  refine ⟨fun k first => ?_, by decide⟩
  have one : k = 1 := by
    rcases Nat.lt_trichotomy k 1 with less | same | more
    · obtain rfl : k = 0 := Nat.lt_one_iff.mp less
      exact absurd first.ends (by decide)
    · exact same
    · exact absurd (first.goesOn 1 more) (by decide)
  subst one
  exact .inr (by decide)

/-- A line that fills the buffer and goes on with `#END`. -/
def longLine : Bytes := List.replicate (bufferLen - 1) 97 ++ ascii "#END\n"

/-- `talk` sets `END_COM` although no line begins with `#END`. -/
theorem longLine_ends :
    (∀ p, ¬ EndLine longLine p) ∧
    (∃ es e, run (End.fedStep (ascii "PEER: ") longLine)
      (.start (List.replicate bufferLen 1) (List.replicate bufferLen 1)) es = some e ∧
        e.talking.pc = .setEnd) ∧
    ¬ EndsAtLine (ascii "PEER: ") (List.replicate bufferLen 1) (List.replicate bufferLen 1)
      longLine := by
  have noLine : ∀ p, ¬ EndLine longLine p := by
    intro p here
    have none : ∀ q ≤ longLine.length, (q = 0 ∨ longLine[q - 1]? = some 10) →
        startsWith (longLine.drop q) endKey = false := by decide +kernel
    exact absurd (here.key.symm.trans (none p here.le_length here.start)) (by decide)
  have ended : (run (End.fedStep (ascii "PEER: ") longLine)
      (.start (List.replicate bufferLen 1) (List.replicate bufferLen 1))
      [.talk, .fgets (some (List.replicate (bufferLen - 1) 97)), .talk, .talk,
        .fgets (some (ascii "#END\n")), .talk]).map (fun e => e.talking.pc) = some .setEnd := by
    decide +kernel
  obtain ⟨e, ran, pc⟩ := Option.map_eq_some_iff.mp ended
  refine ⟨noLine, ⟨_, e, ran, pc⟩, fun h => ?_⟩
  obtain ⟨p, firstLine, _⟩ := h.only e (reach_of_run ran) pc
  exact noLine p firstLine.here

end Chat
