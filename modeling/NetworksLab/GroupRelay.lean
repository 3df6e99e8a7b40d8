import NetworksLab.GroupServer
import NetworksLab.Segments

/-! A shout on the receiving side: the frame is ten bytes longer than its text,
the buffer of the client that reads it is not. -/
namespace GroupChat
open CString Transition Segments
open Chat (bufferLen endKey End Tick)

/-- What the hear loop of a client does with each `recv`. -/
def hearTicks (cuts : List Bytes) : List Tick :=
  cuts.flatMap fun got => [.hear, .recv got, .hear]

/-- From its loop test on, `hear` takes the whole frame, prints strings that add
up to `message`, and is back at its test with `END_COM` 0. -/
def hearsExactly (client : End) (frame message : Bytes) : Prop :=
  ∃ after, run (End.step []) client (hearTicks (cutUp bufferLen frame)) = some after ∧
    after.endCom = false ∧ after.hearing.pc = .test ∧
    ∃ texts : List Bytes, texts.flatten = message ∧
      after.hearing.printed = client.hearing.printed ++ texts.map some

theorem labelled_nulFree {t : Bytes} (id : Nat) (nulFree : 0 ∉ t) : 0 ∉ labelled id t := by
  simp only [labelled, List.mem_append, not_or]
  exact ⟨⟨⟨by decide, decimal_nulFree id⟩, by decide⟩, nulFree⟩

/-- One turn of the hear loop on a piece that does not start with `#END`. -/
theorem hear_turn {client : End} (running : client.endCom = false)
    (pc : client.hearing.pc = .test) {got : Bytes} (fits : got.length ≤ bufferLen)
    (plain : startsWith (store client.hearing.buffer got) endKey = false) (more : List Tick) :
    run (End.step []) client (.hear :: .recv got :: .hear :: more) =
      run (End.step []) { client with hearing := { client.hearing with
        buffer := store client.hearing.buffer got
        heard := client.hearing.heard ++ [got]
        printed := client.hearing.printed ++ [read (store client.hearing.buffer got)]
        pc := .test } } more := by
  have output : (read (store client.hearing.buffer got)).map ([] ++ ·) =
      read (store client.hearing.buffer got) := Option.map_id'
  simp only [run, End.step, End.hearStep, End.recvStep, pc, running, Chat.HearThread.recv, plain,
    Chat.HearThread.print, Chat.HearThread.output, fits, output, Bool.false_eq_true, if_false,
    and_self, if_true, Option.bind_some]

theorem printed_prefix {client after : End} {ticks : List Tick}
    (h : run (End.step []) client ticks = some after) :
    client.hearing.printed <+: after.hearing.printed := by
  apply (reach_of_run h).invariant (I := fun e => client.hearing.printed <+: e.hearing.printed)
    List.prefix_rfl
  intro t tick u before _ step
  cases End.step_move step with
  | print => exact before.trans (List.prefix_append ..)
  | _ => exact before

theorem hearsExactly_short {client : End} {id : Nat} {t : Bytes} (running : client.endCom = false)
    (pc : client.hearing.pc = .test) (small : id < maxNumClient) (nulFree : 0 ∉ t)
    (short : t.length ≤ 246) : hearsExactly client (shoutFrame id t) (labelled id t) := by
  have size := labelled_length small t
  have fits : (labelled id t ++ [0]).length ≤ bufferLen := by
    rw [List.length_append, size, bufferLen, List.length_singleton]
    omega
  have string : read (store client.hearing.buffer (labelled id t ++ [0])) =
      some (labelled id t) := by
    rw [store, List.append_assoc]
    exact read_append_nul (labelled_nulFree id nulFree) _
  have plain : startsWith (store client.hearing.buffer (labelled id t ++ [0])) endKey = false := rfl
  have turn := hear_turn running pc fits plain []
  rw [string] at turn
  have whole : cutUp bufferLen (shoutFrame id t) = [labelled id t ++ [0]] := by
    rw [shoutFrame_eq small, cutUp_one (by simp) fits]
  rw [hearsExactly, whole]
  exact ⟨_, turn, running, rfl, [labelled id t], List.flatten_singleton, rfl⟩

/-- A longer text fills the receiver's buffer before its NUL. -/
theorem not_hearsExactly_long {client : End} {id : Nat} {t : Bytes}
    (running : client.endCom = false) (pc : client.hearing.pc = .test)
    (size : client.hearing.buffer.length = bufferLen) (small : id < maxNumClient)
    (nulFree : 0 ∉ t) (long : 246 < t.length) (message : Bytes) :
    ¬ hearsExactly client (shoutFrame id t) message := by
  rintro ⟨after, reached, _, _, texts, _, printed⟩
  have labelSize := labelled_length small t
  have first : (labelled id t ++ [0]).take bufferLen = (labelled id t).take bufferLen :=
    List.take_append_of_le_length (by rw [labelSize, bufferLen]; omega)
  have full : ((labelled id t).take bufferLen).length = bufferLen := by
    rw [List.length_take, labelSize, bufferLen]
    omega
  have unread : read (store client.hearing.buffer ((labelled id t).take bufferLen)) = none := by
    rw [store_full (full.trans size.symm), read_eq_none]
    exact fun nul => labelled_nulFree id nulFree (List.mem_of_mem_take nul)
  have plain : startsWith (store client.hearing.buffer ((labelled id t).take bufferLen)) endKey =
      false := rfl
  rw [shoutFrame_eq small, cutUp_more (by simp) (by decide), first] at reached
  change run _ _ (.hear :: .recv _ :: .hear :: hearTicks _) = _ at reached
  rw [hear_turn running pc full.le plain] at reached
  have before := printed_prefix reached
  rw [printed, unread, List.prefix_append_right_inj] at before
  have lost := before.subset List.mem_cons_self
  simp at lost

/-- A text sent by one client reaches another exactly when it has at most 246
characters. -/
theorem relayed_text_heard {client : End} {id : Nat} {t : Bytes} (running : client.endCom = false)
    (pc : client.hearing.pc = .test) (size : client.hearing.buffer.length = bufferLen)
    (small : id < maxNumClient) (nulFree : 0 ∉ t) :
    hearsExactly client (shoutFrame id t) (ascii "CLIENT" ++ decimal id ++ ascii ": " ++ t) ↔
      t.length ≤ 246 := by
  constructor
  · intro heard
    by_contra long
    exact not_hearsExactly_long running pc size small nulFree (Nat.lt_of_not_le long) _ heard
  · intro short
    exact hearsExactly_short running pc small nulFree short

/-- A new client in its first turn. -/
def newClient : End := .start (zeros bufferLen) (zeros bufferLen)

theorem relayed_text_heard_hi : hearsExactly newClient (shoutFrame 3 (ascii "hi\n"))
    (ascii "CLIENT" ++ decimal 3 ++ ascii ": " ++ ascii "hi\n") :=
  (relayed_text_heard rfl rfl (zeros_length _) (by decide) (by decide)).mpr (by decide)

theorem relayed_text_cut : ¬ ∀ (client : End) (id : Nat) (t : Bytes), client.endCom = false →
    client.hearing.pc = .test → client.hearing.buffer.length = bufferLen → id < maxNumClient →
    0 ∉ t → 1 ≤ t.length → t.length ≤ 255 →
    hearsExactly client (shoutFrame id t) (ascii "CLIENT" ++ decimal id ++ ascii ": " ++ t) := by
  intro heard
  have long : (List.replicate 247 (97 : Byte)).length = 247 := List.length_replicate
  have nulFree : 0 ∉ List.replicate 247 (97 : Byte) := fun nul =>
    absurd (List.eq_of_mem_replicate nul) (by decide)
  have whole := heard newClient 0 _ rfl rfl (zeros_length _) (by decide) nulFree (by omega)
    (by omega)
  have cut : 246 < (List.replicate 247 (97 : Byte)).length := by omega
  exact not_hearsExactly_long rfl rfl (zeros_length _) (by decide) nulFree cut _ whole

end GroupChat
