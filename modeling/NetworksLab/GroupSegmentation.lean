import NetworksLab.GroupReceiving
import NetworksLab.Segments

/-! The server's `recv` has room for one frame, but TCP may hand it less. Each
`recv` counts as a frame to `hear_all`, which does not look at its length. -/
namespace GroupChat
open CString Transition Segments
open Chat (bufferLen)

/-- What `talk` sends for a text: its buffer, with whatever follows the NUL. -/
structure TextFrame where
  text : Bytes
  filler : Bytes
  nulFree : 0 ∉ text
  size : text.length + (filler.length + 1) = bufferLen

def TextFrame.bytes (f : TextFrame) : Bytes := f.text ++ 0 :: f.filler

theorem TextFrame.bytes_length (f : TextFrame) : f.bytes.length = bufferLen := by
  rw [bytes, List.length_append, List.length_cons, f.size]

theorem TextFrame.read_bytes (f : TextFrame) : read f.bytes = some f.text :=
  read_append_nul f.nulFree f.filler

theorem hearAllTexts_length (buffer : Bytes) (cuts : List Bytes) :
    (hearAllTexts buffer cuts).length = cuts.length := by
  induction cuts generalizing buffer with
  | nil => rfl
  | cons got rest ih => simp only [hearAllTexts, List.length_cons, ih]

theorem hearAllTexts_frames {buffer : Bytes} (size : buffer.length = bufferLen)
    (frames : List TextFrame) :
    hearAllTexts buffer (frames.map TextFrame.bytes) = frames.map fun f => some f.text := by
  rw [hearAllTexts_whole, List.map_map]
  · exact List.map_congr_left fun f _ => f.read_bytes
  · intro frame hframe
    obtain ⟨f, _, rfl⟩ := List.mem_map.mp hframe
    exact f.bytes_length.trans size.symm

theorem accounted_run {s : Server} (h : Reach Server.step anyStep .start s) : s.Accounted := by
  have both : s.Registry ∧ s.Accounted := by
    apply h.invariant ⟨Server.registry_start, Server.accounted_start⟩
    rintro t ev u ⟨registry, accounted⟩ _ step
    have move := Server.step_move step
    exact ⟨registry.move move, accounted.move registry move⟩
  exact both.2

/-- The `recv` results that bring the frames give back their texts exactly when
each is one frame. -/
theorem hearAllTexts_eq_iff {buffer : Bytes} {frames : List TextFrame} {cuts : List Bytes}
    (size : buffer.length = bufferLen)
    (fits : ∀ got ∈ cuts, 1 ≤ got.length ∧ got.length ≤ bufferLen)
    (stream : cuts.flatten = (frames.map TextFrame.bytes).flatten) :
    hearAllTexts buffer cuts = frames.map (fun f => some f.text) ↔
      ∀ got ∈ cuts, got.length = bufferLen := by
  have blocks : ∀ b ∈ frames.map TextFrame.bytes, b.length = bufferLen := by
    intro b hb
    obtain ⟨f, _, rfl⟩ := List.mem_map.mp hb
    exact f.bytes_length
  constructor
  · intro texts
    have count := congrArg List.length texts
    rw [hearAllTexts_length, List.length_map] at count
    apply full_of_flatten_length fun got hgot => (fits got hgot).2
    rw [stream, flatten_length_full blocks, List.length_map, count]
  · intro full
    rw [eq_of_flatten (by decide) full blocks stream, hearAllTexts_frames size]

/-- The server reads and shouts the texts sent exactly when every `recv` brings a
whole frame: so does the loop on its own, and the thread of every run that has
handled these `recv` results. -/
theorem hear_all_segmentation {frames : List TextFrame} {cuts : List Bytes}
    (fits : ∀ got ∈ cuts, 1 ≤ got.length ∧ got.length ≤ bufferLen)
    (stream : cuts.flatten = (frames.map TextFrame.bytes).flatten) :
    (∀ buffer : Bytes, buffer.length = bufferLen →
      (hearAllTexts buffer cuts = frames.map (fun f => some f.text) ↔
        ∀ got ∈ cuts, got.length = bufferLen)) ∧
    ∀ (s : Server) (k : Nat) (th : HearAll), Reach Server.step anyStep .start s →
      s.threads[k]? = some th → th.heard = cuts →
      (s.textsOf k = frames.map TextFrame.text ↔ ∀ got ∈ cuts, got.length = bufferLen) := by
  constructor
  · intro buffer size
    exact hearAllTexts_eq_iff size fits stream
  · intro s k th run at' heard
    obtain ⟨buffer, accounted⟩ := (accounted_run run).threads k th at'
    rw [← hearAllTexts_eq_iff accounted.size fits stream, ← heard, ← accounted.shouted,
      ← List.map_inj_right (f := some) fun _ _ => Option.some.inj, List.map_map]
    rfl

/-- A text and what is behind its NUL. -/
def frameHi : TextFrame where
  text := ascii "hi"
  filler := zeros 253
  nulFree := by decide
  size := by rw [zeros_length]; rfl

def frameEmpty : TextFrame where
  text := []
  filler := zeros 255
  nulFree := List.not_mem_nil
  size := by rw [zeros_length]; rfl

/-- Three frames, each in a `recv` of its own, and the same stream with the second one cut. -/
theorem hear_all_segmentation_frameHi :
    hearAllTexts (zeros bufferLen) [frameHi.bytes, frameEmpty.bytes, frameHi.bytes] =
      [some (ascii "hi"), some [], some (ascii "hi")] ∧
    hearAllTexts (zeros bufferLen)
      [frameHi.bytes, frameEmpty.bytes.take 1, frameEmpty.bytes.drop 1, frameHi.bytes] ≠
      [some (ascii "hi"), some [], some (ascii "hi")] := by
  have whole : ∀ got ∈ [frameHi.bytes, frameEmpty.bytes, frameHi.bytes], got.length = bufferLen := by
    intro got mem
    obtain ⟨f, _, rfl⟩ := List.mem_map.mp (show got ∈ [frameHi, frameEmpty, frameHi].map TextFrame.bytes
      from mem)
    exact f.bytes_length
  have fits : ∀ got ∈ [frameHi.bytes, frameEmpty.bytes, frameHi.bytes],
      1 ≤ got.length ∧ got.length ≤ bufferLen := by
    intro got mem
    rw [whole got mem]
    decide
  have cutFits : ∀ got ∈ [frameHi.bytes, frameEmpty.bytes.take 1, frameEmpty.bytes.drop 1, frameHi.bytes],
      1 ≤ got.length ∧ got.length ≤ bufferLen := by decide +kernel
  have stream : [frameHi.bytes, frameEmpty.bytes.take 1, frameEmpty.bytes.drop 1, frameHi.bytes].flatten =
      ([frameHi, frameEmpty, frameHi].map TextFrame.bytes).flatten := by decide +kernel
  have uncut : [frameHi.bytes, frameEmpty.bytes, frameHi.bytes].flatten =
      ([frameHi, frameEmpty, frameHi].map TextFrame.bytes).flatten := rfl
  refine ⟨((hear_all_segmentation fits uncut).1 _ (zeros_length _)).mpr whole, fun texts => ?_⟩
  have full := ((hear_all_segmentation cutFits stream).1 _ (zeros_length _)).mp texts
  exact absurd (full (frameEmpty.bytes.take 1) (by simp)) (by decide)

theorem hear_all_split : ¬ ∀ (buffer : Bytes) (frames : List TextFrame) (cuts : List Bytes),
    buffer.length = bufferLen → (∀ got ∈ cuts, 1 ≤ got.length ∧ got.length ≤ bufferLen) →
    cuts.flatten = (frames.map TextFrame.bytes).flatten →
    hearAllTexts buffer cuts = frames.map fun f => some f.text := by
  intro whole
  have texts := whole (zeros bufferLen) [frameHi] [ascii "h", ascii "i" ++ zeros 254] (zeros_length _)
    (by decide +kernel) (by decide +kernel)
  have count := congrArg List.length texts
  rw [hearAllTexts_length] at count
  cases count

end GroupChat
