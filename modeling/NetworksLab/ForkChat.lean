import NetworksLab.CString
import NetworksLab.Transition

/-! The chat over TCP of two programs that fork: at both ends the child prints
what it reads and the parent sends what is typed, each with a copy of `buffer`
that it uses for the whole session. -/
namespace ForkChat
open CString Transition

def bufferSize : Nat := 256

/-- `memset(b, value, count)`. -/
def memset (b : Bytes) (value count : Nat) : Bytes :=
  store b (List.replicate count (UInt8.ofNat value))

/-- The loop of the child, with what `printf` was given; an entry is `none` where
`%s` ran past the buffer. -/
structure Child where
  buffer : Bytes
  printed : List (Option Bytes)
  exited : Bool
  deriving DecidableEq, Repr

def Child.start : Child := ⟨zeros bufferSize, [], false⟩

/-- A turn of the child. A failing `read` ends the process. -/
def Child.step (label : Bytes) (c : Child) (got : Option Bytes) : Option Child :=
  if c.exited then none
  else
    match got with
    | none => some { c with exited := true }
    | some got =>
        if got.length ≤ bufferSize - 1 then
          let buffer := store c.buffer got
          some { c with
            buffer := memset buffer bufferSize 0
            printed := c.printed ++ [(read buffer).map (label ++ ·)] }
        else none

/-- In front of what the server's child reads, and of what the client's does. -/
def serverLabel : Bytes := ascii "CLIENT: "

def clientLabel : Bytes := ascii "SERVER: "

structure Parent where
  buffer : Bytes
  written : List Bytes
  exited : Bool
  deriving DecidableEq, Repr

def Parent.start : Parent := ⟨zeros bufferSize, [], false⟩

def endKey : Bytes := ascii "END"

/-- A line that `fgets(buffer, BUFFER_SIZE-1, stdin)` can return, or NULL. -/
def fgetsReturns : Option Bytes → Prop
  | none => True
  | some line => line ≠ [] ∧ line.length < bufferSize - 1

instance (line : Option Bytes) : Decidable (fgetsReturns line) :=
  match line with
  | none => isTrue trivial
  | some _ => inferInstanceAs (Decidable (_ ∧ _))

/-- What `fgets` leaves in the buffer; NULL leaves it alone. -/
def fgets (buffer : Bytes) : Option Bytes → Bytes
  | none => buffer
  | some line => store buffer (line ++ [0])

/-- What `fgets` returns to the parent, and whether `write` takes the frame. -/
structure Turn where
  line : Option Bytes
  wrote : Bool
  deriving DecidableEq, Repr

def Parent.step (p : Parent) (e : Turn) : Option Parent :=
  if p.exited ∨ ¬ fgetsReturns e.line then none
  else
    let buffer := fgets p.buffer e.line
    if startsWith buffer endKey then some { p with buffer, exited := true }
    else if e.wrote then
      some { p with
        buffer := memset buffer bufferSize 0
        written := p.written ++ [buffer.take (bufferSize - 1)] }
    else some { p with buffer, exited := true }

/-- With its last two arguments the other way round it clears nothing. -/
theorem memset_zero (b : Bytes) (value : Nat) : memset b value 0 = b := rfl

variable {label r : Bytes} {c d : Child} {h : List Bytes}

/-- The byte behind `n` read ones is NUL in the newest read that got there, if
any did. -/
def Clear (n : Nat) (h : List Bytes) : Prop := ∀ w, Overlay.latest n h = some w → w[n]? = some 0

/-- What is known of the child after the reads of `h`. -/
structure Child.After (c : Child) (h : List Bytes) : Prop where
  fits : ∀ got ∈ h, got.length ≤ bufferSize - 1
  buffer : c.buffer = h.foldl store (zeros bufferSize)

/-- Its last byte is NUL, so `%s` stays in the buffer. -/
theorem Child.After.terminated (after : c.After h) : c.buffer[bufferSize - 1]? = some 0 := by
  have short : Overlay.latest (bufferSize - 1) h = none := by
    cases reaches : Overlay.latest (bufferSize - 1) h with
    | none => rfl
    | some w =>
        obtain ⟨mem, long⟩ := Overlay.latest_reaches reaches
        exact absurd long (Nat.not_lt.mpr (after.fits w mem))
  rw [after.buffer, store_eq_write, Overlay.get_foldl_write, short]
  rfl

theorem Child.After.size (after : c.After h) : c.buffer.length = bufferSize := by
  rw [after.buffer, store_eq_write, Overlay.length_foldl_write, zeros_length]
  intro w mem
  rw [zeros_length]
  exact Nat.le_trans (after.fits w mem) (by decide)

theorem Child.After.step (after : c.After h) (step : c.step label (some r) = some d) :
    d.After (h ++ [r]) ∧
      d.printed = c.printed ++ [(read (store c.buffer r)).map (label ++ ·)] := by
  unfold Child.step at step
  split at step
  · cases step
  · rw [Option.ite_none_right_eq_some, Option.some.injEq] at step
    obtain ⟨fits, rfl⟩ := step
    refine ⟨⟨?_, ?_⟩, rfl⟩
    · intro got mem
      rcases List.mem_append.mp mem with old | new
      · exact after.fits got old
      · exact List.mem_singleton.mp new ▸ fits
    · change memset (store c.buffer r) bufferSize 0 = (h ++ [r]).foldl store (zeros bufferSize)
      rw [memset_zero, List.foldl_append, ← after.buffer, List.foldl_cons, List.foldl_nil]

theorem Child.after_start : Child.start.After [] := ⟨nofun, rfl⟩

theorem Child.after_run (heard : run (Child.step label) .start (h.map some) = some c) :
    c.After h := by
  induction h using List.reverseRecOn generalizing c with
  | nil => cases heard; exact Child.after_start
  | append_singleton h r ih =>
      rw [List.map_append] at heard
      obtain ⟨b, before, step⟩ := run_concat heard
      exact ((ih before).step step).1

theorem Child.After.behind {n : Nat} (after : c.After h) (room : n < c.buffer.length) :
    c.buffer[n]? = some 0 ↔ Clear n h := by
  rw [after.size] at room
  rw [after.buffer, store_eq_write]
  exact Overlay.get_foldl_write_eq_some (List.getElem?_replicate_of_lt room)

/-- A read is printed as it came exactly when it brings its own NUL or finds one
behind itself. -/
theorem Child.After.prints (after : c.After h) (fits : r.length ≤ bufferSize - 1) :
    (read (store c.buffer r)).map (label ++ ·) = some (label ++ text r) ↔
      0 ∈ r ∨ Clear r.length h := by
  have room : r.length < c.buffer.length := by
    rw [after.size]
    exact Nat.lt_of_le_of_lt fits (by decide)
  have nul : 0 ∈ store c.buffer r := by
    apply List.mem_of_getElem? (i := bufferSize - 1)
    rw [store_eq_write, Overlay.get_write, if_neg (Nat.not_lt.mpr fits), after.terminated]
  rw [read_of_mem nul, Option.map_some, Option.some_inj, List.append_cancel_left_eq,
    text_store room, after.behind room]

/-- The read of the last message. -/
theorem Child.last_read (heard : run (Child.step label) .start ((h ++ [r]).map some) = some c) :
    ∃ b, run (Child.step label) .start (h.map some) = some b ∧ b.After h ∧
      r.length ≤ bufferSize - 1 ∧
        c.printed = b.printed ++ [(read (store b.buffer r)).map (label ++ ·)] := by
  rw [List.map_append] at heard
  obtain ⟨b, before, step⟩ := run_concat heard
  have after := Child.after_run before
  obtain ⟨now, printed⟩ := after.step step
  exact ⟨b, before, after, now.fits r (List.mem_append_right _ List.mem_cons_self), printed⟩

theorem Child.last_printed (heard : run (Child.step label) .start ((h ++ [r]).map some) = some c) :
    c.printed.getLast? = some (some (label ++ text r)) ↔ 0 ∈ r ∨ Clear r.length h := by
  obtain ⟨b, _, after, fits, printed⟩ := Child.last_read heard
  rw [printed, List.getLast?_concat, Option.some_inj, after.prints fits]

/-- After either history the last message is printed without a trace of the
earlier ones exactly when it brings its NUL, or both leave one behind it. -/
theorem message_alone {h₁ h₂ : List Bytes} {c₁ c₂ : Child}
    (heard₁ : run (Child.step label) .start ((h₁ ++ [r]).map some) = some c₁)
    (heard₂ : run (Child.step label) .start ((h₂ ++ [r]).map some) = some c₂) :
    (c₁.printed.getLast? = some (some (label ++ text r)) ∧
        c₂.printed.getLast? = some (some (label ++ text r))) ↔
      0 ∈ r ∨ Clear r.length h₁ ∧ Clear r.length h₂ := by
  rw [Child.last_printed heard₁, Child.last_printed heard₂, ← or_and_left]

theorem message_alone_frame : ∃ c₁ c₂,
    run (Child.step serverLabel) .start [some (ascii "hello"), some (ascii "a" ++ [0])] = some c₁ ∧
    run (Child.step serverLabel) .start [some (ascii "a" ++ [0])] = some c₂ ∧
    c₁.printed.getLast? = c₂.printed.getLast? := by
  obtain ⟨c₁, heard₁⟩ : ∃ c, run (Child.step serverLabel) .start
      (([ascii "hello"] ++ [ascii "a" ++ [0]]).map some) = some c := ⟨_, rfl⟩
  obtain ⟨c₂, heard₂⟩ : ∃ c, run (Child.step serverLabel) .start
      (([] ++ [ascii "a" ++ [0]]).map some) = some c := ⟨_, rfl⟩
  obtain ⟨first, second⟩ := (message_alone heard₁ heard₂).mpr (.inl (by decide))
  exact ⟨c₁, c₂, heard₁, heard₂, first.trans second.symm⟩

theorem message_mixed : ¬ ∀ (label : Bytes) (h₁ h₂ : List Bytes) (r : Bytes) (c₁ c₂ : Child),
    (∀ got ∈ h₁ ++ h₂ ++ [r], 1 ≤ got.length ∧ got.length ≤ 255) →
    run (Child.step label) .start ((h₁ ++ [r]).map some) = some c₁ →
    run (Child.step label) .start ((h₂ ++ [r]).map some) = some c₂ →
    c₁.printed.getLast? = c₂.printed.getLast? ∧
      c₁.printed.getLast? = some (some (label ++ text r)) := by
  intro alone
  have same := (alone serverLabel [ascii "hello"] [] (ascii "a") _ _ (by decide) rfl rfl).1
  exact absurd same (by decide)

/-- Frames that all bring their NUL are printed as they came. -/
theorem Child.frames_printed (frames : ∀ f ∈ h, 0 ∈ f)
    (heard : run (Child.step label) .start (h.map some) = some c) :
    c.printed = h.map fun f => some (label ++ text f) := by
  induction h using List.reverseRecOn generalizing c with
  | nil => cases heard; rfl
  | append_singleton h r ih =>
      obtain ⟨b, before, after, fits, printed⟩ := Child.last_read heard
      have nul : 0 ∈ r := frames r (List.mem_append_right _ List.mem_cons_self)
      have earlier := ih (fun f hf => frames f (List.mem_append_left _ hf)) before
      rw [printed, earlier, List.map_append, (after.prints fits).mpr (.inl nul)]
      rfl

end ForkChat
