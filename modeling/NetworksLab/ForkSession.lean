import Mathlib.Logic.Function.Basic
import NetworksLab.Firsts
import NetworksLab.ForkChat
import NetworksLab.Segments

/-! Both programs of the forking chat on their connection: two parents, two children
and a byte stream in each direction, of which a `read` takes what it gets. A process
that ends closes its own copy of the socket only; the other process keeps the
connection open. -/
namespace ForkChat
open CString Transition

inductive Side
  | server | client
  deriving DecidableEq

def Side.other : Side → Side
  | .server => .client
  | .client => .server

/-- In front of what the child of a side prints. -/
def Side.label : Side → Bytes
  | .server => serverLabel
  | .client => clientLabel

/-- What `fgets` makes of a console, call by call. -/
structure Console where
  line : Nat → Option Bytes
  returns : ∀ i, fgetsReturns (line i)

/-- `turns` counts the calls of `fgets`, `reads` lists what `read` has returned, and
`stream` holds the bytes on their way to a side. -/
structure Session where
  parents : Side → Parent
  children : Side → Child
  turns : Side → Nat
  reads : Side → List Bytes
  stream : Side → Bytes

def Session.start : Session where
  parents _ := .start
  children _ := .start
  turns _ := 0
  reads _ := []
  stream _ := []

/-- The child's event is a `read` that returns `n` bytes. -/
inductive Event
  | parent (d : Side) (wrote : Bool)
  | child (d : Side) (n : Nat)
  | fail (d : Side)
  deriving DecidableEq

/-- Both processes of the side have ended. -/
def Session.hungUp (s : Session) (d : Side) : Bool := (s.parents d).exited && (s.children d).exited

variable (console : Side → Console)

def Session.parentStep (s : Session) (d : Side) (wrote : Bool) : Option Session :=
  ((s.parents d).step ⟨(console d).line (s.turns d), wrote⟩).map fun p => { s with
    parents := Function.update s.parents d p
    turns := Function.update s.turns d (s.turns d + 1)
    stream := Function.update s.stream d.other
      (s.stream d.other ++ (p.written.drop (s.parents d).written.length).flatten) }

/-- `read` returns 0 once the stream is empty and the other side has hung up, and waits
while it has not. -/
def Session.childStep (s : Session) (d : Side) (n : Nat) : Option Session :=
  if n ≤ (s.stream d).length ∧ (n = 0 → s.stream d = [] ∧ s.hungUp d.other = true) then
    ((s.children d).step d.label (some ((s.stream d).take n))).map fun c => { s with
      children := Function.update s.children d c
      reads := Function.update s.reads d (s.reads d ++ [(s.stream d).take n])
      stream := Function.update s.stream d ((s.stream d).drop n) }
  else none

def Session.step (s : Session) : Event → Option Session
  | .parent d wrote => s.parentStep console d wrote
  | .child d n => s.childStep d n
  | .fail d => ((s.children d).step d.label none).map fun c =>
      { s with children := Function.update s.children d c }

/-- It is no `read` that fails. -/
def Event.quiet : Event → Bool
  | .fail _ => false
  | .parent _ _ | .child _ _ => true

def calm (_ : Session) (e : Event) : Prop := e.quiet = true

instance (s : Session) (e : Event) : Decidable (calm s e) := inferInstanceAs (Decidable (_ = _))

/-- The text in the parent's buffer after `n` calls of `fgets`: at the end of the
console it stays what it was. -/
def held (lines : Nat → Option Bytes) : Nat → Bytes
  | 0 => []
  | n + 1 => match lines n with
    | none => held lines n
    | some l => text l

/-- A line that closes the parent's loop. -/
def Closes (lines : Nat → Option Bytes) (k : Nat) : Prop := ∃ l, lines k = some l ∧ endKey <+: l

variable {console} {s t : Session} {d : Side} {p q : Parent} {n : Nat}

@[simp] theorem Side.other_other (d : Side) : d.other.other = d := by cases d <;> rfl

@[simp] theorem Side.other_ne (d : Side) : d.other ≠ d := by cases d <;> decide

/-- Everything a turn of the parent can do. -/
inductive Parent.Move (p : Parent) (line : Option Bytes) : Parent → Prop
  | leave (q : Parent) (exited : q.exited = true) (written : q.written = p.written) : Move p line q
  | write (goesOn : startsWith (fgets p.buffer line) endKey = false) :
      Move p line { p with
        buffer := fgets p.buffer line
        written := p.written ++ [(fgets p.buffer line).take (bufferSize - 1)] }

theorem Parent.step_move {e : Turn} (step : p.step e = some q) :
    p.exited = false ∧ fgetsReturns e.line ∧ p.Move e.line q := by
  unfold Parent.step at step
  split at step
  · cases step
  · next possible =>
      rw [not_or, Bool.not_eq_true, not_not] at possible
      refine ⟨possible.1, possible.2, ?_⟩
      dsimp only at step
      split at step
      · exact Option.some.inj step ▸ .leave _ rfl rfl
      · next other =>
          split at step
          · exact Option.some.inj step ▸ .write (Bool.not_eq_true _ ▸ other)
          · exact Option.some.inj step ▸ .leave _ rfl rfl

theorem text_append_zero (l r : Bytes) : text (l ++ [0] ++ r) = text l := by
  have nul : (0 : Byte) ∈ l ++ [0] := by simp
  rw [text_append_of_mem nul]
  by_cases inside : 0 ∈ l
  · exact text_append_of_mem inside _
  · rw [text_append_nul inside, text_eq_self.mpr inside]

/-- A buffer of its size with a NUL in what is sent of it. -/
def Terminated (b : Bytes) : Prop := b.length = bufferSize ∧ 0 ∈ b.take (bufferSize - 1)

theorem terminated_fgets {b : Bytes} {line : Option Bytes} (h : Terminated b)
    (returns : fgetsReturns line) :
    Terminated (fgets b line) ∧ text (fgets b line) = (line.map text).getD (text b) := by
  cases line with
  | none => exact ⟨h, rfl⟩
  | some l =>
      have room : (l ++ [0]).length ≤ bufferSize - 1 := by
        rw [List.length_append, List.length_singleton]
        exact returns.2
      refine ⟨⟨?_, ?_⟩, text_append_zero l _⟩
      · rw [fgets, store_length, h.1]
        rw [h.1]
        exact Nat.le_trans room (Nat.sub_le ..)
      · rw [fgets, store, List.take_append, List.take_of_length_le room]
        simp

theorem frame_text {b : Bytes} (h : Terminated b) : text (b.take (bufferSize - 1)) = text b := by
  conv_rhs => rw [← List.take_append_drop (bufferSize - 1) b]
  rw [text_append_of_mem h.2]

theorem startsWith_closing {b l : Bytes} (closes : endKey <+: l) :
    startsWith (fgets b (some l)) endKey = true := by
  rw [startsWith, List.isPrefixOf_iff_prefix, fgets, store, List.append_assoc]
  exact closes.trans (List.prefix_append ..)

/-- What is known of a parent after `n` turns. -/
structure Parent.After (p : Parent) (lines : Nat → Option Bytes) (n : Nat) : Prop where
  buffer : p.exited = false → Terminated p.buffer ∧ text p.buffer = held lines n
  frames : ∀ f ∈ p.written, 0 ∈ f ∧ f.length = bufferSize - 1
  count : p.written.length ≤ n ∧ (p.exited = false → p.written.length = n)
  texts : p.written.map text = (List.range p.written.length).map fun i => held lines (i + 1)
  closing : ∀ k, Closes lines k → n ≤ k + 1 ∧ (p.exited = false → n ≤ k)

theorem Parent.After.start (lines : Nat → Option Bytes) : Parent.start.After lines 0 where
  buffer _ :=
    have nul : 0 ∈ (zeros bufferSize).take (bufferSize - 1) := by decide +kernel
    have empty : text (zeros bufferSize) = [] := by decide +kernel
    ⟨⟨zeros_length _, nul⟩, empty⟩
  frames := nofun
  count := ⟨Nat.le_refl 0, fun _ => rfl⟩
  texts := rfl
  closing k _ := ⟨Nat.zero_le _, fun _ => Nat.zero_le k⟩

theorem Parent.After.step {lines : Nat → Option Bytes} (h : p.After lines n)
    (running : p.exited = false) (returns : fgetsReturns (lines n)) (move : p.Move (lines n) q) :
    q.After lines (n + 1) := by
  obtain ⟨terminated, text⟩ := h.buffer running
  cases move with
  | leave _ exited written =>
      exact {
        buffer := fun running => by cases exited.symm.trans running
        frames := written ▸ h.frames
        count := ⟨written ▸ Nat.le_succ_of_le h.count.1, fun running => by
          cases exited.symm.trans running⟩
        texts := written ▸ h.texts
        closing := fun k closes => ⟨Nat.succ_le_succ ((h.closing k closes).2 running),
          fun running => by cases exited.symm.trans running⟩ }
  | write goesOn =>
      obtain ⟨terminated', text'⟩ := terminated_fgets terminated returns
      have line : CString.text (fgets p.buffer (lines n)) = held lines (n + 1) := by
        rw [text', text, held]
        cases lines n <;> rfl
      have count := h.count.2 running
      have size : (p.written ++ [(fgets p.buffer (lines n)).take (bufferSize - 1)]).length = n + 1 := by
        rw [List.length_append, count]
        rfl
      exact {
        buffer := fun _ => ⟨terminated', line⟩
        frames := by
          intro f mem
          rcases List.mem_append.mp mem with old | new
          · exact h.frames f old
          · rw [List.mem_singleton.mp new]
            exact ⟨terminated'.2, by rw [List.length_take, terminated'.1]; rfl⟩
        count := ⟨Nat.le_of_eq size, fun _ => size⟩
        texts := by
          rw [size, Firsts.map_range_succ, List.map_append, h.texts, count, List.map_singleton,
            frame_text terminated', line]
        closing := by
          intro k closes
          obtain ⟨l, read, key⟩ := closes
          have before := (h.closing k ⟨l, read, key⟩).2 running
          have other : n ≠ k := by
            rintro rfl
            rw [read, startsWith_closing key] at goesOn
            cases goesOn
          exact ⟨by omega, fun _ => by omega⟩ }

theorem Parent.Move.written {line : Option Bytes} (move : p.Move line q) :
    p.written <+: q.written := by
  cases move with
  | leave _ _ written => exact written ▸ List.prefix_rfl
  | write => exact List.prefix_append ..

theorem Child.step_some {label got : Bytes} {c c' : Child} (step : c.step label (some got) = some c') :
    c'.exited = c.exited ∧ got.length ≤ bufferSize - 1 := by
  unfold Child.step at step
  split at step
  · cases step
  · rw [Option.ite_none_right_eq_some] at step
    obtain ⟨fits, same⟩ := step
    exact ⟨Option.some.inj same ▸ rfl, fits⟩

/-- A running child takes a read. -/
theorem Child.step_possible {label got : Bytes} {c : Child} (running : c.exited = false)
    (fits : got.length ≤ bufferSize - 1) : ∃ c', c.step label (some got) = some c' := by
  unfold Child.step
  rw [running, if_neg Bool.false_ne_true]
  dsimp only
  rw [if_pos fits]
  exact ⟨_, rfl⟩

/-- Both directions of the connection while no `read` has failed. -/
structure Session.Relaying (console : Side → Console) (s : Session) : Prop where
  parents : ∀ d, (s.parents d).After (console d).line (s.turns d)
  children : ∀ d, run (Child.step d.label) .start ((s.reads d).map some) = some (s.children d)
  running : ∀ d, (s.children d).exited = false
  some_read : ∀ d, [] ∉ s.reads d
  flow : ∀ d, (s.reads d).flatten ++ s.stream d = (s.parents d.other).written.flatten

theorem Session.Relaying.start : Session.start.Relaying console where
  parents _ := .start _
  children _ := rfl
  running _ := rfl
  some_read _ := nofun
  flow _ := rfl

theorem Session.Relaying.parentStep (h : s.Relaying console) {e : Side} {wrote : Bool}
    (step : s.parentStep console e wrote = some t) : t.Relaying console := by
  obtain ⟨p, one, rfl⟩ := Option.map_eq_some_iff.mp step
  obtain ⟨running, returns, move⟩ := Parent.step_move one
  have after := (h.parents e).step running returns move
  obtain ⟨new, written⟩ := move.written
  refine ⟨fun d => ?_, h.children, h.running, h.some_read, fun d => ?_⟩
  · by_cases own : d = e
    · subst own
      simpa using after
    · simpa [own] using h.parents d
  · by_cases own : d = e
    · subst own
      have apart : d ≠ d.other := Ne.symm (Side.other_ne d)
      simpa [apart] using h.flow d
    · have facing : d = e.other := by cases d <;> cases e <;> simp_all [Side.other]
      subst facing
      have flow := h.flow e.other
      rw [Side.other_other] at flow
      simp only [Side.other_other, Function.update_self, ← written, List.drop_left,
        List.flatten_append]
      rw [← List.append_assoc, flow]

theorem Session.Relaying.childStep (h : s.Relaying console) {e : Side}
    (step : s.childStep e n = some t) : t.Relaying console := by
  unfold Session.childStep at step
  rw [Option.ite_none_right_eq_some] at step
  obtain ⟨⟨fits, hangup⟩, same⟩ := step
  obtain ⟨c, one, rfl⟩ := Option.map_eq_some_iff.mp same
  -- the other child still has the socket, so the stream does not end
  have more : n ≠ 0 := by
    intro zero
    have gone := (hangup zero).2
    rw [Session.hungUp, h.running e.other, Bool.and_false] at gone
    cases gone
  have some_bytes : s.stream e ≠ [] := by
    rintro none
    rw [none] at fits
    exact more (Nat.le_zero.mp fits)
  refine ⟨h.parents, fun d => ?_, fun d => ?_, fun d => ?_, fun d => ?_⟩
  · by_cases own : d = e
    · subst own
      have next : run (Child.step d.label) (s.children d) [some ((s.stream d).take n)] = some c :=
        Option.bind_eq_some_iff.mpr ⟨c, one, rfl⟩
      have whole := run_trans (h.children d) next
      simpa using whole
    · simpa [own] using h.children d
  · by_cases own : d = e
    · subst own
      simpa using (Child.step_some one).1.trans (h.running d)
    · simpa [own] using h.running d
  · by_cases own : d = e
    · subst own
      simpa using ⟨h.some_read d, more, some_bytes⟩
    · simpa [own] using h.some_read d
  · by_cases own : d = e
    · subst own
      simpa using h.flow d
    · simpa [own] using h.flow d

theorem Session.relaying (reached : Reach (Session.step console) calm .start s) :
    s.Relaying console := by
  apply reached.invariant .start
  intro s e t inv ok step
  cases e with
  | parent d wrote => exact inv.parentStep step
  | child d n => exact inv.childStep step
  | fail d => cases ok

/-- The turns and the reads so far. -/
def Session.count (s : Session) : Nat :=
  (s.turns .server + (s.reads .server).length) + (s.turns .client + (s.reads .client).length)

theorem Session.count_step {e : Event} (step : s.step console e = some t) :
    s.count + (if e.quiet then 1 else 0) ≤ t.count := by
  cases e with
  | parent d wrote =>
      obtain ⟨p, _, rfl⟩ := Option.map_eq_some_iff.mp step
      cases d <;> simp only [count, Event.quiet, ↓reduceIte, Function.update_self, ne_eq, reduceCtorEq,
        not_false_eq_true, Function.update_of_ne] <;> omega
  | child d n =>
      simp only [Session.step, Session.childStep, Option.ite_none_right_eq_some] at step
      obtain ⟨c, _, rfl⟩ := Option.map_eq_some_iff.mp step.2
      cases d <;> simp only [count, Event.quiet, ↓reduceIte, Function.update_self, ne_eq, reduceCtorEq,
        not_false_eq_true, Function.update_of_ne, List.length_append, List.length_singleton] <;> omega
  | fail d =>
      obtain ⟨c, _, rfl⟩ := Option.map_eq_some_iff.mp step
      exact Nat.le_refl _

/-- A side reads at most a byte at a time of what the other side has written. -/
theorem Session.Relaying.reads_le (h : s.Relaying console) (d : Side) :
    (s.reads d).length ≤ 255 * s.turns d.other := by
  have written := (h.parents d.other).count.1
  have frames := Segments.flatten_length_le (n := bufferSize - 1) fun f mem =>
    Nat.le_of_eq ((h.parents d.other).frames f mem).2
  have flow := congrArg List.length (h.flow d)
  have pieces := Segments.length_le_flatten (h.some_read d)
  have most := Nat.mul_le_mul_left 255 written
  rw [List.length_append] at flow
  rw [show bufferSize - 1 = 255 from rfl] at frames
  omega

theorem Parent.step_possible {line : Option Bytes} (running : p.exited = false)
    (returns : fgetsReturns line) : ∃ q, p.step ⟨line, true⟩ = some q := by
  unfold Parent.step
  rw [if_neg (by simp [running, returns])]
  dsimp only
  split
  · exact ⟨_, rfl⟩
  · exact ⟨_, rfl⟩

/-- While no `read` fails, no child leaves its loop and none is told that the other
side has hung up, whatever the parents do: each child keeps the connection open for
the other one. So once both users have typed their "END" the session comes to rest
within so many steps, all that was written is read, and two processes wait for ever. -/
theorem never_hangs_up (console : Side → Console) :
    (∀ s, Reach (Session.step console) calm .start s → ∀ d, (s.children d).exited = false ∧
      [] ∉ s.reads d ∧ (s.reads d).flatten ++ s.stream d = (s.parents d.other).written.flatten) ∧
    (∀ k : Side → Nat, (∀ d, Closes (console d).line (k d)) → ∀ es s, (∀ e ∈ es, e.quiet = true) →
      run (Session.step console) .start es = some s →
        es.length ≤ 256 * (k .server + k .client + 2)) ∧
    ∀ s, Reach (Session.step console) calm .start s →
      (∀ e, e.quiet = true → s.step console e = none) →
        ∀ d, (s.parents d).exited = true ∧ s.stream d = [] := by
  refine ⟨fun s reached d => ?_, fun k closes es s quiet ran => ?_, fun s reached stuck d => ?_⟩
  · have relaying := Session.relaying reached
    exact ⟨relaying.running d, relaying.some_read d, relaying.flow d⟩
  · have relaying := Session.relaying (reach_of_run_events quiet ran)
    have counted := run_count_le (I := fun _ => True) (μ := Session.count) (p := Event.quiet) trivial
      (fun _ _ _ _ one => ⟨trivial, Session.count_step one⟩) ran
    rw [List.countP_eq_length.mpr quiet] at counted
    have server := ((relaying.parents .server).closing _ (closes .server)).1
    have client := ((relaying.parents .client).closing _ (closes .client)).1
    have toServer := relaying.reads_le .server
    have toClient := relaying.reads_le .client
    simp only [Session.count, Session.start, Side.other, List.length_nil] at counted toServer toClient
    omega
  · have relaying := Session.relaying reached
    constructor
    · by_contra running
      rw [Bool.not_eq_true] at running
      obtain ⟨q, possible⟩ := Parent.step_possible running ((console d).returns (s.turns d))
      have blocked := stuck (.parent d true) rfl
      rw [Session.step, Session.parentStep, possible] at blocked
      cases blocked
    · by_contra more
      have one : 1 ≤ (s.stream d).length := List.length_pos_iff.mpr more
      have short : ((s.stream d).take 1).length ≤ bufferSize - 1 :=
        Nat.le_trans (List.length_take_le ..) (by decide)
      obtain ⟨c, possible⟩ : ∃ c, (s.children d).step d.label (some ((s.stream d).take 1)) = some c :=
        Child.step_possible (relaying.running d) short
      have blocked := stuck (.child d 1) rfl
      rw [Session.step, Session.childStep, if_pos ⟨one, nofun⟩, possible] at blocked
      cases blocked

/-- As long as each `read` takes a frame, the child prints the other user's lines,
each once and in order; at the end of the console the last one comes over and over. -/
theorem lines_relayed (console : Side → Console) (s : Session)
    (reached : Reach (Session.step console) calm .start s) (d : Side)
    (whole : ∀ r ∈ s.reads d, r.length = bufferSize - 1) :
    (s.children d).printed = (List.range (s.reads d).length).map fun i =>
      some (d.label ++ held (console d.other).line (i + 1)) := by
  have relaying := Session.relaying reached
  have after := relaying.parents d.other
  have first : s.reads d = (s.parents d.other).written.take (s.reads d).length :=
    Segments.eq_take_of_flatten (by decide) whole (fun f mem => (after.frames f mem).2)
      (relaying.flow d)
  have nul : ∀ f ∈ s.reads d, 0 ∈ f := by
    intro f mem
    rw [first] at mem
    exact (after.frames f (List.mem_of_mem_take mem)).1
  have enough : (s.reads d).length ≤ (s.parents d.other).written.length := by
    have size := congrArg List.length first
    rw [List.length_take] at size
    omega
  have texts : (s.reads d).map text =
      (List.range (s.reads d).length).map fun i => held (console d.other).line (i + 1) := by
    calc (s.reads d).map text
        = ((s.parents d.other).written.map text).take (s.reads d).length := by
          rw [← List.map_take, ← first]
      _ = _ := by
          rw [after.texts, ← List.map_take, List.take_range, Nat.min_eq_left enough]
  rw [Child.frames_printed nul (relaying.children d)]
  have labelled := congrArg (List.map fun l => some (d.label ++ l)) texts
  rwa [List.map_map, List.map_map] at labelled

/-- "hi", then the end of the session. -/
def hiEnd : Console where
  line i := if i = 0 then some (ascii "hi\n") else some (ascii "END\n")
  returns i := by
    split <;> decide

theorem hi_read : (run (fun s e => if calm s e then Session.step (fun _ => hiEnd) s e else none) .start
    [.parent .client true, .parent .client true, .child .server 255]).map
      (fun s => (s.reads .server).map List.length) = some [255] := by
  decide +kernel

theorem lines_relayed_hi : ∃ s, Reach (Session.step fun _ => hiEnd) calm .start s ∧
    (s.children .server).printed = [some (ascii "CLIENT: hi\n")] := by
  obtain ⟨s, ran, sizes⟩ := Option.map_eq_some_iff.mp hi_read
  have reached : Reach (Session.step fun _ => hiEnd) calm .start s :=
    reach_of_guarded ran
  have whole : ∀ r ∈ s.reads .server, r.length = bufferSize - 1 := by
    intro r mem
    have size := List.mem_map_of_mem (f := List.length) mem
    rw [sizes] at size
    exact List.mem_singleton.mp size
  have one : (s.reads .server).length = 1 := by
    have count := congrArg List.length sizes
    rwa [List.length_map] at count
  refine ⟨s, reached, ?_⟩
  rw [lines_relayed (fun _ => hiEnd) s reached .server whole, one]
  decide +kernel

end ForkChat
