import Mathlib.Data.List.TakeWhile
import NetworksLab.JavaUtf8
import NetworksLab.Transition

/-! The lines of `udpBaseClient_2` at `udpBaseServer_2`, which makes a character
of each byte of its array up to the first zero. -/
namespace UdpBase
open JavaText Transition

def bye : JString := literal "bye"

/-- `new byte[65535]`. -/
def arrayLength : Nat := 65535

/-- The largest payload of a datagram. -/
def maxPayload : Nat := 65507

/-- `(char) a[i]`, where a byte has a sign. -/
def charOf (b : UInt8) : UInt16 := b.toInt8.toInt16.toUInt16

/-- `data` from an index on; past the end of the array it throws. -/
def data : List UInt8 → Option JString
  | [] => none
  | b :: a => if b = 0 then some [] else (data a).map (charOf b :: ·)

/-- The array, new for this datagram. -/
def received (datagram : List UInt8) : List UInt8 :=
  datagram.take arrayLength ++ List.replicate (arrayLength - datagram.length) 0

/-- `main` of the server, and what it has printed. -/
structure Server where
  printed : List JString
  exited : Bool
  deriving DecidableEq

def Server.start : Server := ⟨[], false⟩

/-- A turn of the loop, none after the `break`. An exception ends `main` too. -/
def Server.step (s : Server) (datagram : List UInt8) : Option Server :=
  if s.exited then none
  else (data (received datagram)).map fun text =>
    let printed := s.printed ++ [literal "Client:-" ++ text]
    if text = bye then ⟨printed ++ [literal "Client sent bye.....EXITING"], true⟩ else ⟨printed, false⟩

/-- The datagrams that `main` of the client sends on these lines. -/
def clientSends : List JString → List (List UInt8)
  | [] => []
  | inp :: lines => getBytes inp :: if inp = bye then [] else clientSends lines

theorem charOf_toNat (b : UInt8) :
    (charOf b).toNat = if b.toNat < 0x80 then b.toNat else 0xFF00 + b.toNat := by
  have values : ∀ n < 256, (charOf (UInt8.ofNat n)).toNat =
      if (UInt8.ofNat n).toNat < 0x80 then (UInt8.ofNat n).toNat
      else 0xFF00 + (UInt8.ofNat n).toNat := by decide +kernel
  have here := values b.toNat b.toNat_lt
  rwa [UInt8.ofNat_toNat] at here

theorem charOf_eq_zero {b : UInt8} : charOf b = 0 ↔ b = 0 := by
  rw [← UInt16.toNat_inj, charOf_toNat, ← UInt8.toNat_inj]
  split
  · rfl
  · change 0xFF00 + b.toNat = 0 ↔ b.toNat = 0
    omega

/-- A zero after the bytes stops the loop, if none of them does. -/
theorem data_terminated (a z : List UInt8) :
    data (a ++ 0 :: z) = some ((a.takeWhile (· ≠ 0)).map charOf) := by
  induction a with
  | nil => rfl
  | cons b a ih =>
      rw [List.cons_append, data]
      by_cases ends : b = 0
      · rw [if_pos ends, List.takeWhile_cons_of_neg (by simp [ends])]
        rfl
      · rw [if_neg ends, ih, List.takeWhile_cons_of_pos (by simp [ends])]
        rfl

/-- A datagram is shorter than the array. -/
theorem data_received {datagram : List UInt8} (fits : datagram.length ≤ maxPayload) :
    data (received datagram) = some ((datagram.takeWhile (· ≠ 0)).map charOf) := by
  have short : datagram.length < arrayLength := Nat.lt_of_le_of_lt fits (by decide)
  have room : arrayLength - datagram.length = arrayLength - datagram.length - 1 + 1 := by omega
  rw [received, List.take_of_length_le (Nat.le_of_lt short), room, List.replicate_succ]
  exact data_terminated datagram _

theorem data_nulFree {datagram : List UInt8} (fits : datagram.length ≤ maxPayload)
    (nulFree : 0 ∉ datagram) : data (received datagram) = some (datagram.map charOf) := by
  have all : ∀ b ∈ datagram, decide (b ≠ 0) = true := by
    intro b mem
    exact decide_eq_true fun zero => nulFree (zero ▸ mem)
  rw [data_received fits, List.takeWhile_eq_self_iff.mpr all]

theorem zero_not_mem_of_data {datagram : List UInt8} {s : JString}
    (fits : datagram.length ≤ maxPayload) (text : data (received datagram) = some s) : 0 ∉ s := by
  rw [data_received fits, Option.some_inj] at text
  intro zero
  rw [← text] at zero
  obtain ⟨b, mem, value⟩ := List.mem_map.mp zero
  have kept := List.mem_takeWhile_imp mem
  exact of_decide_eq_true kept (charOf_eq_zero.mp value)

/-- What the server makes of a character of ASCII is this character. -/
theorem decoded_small {c : Char} (small : c.toNat < 0x80) :
    (String.utf8EncodeChar c).map charOf = [UInt16.ofNat c.toNat] := by
  have byte : (UInt8.ofNat c.toNat).toNat = c.toNat := by
    rw [UInt8.toNat_ofNat']
    omega
  have value : charOf (UInt8.ofNat c.toNat) = UInt16.ofNat c.toNat := by
    rw [← UInt16.toNat_inj, charOf_toNat, byte, if_pos small, UInt16.toNat_ofNat']
    omega
  rw [utf8EncodeChar_small small, List.map_singleton, value]

/-- The units that it makes of any other are all near the upper end. -/
theorem decoded_large {c : Char} (large : 0x80 ≤ c.toNat) {u : UInt16}
    (mem : u ∈ (String.utf8EncodeChar c).map charOf) : 0xFF80 ≤ u.toNat := by
  obtain ⟨b, hb, rfl⟩ := List.mem_map.mp mem
  have upper := (utf8EncodeChar_large large).2 b hb
  rw [charOf_toNat, if_neg (by omega)]
  omega

theorem decoded_small_head {c : Char} {rest t : JString} {u : UInt16} (small : c.toNat < 0x80)
    (same : (String.utf8EncodeChar c).map charOf ++ rest = u :: t) :
    c.toNat = u.toNat ∧ rest = t := by
  rw [decoded_small small] at same
  obtain ⟨value, tail⟩ := List.cons.inj same
  have number := congrArg UInt16.toNat value
  rw [UInt16.toNat_ofNat'] at number
  exact ⟨by omega, tail⟩

/-- So a unit below them in front comes from a character of ASCII. -/
theorem decoded_head {c : Char} {rest t : JString} {u : UInt16} (low : u.toNat < 0xFF80)
    (same : (String.utf8EncodeChar c).map charOf ++ rest = u :: t) : c.toNat < 0x80 := by
  by_contra large
  obtain ⟨b, bytes, split⟩ := List.exists_cons_of_ne_nil (String.utf8EncodeChar_ne_nil (c := c))
  have first : charOf b ∈ (String.utf8EncodeChar c).map charOf := by
    rw [split]
    exact List.mem_cons_self
  have upper := decoded_large (Nat.le_of_not_lt large) first
  rw [split] at same
  rw [(List.cons.inj same).1] at upper
  omega

/-- The units of a surrogate pair do not come back as ASCII. -/
theorem decoded_pair {u v w : UInt16} {rest t : JString}
    (surrogates : highSurrogate u ∧ lowSurrogate v)
    (same : (String.utf8EncodeChar (pair u v)).map charOf ++ rest = w :: t) : 0xFF80 ≤ w.toNat := by
  by_contra low
  have small := decoded_head (Nat.lt_of_not_le low) same
  have large := pair_large surrogates.1 surrogates.2
  omega

/-- Whatever the unit in front is, if the rest is no shorter than it should be. -/
theorem decoded_one {c : Char} {rest t : JString} {u : UInt16} (long : t.length ≤ rest.length)
    (same : (String.utf8EncodeChar c).map charOf ++ rest = u :: t) :
    u.toNat < 0x80 ∧ rest = t := by
  have lengths := congrArg List.length same
  rw [List.length_append, List.length_map, List.length_cons] at lengths
  have small : c.toNat < 0x80 := by
    by_contra large
    have bytes := (utf8EncodeChar_large (Nat.le_of_not_lt large)).1
    omega
  obtain ⟨value, tail⟩ := decoded_small_head small same
  exact ⟨value ▸ small, tail⟩

/-- No unit outside ASCII comes back as itself where every unit does: the units
of a pair never do, and any other unit would take more than one byte. -/
theorem ascii_of_decoded {s : JString} (same : (getBytes s).map charOf = s) :
    ∀ u ∈ s, u.toNat < 0x80 := by
  have long (t : JString) : t.length ≤ ((getBytes t).map charOf).length := by
    rw [List.length_map]
    exact length_le_getBytes t
  unfold getBytes at same
  fun_induction scalars s with
  | case1 => exact fun u mem => absurd mem List.not_mem_nil
  | case2 u =>
      rw [List.flatMap_cons, List.map_append] at same
      have here := (decoded_one (long []) same).1
      exact fun w mem => List.mem_singleton.mp mem ▸ here
  | case3 u v s surrogates _ =>
      rw [List.flatMap_cons, List.map_append] at same
      have high := highSurrogate_iff.mp surrogates.1
      have upper := decoded_pair surrogates same
      omega
  | case4 u v s _ ih =>
      rw [List.flatMap_cons, List.map_append] at same
      obtain ⟨here, later⟩ := decoded_one (long (v :: s)) same
      exact List.forall_mem_cons.mpr ⟨here, ih later⟩

/-- Any text of ASCII without a question mark is decoded from itself alone. -/
theorem eq_of_decoded {s t : JString} (same : (getBytes s).map charOf = t)
    (ascii : ∀ w ∈ t, w.toNat < 0x80 ∧ w.toNat ≠ '?'.toNat) : s = t := by
  -- a unit in front, if it is alone; of a surrogate the question mark would be there
  have unit {u w : UInt16} {rest t : JString} (value : w.toNat < 0x80 ∧ w.toNat ≠ '?'.toNat)
      (same : (String.utf8EncodeChar (single u)).map charOf ++ rest = w :: t) :
      u = w ∧ rest = t := by
    have small := decoded_head (by omega) same
    obtain ⟨number, tail⟩ := decoded_small_head small same
    have plain : ¬ (highSurrogate u ∨ lowSurrogate u) := by
      intro surrogate
      rw [single, if_pos surrogate] at number
      exact value.2 number.symm
    rw [single_toNat plain] at number
    exact ⟨UInt16.toNat_inj.mp number, tail⟩
  have nonempty {c : Char} {rest : JString} : (String.utf8EncodeChar c).map charOf ++ rest ≠ [] := by
    simp [String.utf8EncodeChar_ne_nil]
  unfold getBytes at same
  fun_induction scalars s generalizing t with
  | case1 => exact same
  | case2 u =>
      rw [List.flatMap_cons, List.map_append] at same
      cases t with
      | nil => exact absurd same nonempty
      | cons w t =>
          obtain ⟨rfl, rfl⟩ := unit (ascii w List.mem_cons_self) same
          rfl
  | case3 u v s surrogates _ =>
      rw [List.flatMap_cons, List.map_append] at same
      cases t with
      | nil => exact absurd same nonempty
      | cons w t =>
          have value := ascii w List.mem_cons_self
          have upper := decoded_pair surrogates same
          omega
  | case4 u v s _ ih =>
      rw [List.flatMap_cons, List.map_append] at same
      cases t with
      | nil => exact absurd same nonempty
      | cons w t =>
          obtain ⟨rfl, later⟩ := unit (ascii w List.mem_cons_self) same
          rw [ih later fun x mem => ascii x (List.mem_cons_of_mem u mem)]

/-- A line of ASCII is its own encoding. -/
theorem decoded_ascii {s : JString} (ascii : ∀ u ∈ s, u.toNat < 0x80) :
    (getBytes s).map charOf = s := by
  have unit {u : UInt16} (small : u.toNat < 0x80) :
      (String.utf8EncodeChar (single u)).map charOf = [u] := by
    have plain : ¬ (highSurrogate u ∨ lowSurrogate u) := by
      rw [highSurrogate_iff, lowSurrogate_iff]
      omega
    have value := single_toNat plain
    rw [decoded_small (value ▸ small), value, UInt16.ofNat_toNat]
  unfold getBytes
  fun_induction scalars s with
  | case1 => rfl
  | case2 u =>
      rw [List.flatMap_cons, List.map_append, unit (ascii u List.mem_cons_self)]
      rfl
  | case3 u v s surrogates _ =>
      have high := highSurrogate_iff.mp surrogates.1
      have small := ascii u List.mem_cons_self
      omega
  | case4 u v s _ ih =>
      have later := ih fun w mem => ascii w (List.mem_cons_of_mem u mem)
      rw [List.flatMap_cons, List.map_append, unit (ascii u List.mem_cons_self), later]
      rfl

theorem byeUnits : ∀ w ∈ bye, w.toNat < 0x80 ∧ w.toNat ≠ '?'.toNat := by
  intro w mem
  have units : bye = [98, 121, 101] := by decide
  simp only [units, List.mem_cons, List.not_mem_nil, or_false] at mem
  rcases mem with rfl | rfl | rfl <;> decide

/-- The exit test of the server is that of the client. -/
theorem data_eq_bye {s : JString} (fits : (getBytes s).length ≤ maxPayload) (nulFree : 0 ∉ s) :
    data (received (getBytes s)) = some bye ↔ s = bye := by
  rw [data_nulFree fits (getBytes_nulFree nulFree), Option.some_inj]
  constructor
  · exact fun same => eq_of_decoded same byeUnits
  · rintro rfl
    exact decoded_ascii fun w mem => (byeUnits w mem).1

theorem datagram_decoded (s : JString) (fits : (getBytes s).length ≤ maxPayload) :
    (data (received (getBytes s))).isSome ∧
      (data (received (getBytes s)) = some s ↔ ∀ u ∈ s, 1 ≤ u ∧ u ≤ 127) ∧
      (0 ∉ s → (data (received (getBytes s)) = some bye ↔ s = bye)) := by
  have units (u : UInt16) : (1 ≤ u ∧ u ≤ 127) ↔ u ≠ 0 ∧ u.toNat < 0x80 := by
    simp [UInt16.le_iff_toNat_le, ← UInt16.toNat_inj]
    omega
  refine ⟨by rw [data_received fits]; rfl, ⟨?_, ?_⟩, data_eq_bye fits⟩
  · intro same u mem
    have nulFree := zero_not_mem_of_data fits same
    rw [data_nulFree fits (getBytes_nulFree nulFree), Option.some_inj] at same
    exact (units u).mpr ⟨fun zero => nulFree (zero ▸ mem), ascii_of_decoded same u mem⟩
  · intro ascii
    have nulFree : 0 ∉ s := fun zero => ((units 0).mp (ascii 0 zero)).1 rfl
    rw [data_nulFree fits (getBytes_nulFree nulFree),
      decoded_ascii fun u mem => ((units u).mp (ascii u mem)).2]

theorem datagram_decoded_e_acute :
    data (received (getBytes [0x62, 0xE9])) ≠ some [0x62, 0xE9] := by
  intro same
  have units := (datagram_decoded [0x62, 0xE9] (by decide)).2.1.mp same
  exact absurd (units 0xE9 (by decide)) (by decide)

theorem step_running {s : Server} {line : JString} (running : s.exited = false)
    (fits : (getBytes line).length ≤ maxPayload) (nulFree : 0 ∉ line) :
    ∃ t, s.step (getBytes line) = some t ∧ (t.exited = true ↔ line = bye) := by
  have read := data_nulFree fits (getBytes_nulFree nulFree)
  have test := data_eq_bye fits nulFree
  rw [read, Option.some_inj] at test
  refine ⟨_, by rw [Server.step, running, read]; rfl, ?_⟩
  dsimp only
  by_cases ends : (getBytes line).map charOf = bye
  · rw [if_pos ends]
    exact iff_of_true rfl (test.mp ends)
  · rw [if_neg ends]
    exact iff_of_false Bool.false_ne_true (mt test.mpr ends)

/-- A server that gets every datagram of the client in order leaves its loop
with it: after the last one, and only at "bye". -/
theorem exits_with_client {lines : List JString}
    (fit : ∀ l ∈ lines, (getBytes l).length ≤ maxPayload ∧ 0 ∉ l) {s : Server}
    (running : s.exited = false) :
    ∃ t, run Server.step s (clientSends lines) = some t ∧ (t.exited = true ↔ bye ∈ lines) := by
  induction lines generalizing s with
  | nil => exact ⟨s, rfl, by simp [running]⟩
  | cons line lines ih =>
      obtain ⟨here, later⟩ := List.forall_mem_cons.mp fit
      obtain ⟨t, step, test⟩ := step_running running here.1 here.2
      rw [clientSends, run, step, Option.bind_some]
      by_cases ends : line = bye
      · rw [if_pos ends]
        exact ⟨t, rfl, iff_of_true (test.mpr ends) (by simp [ends])⟩
      · rw [if_neg ends]
        have goesOn : t.exited = false := by
          rw [← Bool.not_eq_true]
          exact mt test.mp ends
        obtain ⟨u, rest, last⟩ := ih later goesOn
        exact ⟨u, rest, by rw [last, List.mem_cons, or_iff_right (Ne.symm ends)]⟩

end UdpBase
