import Mathlib.Algebra.Order.Ring.Nat
import Mathlib.Data.List.Basic
import Mathlib.Tactic.Common

/-! Java strings, their modified UTF-8 length, and calendar fields as
`SimpleDateFormat` pads them in a locale with the digits of ASCII. -/
namespace JavaText

/-- A string is its UTF-16 code units. -/
abbrev JString := List UInt16

def ofChars (cs : List Char) : JString := cs.map fun c => UInt16.ofNat c.toNat

def literal (s : String) : JString := ofChars s.toList

def unitLength (u : UInt16) : Nat :=
  if 1 ≤ u ∧ u ≤ 0x7F then 1 else if u ≤ 0x7FF then 2 else 3

/-- The bytes of the modified UTF-8 form, its length field apart. -/
def utfLength (s : JString) : Nat := (s.map unitLength).sum

/-- A longer form makes `writeUTF` throw before it has written anything. -/
def maxUtfLength : Nat := 65535

/-- `writeUTF` takes the line. -/
def Fits (l : JString) : Prop := utfLength l ≤ maxUtfLength

instance (l : JString) : Decidable (Fits l) := inferInstanceAs (Decidable (_ ≤ _))

/-- `n` in decimal, zeros in front up to `width` digits. -/
def padded (width n : Nat) : JString :=
  (ofChars (Nat.toDigits 10 n)).leftpad width (UInt16.ofNat '0'.toNat)

/-- The calendar fields of an instant; month and day of the month count from
zero. The last year is that of the largest `long` in milliseconds. -/
structure Date where
  year : Fin 292278995
  month : Fin 12
  day : Fin 31
  hour : Fin 24
  minute : Fin 60
  second : Fin 60
  deriving DecidableEq

/-- The hour on a dial, `hh`. -/
def Date.dialHour (d : Date) : Nat := if d.hour.val % 12 = 0 then 12 else d.hour.val % 12

theorem unitLength_le (u : UInt16) : unitLength u ≤ 3 := by
  unfold unitLength
  split
  · decide
  · split <;> decide

theorem utfLength_le (s : JString) : utfLength s ≤ 3 * s.length := by
  induction s with
  | nil => simp [utfLength]
  | cons u s ih =>
      have here := unitLength_le u
      simp only [utfLength, List.map_cons, List.sum_cons, List.length_cons] at ih ⊢
      omega

theorem padded_length_le {width bound n : Nat} (positive : 0 < bound) (wide : width ≤ bound)
    (small : n < 10 ^ bound) : (padded width n).length ≤ bound := by
  have digits : (Nat.toDigits 10 n).length ≤ bound :=
    (Nat.length_toDigits_le_iff (by decide) positive).mpr small
  rw [padded, List.length_leftpad, ofChars, List.length_map]
  exact Nat.max_le.mpr ⟨wide, digits⟩

theorem Date.dialHour_lt (d : Date) : d.dialHour < 10 ^ 2 := by
  unfold dialHour
  split <;> omega

end JavaText
