import Mathlib.Algebra.Order.Ring.Int
import NetworksLab.CString
import NetworksLab.Segments

/-! The text that the date server makes of the fields of `struct tm`. -/
namespace DateText
open CString

/-- `mon` counts from zero and `year` from 1900; `mday` is never zero. -/
structure Tm where
  mday : Fin 32
  mon : Fin 12
  year : Int32
  hour : Fin 24
  min : Fin 60
  sec : Fin 61
  deriving DecidableEq

/-- `%d`. -/
def signed (z : ℤ) : Bytes := if z < 0 then ascii "-" ++ decimal z.natAbs else decimal z.natAbs

/-- `"now %d-%d-%d %d:%d:%d"`. -/
def dateText (t : Tm) : Bytes :=
  ascii "now " ++ decimal t.mday ++ ascii "-" ++ decimal t.mon ++ ascii "-" ++ signed t.year.toInt ++
    ascii " " ++ decimal t.hour ++ ascii ":" ++ decimal t.min ++ ascii ":" ++ decimal t.sec

theorem digit_toNat {n : ℕ} {c : Char} (mem : c ∈ Nat.toDigits 10 n) :
    48 ≤ (UInt8.ofNat c.toNat).toNat ∧ (UInt8.ofNat c.toNat).toNat ≤ 57 ∧
      (UInt8.ofNat c.toNat).toNat = c.toNat := by
  have digit := Nat.isDigit_of_mem_toDigits (by decide) (by decide) mem
  obtain ⟨low, high⟩ : 48 ≤ c.toNat ∧ c.toNat ≤ 57 := Char.isDigit_iff_toNat.mp digit
  rw [UInt8.toNat_ofNat']
  omega

/-- The characters of a decimal are digits. -/
theorem digit_of_mem_decimal {n : ℕ} {b : Byte} (mem : b ∈ decimal n) : 48 ≤ b.toNat ∧ b.toNat ≤ 57 := by
  obtain ⟨c, digit, rfl⟩ := List.mem_map.mp mem
  exact ⟨(digit_toNat digit).1, (digit_toNat digit).2.1⟩

theorem decimal_injective : Function.Injective decimal := by
  have digits (n : ℕ) : (decimal n).map (fun b => Char.ofNat b.toNat) = Nat.toDigits 10 n := by
    rw [decimal, List.map_map]
    refine (List.map_congr_left fun c mem => ?_).trans (List.map_id _)
    rw [Function.comp_apply, (digit_toNat mem).2.2, Char.ofNat_toNat]
    rfl
  intro m n same
  rw [← Nat.ofDigitChars_ten_toDigits (n := m), ← digits m, same, digits n,
    Nat.ofDigitChars_ten_toDigits]

theorem signed_injective : Function.Injective signed := by
  have minus {n : ℕ} (rest : Bytes) : ascii "-" ++ rest ≠ decimal n := by
    intro same
    have mem : (45 : Byte) ∈ decimal n := same ▸ List.mem_cons_self
    exact absurd (digit_of_mem_decimal mem).1 (by decide)
  intro y z same
  unfold signed at same
  split at same <;> split at same
  · have value := decimal_injective (List.append_cancel_left same)
    omega
  · exact absurd same (minus _)
  · exact absurd same.symm (minus _)
  · have value := decimal_injective same
    omega

/-- A decimal ends at a character that is no digit. -/
theorem decimal_append_inj {m n : ℕ} {sep : Byte} {rest more : Bytes}
    (noDigit : sep.toNat < 48 ∨ 57 < sep.toNat)
    (same : decimal m ++ sep :: rest = decimal n ++ sep :: more) : m = n ∧ rest = more := by
  have apart (k : ℕ) : sep ∉ decimal k := by
    intro mem
    have digit := digit_of_mem_decimal mem
    omega
  exact (Segments.append_cons_inj (apart m) (apart n) same).imp_left fun digits => decimal_injective digits

theorem blank_notMem_signed (z : ℤ) : (32 : Byte) ∉ signed z := by
  have apart (n : ℕ) : (32 : Byte) ∉ decimal n := by
    intro mem
    exact absurd (digit_of_mem_decimal mem).1 (by decide)
  intro mem
  unfold signed at mem
  split at mem
  · exact (List.mem_cons.mp mem).elim (by decide) (apart _)
  · exact apart _ mem

/-- The text determines every field. -/
theorem dateText_injective : Function.Injective dateText := by
  intro t u same
  have line (t : Tm) : dateText t = ascii "now " ++ (decimal t.mday ++ 45 :: (decimal t.mon ++ 45 ::
      (signed t.year.toInt ++ 32 :: (decimal t.hour ++ 58 :: (decimal t.min ++ 58 :: decimal t.sec))))) := by
    simp only [dateText, List.append_assoc]
    rfl
  rw [line, line] at same
  obtain ⟨mday, same⟩ := decimal_append_inj (by decide) (List.append_cancel_left same)
  obtain ⟨mon, same⟩ := decimal_append_inj (by decide) same
  obtain ⟨year, same⟩ := Segments.append_cons_inj (blank_notMem_signed _) (blank_notMem_signed _) same
  obtain ⟨hour, same⟩ := decimal_append_inj (by decide) same
  obtain ⟨min, same⟩ := decimal_append_inj (by decide) same
  cases t
  cases u
  simp only [Tm.mk.injEq]
  exact ⟨Fin.ext mday, Fin.ext mon, Int32.toInt_inj.mp (signed_injective year), Fin.ext hour,
    Fin.ext min, Fin.ext (decimal_injective same)⟩

theorem dateText_nulFree (t : Tm) : 0 ∉ dateText t := by
  have year : 0 ∉ signed t.year.toInt := by
    intro mem
    unfold signed at mem
    split at mem
    · exact (List.mem_cons.mp mem).elim (by decide) (decimal_nulFree _)
    · exact decimal_nulFree _ mem
  simp only [dateText, List.mem_append, not_or]
  refine ⟨⟨⟨⟨⟨⟨⟨⟨⟨⟨⟨?_, decimal_nulFree _⟩, ?_⟩, decimal_nulFree _⟩, ?_⟩, year⟩, ?_⟩, decimal_nulFree _⟩, ?_⟩,
    decimal_nulFree _⟩, ?_⟩, decimal_nulFree _⟩
  all_goals decide

theorem decimal_length_le {n k : ℕ} (positive : 0 < k) (small : n < 10 ^ k) : (decimal n).length ≤ k := by
  rw [decimal, List.length_map]
  exact (Nat.length_toDigits_le_iff (by decide) positive).mpr small

theorem dateText_length_lt (t : Tm) : (dateText t).length < 256 := by
  have two {n : ℕ} (small : n < 100) : (decimal n).length ≤ 2 := decimal_length_le (by decide) small
  have year : (signed t.year.toInt).length ≤ 11 := by
    have low := t.year.le_toInt
    have high := t.year.toInt_lt
    have digits : (decimal t.year.toInt.natAbs).length ≤ 10 := decimal_length_le (by decide) (by omega)
    unfold signed
    split
    · rw [List.length_append]
      exact Nat.add_le_add (by decide : (ascii "-").length ≤ 1) digits
    · omega
  have mday := two (n := t.mday) (by omega)
  have mon := two (n := t.mon) (by omega)
  have hour := two (n := t.hour) (by omega)
  have min := two (n := t.min) (by omega)
  have sec := two (n := t.sec) (by omega)
  simp only [dateText, List.length_append]
  have now : (ascii "now ").length = 4 := by decide
  have one : (ascii "-").length = 1 ∧ (ascii " ").length = 1 ∧ (ascii ":").length = 1 := by decide
  omega

end DateText
