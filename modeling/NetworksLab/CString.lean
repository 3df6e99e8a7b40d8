import Mathlib.Data.List.TakeWhile
import Mathlib.Tactic.Common
import NetworksLab.Overlay

/-! NUL-terminated strings inside byte buffers of fixed size, as the C library
reads and writes them. A read that finds no NUL leaves the buffer; the C
standard gives it no meaning and here it has no value. -/
namespace CString

abbrev Byte := UInt8
abbrev Bytes := List UInt8

def ascii (s : String) : Bytes := s.toList.map fun c => UInt8.ofNat c.toNat

def zeros (n : Nat) : Bytes := List.replicate n 0

/-- The bytes in front of the first NUL. -/
def text (b : Bytes) : Bytes := b.takeWhile (· ≠ 0)

/-- What `strlen` and `%s` see; `none` when they run past the buffer. -/
def read (b : Bytes) : Option Bytes := if 0 ∈ b then some (text b) else none

/-- `new` written over the start of `old`, the rest of `old` kept. -/
def store (old new : Bytes) : Bytes := new ++ old.drop new.length

/-- `strncmp(b, key, strlen(key)) == 0`. -/
def startsWith (b key : Bytes) : Bool := key.isPrefixOf b

/-- `%d` of a value that is not negative. -/
def decimal (n : Nat) : Bytes := (Nat.toDigits 10 n).map fun c => UInt8.ofNat c.toNat

/-- `snprintf` of an already formatted string into all of `dst`. -/
def snprintf (dst s : Bytes) : Bytes :=
  if dst = [] then [] else store dst (s.take (dst.length - 1) ++ [0])

@[simp] theorem zeros_length (n : Nat) : (zeros n).length = n := List.length_replicate

theorem text_nulFree (b : Bytes) : 0 ∉ text b := by
  intro nul
  have kept := List.mem_takeWhile_imp (show 0 ∈ b.takeWhile (· ≠ 0) from nul)
  exact of_decide_eq_true kept rfl

theorem text_append_of_mem {a : Bytes} (nul : 0 ∈ a) (b : Bytes) : text (a ++ b) = text a := by
  induction a with
  | nil => cases nul
  | cons c a ih =>
      by_cases here : c = 0
      · simp [text, here]
      · have later : 0 ∈ a := (List.mem_cons.mp nul).resolve_left (Ne.symm here)
        simpa [text, here] using ih later

theorem text_append_of_not_mem {a : Bytes} (nulFree : 0 ∉ a) (b : Bytes) :
    text (a ++ b) = a ++ text b := by
  unfold text
  apply List.takeWhile_append_of_pos
  intro c hc
  exact decide_eq_true fun zero => nulFree (zero ▸ hc)

theorem text_length_lt {b : Bytes} (nul : 0 ∈ b) : (text b).length < b.length := by
  apply Nat.lt_of_le_of_ne (List.takeWhile_prefix _).length_le
  intro whole
  have same : text b = b := (List.takeWhile_prefix _).eq_of_length whole
  exact text_nulFree b (same.symm ▸ nul)

theorem text_append_nul {t : Bytes} (ht : 0 ∉ t) (r : Bytes) : text (t ++ 0 :: r) = t := by
  rw [text_append_of_not_mem ht, text, List.takeWhile_cons_of_neg (by simp), List.append_nil]

theorem text_eq_self {b : Bytes} : text b = b ↔ 0 ∉ b := by
  constructor
  · exact fun same => same ▸ text_nulFree b
  · intro nulFree
    rw [← List.append_nil b, text_append_of_not_mem nulFree]
    rfl

theorem text_eq_nil {b : Bytes} : text b = [] ↔ b = [] ∨ b[0]? = some 0 := by
  cases b with
  | nil => simp [text]
  | cons c b => by_cases here : c = 0 <;> simp [text, here]

theorem read_append_nul {t : Bytes} (ht : 0 ∉ t) (r : Bytes) : read (t ++ 0 :: r) = some t := by
  rw [read, if_pos (by simp), text_append_nul ht]

theorem read_of_mem {b : Bytes} (h : 0 ∈ b) : read b = some (text b) := if_pos h

/-- What a NUL-free key is compared with ends at the first NUL. -/
theorem startsWith_text {b key : Bytes} (nulFree : 0 ∉ key) :
    startsWith (text b) key = startsWith b key := by
  unfold startsWith
  rw [Bool.eq_iff_iff, List.isPrefixOf_iff_prefix, List.isPrefixOf_iff_prefix]
  constructor
  · exact fun starts => starts.trans (List.takeWhile_prefix _)
  · rintro ⟨more, rfl⟩
    refine ⟨text more, ?_⟩
    unfold text
    rw [List.takeWhile_append_of_pos]
    intro a ha
    exact decide_eq_true fun zero => nulFree (zero ▸ ha)

theorem read_eq_none {b : Bytes} : read b = none ↔ 0 ∉ b := by
  simp [read]

theorem text_of_read {b t : Bytes} (str : read b = some t) : text b = t := by
  rw [read, Option.ite_none_right_eq_some] at str
  exact Option.some.inj str.2

/-- Nothing of the old string shows behind the new one. -/
theorem text_store {old new : Bytes} (room : new.length < old.length) :
    text (store old new) = text new ↔ 0 ∈ new ∨ old[new.length]? = some 0 := by
  unfold store
  by_cases nul : 0 ∈ new
  · exact iff_of_true (text_append_of_mem nul _) (.inl nul)
  · have more : old.drop new.length ≠ [] := List.drop_eq_nil_iff.not.mpr (Nat.not_le.mpr room)
    rw [text_append_of_not_mem nul, text_eq_self.mpr nul, List.append_right_eq_self, text_eq_nil,
      or_iff_right more, List.getElem?_drop, Nat.add_zero, or_iff_right nul]

theorem store_eq_write : store = Overlay.write (α := Byte) := rfl

@[simp] theorem store_nil (old : Bytes) : store old [] = old := rfl

theorem store_full {old new : Bytes} (h : new.length = old.length) : store old new = new := by
  simp [store, h]

theorem store_length {old new : Bytes} (h : new.length ≤ old.length) :
    (store old new).length = old.length := by
  simp only [store, List.length_append, List.length_drop]
  omega

/-- Into zeroed memory with room for the terminator, the string arrives whole. -/
theorem snprintf_zeros {n : Nat} {s : Bytes} (fits : s.length < n) :
    snprintf (zeros n) s = s ++ zeros (n - s.length) := by
  have nonempty : zeros n ≠ [] := List.length_pos_iff.mp (by simp; omega)
  have whole : s.take (n - 1) = s := List.take_of_length_le (by omega)
  rw [snprintf, if_neg nonempty, zeros_length, whole, store, List.append_assoc]
  congr 1
  simp only [zeros, List.length_append, List.length_singleton, List.drop_replicate]
  rw [List.singleton_append, ← List.replicate_succ]
  congr 1
  omega

theorem decimal_nulFree (n : Nat) : 0 ∉ decimal n := by
  intro h
  obtain ⟨c, hc, zero⟩ := List.mem_map.mp h
  have digit := Nat.isDigit_of_mem_toDigits (by decide) (by decide) hc
  simp only [Char.isDigit, Bool.and_eq_true, decide_eq_true_eq] at digit
  have value := congrArg UInt8.toNat zero
  simp only [UInt8.toNat_ofNat', Char.toNat, UInt8.toNat_ofNat] at value
  have low : 48 ≤ c.val.toNat := UInt32.le_iff_toNat_le.mp digit.1
  have high : c.val.toNat ≤ 57 := UInt32.le_iff_toNat_le.mp digit.2
  omega

theorem decimal_length_one {n : Nat} (h : n < 10) : (decimal n).length = 1 := by
  simp [decimal, Nat.toDigits_of_lt_base h]

end CString
