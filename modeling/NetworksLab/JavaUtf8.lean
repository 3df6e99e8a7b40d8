import NetworksLab.JavaText

/-! `String.getBytes` with UTF-8 as the charset. -/
namespace JavaText

def highSurrogate (u : UInt16) : Prop := 0xD800 ≤ u ∧ u ≤ 0xDBFF

def lowSurrogate (u : UInt16) : Prop := 0xDC00 ≤ u ∧ u ≤ 0xDFFF

instance (u : UInt16) : Decidable (highSurrogate u) := inferInstanceAs (Decidable (_ ∧ _))

instance (u : UInt16) : Decidable (lowSurrogate u) := inferInstanceAs (Decidable (_ ∧ _))

/-- A unit on its own; an unpaired surrogate is replaced. -/
def single (u : UInt16) : Char :=
  if highSurrogate u ∨ lowSurrogate u then '?' else Char.ofNat u.toNat

def pair (u v : UInt16) : Char :=
  Char.ofNat (0x10000 + (u.toNat - 0xD800) * 0x400 + (v.toNat - 0xDC00))

def scalars : JString → List Char
  | [] => []
  | [u] => [single u]
  | u :: v :: s =>
      if highSurrogate u ∧ lowSurrogate v then pair u v :: scalars s
      else single u :: scalars (v :: s)

def getBytes (s : JString) : List UInt8 := (scalars s).flatMap String.utf8EncodeChar

theorem highSurrogate_iff {u : UInt16} : highSurrogate u ↔ 0xD800 ≤ u.toNat ∧ u.toNat ≤ 0xDBFF := by
  simp [highSurrogate, UInt16.le_iff_toNat_le]

theorem lowSurrogate_iff {u : UInt16} : lowSurrogate u ↔ 0xDC00 ≤ u.toNat ∧ u.toNat ≤ 0xDFFF := by
  simp [lowSurrogate, UInt16.le_iff_toNat_le]

theorem toNat_ofNat_valid {n : Nat} (valid : n.isValidChar) : (Char.ofNat n).toNat = n := by
  rw [Char.ofNat, dif_pos valid]
  rfl

theorem single_toNat {u : UInt16} (plain : ¬ (highSurrogate u ∨ lowSurrogate u)) :
    (single u).toNat = u.toNat := by
  rw [single, if_neg plain]
  apply toNat_ofNat_valid
  have small := u.toNat_lt
  rw [highSurrogate_iff, lowSurrogate_iff] at plain
  simp only [Nat.isValidChar]
  omega

theorem pair_toNat {u v : UInt16} (high : highSurrogate u) (low : lowSurrogate v) :
    (pair u v).toNat = 0x10000 + (u.toNat - 0xD800) * 0x400 + (v.toNat - 0xDC00) := by
  apply toNat_ofNat_valid
  rw [highSurrogate_iff] at high
  rw [lowSurrogate_iff] at low
  simp only [Nat.isValidChar]
  omega

/-- A character of ASCII is one byte. -/
theorem utf8EncodeChar_small {c : Char} (small : c.toNat < 0x80) :
    String.utf8EncodeChar c = [UInt8.ofNat c.toNat] := by
  have le : c.val.toNat ≤ 0x7F := Nat.le_of_lt_succ small
  simp only [String.utf8EncodeChar, if_pos le]
  rfl

/-- Any other one is at least two, none of them of ASCII. -/
theorem utf8EncodeChar_large {c : Char} (large : 0x80 ≤ c.toNat) :
    2 ≤ (String.utf8EncodeChar c).length ∧ ∀ b ∈ String.utf8EncodeChar c, 0x80 ≤ b.toNat := by
  have past : ¬ c.val.toNat ≤ 0x7F := Nat.not_le.mpr large
  simp only [String.utf8EncodeChar, if_neg past]
  split
  · simp
    omega
  · split
    · simp
      omega
    · simp
      omega

theorem pair_large {u v : UInt16} (high : highSurrogate u) (low : lowSurrogate v) :
    0x80 ≤ (pair u v).toNat := by
  rw [pair_toNat high low]
  omega

theorem utf8EncodeChar_nulFree {c : Char} (nonzero : c.toNat ≠ 0) :
    0 ∉ String.utf8EncodeChar c := by
  intro zero
  by_cases small : c.toNat < 0x80
  · rw [utf8EncodeChar_small small, List.mem_singleton] at zero
    have value := congrArg UInt8.toNat zero
    simp only [UInt8.toNat_ofNat'] at value
    change 0 = c.toNat % 256 at value
    omega
  · have large := (utf8EncodeChar_large (Nat.le_of_not_lt small)).2 0 zero
    exact absurd large (by decide)

/-- Each unit on its own takes at least a byte, and a pair at least two. -/
theorem length_le_getBytes (s : JString) : s.length ≤ (getBytes s).length := by
  have byte (c : Char) : 1 ≤ (String.utf8EncodeChar c).length :=
    List.length_pos_iff.mpr String.utf8EncodeChar_ne_nil
  unfold getBytes
  fun_induction scalars s with
  | case1 => exact Nat.le_refl 0
  | case2 u => simpa using byte (single u)
  | case3 u v s surrogates ih =>
      have bytes := (utf8EncodeChar_large (pair_large surrogates.1 surrogates.2)).1
      rw [List.flatMap_cons, List.length_append, List.length_cons, List.length_cons]
      omega
  | case4 u v s _ ih =>
      have bytes := byte (single u)
      rw [List.flatMap_cons, List.length_append, List.length_cons]
      omega

theorem single_ne_zero {u : UInt16} (nonzero : u ≠ 0) : (single u).toNat ≠ 0 := by
  by_cases surrogate : highSurrogate u ∨ lowSurrogate u
  · rw [single, if_pos surrogate]
    decide
  · rw [single_toNat surrogate]
    exact fun zero => nonzero (UInt16.toNat_inj.mp zero)

theorem getBytes_nulFree {s : JString} (nulFree : 0 ∉ s) : 0 ∉ getBytes s := by
  unfold getBytes
  fun_induction scalars s with
  | case1 => exact List.not_mem_nil
  | case2 u =>
      rw [List.mem_singleton] at nulFree
      simpa using utf8EncodeChar_nulFree (single_ne_zero (Ne.symm nulFree))
  | case3 u v s surrogates ih =>
      rw [List.flatMap_cons, List.mem_append, not_or]
      have large := pair_large surrogates.1 surrogates.2
      refine ⟨utf8EncodeChar_nulFree (by omega), ih fun zero => nulFree ?_⟩
      exact List.mem_cons_of_mem u (List.mem_cons_of_mem v zero)
  | case4 u v s _ ih =>
      rw [List.mem_cons, not_or] at nulFree
      rw [List.flatMap_cons, List.mem_append, not_or]
      exact ⟨utf8EncodeChar_nulFree (single_ne_zero (Ne.symm nulFree.1)), ih nulFree.2⟩

/-- A zero unit pairs with nothing. -/
theorem scalars_zero (t : JString) : scalars (0 :: t) = single 0 :: scalars t := by
  cases t with
  | nil => rfl
  | cons v t =>
      have alone : ¬ (highSurrogate 0 ∧ lowSurrogate v) := fun both => absurd both.1 (by decide)
      rw [scalars, if_neg alone]

theorem getBytes_zero (s t : JString) : getBytes (s ++ 0 :: t) = getBytes s ++ 0 :: getBytes t := by
  have zero : String.utf8EncodeChar (single 0) = [0] := by decide
  have after : (scalars (0 :: t)).flatMap String.utf8EncodeChar = 0 :: getBytes t := by
    rw [scalars_zero, List.flatMap_cons, zero]
    rfl
  unfold getBytes
  fun_induction scalars s with
  | case1 => exact after
  | case2 u =>
      have alone : ¬ (highSurrogate u ∧ lowSurrogate 0) := fun both => absurd both.2 (by decide)
      rw [List.singleton_append, scalars, if_neg alone, List.flatMap_cons, after]
      simp [getBytes]
  | case3 u v s surrogates ih =>
      rw [List.cons_append, List.cons_append, scalars, if_pos surrogates, List.flatMap_cons, ih,
        List.flatMap_cons, List.append_assoc]
  | case4 u v s alone ih =>
      rw [List.cons_append, List.cons_append, scalars, if_neg alone, List.flatMap_cons,
        ← List.cons_append, ih, List.flatMap_cons, List.append_assoc]

end JavaText
