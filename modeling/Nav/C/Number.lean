import Nav.C.Bytes
import Mathlib.Data.Int.Bitwise

/-! Decimal numerals: `strtol` in base 10, the conversion of its `long` to `int`, and `%d`. -/
namespace Nav.C

/-- `isspace` in the C locale. -/
def isSpace (b : Byte) : Bool := b == space || (9 ≤ b && b ≤ 13)

def isDigit (b : Byte) : Bool := 48 ≤ b && b ≤ 57

/-- The value of a run of decimal digits, most significant first. -/
def digitsValue (ds : List Byte) : ℕ := ds.foldl (fun v d => 10*v + (d.toNat-48)) 0

/-- The sign `strtol` accepts in front of the digits, and what is behind it. -/
def signOf : List Byte → Bool × List Byte
  | 45::bs => (true,bs)
  | 43::bs => (false,bs)
  | bs => (false,bs)

def longMax : ℤ := 2^63-1
def longMin : ℤ := -2^63

/-- `strtol(s, NULL, 10)`: the value, and whether `errno` is set to `ERANGE`. Without a digit
the value is 0 and `errno` stays as it was. -/
def strtol (s : List Byte) : ℤ × Bool :=
  let signed := signOf (s.dropWhile isSpace)
  let magnitude : ℤ := digitsValue (signed.2.takeWhile isDigit)
  let value := if signed.1 then -magnitude else magnitude
  if longMax < value then (longMax,true)
  else if value < longMin then (longMin,true)
  else (value,false)

/-- The conversion of a `long` to a 32-bit `int`. -/
def toInt (v : ℤ) : ℤ := v.bmod (2^32)

/-- The digits of a natural number in decimal. -/
def decimalNat (n : ℕ) : List Byte := (Nat.toDigits 10 n).map fun c => UInt8.ofNat c.toNat

/-- `%d`. -/
def decimal (n : ℤ) : List Byte := if n < 0 then 45::decimalNat n.natAbs else decimalNat n.natAbs

/-- The integer a string writes in decimal: a sign or none, then digits, and nothing else. -/
def numeral (s : List Byte) : Option ℤ :=
  let signed := signOf s
  if signed.2 ≠ [] ∧ signed.2.all isDigit = true then
    some (if signed.1 then -(digitsValue signed.2 : ℤ) else digitsValue signed.2)
  else none

/-- The values of a 32-bit `int`. -/
def IsInt (n : ℤ) : Prop := -2^31 ≤ n ∧ n < 2^31

instance (n : ℤ) : Decidable (IsInt n) := inferInstanceAs (Decidable (_ ∧ _))

section Decimal

lemma decimal_natCast (n : ℕ) : decimal n = decimalNat n := by
  rw [decimal,if_neg (by omega),Int.natAbs_natCast]

lemma byte_toNat {c : Char} (h : c.isDigit = true) : (UInt8.ofNat c.toNat).toNat = c.toNat := by
  obtain ⟨_,hhi⟩ := Char.isDigit_iff_toNat.mp h
  have h9 : '9'.toNat = 57 := rfl
  rw [UInt8.toNat_ofNat']
  omega

/-- What `%d` prints of a natural number are digits. -/
theorem isDigit_decimalNat (n : ℕ) : ∀ b ∈ decimalNat n, isDigit b = true := by
  intro b hb
  obtain ⟨c,hc,rfl⟩ := List.mem_map.mp hb
  have hd := Nat.isDigit_of_mem_toDigits (by omega) (by omega) hc
  obtain ⟨hlo,hhi⟩ := Char.isDigit_iff_toNat.mp hd
  have h0 : '0'.toNat = 48 := rfl
  have h9 : '9'.toNat = 57 := rfl
  simp only [isDigit,Bool.and_eq_true,decide_eq_true_eq,UInt8.le_iff_toNat_le,byte_toNat hd]
  exact ⟨show 48 ≤ c.toNat by omega,show c.toNat ≤ 57 by omega⟩

lemma decimalNat_ne_nil (n : ℕ) : decimalNat n ≠ [] := by
  simp [decimalNat,Nat.toDigits_ne_nil]

lemma nul_notMem_decimalNat (n : ℕ) : nul ∉ decimalNat n := by
  intro h
  exact absurd (isDigit_decimalNat n nul h) (by decide)

lemma decimalNat_length {n k : ℕ} (h : n < 10^k) (hk : 0 < k) : (decimalNat n).length ≤ k := by
  rw [decimalNat,List.length_map]
  exact (Nat.length_toDigits_le_iff (by omega) hk).mpr h

/-- The digits of a number have its value. -/
theorem digitsValue_decimalNat (n : ℕ) : digitsValue (decimalNat n) = n := by
  have hfold : ∀ (cs : List Char) (v : ℕ), (∀ c ∈ cs, c.isDigit = true) →
      (cs.map fun c => UInt8.ofNat c.toNat).foldl (fun v d => 10*v + (d.toNat-48)) v =
        Nat.ofDigitChars 10 cs v := by
    intro cs
    induction cs with
    | nil => intro v _; simp
    | cons c cs ih =>
      intro v hcs
      rw [List.map_cons,List.foldl_cons,Nat.ofDigitChars_cons,byte_toNat (hcs c (by simp))]
      exact ih _ fun d hd => hcs d (by simp [hd])
  rw [digitsValue,decimalNat,
    hfold _ _ fun c hc => Nat.isDigit_of_mem_toDigits (by omega) (by omega) hc]
  exact Nat.ofDigitChars_ten_toDigits

/-- An `int` takes eleven bytes at most in decimal. -/
lemma decimal_length {n : ℤ} (h : IsInt n) : (decimal n).length ≤ 11 := by
  have hdigits : (decimalNat n.natAbs).length ≤ 10 :=
    decimalNat_length (by have := h.1; have := h.2; omega) (by omega)
  unfold decimal
  split_ifs
  · rw [List.length_cons]
    omega
  · omega

/-- In decimal there are a minus sign and digits only. -/
lemma mem_decimal {n : ℤ} {b : Byte} (h : b ∈ decimal n) : b = 45 ∨ isDigit b = true := by
  unfold decimal at h
  split_ifs at h
  · rcases List.mem_cons.mp h with hb | hb
    · exact Or.inl hb
    · exact Or.inr (isDigit_decimalNat _ b hb)
  · exact Or.inr (isDigit_decimalNat _ b h)

theorem decimal_injective : Function.Injective decimal := by
  intro m n h
  have habs : ∀ {k l : ℕ}, decimalNat k = decimalNat l → k = l := fun {k l} hd => by
    rw [← digitsValue_decimalNat k,hd,digitsValue_decimalNat]
  have hsign : ∀ k l : ℕ, 45::decimalNat k ≠ decimalNat l := fun k l hd =>
    absurd (isDigit_decimalNat l 45 (by simp [← hd])) (by decide)
  unfold decimal at h
  split_ifs at h
  · have := habs (List.cons.inj h).2
    omega
  · exact absurd h (hsign _ _)
  · exact absurd h.symm (hsign _ _)
  · have := habs h
    omega

lemma signOf_digits {ds : List Byte} (h : ∀ b ∈ ds, isDigit b = true) : signOf ds = (false,ds) := by
  unfold signOf
  split
  · exact absurd (h 45 (by simp)) (by decide)
  · exact absurd (h 43 (by simp)) (by decide)
  · rfl

lemma isSpace_of_isDigit {b : Byte} (h : isDigit b = true) : isSpace b = false := by
  by_contra hs
  simp only [isSpace,Bool.not_eq_false,Bool.or_eq_true,beq_iff_eq,Bool.and_eq_true,
    decide_eq_true_eq] at hs
  cases hs with
  | inl hs => exact absurd (hs ▸ h) (by decide)
  | inr hs =>
    simp only [isDigit,Bool.and_eq_true,decide_eq_true_eq] at h
    exact absurd (UInt8.le_trans h.1 hs.2) (by decide)

/-- `strtol` on digits alone. -/
theorem strtol_digits {ds : List Byte} (h : ∀ b ∈ ds, isDigit b = true)
    (hle : (digitsValue ds : ℤ) ≤ longMax) : strtol ds = ((digitsValue ds : ℤ),false) := by
  have hspace : ds.dropWhile isSpace = ds := by
    refine List.dropWhile_eq_self_iff.mpr fun hpos => ?_
    simp [isSpace_of_isDigit (h _ (List.getElem_mem hpos))]
  have htake : ds.takeWhile isDigit = ds := List.takeWhile_eq_self_iff.mpr h
  have hmin : ¬ ((digitsValue ds : ℤ) < longMin) := by
    simp only [longMin]
    omega
  simp only [strtol,hspace,signOf_digits h,htake,Bool.false_eq_true,if_false]
  rw [if_neg (by omega),if_neg hmin]

/-- `strtol` reads back what `%d` prints. -/
theorem strtol_decimalNat {n : ℕ} (h : (n : ℤ) ≤ longMax) : strtol (decimalNat n) = ((n : ℤ),false) := by
  have hv := digitsValue_decimalNat n
  rw [strtol_digits (isDigit_decimalNat n) (by rw [hv]; exact h),hv]

lemma toInt_of_lt {n : ℕ} (h : n < 2^31) : toInt n = n := by
  rw [toInt,Int.bmod_eq_of_le (by omega) (by omega)]

end Decimal

section Numeral
variable {s : List Byte} {n : ℤ}

lemma numeral_eq_some : numeral s = some n ↔
    (signOf s).2 ≠ [] ∧ (∀ b ∈ (signOf s).2, isDigit b = true) ∧
      (if (signOf s).1 then -(digitsValue (signOf s).2 : ℤ) else digitsValue (signOf s).2) = n := by
  unfold numeral
  simp only [Option.ite_none_right_eq_some,Option.some.injEq,and_assoc,List.all_eq_true]

lemma numeral_ne_nil (h : numeral s = some n) : s ≠ [] := by
  rintro rfl
  exact (numeral_eq_some.mp h).1 rfl

/-- The first byte of a numeral is its sign or a digit. -/
lemma numeral_head (h : numeral s = some n) : ∃ b bs, s = b::bs ∧ isSpace b = false := by
  obtain ⟨b,bs,rfl⟩ := List.exists_cons_of_ne_nil (numeral_ne_nil h)
  refine ⟨b,bs,rfl,?_⟩
  obtain ⟨_,hdigits,_⟩ := numeral_eq_some.mp h
  unfold signOf at hdigits
  split at hdigits
  · rename_i heq
    cases heq
    decide
  · rename_i heq
    cases heq
    decide
  · exact isSpace_of_isDigit (hdigits b (by simp))

/-- The number that a text starts with, behind white space, however large. -/
def startNumber (s : List Byte) : ℤ :=
  let signed := signOf (s.dropWhile isSpace)
  if signed.1 then -(digitsValue (signed.2.takeWhile isDigit) : ℤ)
  else digitsValue (signed.2.takeWhile isDigit)

/-- In range `strtol` finds that number. -/
theorem strtol_inRange (hv : (strtol s).2 = false) : (strtol s).1 = startNumber s := by
  revert hv
  unfold strtol startNumber
  simp only
  split_ifs <;> simp

/-- A numeral starts with its own number. -/
theorem startNumber_numeral (h : numeral s = some n) : startNumber s = n := by
  obtain ⟨_,hdigits,hn⟩ := numeral_eq_some.mp h
  obtain ⟨b,bs,hs,hb⟩ := numeral_head h
  have hspace : s.dropWhile isSpace = s := by
    rw [hs,List.dropWhile_cons_of_neg (by simp [hb])]
  simp only [startNumber,hspace,List.takeWhile_eq_self_iff.mpr hdigits]
  exact hn

lemma toInt_emod (v : ℤ) : toInt (v % 2^32) = toInt v := by
  have h := Int.emod_bmod v (2^32)
  rwa [Nat.cast_pow] at h

/-- It keeps apart what differs by no multiple of 2^32. -/
theorem toInt_congr {v w : ℤ} : toInt v = toInt w ↔ v % 2^32 = w % 2^32 := by
  constructor
  · intro h
    have hv : toInt v % 2^32 = v % 2^32 := Int.bmod_emod
    have hw : toInt w % 2^32 = w % 2^32 := Int.bmod_emod
    rw [← hv,h,hw]
  · intro h
    rw [← toInt_emod,h,toInt_emod]

/-- It gives the `int` that differs by a multiple of 2^32. -/
theorem toInt_eq_iff {v : ℤ} (hn : IsInt n) : toInt v = n ↔ v % 2^32 = n % 2^32 := by
  have hself : toInt n = n := Int.bmod_eq_of_le (by have := hn.1; omega) (by have := hn.2; omega)
  rw [← toInt_congr,hself]

end Numeral

example : strtol (lit " -12x") = (-12,false) := by decide
example : toInt (strtol (lit "4294967297")).1 = 1 := by decide
example : numeral (lit "-12") = some (-12) ∧ numeral (lit "12x") = none := by
  decide +kernel
example : strtol (lit "99999999999999999999") = (longMax,true) := by decide

end Nav.C
