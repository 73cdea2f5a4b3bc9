import Mathlib.Data.List.Basic
import Mathlib.Data.List.TakeWhile

/-! Bytes, NUL-terminated strings and memory that holds them. A `CStr` is a string in the
C sense: it cannot contain the byte that ends it. -/
namespace Nav.C

abbrev Byte := UInt8

abbrev nul : Byte := 0
abbrev newline : Byte := 10
abbrev space : Byte := 32
abbrev equals : Byte := 61

/-- The bytes of a string literal, without the terminating NUL. -/
def lit (s : String) : List Byte := s.toList.map fun c => UInt8.ofNat c.toNat

/-- A NUL-terminated string, given by the bytes in front of its NUL. -/
@[ext] structure CStr where
  bytes : List Byte
  nulFree : nul ∉ bytes
  deriving DecidableEq, Repr

namespace CStr

def empty : CStr := ⟨[],by simp⟩

def length (s : CStr) : ℕ := s.bytes.length

/-- A string literal as a C string. -/
def ofLit (s : String) (h : nul ∉ lit s := by decide) : CStr := ⟨lit s,h⟩

/-- Any part of a C string is NUL-free again. -/
def part (s : CStr) (bs : List Byte) (h : bs ⊆ s.bytes) : CStr := ⟨bs,fun hn => s.nulFree (h hn)⟩

def takeWhile (p : Byte → Bool) (s : CStr) : CStr :=
  s.part (s.bytes.takeWhile p) (List.takeWhile_subset p)

def dropWhile (p : Byte → Bool) (s : CStr) : CStr :=
  s.part (s.bytes.dropWhile p) (List.dropWhile_subset p)

def tail (s : CStr) : CStr := s.part s.bytes.tail (fun _ h => List.mem_of_mem_tail h)

@[simp] theorem empty_bytes : empty.bytes = [] := rfl
@[simp] theorem part_bytes (s : CStr) (bs : List Byte) (h : bs ⊆ s.bytes) :
    (s.part bs h).bytes = bs := rfl
@[simp] theorem takeWhile_bytes (p : Byte → Bool) (s : CStr) :
    (s.takeWhile p).bytes = s.bytes.takeWhile p := rfl
@[simp] theorem dropWhile_bytes (p : Byte → Bool) (s : CStr) :
    (s.dropWhile p).bytes = s.bytes.dropWhile p := rfl
@[simp] theorem tail_bytes (s : CStr) : s.tail.bytes = s.bytes.tail := rfl

lemma ne_nul_of_mem {s : CStr} {b : Byte} (h : b ∈ s.bytes) : b ≠ nul := by
  rintro rfl
  exact s.nulFree h

end CStr

/-- The C string that starts at the first byte of `mem`. -/
def cstr (mem : List Byte) : CStr :=
  ⟨mem.takeWhile (· != nul),fun h => by simpa using List.mem_takeWhile_imp h⟩

@[simp] theorem cstr_bytes (mem : List Byte) : (cstr mem).bytes = mem.takeWhile (· != nul) := rfl

/-- A string followed by its NUL is read back whole, whatever lies behind the NUL. -/
@[simp] theorem cstr_terminated (s : CStr) (behind : List Byte) :
    cstr (s.bytes ++ nul::behind) = s := by
  ext1
  have hs : ∀ b ∈ s.bytes, (b != nul) = true := fun b hb => by simpa using CStr.ne_nul_of_mem hb
  rw [cstr_bytes,List.takeWhile_append_of_pos hs]
  simp

@[simp] theorem cstr_self (s : CStr) : cstr s.bytes = s := by
  ext1
  exact List.takeWhile_eq_self_iff.mpr fun b hb => by simpa using CStr.ne_nul_of_mem hb

/-- A NUL ends the string, wherever it comes from. -/
theorem cstr_append_nul (mem behind : List Byte) : cstr (mem ++ nul::behind) = cstr mem := by
  ext1
  rw [cstr_bytes,cstr_bytes]
  induction mem with
  | nil => simp
  | cons b mem ih =>
    rw [List.cons_append,List.takeWhile_cons,List.takeWhile_cons,ih]

lemma cstr_nulFree {bs : List Byte} (h : nul ∉ bs) : (cstr bs).bytes = bs :=
  congrArg CStr.bytes (cstr_self ⟨bs,h⟩)

end Nav.C
