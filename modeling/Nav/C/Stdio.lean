import Nav.C.Bytes
import Mathlib.Tactic.Ring

/-! Reading lines with `fgets` and appending to a fixed buffer with `sprintf` and `snprintf`. -/
namespace Nav.C

/-- `fgets` on a buffer of `n+1` bytes: the bytes it stores in front of the NUL, and the rest of
the file. It stops behind a newline, after `n` bytes, or at the end of the file. -/
def fgets : ℕ → List Byte → List Byte × List Byte
  | 0, file => ([],file)
  | _+1, [] => ([],[])
  | n+1, b::file =>
    if b = newline then ([b],file) else (b::(fgets n file).1,(fgets n file).2)

lemma fgets_append (n : ℕ) (file : List Byte) : (fgets n file).1 ++ (fgets n file).2 = file := by
  induction n generalizing file with
  | zero => rfl
  | succ n ih =>
    cases file with
    | nil => rfl
    | cons b file =>
      simp only [fgets]
      split_ifs
      · rfl
      · simp [ih]

/-- As long as the file is not exhausted, every call consumes at least one byte. -/
theorem fgets_rest_length (n : ℕ) (b : Byte) (file : List Byte) :
    (fgets (n+1) (b::file)).2.length ≤ file.length := by
  simp only [fgets]
  split_ifs
  · exact le_rfl
  · have h := congrArg List.length (fgets_append n file)
    simp only [List.length_append] at h
    simp only
    omega

/-- A line that fits with its newline is read whole, and the next call starts behind it. -/
theorem fgets_line (n : ℕ) (line rest : List Byte) (hnl : newline ∉ line) (hn : line.length < n) :
    fgets n (line ++ newline::rest) = (line ++ [newline],rest) := by
  induction line generalizing n with
  | nil =>
    obtain ⟨n,rfl⟩ := Nat.exists_eq_succ_of_ne_zero (by simp at hn; omega : n ≠ 0)
    simp [fgets]
  | cons b line ih =>
    obtain ⟨n,rfl⟩ := Nat.exists_eq_succ_of_ne_zero (by simp at hn; omega : n ≠ 0)
    have hb : b ≠ newline := fun h => hnl (by simp [h])
    have hl : newline ∉ line := fun h => hnl (by simp [h])
    simp [fgets,hb,ih n hl (by simpa using hn)]

/-- A zeroed array that text is appended to: the string in it, the running offset, and whether
a write has left the array. After such a write the C program has no defined behaviour; the
record then goes on as if there had been room. -/
structure OutBuf where
  text : List Byte
  offset : ℕ
  overrun : Bool
  deriving DecidableEq, Repr

namespace OutBuf

def empty : OutBuf := ⟨[],0,false⟩

/-- `offset += sprintf(buf + offset, ..)` on an array of `cap` bytes. -/
def sprintf (cap : ℕ) (b : OutBuf) (out : List Byte) : OutBuf :=
  ⟨b.text ++ out,b.offset+out.length,b.overrun || cap < b.offset+out.length+1⟩

/-- `offset += snprintf(buf + offset, sizeof(buf) - offset, ..)`. The size is unsigned: once the
offset has passed the array it wraps to a huge value and the write lands behind the array. -/
def snprintf (cap : ℕ) (b : OutBuf) (out : List Byte) : OutBuf :=
  if b.offset ≤ cap then
    ⟨b.text ++ out.take (cap-b.offset-1),b.offset+out.length,b.overrun⟩
  else ⟨b.text,b.offset+out.length,true⟩

variable (cap : ℕ)

/-- Without truncation in between, `sprintf` appends every piece and counts its bytes. -/
theorem foldl_sprintf (b : OutBuf) (outs : List (List Byte)) :
    (outs.foldl (sprintf cap) b).text = b.text ++ outs.flatten ∧
    (outs.foldl (sprintf cap) b).offset = b.offset+outs.flatten.length := by
  induction outs generalizing b with
  | nil => simp
  | cons out outs ih =>
    obtain ⟨ht,ho⟩ := ih (b.sprintf cap out)
    rw [List.foldl_cons,ht,ho]
    simp [sprintf,Nat.add_assoc]

lemma foldl_sprintf_overrun_of_true (b : OutBuf) (outs : List (List Byte)) (hb : b.overrun = true) :
    (outs.foldl (sprintf cap) b).overrun = true := by
  induction outs generalizing b with
  | nil => exact hb
  | cons out outs ih => exact ih _ (by simp [sprintf,hb])

/-- Pieces that fit together do not leave the array. -/
theorem foldl_sprintf_within (b : OutBuf) (outs : List (List Byte)) (hb : b.overrun = false)
    (h : b.offset+outs.flatten.length < cap) : (outs.foldl (sprintf cap) b).overrun = false := by
  induction outs generalizing b with
  | nil => exact hb
  | cons out outs ih =>
    simp only [List.flatten_cons,List.length_append] at h
    refine ih _ ?_ ?_
    · simp [sprintf,hb]
      omega
    · simp only [sprintf]
      omega

/-- The text written by `sprintf` without leaving the array is shorter than the array. -/
theorem foldl_sprintf_fits (b : OutBuf) (outs : List (List Byte)) (hb : b.offset < cap)
    (h : (outs.foldl (sprintf cap) b).overrun = false) :
    (outs.foldl (sprintf cap) b).offset < cap := by
  induction outs generalizing b with
  | nil => exact hb
  | cons out outs ih =>
    rw [List.foldl_cons] at h ⊢
    refine ih _ ?_ h
    by_contra hc
    have ho : (b.sprintf cap out).overrun = true := by
      simp only [sprintf,Bool.or_eq_true,decide_eq_true_eq] at hc ⊢
      omega
    rw [foldl_sprintf_overrun_of_true cap _ outs ho] at h
    contradiction

/-- Appended pieces stay within the array exactly if their bytes and the NUL fit into it. -/
theorem foldl_sprintf_overrun (b : OutBuf) (outs : List (List Byte)) (hb : b.overrun = false)
    (ho : b.offset < cap) :
    (outs.foldl (sprintf cap) b).overrun = false ↔ b.offset+outs.flatten.length < cap := by
  constructor
  · intro h
    have hfits := foldl_sprintf_fits cap b outs ho h
    rwa [(foldl_sprintf cap b outs).2] at hfits
  · exact foldl_sprintf_within cap b outs hb

/-- `snprintf` stays within the array as long as no piece starts behind its end. -/
theorem foldl_snprintf_within (b : OutBuf) (outs : List (List Byte)) (hb : b.overrun = false)
    (h : ∀ k < outs.length, b.offset+(outs.take k).flatten.length ≤ cap) :
    (outs.foldl (snprintf cap) b).overrun = false := by
  induction outs generalizing b with
  | nil => exact hb
  | cons out outs ih =>
    have hle : b.offset ≤ cap := by simpa using h 0 (by simp)
    refine ih _ (by simp [snprintf,hle,hb]) fun k hk => ?_
    have hk' := h (k+1) (by simpa using hk)
    simp only [List.take_succ_cons,List.flatten_cons,List.length_append] at hk'
    simp only [snprintf,hle,if_true]
    omega

lemma foldl_snprintf_overrun_of_true (b : OutBuf) (outs : List (List Byte)) (hb : b.overrun = true) :
    (outs.foldl (snprintf cap) b).overrun = true := by
  induction outs generalizing b with
  | nil => exact hb
  | cons out outs ih =>
    refine ih _ ?_
    unfold snprintf
    split_ifs
    · exact hb
    · rfl

/-- And only as long as that. -/
theorem foldl_snprintf_overrun (b : OutBuf) (outs : List (List Byte)) (hb : b.overrun = false) :
    (outs.foldl (snprintf cap) b).overrun = false ↔
      ∀ k < outs.length, b.offset+(outs.take k).flatten.length ≤ cap := by
  refine ⟨fun h => ?_,foldl_snprintf_within cap b outs hb⟩
  induction outs generalizing b with
  | nil => simp
  | cons out outs ih =>
    rw [List.foldl_cons] at h
    have hle : b.offset ≤ cap := by
      by_contra hgt
      have hover : (b.snprintf cap out).overrun = true := by simp [snprintf,hgt]
      rw [foldl_snprintf_overrun_of_true cap _ outs hover] at h
      contradiction
    have hrest := ih (b.snprintf cap out) (by simp [snprintf,hle,hb]) h
    intro k hk
    cases k with
    | zero => simpa using hle
    | succ k =>
      have hk' := hrest k (by simpa using hk)
      simp only [snprintf,hle,if_true] at hk'
      simp only [List.take_succ_cons,List.flatten_cons,List.length_append]
      omega

/-- What `snprintf` keeps in the array is the front of the pieces, cut before the last byte. -/
theorem foldl_snprintf_text (b : OutBuf) (outs : List (List Byte))
    (all : List Byte) (ht : b.text = all.take (cap-1)) (ho : b.offset = all.length) :
    (outs.foldl (snprintf cap) b).text = (all ++ outs.flatten).take (cap-1) ∧
    (outs.foldl (snprintf cap) b).offset = all.length+outs.flatten.length := by
  induction outs generalizing b all with
  | nil => simp [ht,ho]
  | cons out outs ih =>
    have hstep : (b.snprintf cap out).text = (all ++ out).take (cap-1) ∧
        (b.snprintf cap out).offset = (all ++ out).length := by
      unfold snprintf
      rw [List.take_append,ht,ho]
      split_ifs with hle
      · refine ⟨?_,by simp⟩
        rw [show cap-all.length-1 = cap-1-all.length by omega]
      · refine ⟨?_,by simp⟩
        rw [show cap-1-all.length = 0 by omega]
        simp
    obtain ⟨ht',ho'⟩ := ih _ _ hstep.1 hstep.2
    rw [List.foldl_cons,ht',ho']
    simp [Nat.add_assoc]

end OutBuf
end Nav.C
