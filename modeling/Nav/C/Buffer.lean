import Nav.C.Bytes

/-! Fixed `char` arrays that datagrams are received into. `recv` overwrites the front and leaves
the rest as it is, so a string in the array may go on behind the datagram. -/
namespace Nav.C

/-- A `char` array of `n` bytes. -/
structure Buffer (n : ℕ) where
  bytes : List Byte
  size : bytes.length = n
  deriving DecidableEq

namespace Buffer
variable {n : ℕ}

def zero (n : ℕ) : Buffer n := ⟨List.replicate n nul,List.length_replicate⟩

/-- Write from the first byte on; what does not fit is cut off. -/
def write (b : Buffer n) (front : List Byte) : Buffer n :=
  ⟨front.take n ++ b.bytes.drop front.length,by simp [b.size]; omega⟩

/-- `recv(.., buf, sizeof(buf), 0)` of one datagram: the bytes and `nbytes`. -/
def recv (b : Buffer n) (datagram : List Byte) : Buffer n × ℕ :=
  (b.write datagram,min datagram.length n)

/-- There is a NUL in the array. -/
def terminated (b : Buffer n) : Bool := b.bytes.contains nul

/-- The string at the start of the array, the whole array if it has no NUL. -/
def str (b : Buffer n) : CStr := cstr b.bytes

/-- What a string that fills the first `k` bytes goes on with. -/
def leftover (b : Buffer n) (k : ℕ) : CStr := cstr (b.bytes.drop k)

variable (b : Buffer n) (d : List Byte)

@[simp] theorem zero_bytes : (zero n).bytes = List.replicate n nul := rfl

lemma write_fits (h : d.length ≤ n) : (b.write d).bytes = d ++ b.bytes.drop d.length := by
  simp [write,List.take_of_length_le h]

/-- Behind a received text the string goes on with the old bytes. -/
theorem write_str (hd : nul ∉ d) (h : d.length ≤ n) :
    (b.write d).str.bytes = d ++ (b.leftover d.length).bytes := by
  have hall : ∀ c ∈ d, (c != nul) = true := by
    intro c hc
    have hne : c ≠ nul := by rintro rfl; exact hd hc
    simpa using hne
  rw [str,cstr_bytes,write_fits b d h,List.takeWhile_append_of_pos hall]
  rfl

lemma write_terminated (hd : nul ∉ d) (h : d.length ≤ n) :
    (b.write d).terminated = (b.bytes.drop d.length).contains nul := by
  rw [terminated,write_fits b d h]
  simp [hd]

/-- A write leaves the bytes behind it alone. -/
theorem write_getElem? {k : ℕ} (h : d.length ≤ k) (hk : k < n) :
    (b.write d).bytes[k]? = b.bytes[k]? := by
  rw [write_fits b d (h.trans hk.le),List.getElem?_append_right h,List.getElem?_drop]
  congr 1
  omega

/-- A byte of a part that is all NUL. -/
lemma getElem?_of_clear {k j : ℕ} (h : ∀ c ∈ b.bytes.drop k, c = nul) (hk : k ≤ j) (hj : j < n) :
    b.bytes[j]? = some nul := by
  have hlt : j < b.bytes.length := by rw [b.size]; exact hj
  have hmem : b.bytes[j] ∈ b.bytes.drop k := by
    rw [List.mem_drop_iff_getElem]
    exact ⟨j-k,by omega,by congr 1; omega⟩
  rw [List.getElem?_eq_getElem hlt,h _ hmem]

lemma terminated_of_nul {k : ℕ} (h : b.bytes[k]? = some nul) : b.terminated = true := by
  simpa [terminated] using List.mem_of_getElem? h

/-- The string ends at a NUL. -/
theorem str_length {k : ℕ} (h : b.bytes[k]? = some nul) : b.str.length ≤ k := by
  obtain ⟨hk,hnul⟩ := List.getElem?_eq_some_iff.mp h
  by_contra hlt
  have hmem : nul ∈ b.str.bytes := by
    have hpre : b.str.bytes <+: b.bytes := List.takeWhile_prefix _
    rw [← hnul,← hpre.getElem (by simpa [CStr.length] using hlt)]
    exact List.getElem_mem _
  exact b.str.nulFree hmem

/-- The old byte right behind the text is a NUL exactly when the string in the array is the
text. -/
theorem leftover_empty (k : ℕ) (hk : k < n) :
    b.leftover k = CStr.empty ↔ b.bytes[k]? = some nul := by
  have hk' : k < b.bytes.length := by rw [b.size]; exact hk
  rw [leftover,List.drop_eq_getElem_cons hk',List.getElem?_eq_getElem hk']
  constructor
  · intro h
    have hb := congrArg CStr.bytes h
    by_contra hne
    have hne' : (b.bytes[k] != nul) = true := by simpa using hne
    simp [hne'] at hb
    omega
  · intro h
    have hn : b.bytes[k] = nul := by simpa using h
    ext1
    simp [hn]

/-- The string in the array is the received text exactly when the byte behind it is a NUL. -/
theorem write_str_iff (hd : nul ∉ d) (h : d.length < n) :
    (b.write d).str.bytes = d ↔ b.bytes[d.length]? = some nul := by
  rw [write_str b d hd h.le,← leftover_empty b d.length h]
  constructor
  · intro hs
    ext1
    simpa using hs
  · intro he
    simp [he]

lemma write_terminated_clear (hd : nul ∉ d) (h : d.length < n)
    (hb : b.bytes[d.length]? = some nul) : (b.write d).terminated = true := by
  rw [write_terminated b d hd h.le]
  simpa using List.mem_of_getElem? (i:=0) (by simpa using hb)

/-- A text is what is in front of the first NUL, or all there is. -/
theorem cstr_split : d = (cstr d).bytes ∨ ∃ rest, d = (cstr d).bytes ++ nul::rest := by
  have hsplit : (cstr d).bytes ++ d.dropWhile (· != nul) = d := List.takeWhile_append_dropWhile
  cases hr : d.dropWhile (· != nul) with
  | nil =>
    left
    rw [hr,List.append_nil] at hsplit
    exact hsplit.symm
  | cons c rest =>
    right
    have hc := List.head_dropWhile_not (· != nul) (l:=d) (by rw [hr]; simp)
    simp only [hr,List.head_cons,bne_eq_false_iff_eq] at hc
    rw [hr,hc] at hsplit
    exact ⟨rest,hsplit.symm⟩

/-- In a cleared array a text that is shorter than the array is followed by a NUL. -/
theorem zero_write_text (h : (cstr d).length < n) :
    ∃ behind, ((zero n).write d).bytes = (cstr d).bytes ++ nul::behind := by
  simp only [CStr.length] at h
  rcases cstr_split d with hd | ⟨rest,hd⟩
  · rw [← hd] at h ⊢
    refine ⟨List.replicate (n-d.length-1) nul,?_⟩
    rw [write_fits _ _ h.le,zero_bytes,List.drop_replicate,← List.replicate_succ]
    congr 2
    omega
  · refine ⟨rest.take (n-(cstr d).bytes.length-1) ++ (List.replicate n nul).drop d.length,?_⟩
    have htake : d.take n = (cstr d).bytes ++ nul::rest.take (n-(cstr d).bytes.length-1) := by
      conv_lhs => rw [hd]
      rw [List.take_append,List.take_of_length_le h.le]
      obtain ⟨m,hm⟩ := Nat.exists_eq_succ_of_ne_zero (by omega : n-(cstr d).bytes.length ≠ 0)
      rw [hm,List.take_succ_cons]
      rfl
    simp only [write,htake,zero_bytes,List.append_assoc,List.cons_append]

/-- A text that is not shorter fills the array without a NUL. -/
theorem zero_write_full (h : n ≤ (cstr d).length) : ((zero n).write d).terminated = false := by
  have hprefix : (cstr d).bytes <+: d := List.takeWhile_prefix _
  have hlen := hprefix.length_le
  simp only [CStr.length] at h
  have htake : d.take n = (cstr d).bytes.take n := by
    obtain ⟨rest,hr⟩ := hprefix
    conv_lhs => rw [← hr]
    exact List.take_append_of_le_length h
  have hdrop : (List.replicate n nul).drop d.length = [] := by
    rw [List.drop_eq_nil_iff,List.length_replicate]
    exact h.trans hlen
  have hnul : nul ∉ (cstr d).bytes.take n := fun hm => (cstr d).nulFree (List.mem_of_mem_take hm)
  simpa [terminated,write,htake,hdrop] using hnul

end Buffer
end Nav.C
