import Nav.C.Strtok
import Nav.Daemon.State

/-! The loop of `get_trailing_whitespace` byte by byte: how it ends, how far it reads, and when it
does what its comment says. -/
namespace Nav.Daemon
open Nav.C

/-- The largest `int`. -/
def intMax : ℕ := 2^31-1

/-- How the loop ends: with a return, at the end of the memory, or where `i++` overflows. -/
inductive ScanEnd
  | returns (i : ℕ)
  | offMemory
  | overflow
  deriving DecidableEq, Repr

/-- A run of the loop: its end, and how many bytes from `s` on it has read. A byte off the memory is
counted, too. -/
structure Scan where
  ending : ScanEnd
  reads : ℕ
  deriving DecidableEq, Repr

/-- The loop over `p`, which is never NULL. -/
def scanLoop : List Byte → ℕ → Scan
  | [], i => ⟨.offMemory,i+1⟩
  | b::mem, i =>
    if isBreak b then ⟨.returns i,i+1⟩
    else if i = intMax then ⟨.overflow,i+1⟩
    else scanLoop mem (i+1)

/-- `get_trailing_whitespace(s)` on the memory that starts at `s`. -/
def scan (mem : List Byte) : Scan := scanLoop mem 0

/-- "Index of the first trailing whitespace character if found; otherwise, the length of the
string", and no byte behind the NUL is read. -/
structure MeetsContract (s : CStr) (behind : List Byte) : Prop where
  returns : (scan (s.bytes ++ nul::behind)).ending = .returns (s.bytes.findIdx isBreak)
  within : (scan (s.bytes ++ nul::behind)).reads ≤ s.length+1

section Loop
variable (mem : List Byte) (i : ℕ)

/-- Bytes that are no breaks are passed over, up to the largest `int`. -/
theorem scanLoop_skip (pre : List Byte) (hpre : ∀ b ∈ pre, isBreak b = false)
    (hi : i+pre.length ≤ intMax) : scanLoop (pre ++ mem) i = scanLoop mem (i+pre.length) := by
  induction pre generalizing i with
  | nil => simp
  | cons b pre ih =>
    have hb : isBreak b = false := hpre b (by simp)
    rw [List.length_cons] at hi ⊢
    have hne : i ≠ intMax := by omega
    simp only [List.cons_append,scanLoop,hb,hne,Bool.false_eq_true,if_false]
    rw [ih (i+1) (fun c hc => hpre c (by simp [hc])) (by omega)]
    congr 1
    omega

/-- The loop reads the byte it has reached. -/
lemma lt_scanLoop_reads : i < (scanLoop mem i).reads := by
  induction mem generalizing i with
  | nil => simp [scanLoop]
  | cons b mem ih =>
    unfold scanLoop
    split_ifs
    · exact Nat.lt_succ_self i
    · exact Nat.lt_succ_self i
    · exact Nat.lt_of_succ_lt (ih (i+1))

/-- On memory that an `int` can index the loop ends where the search for a break does. -/
theorem scan_ending (h : mem.length ≤ intMax) :
    (scan mem).ending = match getTrailingWhitespace mem with
      | some i => .returns i
      | none => .offMemory := by
  suffices hloop : ∀ i, i+mem.length ≤ intMax →
      (scanLoop mem i).ending = match (mem.findIdx? isBreak).map (·+i) with
        | some j => .returns j
        | none => .offMemory by
    simpa [scan,getTrailingWhitespace] using hloop 0 (by omega)
  clear h
  induction mem with
  | nil => intro i _; rfl
  | cons b mem ih =>
    intro i hi
    rw [List.length_cons] at hi
    have hne : i ≠ intMax := by omega
    cases hb : isBreak b with
    | true => simp [scanLoop,List.findIdx?_cons,hb]
    | false =>
      simp only [scanLoop,List.findIdx?_cons,hb,hne,Bool.false_eq_true,if_false]
      rw [ih (i+1) (by omega),Option.map_map]
      congr 2
      funext j
      simp only [Function.comp_apply]
      omega

/-- The loop returns exactly if there is a break that an `int` can index. -/
theorem scan_returns_iff :
    (∃ i, (scan mem).ending = .returns i) ↔ ∃ b ∈ mem.take (intMax+1), isBreak b = true := by
  suffices hloop : ∀ i ≤ intMax, (∃ j, (scanLoop mem i).ending = .returns j) ↔
      ∃ b ∈ mem.take (intMax+1-i), isBreak b = true from hloop 0 (Nat.zero_le _)
  induction mem with
  | nil => simp [scanLoop]
  | cons b mem ih =>
    intro i hi
    rw [Nat.succ_sub hi,List.take_succ_cons]
    cases hb : isBreak b with
    | true => simp [scanLoop,hb]
    | false =>
      by_cases hlast : i = intMax
      · simp [scanLoop,hb,hlast]
      · have hrest := ih (i+1) (by omega)
        rw [show intMax+1-(i+1) = intMax-i by omega] at hrest
        simpa [scanLoop,hb,hlast] using hrest

end Loop

section Contract
variable (s : CStr) (behind : List Byte)

/-- With a break among the bytes that an `int` can index the loop returns there. -/
lemma meetsContract_of_break {pre rest : List Byte} {b : Byte} (hs : s.bytes = pre ++ b::rest)
    (hpre : ∀ c ∈ pre, isBreak c = false) (hb : isBreak b = true) (hi : pre.length ≤ intMax) :
    MeetsContract s behind := by
  have hscan : scan (s.bytes ++ nul::behind) = ⟨.returns pre.length,pre.length+1⟩ := by
    rw [scan,hs,List.append_assoc,scanLoop_skip _ 0 pre hpre (by omega),zero_add]
    simp [scanLoop,hb]
  have hfirst : s.bytes.findIdx isBreak = pre.length := by
    rw [hs,List.findIdx_append,List.findIdx_eq_length_of_false hpre]
    simp [List.findIdx_cons,hb]
  refine ⟨?_,?_⟩
  · rw [hscan,hfirst]
  · rw [hscan,CStr.length,hs,List.length_append,List.length_cons]
    exact Nat.succ_le_succ (Nat.le_add_right _ _)

/-- Without a break the loop goes past the NUL, unless `i` overflows before. -/
lemma not_meetsContract (hs : ∀ b ∈ s.bytes.take (intMax+1), isBreak b = false) :
    ¬ MeetsContract s behind := by
  rintro ⟨hret,hwithin⟩
  rw [scan] at hret hwithin
  by_cases hlen : s.length ≤ intMax
  · rw [List.take_of_length_le (show s.bytes.length ≤ intMax+1 from Nat.le_succ_of_le hlen)] at hs
    rw [scanLoop_skip _ 0 s.bytes hs (by rw [zero_add]; exact hlen),zero_add] at hret hwithin
    have hnul : isBreak nul = false := by decide
    simp only [scanLoop,hnul,Bool.false_eq_true,if_false] at hret hwithin
    split_ifs at hret hwithin
    exact absurd (lt_scanLoop_reads behind (s.bytes.length+1)) (Nat.not_lt.mpr hwithin)
  · -- the byte at the largest `int` is no break either
    have hlt : intMax < s.bytes.length := Nat.not_le.mp hlen
    have hsplit : s.bytes = s.bytes.take intMax ++ s.bytes[intMax]::s.bytes.drop (intMax+1) := by
      rw [List.getElem_cons_drop,List.take_append_drop]
    have htake : s.bytes.take (intMax+1) = s.bytes.take intMax ++ [s.bytes[intMax]] := by
      rw [List.take_succ_eq_append_getElem hlt]
    have hpre : (s.bytes.take intMax).length = intMax := List.length_take_of_le hlt.le
    rw [htake] at hs
    have hlast : isBreak s.bytes[intMax] = false := hs _ List.mem_concat_self
    rw [hsplit,List.append_assoc,
      scanLoop_skip _ 0 _ (fun c hc => hs c (List.mem_append_left _ hc)) (by omega),hpre,
      zero_add] at hret
    simp only [List.cons_append,scanLoop,hlast,Bool.false_eq_true,if_false,if_true,
      reduceCtorEq] at hret

/-- The contract is met exactly where the string has a break that an `int` can index. -/
theorem meetsContract_iff :
    MeetsContract s behind ↔ ∃ b ∈ s.bytes.take (intMax+1), isBreak b = true := by
  constructor
  · intro hmeets
    by_contra hno
    refine not_meetsContract s behind (fun b hb => ?_) hmeets
    rw [← Bool.not_eq_true]
    exact fun hbreak => hno ⟨b,hb,hbreak⟩
  · rintro ⟨b,hb,hbreak⟩
    obtain ⟨c,hc⟩ := Option.isSome_iff_exists.mp (List.find?_isSome.mpr ⟨b,hb,hbreak⟩)
    obtain ⟨hbreak,pre,rest,hsplit,hpre⟩ := List.find?_eq_some_iff_append.mp hc
    have hlen : pre.length ≤ intMax := by
      have h := congrArg List.length hsplit
      rw [List.length_take,List.length_append,List.length_cons] at h
      omega
    have hs : s.bytes = pre ++ c::(rest ++ s.bytes.drop (intMax+1)) := by
      rw [← List.cons_append,← List.append_assoc,← hsplit,List.take_append_drop]
    exact meetsContract_of_break s behind hs (fun a ha => by simpa using hpre a ha) hbreak hlen

end Contract

/-- A token that a space has ended: the loop goes on to the space behind the next token. -/
theorem meetsContract_token :
    (Strtok.start (CStr.ofLit "a b c")).next isBlank =
      (some (CStr.ofLit "a"),⟨lit "a" ++ [nul],CStr.ofLit "b c"⟩) ∧
    scan ((CStr.ofLit "a").bytes ++ nul::(lit "b c" ++ [nul])) = ⟨.returns 3,4⟩ ∧
    ¬ MeetsContract (CStr.ofLit "a") (lit "b c" ++ [nul]) := by
  have hscan : scan ((CStr.ofLit "a").bytes ++ nul::(lit "b c" ++ [nul])) = ⟨.returns 3,4⟩ := by
    decide
  refine ⟨by decide,hscan,fun h => ?_⟩
  have hwithin := h.within
  rw [hscan] at hwithin
  exact absurd hwithin (by decide)

end Nav.Daemon
