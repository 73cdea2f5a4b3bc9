import Nav.Daemon.Arguments
import Nav.Daemon.ReplyBuffers
import Nav.Daemon.Whitespace

/-! Calls on the memory that stands behind their arguments. `get_trailing_whitespace` does not stop
at the NUL of a token, so a handler may run off the memory; and a reply may be formatted past the
end of its array. Either ends what can be said of the daemon. -/
namespace Nav.Daemon
open Nav.C

/-- What a call or a round can come to in the place of a return. -/
inductive Crash
  | fault (f : Fault)
  | scan
  | overrun
  deriving DecidableEq, Repr

/-- The memory from the token on that a call of `strtok_r` returns. `behind` are the bytes behind
the NUL of the string. -/
def tokenMem (delim : Byte → Bool) (k : Strtok) (behind : List Byte) : List Byte :=
  ((k.next delim).2.region ++ nul::behind).drop
    (k.passed.length+(k.save.bytes.takeWhile delim).length)

/-- `cmd_add` looks for the end of its first two tokens, each as soon as it has it. -/
def addScans (line : CStr) (behind : List Byte) : List (List Byte) :=
  match (Strtok.start line).next isBlank with
  | (none,_) => []
  | (some _,k) =>
    tokenMem isBlank (Strtok.start line) behind::
      match (k.next isBlank).1 with
      | none => []
      | some _ => [tokenMem isBlank k behind]

/-- `cmd_delete` and `cmd_get` have one token. -/
def tagScans (line : CStr) (behind : List Byte) : List (List Byte) :=
  match ((Strtok.start line).next isBlank).1 with
  | none => []
  | some _ => [tokenMem isBlank (Strtok.start line) behind]

/-- The memory that `get_trailing_whitespace` is called on while a call is handled. -/
def handlerScans (s : State) (c : Call) (behind : List Byte) : List (List Byte) :=
  match s.shell? c.pid,c.args with
  | some _,some line =>
    match findCommand c.cmdStr with
    | some .add => addScans line behind
    | some .delete => tagScans line behind
    | some .get => tagScans line behind
    | some .push => [line.bytes ++ nul::behind]
    | _ => []
  | _,_ => []

/-- A call with the bytes behind its arguments, as far as they can be read. -/
structure Placed where
  call : Call
  behind : List Byte

/-- Handle one call where it stands in memory. -/
def liveHandle (s : State) (p : Placed) : Except Crash (State × Outcome) :=
  if (handlerScans s p.call p.behind).all fun mem => (scan mem).ending matches .returns _ then
    match handle s p.call with
    | .error f => .error (.fault f)
    | .ok (s',o) => if o.overrun then .error .overrun else .ok (s',o)
  else .error .scan

/-- Behind every token that a handler measures there is a newline or a space in memory. -/
def ScansEnd (s : State) (p : Placed) : Prop :=
  ∀ mem ∈ handlerScans s p.call p.behind, ∃ b ∈ mem.take (intMax+1), isBreak b = true

instance (s : State) (p : Placed) : Decidable (ScansEnd s p) :=
  inferInstanceAs (Decidable (∀ mem ∈ _, ∃ b ∈ _, _))

/-- The reply of a registered shell fits into the array that it is formatted in. -/
def ReplyFits (s : State) (c : Call) : Prop :=
  ∀ sh, s.shell? c.pid = some sh →
    match findCommand c.cmdStr with
    | some .show => (s.tags.nodes.dropLast.map fun t => t.tag.length+t.path.length+6).sum ≤ 2048
    | some .list => (s.tags.nodes.map fun t => t.tag.length+1).sum ≤ 255
    | some .actions => (((sh.actions.nodes.map Action.path).zipIdx 1).map fun x =>
        x.1.length+(decimal x.2).length+7).sum ≤ 1023
    | some .get => ∀ line, c.args = some line → ∀ tag, (tagArg line).1 = some tag →
        ∀ t, s.tag? tag = some t → t.path.length ≤ 98
    | some .pop => ∀ a, sh.actions.nodes.head? = some a → a.path.length ≤ 98
    | _ => True

/-- What is scanned starts with the token and its NUL, so wherever the scan ends, the copy is the
token up to its own first break. -/
theorem tokenMem_trimmed {delim : Byte → Bool} {k k' : Strtok} {token : CStr} {behind : List Byte}
    {i : ℕ} (hk : k.next delim = (some token,k'))
    (hi : getTrailingWhitespace (tokenMem delim k behind) = some i) :
    strndup (tokenMem delim k behind) i = trimmed token := by
  obtain ⟨rest,hrest⟩ : ∃ rest, tokenMem delim k behind = token.bytes ++ nul::rest := by
    have hlead : ∀ {lead token : List Byte} (after : List Byte), (∀ b ∈ lead, delim b = true) →
        (∀ b ∈ token, delim b = false) → token ≠ [] →
        (lead ++ (token ++ after)).takeWhile delim = lead := by
      intro lead token after hlead htoken hne
      obtain ⟨b,bs,rfl⟩ := List.exists_cons_of_ne_nil hne
      rw [List.takeWhile_append_of_pos hlead]
      simp [htoken b (by simp)]
    unfold tokenMem
    rcases Strtok.next_cases delim k with hb | ⟨lead,t,hl,ht,hne,⟨hs,hn⟩ | ⟨d,after,_,hs,hn⟩⟩
    · rw [Strtok.next_blank delim k hb] at hk
      cases hk
    · rw [hn] at hk ⊢
      cases hk
      have htake := hlead [] hl ht hne
      rw [List.append_nil,← hs] at htake
      refine ⟨behind,?_⟩
      rw [htake,hs]
      simp [Strtok.region]
    · rw [hn] at hk ⊢
      cases hk
      have htake := hlead (d::after.bytes) hl ht hne
      rw [← hs] at htake
      refine ⟨after.bytes ++ nul::behind,?_⟩
      rw [htake]
      simp [Strtok.region]
  rw [hrest] at hi ⊢
  exact strndup_getTrailingWhitespace token rest i hi

section Calls
variable {s s' : State} {c : Call} {p : Placed} {o : Outcome}

/-- A call overruns the array of its reply exactly if the reply does not fit. -/
theorem Exit.overrun_iff (h : Exit c s o) : o.overrun = false ↔ ReplyFits s c := by
  unfold ReplyFits
  cases h with
  | unknown hc => simp [quiet,hc]
  | ignored _ hs => simp [quiet,hs]
  | registerNoMemory _ hs => simp [quiet,hs]
  | registered _ hs => simp [reply,hs]
  | shown hc hs => simp [hc,hs,showBuf_overrun]
  | listed hc hs => simp [hc,hs,listBuf_overrun]
  | actionsShown hc hs => simp [hc,hs,actionsBuf_overrun]
  | got hc hs hargs htag ht => simp [hc,hs,hargs,htag,ht,pathBuf_fits]
  | getBlank hc hs hargs htag => simp [quiet,hc,hs,hargs,htag]
  | getAbsent hc hs hargs htag ht => simp [reply,hc,hs,hargs,htag,ht]
  | popped hc hs ha => simp [hc,hs,ha,pathBuf_fits]
  | popEmpty hc hs ha => simp [reply,hc,hs,ha]
  | registeredAgain hc hs | unregistered hc hs | addMalformed hc hs | addInvalid hc hs
  | rebound hc hs | addNoMemory hc hs | added hc hs | deleteBlank hc hs | deleteAbsent hc hs
  | deleted hc hs | pushNothing hc hs | pushInvalid hc hs | pushedAgain hc hs | pushNoMemory hc hs
  | pushed hc hs | reset hc hs => simp [reply,quiet,hc]

/-- A call goes well in memory if it is handled, its scans end and its reply fits. -/
theorem liveHandle_ok : liveHandle s p = .ok (s',o) ↔
    handle s p.call = .ok (s',o) ∧ ScansEnd s p ∧ ReplyFits s p.call := by
  have hscans : ((handlerScans s p.call p.behind).all fun mem =>
      (scan mem).ending matches .returns _) = true ↔ ScansEnd s p := by
    simp only [List.all_eq_true,ScansEnd]
    refine forall₂_congr fun mem _ => ?_
    rw [← scan_returns_iff]
    cases (scan mem).ending <;> simp
  unfold liveHandle
  by_cases hall : ScansEnd s p
  · rw [if_pos (hscans.mpr hall)]
    cases hh : handle s p.call with
    | error f => simp
    | ok q =>
      obtain ⟨t,w⟩ := q
      have hfits := (handle_exit hh).1.overrun_iff
      cases ho : w.overrun with
      | false => simp [ho,hall,hfits.mp ho]
      | true =>
        have hn : ¬ ReplyFits s p.call := fun hf => by simp [hfits.mpr hf] at ho
        simp [ho,hn]
  · rw [if_neg (hscans.not.mpr hall)]
    simp [hall]

end Calls
end Nav.Daemon
