import Nav.Daemon.Arguments
import Nav.Daemon.Landing

/-! One round of the loop, seen from what is read: which lines make it leave, which calls follow
a NULL pointer, and what every round keeps. -/
namespace Nav.Daemon
open Nav.C

/-- The string at the start of the buffer once a datagram is in it. -/
def heard (l : Loop) (a : Arrival) : CStr := (l.buf.write a.datagram).str

/-- The last byte of the buffer is still the NUL it was cleared to. -/
def Ended (b : Buffer 100) : Prop := b.bytes[99]? = some nul

/-- The commands that tokenise their arguments. -/
def Tokenises (cmdStr : CStr) : Prop :=
  findCommand cmdStr = some .add ∨ findCommand cmdStr = some .delete ∨ findCommand cmdStr = some .get

/-- `add`, `delete` or `get` of a registered shell, with nothing behind the command word. -/
def NullArgs (s : State) (line : CStr) : Prop :=
  ∃ pidStr cmdStr, Bare line pidStr cmdStr ∧ (strtol pidStr.bytes).2 = false ∧ Tokenises cmdStr ∧
    s.shell? (toInt (strtol pidStr.bytes).1) ≠ none

/-- The second word of the line starts with a word of the command table. -/
def Taken (line : CStr) : Prop :=
  ∃ pidStr cmdStr ws, line.words isBlank = pidStr::cmdStr::ws ∧ findCommand cmdStr ≠ none

/-- The states of the loop after datagrams that are all allowed. -/
def LoopReachable (allowed : List Byte → Prop) (l : Loop) : Prop :=
  ∃ cacheDir validPath malloc file as rs, (∀ a ∈ as, allowed a.datagram) ∧
    runLoop (startLoop (startState cacheDir validPath malloc file)) as = .ok (l,rs)

section Faults
variable (env : Env) {s : State}

/-- In a well-formed state the one fault of a call is the NULL argument of a command that
tokenises it for a registered shell. -/
theorem dispatch_error_iff (hw : s.WellFormed) (d : Dispatch) (e : Fault) :
    dispatchCommand env s d.cmdStr d.pid d.args = .error e ↔
      e = .nullDeref ∧ d.args = none ∧ Tokenises d.cmdStr ∧ s.shell? d.pid ≠ none := by
  by_cases hargs : (Call.mk env d.cmdStr d.pid d.args).HasArgs
  · obtain ⟨o,ho,_⟩ := dispatchCommand_ok env hw hargs
    rw [ho]
    simp only [reduceCtorEq,false_iff]
    rintro ⟨_,hnone,ht,_⟩
    exact hargs ht hnone
  · obtain ⟨ht,hnone⟩ : Tokenises d.cmdStr ∧ d.args = none := by
      simpa [Call.HasArgs,Tokenises] using hargs
    have hcmd : ∀ (cmd : Command), findCommand d.cmdStr = some cmd →
        (∀ sh, s.shell? d.pid = some sh →
          cmdFunc cmd env s d.pid none = .error .nullDeref) →
        (s.shell? d.pid = none → ∃ o, cmdFunc cmd env s d.pid none = .ok o) →
        (dispatchCommand env s d.cmdStr d.pid d.args = .error e ↔
          e = .nullDeref ∧ d.args = none ∧ Tokenises d.cmdStr ∧ s.shell? d.pid ≠ none) := by
      intro cmd hc hsome hno
      simp only [dispatchCommand,hc,hnone]
      cases hs : s.shell? d.pid with
      | none =>
        obtain ⟨o,ho⟩ := hno hs
        simp [ho]
      | some sh => simp [hsome sh hs,ht,eq_comm]
    rcases ht with hc | hc | hc
    · exact hcmd .add hc (fun sh hs => by simp [cmdFunc,cmdAdd,withShell_some hs])
        fun hs => ⟨_,by simp only [cmdFunc,cmdAdd]; exact withShell_none hs⟩
    · exact hcmd .delete hc (fun sh hs => by simp [cmdFunc,cmdDelete,withShell_some hs])
        fun hs => ⟨_,by simp only [cmdFunc,cmdDelete]; exact withShell_none hs⟩
    · exact hcmd .get hc (fun sh hs => by simp [cmdFunc,cmdGet,withShell_some hs])
        fun hs => ⟨_,by simp only [cmdFunc,cmdGet]; exact withShell_none hs⟩

end Faults

section Readings
variable {line : CStr}

lemma taken_iff (h : ¬ OutOfRange line) : Taken line ↔
    ∃ d passed, reading line = .call d passed ∧ findCommand d.cmdStr ≠ none := by
  unfold Taken
  rcases reading_cases line with ⟨hw,_,_,hr⟩ | ⟨pidStr,ws,hw,hv,rest,_,hr⟩ | ⟨pidStr,hw,hv,_,_,hr⟩ |
    ⟨pidStr,cmdStr,args,passed,hw,hv,_,_,hr⟩
  · simp [hw,hr]
  · exact absurd ⟨pidStr,ws,hw,hv⟩ h
  · simp [hw,hr]
  · simp [hw,hr]

/-- The lines that follow a NULL pointer, seen from what is dispatched. -/
theorem nullArgs_iff {s : State} : NullArgs s line ↔ ∃ d passed, reading line = .call d passed ∧
    d.args = none ∧ Tokenises d.cmdStr ∧ s.shell? d.pid ≠ none := by
  constructor
  · rintro ⟨pidStr,cmdStr,hb,hv,ht,hs⟩
    obtain ⟨passed,hr⟩ := hb.reading hv
    exact ⟨_,passed,hr,rfl,ht,hs⟩
  · rintro ⟨⟨cmdStr,pid,args⟩,passed,hr,rfl,ht,hs⟩
    obtain ⟨pidStr,hb,hv,rfl⟩ := bare_of_reading hr
    exact ⟨pidStr,cmdStr,hb,hv,ht,hs⟩

end Readings

section Rounds
variable {l l' : Loop} {a : Arrival} {r : Round}

lemma heard_eq_on (l : Loop) (a : Arrival) : heard l a = heardOn l ⟨a,[]⟩ := by
  simp [heard,heardOn,landed,Buffer.str]

lemma terminated_iff (l : Loop) (a : Arrival) :
    (l.buf.write a.datagram).terminated = true ↔ nul ∈ landed l ⟨a,[]⟩ := by
  simp [Buffer.terminated,landed]

theorem loopRound_idle (h : l.running = false ∨ a.datagram = []) :
    loopRound l a = .ok (l,idle l.state l.running []) :=
  (loopRound_eq_on l a).trans (loopRoundOn_idle h)

/-- With a NUL in the buffer a round does what the string in it is read as. -/
theorem loopRound_read (hrun : l.running = true) (hd : a.datagram ≠ [])
    (ht : (l.buf.write a.datagram).terminated = true) :
    loopRound l a = (readRound a.env l.state (reading (heard l a))).map fun r =>
      (⟨r.state,(l.buf.write a.datagram).write r.line,r.running⟩,r) := by
  rw [loopRound_eq_on,heard_eq_on]
  exact loopRoundOn_read hrun hd ((terminated_iff l a).mp ht)

/-- Without a NUL in the buffer nothing is dispatched: the third call of `strtok_r`, if it comes
to it, runs past the end. -/
theorem loopRound_unterminated (hrun : l.running = true) (hd : a.datagram ≠ [])
    (ht : (l.buf.write a.datagram).terminated = false) :
    loopRound l a = .error .overread ∨
    ∃ line, loopRound l a = .ok (⟨l.state,(l.buf.write a.datagram).write line,false⟩,
      idle l.state false line) := by
  rw [loopRound_eq_on]
  refine loopRoundOn_noNul hrun hd fun hn => ?_
  rw [(terminated_iff l a).mpr hn] at ht
  contradiction

/-- A reading keeps the length of the line. -/
theorem readRound_length {env : Env} {s : State} {line : CStr}
    (h : readRound env s (reading line) = .ok r) : r.line.length = line.length := by
  rcases reading_cases line with ⟨_,_,hlen,hr⟩ | ⟨_,_,_,_,_,hlen,hr⟩ | ⟨_,_,_,_,hlen,hr⟩ |
    ⟨pidStr,cmdStr,args,passed,_,_,_,hlen,hr⟩
  · rw [hr] at h
    cases h
    exact hlen
  · rw [hr] at h
    cases h
    exact hlen
  · rw [hr] at h
    cases h
    exact hlen
  · simp only [hr,readRound,calledRound] at h
    cases hd : dispatchCommand env s cmdStr (toInt (strtol pidStr.bytes).1) args with
    | error e => simp [hd,Except.map] at h
    | ok o =>
      simp only [hd,Except.map,Except.ok.injEq] at h
      subst h
      have hargs : o.args.length = (region args).length :=
        (dispatchCommand_exit (c:=⟨env,cmdStr,_,args⟩) hd).args_length
      simp only [List.length_append]
      omega

section Ended
variable (hb : Ended l.buf) (hd : a.datagram.length ≤ 99)
include hb hd

lemma write_ended : (l.buf.write a.datagram).bytes[99]? = some nul :=
  (l.buf.write_getElem? a.datagram hd (by omega)).trans hb

lemma heard_length : (heard l a).length ≤ 99 := Buffer.str_length _ (write_ended hb hd)

/-- Shorter datagrams leave the last byte of the buffer alone, and so does tokenising. -/
theorem loopRound_ended (h : loopRound l a = .ok (l',r)) : Ended l'.buf := by
  by_cases hidle : l.running = false ∨ a.datagram = []
  · rw [loopRound_idle hidle] at h
    obtain ⟨rfl,_⟩ : l = l' ∧ _ = r := by simpa using h
    exact hb
  · obtain ⟨hrun,hne⟩ : l.running = true ∧ a.datagram ≠ [] := by simpa using hidle
    rw [loopRound_read hrun hne (Buffer.terminated_of_nul _ (write_ended hb hd))] at h
    cases hr : readRound a.env l.state (reading (heard l a)) with
    | error e => simp [hr,Except.map] at h
    | ok r' =>
      obtain ⟨rfl,rfl⟩ : _ = l' ∧ r' = r := by simpa [hr,Except.map] using h
      have hlen := (readRound_length hr).trans_le (heard_length hb hd)
      exact (Buffer.write_getElem? _ _ hlen (by omega)).trans (write_ended hb hd)

end Ended

/-- A round that dispatches handles one call, whose arguments are shorter than the line; a round
that does not leaves the state alone and sends nothing. -/
theorem loopRound_dispatched (h : loopRound l a = .ok (l',r)) :
    (r.dispatched = none ∧ r.sent = [] ∧ l'.state = l.state) ∨
    ∃ d passed o, reading (heard l a) = .call d passed ∧ r.dispatched = some d ∧
      r.sent = o.sent ∧ l'.running = true ∧
      handle l.state ⟨a.env,d.cmdStr,d.pid,d.args⟩ = .ok (l'.state,o) := by
  rw [loopRound_eq_on] at h
  obtain ⟨hcalled,⟨hnone,hsent,hs⟩ | ⟨d,passed,o,hd,hr,hsent,hrun,hh⟩⟩ := loopRoundOn_ok h
  · exact Or.inl ⟨hcalled.trans hnone,hsent,hs⟩
  · rw [heard_eq_on]
    exact Or.inr ⟨d,passed,o,hr,hcalled.trans hd,hsent,hrun,hh⟩

theorem loopRound_wellFormed (hw : l.state.WellFormed) (h : loopRound l a = .ok (l',r)) :
    l'.state.WellFormed :=
  loopRoundOn_wellFormed hw (by rw [← loopRound_eq_on]; exact h)

end Rounds

lemma startLoop_ended (s : State) : Ended (startLoop s).buf := by
  simp [Ended,startLoop]

namespace LoopReachable
variable {allowed : List Byte → Prop} {l : Loop}

theorem wellFormed (h : LoopReachable allowed l) : l.state.WellFormed := by
  obtain ⟨cacheDir,validPath,malloc,file,as,rs,_,hr⟩ := h
  exact Machine.run_invariant loopRound (fun l => l.state.WellFormed) (fun _ => True)
    (fun _ _ _ _ hw _ hs => loopRound_wellFormed hw hs)
    (startState_wellFormed cacheDir validPath malloc file) (fun _ _ => trivial) hr

theorem ended (h : LoopReachable allowed l) (hshort : ∀ d, allowed d → d.length ≤ 99) :
    Ended l.buf := by
  obtain ⟨cacheDir,validPath,malloc,file,as,rs,has,hr⟩ := h
  exact Machine.run_invariant loopRound (fun l => Ended l.buf) (fun a => a.datagram.length ≤ 99)
    (fun _ _ _ _ hb ha hs => loopRound_ended hb ha hs) (startLoop_ended _)
    (fun a ha => hshort _ (has a ha)) hr

end LoopReachable

end Nav.Daemon
