import Nav.Daemon.Invariant
import Nav.Daemon.Scans

/-! Who is answered, and what a call leaves behind that is answered `BAD` or not at all. -/
namespace Nav.Daemon
open Nav.C Nav.Lib

/-- A command of the table from a shell that is registered or asks to be, with arguments where
they are tokenised and memory where it is needed. -/
structure Asks (s : State) (c : Call) : Prop where
  command : findCommand c.cmdStr ≠ none
  args : c.HasArgs
  shell : s.shell? c.pid ≠ none ∨ findCommand c.cmdStr = some .register
  memory : c.env.nodeMalloc = true ∧ c.env.dataMalloc = true

/-- `delete` or `get` without a word in its arguments, or `push` without arguments. -/
def Unanswered (c : Call) : Prop :=
  (findCommand c.cmdStr = some .delete ∨ findCommand c.cmdStr = some .get) ∧
    (∃ line, c.args = some line ∧ line.words isBlank = []) ∨
  findCommand c.cmdStr = some .push ∧ c.args = none

/-- One `sendto`, to the socket of the PID that the call came from. -/
def AnsweredOnce (cacheDir : CStr) (c : Call) (o : Outcome) : Prop :=
  o.sent.map Datagram.dest = [sockPath cacheDir c.pid]

section Answers
variable {s : State} {c : Call} {o : Outcome}

/-- Each exit either answers once or is one of the silent ones. -/
theorem Exit.answered (h : Exit c s o) (hw : s.WellFormed) (ha : Asks s c) :
    AnsweredOnce s.cacheDir c o ↔ ¬ Unanswered c := by
  have hsilent : ∀ args, ¬ AnsweredOnce s.cacheDir c (quiet s args) := by
    simp [AnsweredOnce,quiet]
  cases h with
  | unknown hc => exact absurd hc ha.command
  | ignored hc hs => exact absurd (ha.shell.resolve_left (fun h => h hs)) hc
  | registerNoMemory _ _ hn => exact absurd ha.memory hn
  | addNoMemory _ _ _ _ _ _ hn => exact absurd ha.memory hn
  | pushNoMemory _ _ _ _ _ hn => exact absurd ha.memory hn
  | deleteBlank hc _ hargs htag =>
    exact iff_of_false (hsilent _) (not_not_intro (Or.inl ⟨Or.inl hc,_,hargs,(tagArg_eq_none _).mp htag⟩))
  | getBlank hc _ hargs htag =>
    exact iff_of_false (hsilent _) (not_not_intro (Or.inl ⟨Or.inr hc,_,hargs,(tagArg_eq_none _).mp htag⟩))
  | pushNothing hc _ hargs =>
    exact iff_of_false (hsilent _) (not_not_intro (Or.inr ⟨hc,hargs⟩))
  | deleteAbsent hc hs hargs htag | deleted hc hs hargs htag | getAbsent hc hs hargs htag
  | got hc hs hargs htag =>
    refine iff_of_true (by simp [AnsweredOnce,reply,hw.sunPath_eq hs]) ?_
    simpa [Unanswered,hc,hargs] using tagArg_words_ne _ htag
  | registered hc =>
    exact iff_of_true (by simp [AnsweredOnce,reply,newShell]) (by simp [Unanswered,hc])
  | pushInvalid hc hs hargs | pushedAgain hc hs hargs | pushed hc hs hargs =>
    exact iff_of_true (by simp [AnsweredOnce,reply,hw.sunPath_eq hs])
      (by simp [Unanswered,hc,hargs])
  | registeredAgain hc hs | unregistered hc hs | addMalformed hc hs | addInvalid hc hs
  | rebound hc hs | added hc hs | shown hc hs | listed hc hs | popEmpty hc hs | popped hc hs
  | actionsShown hc hs | reset hc hs =>
    exact iff_of_true (by simp [AnsweredOnce,reply,hw.sunPath_eq hs]) (by simp [Unanswered,hc])

/-- A call that asks has a right to its one answer, and gets it. -/
structure Answerable (s : State) (p : Placed) : Prop where
  answered : ¬ Unanswered p.call
  scans : ScansEnd s p
  fits : ReplyFits s p.call

/-- In every reachable state, wherever its arguments stand in memory, a call that asks is answered
once, at the socket of its own PID, exactly when it is none of the silent ones, the tokens it
measures have a break behind them in memory and its reply fits; and a run of such calls is answered
call by call. -/
theorem replyDiscipline_iff (s : State) (hs : Reachable s) :
    (∀ p : Placed, Asks s p.call →
      ((∃ s' o, liveHandle s p = .ok (s',o) ∧ AnsweredOnce s.cacheDir p.call o) ↔
        Answerable s p)) ∧
    (∀ ps, Machine.Along liveHandle (fun s p => Asks s p.call ∧ Answerable s p) s ps →
      ∃ s' os, Machine.run liveHandle s ps = .ok (s',os) ∧
        List.Forall₂ (fun p o => AnsweredOnce s.cacheDir p.call o) ps os) := by
  have hlive : ∀ {t : State} {p : Placed}, t.WellFormed → Asks t p.call → Answerable t p →
      ∃ t' o, liveHandle t p = .ok (t',o) ∧ t'.WellFormed := by
    intro t p hw ha hp
    obtain ⟨t',o,hh,hw'⟩ := handle_total hw ha.args
    exact ⟨t',o,liveHandle_ok.mpr ⟨hh,hp.scans,hp.fits⟩,hw'⟩
  constructor
  · intro p ha
    obtain ⟨s',o,hh,_⟩ := handle_total hs.wellFormed ha.args
    have hiff := (handle_exit hh).1.answered hs.wellFormed ha
    constructor
    · rintro ⟨s'',o',hh',hansw⟩
      obtain ⟨hcall,hscans,hfits⟩ := liveHandle_ok.mp hh'
      obtain ⟨_,rfl⟩ : s' = s'' ∧ o = o' := by simpa using Except.ok.inj (hh.symm.trans hcall)
      exact ⟨hiff.mp hansw,hscans,hfits⟩
    · intro hp
      exact ⟨s',o,liveHandle_ok.mpr ⟨hh,hp.scans,hp.fits⟩,hiff.mpr hp.answered⟩
  · intro ps hps
    obtain ⟨s',os,hr⟩ := Machine.run_along_total liveHandle State.WellFormed
      (fun t p hw ha => hlive hw ha.1 ha.2) hs.wellFormed hps
    refine ⟨s',os,hr,Machine.run_forall₂ liveHandle (fun t => t.WellFormed ∧ t.cacheDir = s.cacheDir)
      (fun t p t' o hi ha hh => ?_) ⟨hs.wellFormed,rfl⟩ hps hr⟩
    have hcall := (liveHandle_ok.mp hh).1
    have hch := handle_change hcall
    refine ⟨⟨hi.1.change hch,hch.cacheDir.trans hi.2⟩,?_⟩
    rw [← hi.2]
    exact ((handle_exit hcall).1.answered hi.1 ha.1).mpr ha.2.answered

/-- A `push` without an argument is never answered. -/
theorem replyDiscipline_fails : ¬ ∀ s, Reachable s → ∀ p : Placed, Asks s p.call →
    ∃ s' o, liveHandle s p = .ok (s',o) ∧ AnsweredOnce s.cacheDir p.call o := by
  intro h
  obtain ⟨s',o,hh,ho⟩ := h _ ⟨CStr.ofLit "/c",fun _ => true,fun _ => true,none,
    [⟨openEnv fun _ => true,CStr.ofLit "register",1,none⟩],_,rfl⟩
    ⟨⟨openEnv fun _ => true,CStr.ofLit "push",1,none⟩,[]⟩
    ⟨by decide,by simp [Call.HasArgs]; decide,by decide,rfl,rfl⟩
  obtain ⟨rfl,rfl⟩ : _ = s' ∧ _ = o := by
    simpa using Except.ok.inj (liveHandle_ok.mp hh).1
  simp [AnsweredOnce,quiet] at ho

/-- A registered shell asks for a tag of the tag file; the old bytes behind its request end the
scan. -/
theorem replyDiscipline_get : ∃ s' o,
    liveHandle ⟨CStr.ofLit "/c",⟨[newShell (CStr.ofLit "/c") 1],1⟩,
        ⟨[⟨CStr.ofLit "t",CStr.ofLit "/a"⟩],1⟩,some (lit "t=/a\n")⟩
      ⟨⟨openEnv fun _ => true,CStr.ofLit "get",1,some (CStr.ofLit "t ")⟩,lit "ster "⟩ =
      .ok (s',o) ∧
    AnsweredOnce (CStr.ofLit "/c")
      ⟨openEnv fun _ => true,CStr.ofLit "get",1,some (CStr.ofLit "t ")⟩ o := by
  refine ((replyDiscipline_iff _ ⟨CStr.ofLit "/c",fun _ => true,fun _ => true,some (lit "t=/a\n"),
    [⟨openEnv fun _ => true,CStr.ofLit "register",1,none⟩],_,rfl⟩).1 _
    ⟨by decide,by simp [Call.HasArgs],Or.inl (by decide),rfl,rfl⟩).mpr ⟨?_,?_,?_⟩
  · rintro (⟨_,line,hl,hw⟩ | ⟨hc,_⟩)
    · cases hl
      exact absurd hw (by decide)
    · exact absurd hc (by decide)
  · decide +kernel
  · rintro sh hsh line hl tag htag t ht
    cases hl
    cases htag
    have hstored : some ⟨CStr.ofLit "t",CStr.ofLit "/a"⟩ = some t := ht
    obtain rfl := Option.some.inj hstored
    decide

/-- The top of the stack is the path `BAD`, so that popping it sends the text of a refusal. -/
def PopsBad (s : State) (c : Call) : Prop :=
  findCommand c.cmdStr = some .pop ∧
    ∃ sh a as, s.shell? c.pid = some sh ∧ sh.actions.nodes = a::as ∧ a.path.bytes = lit "BAD"

/-- The state is only changed by calls that are answered with something else than `BAD`. -/
theorem Exit.same_of_refused (h : Exit c s o)
    (hr : o.sent = [] ∨ o.sent.map Datagram.payload = [bad] ∧ ¬ PopsBad s c) : o.state = s := by
  cases h with
  | registered | pushed | reset =>
    exact absurd hr (by simp [reply,show okNul ≠ bad by decide])
  | unregistered | rebound | added | deleted =>
    exact absurd hr (by simp [reply,show ok ≠ bad by decide])
  | popped hc hs ha =>
    rcases hr with hr | ⟨hr,hn⟩
    · simp [reply] at hr
    · refine absurd ⟨hc,_,_,_,hs,ha,?_⟩ hn
      have hb : bad = lit "BAD" ++ [newline] := by decide
      simpa [reply,pathBuf,OutBuf.sprintf,OutBuf.empty,hb] using hr
  | _ => rfl

/-- A call that is refused or not answered leaves lists, counters and the tag file as they were,
whatever fails meanwhile. -/
theorem refused_unchanged (s : State) (hs : Reachable s) (c : Call) (hargs : c.HasArgs) :
    ∃ s' o, handle s c = .ok (s',o) ∧
      (o.sent = [] ∨ o.sent.map Datagram.payload = [bad] ∧ ¬ PopsBad s c → s' = s) := by
  obtain ⟨s',o,hh,_⟩ := handle_total hs.wellFormed hargs
  obtain ⟨he,rfl⟩ := handle_exit hh
  exact ⟨o.state,o,hh,he.same_of_refused⟩

/-- Popping the path `BAD` sends `BAD` and takes the path off. -/
theorem refused_changes : ¬ ∀ s, Reachable s → ∀ c, c.HasArgs →
    ∀ s' o, handle s c = .ok (s',o) → o.sent = [] ∨ o.sent.map Datagram.payload = [bad] → s' = s := by
  intro h
  have hp := h _ ⟨CStr.ofLit "/c",fun _ => true,fun _ => true,none,
    [⟨openEnv fun _ => true,CStr.ofLit "register",1,none⟩,
     ⟨openEnv fun _ => true,CStr.ofLit "push",1,some (CStr.ofLit "BAD ")⟩],_,rfl⟩
    ⟨openEnv fun _ => true,CStr.ofLit "pop",1,none⟩ (by simp [Call.HasArgs]; decide) _ _ rfl
    (Or.inr rfl)
  revert hp
  decide

/-- A registered shell with a stored tag and an action on its stack adds a path that does not
exist. -/
theorem refused_unchanged_add : ∃ s' o,
    handle ⟨CStr.ofLit "/c",⟨[⟨1,sockPath (CStr.ofLit "/c") 1,⟨[⟨CStr.ofLit "/b"⟩],1⟩⟩],1⟩,
        ⟨[⟨CStr.ofLit "t",CStr.ofLit "/a"⟩],1⟩,some (lit "t=/a\n")⟩
      ⟨openEnv fun _ => false,CStr.ofLit "add",1,some (CStr.ofLit "t /gone")⟩ = .ok (s',o) ∧
    o.sent = [⟨sockPath (CStr.ofLit "/c") 1,bad⟩] ∧
    s' = ⟨CStr.ofLit "/c",⟨[⟨1,sockPath (CStr.ofLit "/c") 1,⟨[⟨CStr.ofLit "/b"⟩],1⟩⟩],1⟩,
      ⟨[⟨CStr.ofLit "t",CStr.ofLit "/a"⟩],1⟩,some (lit "t=/a\n")⟩ := by
  obtain ⟨s',o,hh,hsame⟩ := refused_unchanged _ ⟨CStr.ofLit "/c",fun _ => true,fun _ => true,
    some (lit "t=/a\n"),[⟨openEnv fun _ => true,CStr.ofLit "register",1,none⟩,
      ⟨openEnv fun _ => true,CStr.ofLit "push",1,some (CStr.ofLit "/b ")⟩],_,rfl⟩
    ⟨openEnv fun _ => false,CStr.ofLit "add",1,some (CStr.ofLit "t /gone")⟩
    (by simp [Call.HasArgs])
  have hsent : o.sent = [⟨sockPath (CStr.ofLit "/c") 1,bad⟩] := by
    have ho := congrArg (fun q : State × Outcome => q.2.sent) (Except.ok.inj hh)
    exact ho.symm
  refine ⟨s',o,hh,hsent,hsame (Or.inr ⟨?_,?_⟩)⟩
  · rw [hsent]
    rfl
  · rintro ⟨hc,_⟩
    exact absurd hc (by decide)

end Answers
end Nav.Daemon
