import Nav.Daemon.Changes
import Mathlib.Data.List.Chain

/-! The invariant of the daemon's lists. It holds after start-up whatever the tag file says, is
kept by every change, and is what keeps the handlers from following a NULL pointer. -/
namespace Nav.Daemon
open Nav.C Nav.Lib

/-- The paths of an action list from the top. -/
def stackOf (sh : Shell) : List CStr := sh.actions.nodes.map Action.path

structure State.WellFormed (s : State) : Prop where
  pids : (s.shells.nodes.map Shell.pid).Nodup
  tags : (s.tags.nodes.map Tag.tag).Nodup
  shellsCounted : s.shells.Counted
  tagsCounted : s.tags.Counted
  actionsCounted : ∀ sh ∈ s.shells.nodes, sh.actions.Counted
  noRepeat : ∀ sh ∈ s.shells.nodes, (stackOf sh).IsChain (· ≠ ·)
  addressed : ∀ sh ∈ s.shells.nodes, sh.sunPath = sockPath s.cacheDir sh.pid

section Lookup
variable (s : State) (pid q : ℤ)

lemma shell?_append (h : s.shell? pid = none) (cacheDir : CStr) :
    {s with shells := listAppendNode s.shells (newShell cacheDir pid)}.shell? q =
      if q = pid then some (newShell cacheDir pid) else s.shell? q := by
  simp only [State.shell?,listAppendNode_nodes,List.find?_append] at h ⊢
  split_ifs with hq
  · subst hq
    simp [h,newShell]
  · simp [newShell,Ne.symm hq]

lemma shell?_delete {sh : Shell} (hw : s.WellFormed) (h : s.shell? pid = some sh) :
    {s with shells := (listDeleteNode compareShellPid s.shells pid).list}.shell? q =
      if q = pid then none else s.shell? q := by
  simp only [State.shell?,deleteShell h]
  exact find?_eraseP Shell.pid s.shells.nodes pid q hw.pids

lemma shell?_setActions (actions : NodeList Action) :
    (setActions s pid actions).shell? q =
      if q = pid then (s.shell? pid).map (fun sh => {sh with actions}) else s.shell? q := by
  simp only [State.shell?,setActions,updateNode_nodes,compareShellPid_eq_zero]
  exact find?_modifyFirst Shell.pid _ s.shells.nodes pid q (fun _ => rfl)

/-- What holds of all shells still does if it holds of the one whose stack is replaced. -/
theorem forall_setActions {actions : NodeList Action} {p : Shell → Prop}
    (h : ∀ sh ∈ s.shells.nodes, p sh) (hnew : ∀ sh ∈ s.shells.nodes, p {sh with actions}) :
    ∀ sh ∈ (setActions s pid actions).shells.nodes, p sh :=
  forall_mem_modifyFirst _ _ _ h fun sh hm _ => hnew sh hm

end Lookup

/-- A change brings no path onto a stack but the one that the call pushes. -/
theorem Change.forall_paths {c : Call} {s s' : State} {p : CStr → Prop} (h : Change c s s')
    (hp : ∀ sh ∈ s.shells.nodes, ∀ q ∈ stackOf sh, p q)
    (hnew : ∀ line, findCommand c.cmdStr = some .push → c.args = some line → p (trimmed line)) :
    ∀ sh ∈ s'.shells.nodes, ∀ q ∈ stackOf sh, p q := by
  have hset : ∀ actions : NodeList Action, (∀ q ∈ actions.nodes.map Action.path, p q) →
      ∀ sh ∈ (setActions s c.pid actions).shells.nodes, ∀ q ∈ stackOf sh, p q :=
    fun actions ha => forall_setActions s c.pid hp fun _ _ => ha
  cases h with
  | registered => exact forall_listAppendNode _ hp (by simp [stackOf,newShell,NodeList.empty])
  | unregistered => exact forall_listDeleteNode _ _ _ hp
  | pushed hc hs hargs _ _ _ =>
    refine hset _ fun q hq => ?_
    rcases List.mem_cons.mp hq with rfl | hq
    · exact hnew _ hc hargs
    · exact hp _ (shell?_mem hs) q hq
  | popped _ hs ha =>
    refine hset _ fun q hq => ?_
    rw [deleteTop ha] at hq
    exact hp _ (shell?_mem hs) q (by simp only [stackOf,ha,List.map_cons]; simp [hq])
  | reset _ hs =>
    refine hset _ fun q hq => ?_
    rw [listDeleteAll_eq] at hq
    simp at hq
  | _ => exact hp

lemma tags_update_keys (tags : NodeList Tag) (tag path : CStr) :
    (updateNode compareTagTag tags tag fun t => {t with path}).nodes.map Tag.tag =
      tags.nodes.map Tag.tag := by
  rw [updateNode_nodes]
  exact modifyFirst_map_eq _ _ _ Tag.tag fun _ => rfl

namespace State.WellFormed
variable {s : State} {pid : ℤ}

/-- Nothing but the tag list counts when only the tag list changes. -/
theorem with_tags (hw : s.WellFormed) (env : Env) (tags : NodeList Tag)
    (hn : (tags.nodes.map Tag.tag).Nodup) (hc : tags.Counted) :
    (saveTags env {s with tags}).WellFormed :=
  ⟨hw.pids,hn,hw.shellsCounted,hc,hw.actionsCounted,hw.noRepeat,hw.addressed⟩

/-- Giving one shell a counted stack without repeats keeps the invariant. -/
theorem setActions (hw : s.WellFormed) (actions : NodeList Action) (hc : actions.Counted)
    (hr : (actions.nodes.map Action.path).IsChain (· ≠ ·)) :
    (Daemon.setActions s pid actions).WellFormed where
  pids := by
    have hkeys : (Daemon.setActions s pid actions).shells.nodes.map Shell.pid =
        s.shells.nodes.map Shell.pid := modifyFirst_map_eq _ _ _ Shell.pid fun _ => rfl
    rw [hkeys]
    exact hw.pids
  tags := hw.tags
  shellsCounted := hw.shellsCounted.update compareShellPid pid _
  tagsCounted := hw.tagsCounted
  actionsCounted := forall_setActions s pid hw.actionsCounted fun _ _ => hc
  noRepeat := forall_setActions s pid hw.noRepeat fun _ _ => hr
  addressed := forall_setActions s pid hw.addressed hw.addressed

/-- The socket of the shell that is found for a PID is the one made from that PID. -/
theorem sunPath_eq {sh : Shell} (hw : s.WellFormed) (hs : s.shell? pid = some sh) :
    sh.sunPath = sockPath s.cacheDir pid := by
  rw [hw.addressed sh (shell?_mem hs),shell?_pid hs]

/-- Every change keeps the invariant. -/
theorem change {c : Call} {s' : State} (hw : s.WellFormed) (h : Change c s s') :
    s'.WellFormed := by
  cases h with
  | same => exact hw
  | registered _ hs _ =>
    refine ⟨?_,hw.tags,hw.shellsCounted.append _,hw.tagsCounted,
      forall_listAppendNode _ hw.actionsCounted rfl,
      forall_listAppendNode _ hw.noRepeat List.isChain_nil,
      forall_listAppendNode _ hw.addressed rfl⟩
    exact nodup_append_singleton Shell.pid _ hw.pids _ ((find?_key_none Shell.pid _ _).mp hs)
  | unregistered _ hs =>
    refine ⟨?_,hw.tags,hw.shellsCounted.deleteNode _ _,hw.tagsCounted,
      forall_listDeleteNode _ _ _ hw.actionsCounted,forall_listDeleteNode _ _ _ hw.noRepeat,
      forall_listDeleteNode _ _ _ hw.addressed⟩
    rw [deleteShell hs]
    exact nodup_eraseP Shell.pid _ _ hw.pids
  | rebound =>
    refine hw.with_tags _ _ ?_ (hw.tagsCounted.update _ _ _)
    rw [tags_update_keys]
    exact hw.tags
  | added _ _ _ _ _ ht _ =>
    exact hw.with_tags _ _ (nodup_append_singleton Tag.tag _ hw.tags _
      ((find?_key_none Tag.tag _ _).mp ht)) (hw.tagsCounted.append _)
  | deleted _ _ _ _ ht =>
    refine hw.with_tags _ _ ?_ (hw.tagsCounted.deleteNode _ _)
    rw [deleteTag ht]
    exact nodup_eraseP Tag.tag _ _ hw.tags
  | pushed _ hs _ _ htop _ =>
    have hm := shell?_mem hs
    refine hw.setActions _ ((hw.actionsCounted _ hm).prepend _) ?_
    have hr := hw.noRepeat _ hm
    rw [listPrependNode_nodes,List.map_cons,List.isChain_cons]
    refine ⟨fun p hp he => htop ?_,hr⟩
    rw [← List.head?_map,show trimmed _ = p from he]
    exact hp
  | popped _ hs ha =>
    have hm := shell?_mem hs
    refine hw.setActions _ ((hw.actionsCounted _ hm).deleteNode _ _) ?_
    have hr := hw.noRepeat _ hm
    rw [stackOf,ha,List.map_cons] at hr
    rw [deleteTop ha]
    exact hr.tail
  | reset _ hs =>
    rw [(hw.actionsCounted _ (shell?_mem hs)).deleteAll]
    exact hw.setActions _ rfl List.isChain_nil

end State.WellFormed

/-- Loading one line keeps tags distinct and counted. -/
theorem readLine_wellFormed (validPath : CStr → Bool) (malloc : Bool) (line : CStr)
    (tags : NodeList Tag) (hn : (tags.nodes.map Tag.tag).Nodup) (hc : tags.Counted) :
    ((readLine validPath malloc line tags).nodes.map Tag.tag).Nodup ∧
    (readLine validPath malloc line tags).Counted := by
  rcases readLine_cases validPath malloc line tags with h | ⟨tag,path,_,h⟩ | ⟨tag,path,ht,_,h⟩
  · rw [h]
    exact ⟨hn,hc⟩
  · rw [h]
    refine ⟨?_,hc.update _ _ _⟩
    rwa [tags_update_keys]
  · rw [h]
    refine ⟨nodup_append_singleton Tag.tag _ hn _ ?_,hc.append _⟩
    simpa [listGetNode_eq] using ht

lemma readLoop_wellFormed (validPath : CStr → Bool) (malloc : ℕ → Bool) (fuel i : ℕ)
    (file : List Byte) (tags : NodeList Tag) (hn : (tags.nodes.map Tag.tag).Nodup)
    (hc : tags.Counted) :
    ((readLoop validPath malloc fuel i file tags).nodes.map Tag.tag).Nodup ∧
    (readLoop validPath malloc fuel i file tags).Counted := by
  induction fuel generalizing i file tags with
  | zero => exact ⟨hn,hc⟩
  | succ fuel ih =>
    simp only [readLoop]
    split_ifs
    · exact ⟨hn,hc⟩
    · exact ⟨hn,hc⟩
    · obtain ⟨hn',hc'⟩ := readLine_wellFormed validPath (malloc i) _ tags hn hc
      exact ih _ _ _ hn' hc'

lemma startState_wellFormed (cacheDir : CStr) (validPath : CStr → Bool) (malloc : ℕ → Bool)
    (file : Option (List Byte)) : (startState cacheDir validPath malloc file).WellFormed := by
  have htags : ((startState cacheDir validPath malloc file).tags.nodes.map Tag.tag).Nodup ∧
      (startState cacheDir validPath malloc file).tags.Counted := by
    cases file with
    | none => exact ⟨List.nodup_nil,rfl⟩
    | some bytes => exact readLoop_wellFormed _ _ _ _ _ _ List.nodup_nil rfl
  have hnil : ∀ {p : Shell → Prop}, ∀ sh ∈ ([] : List Shell), p sh := by simp
  exact ⟨List.nodup_nil,htags.1,rfl,htags.2,hnil,hnil,hnil⟩

lemma run_wellFormed {s s' : State} {cs : List Call} {os : List Outcome} (hw : s.WellFormed)
    (h : runCalls s cs = .ok (s',os)) : s'.WellFormed :=
  Machine.run_invariant handle State.WellFormed (fun _ => True)
    (fun _ _ _ _ hw _ hs => hw.change (handle_change hs)) hw (fun _ _ => trivial) h

lemma Reachable.wellFormed {s : State} (h : Reachable s) : s.WellFormed := by
  obtain ⟨cacheDir,validPath,malloc,file,cs,os,hr⟩ := h
  exact run_wellFormed (startState_wellFormed cacheDir validPath malloc file) hr

/-- The commands that tokenise their arguments have got some. -/
def Call.HasArgs (c : Call) : Prop :=
  findCommand c.cmdStr = some .add ∨ findCommand c.cmdStr = some .delete ∨
    findCommand c.cmdStr = some .get → c.args ≠ none

lemma withShell_total {s : State} {pid : ℤ} {args : Option CStr}
    {handler : Shell → Except Fault Outcome}
    (h : ∀ sh, s.shell? pid = some sh → ∃ o, handler sh = .ok o) :
    ∃ o, withShell s pid args handler = .ok o := by
  cases hs : s.shell? pid with
  | none => exact ⟨_,withShell_none hs⟩
  | some sh =>
    rw [withShell_some hs]
    exact h sh hs

/-- No handler faults that has the arguments it tokenises. -/
theorem cmdFunc_total {s : State} (hw : s.WellFormed) (env : Env) (cmd : Command) (pid : ℤ)
    {args : Option CStr} (hargs : cmd = .add ∨ cmd = .delete ∨ cmd = .get → args ≠ none) :
    ∃ o, cmdFunc cmd env s pid args = .ok o := by
  cases cmd with
  | register =>
    simp only [cmdFunc,cmdRegister]
    split
    · exact ⟨_,rfl⟩
    · split_ifs <;> exact ⟨_,rfl⟩
  | unregister =>
    refine withShell_total fun sh hs => ?_
    simp only [deleteShell hs,Option.mapM_some,
      cleanupShell_counted sh (hw.actionsCounted sh (shell?_mem hs))]
    exact ⟨_,rfl⟩
  | add =>
    refine withShell_total fun sh _ => ?_
    obtain ⟨line,hl⟩ := Option.ne_none_iff_exists'.mp (hargs (Or.inl rfl))
    simp only [hl]
    split
    · exact ⟨_,rfl⟩
    · split
      · exact ⟨_,rfl⟩
      · split
        · exact ⟨_,rfl⟩
        · split_ifs <;> exact ⟨_,rfl⟩
  | delete =>
    refine withShell_total fun sh _ => ?_
    obtain ⟨line,hl⟩ := Option.ne_none_iff_exists'.mp (hargs (Or.inr (Or.inl rfl)))
    simp only [hl]
    split
    · exact ⟨_,rfl⟩
    · split <;> exact ⟨_,rfl⟩
  | get =>
    refine withShell_total fun sh _ => ?_
    obtain ⟨line,hl⟩ := Option.ne_none_iff_exists'.mp (hargs (Or.inr (Or.inr rfl)))
    simp only [hl]
    split
    · exact ⟨_,rfl⟩
    · split <;> exact ⟨_,rfl⟩
  | push =>
    refine withShell_total fun sh _ => ?_
    simp only
    split
    · exact ⟨_,rfl⟩
    · split_ifs <;> exact ⟨_,rfl⟩
  | pop =>
    refine withShell_total fun sh _ => ?_
    simp only
    split <;> exact ⟨_,rfl⟩
  | «show» => exact withShell_total fun sh _ => ⟨_,rfl⟩
  | actions => exact withShell_total fun sh _ => ⟨_,rfl⟩
  | list => exact withShell_total fun sh _ => ⟨_,rfl⟩
  | reset => exact withShell_total fun sh _ => ⟨_,rfl⟩

/-- From a well-formed state no call faults that brings the arguments its handler tokenises. -/
theorem handle_total {s : State} {c : Call} (hw : s.WellFormed) (hc : c.HasArgs) :
    ∃ s' o, handle s c = .ok (s',o) ∧ s'.WellFormed := by
  have hdispatch : ∃ o, dispatchCommand c.env s c.cmdStr c.pid c.args = .ok o := by
    unfold dispatchCommand
    cases hf : findCommand c.cmdStr with
    | none => exact ⟨_,rfl⟩
    | some cmd =>
      refine cmdFunc_total hw c.env cmd c.pid fun hcmd => hc ?_
      simpa [hf] using hcmd
  obtain ⟨o,ho⟩ := hdispatch
  have hh : handle s c = .ok (o.state,o) := handle_ok.mpr ⟨ho,rfl⟩
  exact ⟨o.state,o,hh,hw.change (handle_change hh)⟩

/-- Whatever a call sends goes to the socket of its PID. -/
theorem Exit.addressed {s : State} {c : Call} {o : Outcome} (h : Exit c s o) (hw : s.WellFormed) :
    ∀ d ∈ o.sent, d.dest = sockPath s.cacheDir c.pid := by
  cases h with
  | unknown | ignored | registerNoMemory | deleteBlank | getBlank | pushNothing => simp [quiet]
  | registered => simp [reply,newShell]
  | registeredAgain _ hs | unregistered _ hs | addMalformed _ hs | addInvalid _ hs | rebound _ hs
  | addNoMemory _ hs | added _ hs | deleteAbsent _ hs | deleted _ hs | shown _ hs | listed _ hs
  | getAbsent _ hs | got _ hs | pushInvalid _ hs | pushedAgain _ hs | pushNoMemory _ hs | pushed _ hs
  | popEmpty _ hs | popped _ hs | actionsShown _ hs | reset _ hs =>
    simp [reply,hw.sunPath_eq hs]

/-- A call that does not lack an argument is handled. -/
theorem dispatchCommand_ok (env : Env) {s : State} {cmdStr : CStr} {pid : ℤ} {args : Option CStr}
    (hw : s.WellFormed) (hc : (Call.mk env cmdStr pid args).HasArgs) :
    ∃ o, dispatchCommand env s cmdStr pid args = .ok o ∧ Exit ⟨env,cmdStr,pid,args⟩ s o ∧
      o.state.WellFormed := by
  obtain ⟨S,o,hh,hS⟩ := handle_total hw hc
  obtain ⟨ho,rfl⟩ := handle_ok.mp hh
  exact ⟨o,ho,(handle_exit hh).1,hS⟩

end Nav.Daemon
