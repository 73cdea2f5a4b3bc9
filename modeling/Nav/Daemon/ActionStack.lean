import Nav.Daemon.Invariant
import Nav.Lib.PerKey

/-! The action stacks of the shells. Every call acts on the stack of its own shell, as on an
abstract stack of paths, and `pop` answers from the top of it. -/
namespace Nav.Daemon
open Nav.C Nav.Lib

/-- The stack of every registered PID. -/
def actionStacks (s : State) (pid : ℤ) : Option (List CStr) := (s.shell? pid).map stackOf

/-- What a call does to the stack of its shell, `none` while the shell is not registered. -/
def stackStep (st : Option (List CStr)) (c : Call) : Option (List CStr) :=
  match findCommand c.cmdStr, c.args with
  | some .register, _ => some (st.getD [])
  | some .unregister, _ => none
  | some .push, some line =>
    if validPath c.env (trimmed line) then st.map (pushTop · (trimmed line)) else st
  | some .pop, _ => st.map List.tail
  | some .reset, _ => st.map fun _ => []
  | _, _ => st

/-- The reply to `pop`, given the top of the stack. -/
def popReply : Option CStr → List Byte
  | some p => p.bytes ++ [newline]
  | none => bad

/-- `pop` from a registered shell sends that one reply, formatted within its buffer. -/
def PopAnswers (cacheDir : CStr) (st : Option (List CStr)) (c : Call) (o : Outcome) : Prop :=
  findCommand c.cmdStr = some .pop → ∀ ps, st = some ps →
    o.sent = [⟨sockPath cacheDir c.pid,popReply ps.head?⟩] ∧ o.overrun = false

abbrev stackNext : (ℤ → Option (List CStr)) → Call → ℤ → Option (List CStr) :=
  Machine.perKey Call.pid stackStep

/-- The calls that are considered: the commands that tokenise their arguments have some, there is
memory, and pushed paths fit in the reply of `pop`. -/
structure StackCall (c : Call) : Prop where
  args : c.HasArgs
  memory : c.env.nodeMalloc = true ∧ c.env.dataMalloc = true
  short : findCommand c.cmdStr = some .push →
    ∀ line, c.args = some line → (trimmed line).length ≤ 98

structure StackInv (cacheDir : CStr) (s : State) : Prop where
  wellFormed : s.WellFormed
  cacheDir : s.cacheDir = cacheDir
  short : ∀ sh ∈ s.shells.nodes, ∀ p ∈ stackOf sh, p.length ≤ 98

section Stacks
variable {s s' : State} {pid : ℤ} {sh : Shell}

lemma actionStacks_none (h : s.shell? pid = none) : actionStacks s pid = none := by simp [actionStacks,h]

lemma actionStacks_some (h : s.shell? pid = some sh) : actionStacks s pid = some (stackOf sh) := by
  simp [actionStacks,h]

lemma actionStacks_append (h : s.shell? pid = none) (cacheDir : CStr) :
    actionStacks {s with shells := listAppendNode s.shells (newShell cacheDir pid)} =
      Function.update (actionStacks s) pid (some []) := by
  funext q
  rw [actionStacks,shell?_append s pid q h cacheDir,Function.update_apply]
  split_ifs
  · rfl
  · rfl

lemma actionStacks_delete (hw : s.WellFormed) (h : s.shell? pid = some sh) :
    actionStacks {s with shells := (listDeleteNode compareShellPid s.shells pid).list} =
      Function.update (actionStacks s) pid none := by
  funext q
  rw [actionStacks,shell?_delete s pid q hw h,Function.update_apply]
  split_ifs
  · rfl
  · rfl

lemma actionStacks_setActions (h : s.shell? pid = some sh) (actions : NodeList Action) :
    actionStacks (setActions s pid actions) =
      Function.update (actionStacks s) pid (some (actions.nodes.map Action.path)) := by
  funext q
  rw [actionStacks,shell?_setActions s pid q actions,h,Function.update_apply]
  split_ifs
  · rfl
  · rfl

end Stacks

section Step
variable {s : State} {c : Call} {o : Outcome}

/-- While the list of shells stays the same, only the stack of the caller has to be looked at. -/
theorem actionStacks_same {s' : State} (hsh : s'.shells = s.shells)
    (h : stackStep (actionStacks s c.pid) c = actionStacks s c.pid) :
    actionStacks s' = stackNext (actionStacks s) c := by
  have hs : actionStacks s' = actionStacks s := by
    funext q
    simp only [actionStacks,State.shell?,hsh]
  rw [hs,stackNext,Machine.perKey,h,Function.update_eq_self]

/-- The commands that have nothing to do with stacks. -/
theorem stackStep_other (st : Option (List CStr)) {cmd : Command}
    (hc : findCommand c.cmdStr = some cmd) (h1 : cmd ≠ .register) (h2 : cmd ≠ .unregister)
    (h3 : cmd ≠ .push) (h4 : cmd ≠ .pop) (h5 : cmd ≠ .reset) : stackStep st c = st := by
  unfold stackStep
  rw [hc]
  cases cmd <;> first | rfl | contradiction

/-- Every call acts on the stacks as the abstract one does. -/
theorem Exit.actionStacks_next (h : Exit c s o) (hw : s.WellFormed)
    (hm : c.env.nodeMalloc = true ∧ c.env.dataMalloc = true) :
    actionStacks o.state = stackNext (actionStacks s) c := by
  cases h with
  | unknown hc => exact actionStacks_same rfl (by simp [stackStep,hc])
  | ignored hc hs =>
    refine actionStacks_same rfl ?_
    rw [actionStacks_none hs,stackStep]
    split
    · contradiction
    all_goals simp
  | registeredAgain hc hs =>
    exact actionStacks_same rfl (by simp [stackStep,hc,actionStacks_some hs])
  | registered hc hs =>
    rw [reply,actionStacks_append hs,stackNext,Machine.perKey,actionStacks_none hs]
    simp [stackStep,hc]
  | unregistered hc hs =>
    rw [reply,actionStacks_delete hw hs,stackNext,Machine.perKey]
    simp [stackStep,hc]
  | pushNothing hc hs hargs => exact actionStacks_same rfl (by simp [stackStep,hc,hargs])
  | pushInvalid hc hs hargs hv => exact actionStacks_same rfl (by simp [stackStep,hc,hargs,hv])
  | pushedAgain hc hs hargs hv htop =>
    have hhead : (stackOf _).head? = _ := List.head?_map.trans htop
    refine actionStacks_same rfl ?_
    simp [stackStep,hc,hargs,hv,actionStacks_some hs,pushTop,hhead]
  | pushed hc hs hargs hv htop =>
    rw [reply,actionStacks_setActions hs,stackNext,Machine.perKey,actionStacks_some hs]
    simp [stackStep,hc,hargs,hv,pushTop,stackOf,htop]
  | popEmpty hc hs ha =>
    exact actionStacks_same rfl (by simp [stackStep,hc,actionStacks_some hs,stackOf,ha])
  | popped hc hs ha =>
    simp only [reply]
    rw [actionStacks_setActions hs,stackNext,Machine.perKey,actionStacks_some hs,deleteTop ha]
    simp [stackStep,hc,stackOf,ha]
  | reset hc hs =>
    rw [reply,actionStacks_setActions hs,stackNext,Machine.perKey,actionStacks_some hs,
      listDeleteAll_eq]
    simp [stackStep,hc]
  | registerNoMemory _ _ hn => exact absurd hm hn
  | pushNoMemory _ _ _ _ _ hn => exact absurd hm hn
  | addMalformed hc | addInvalid hc | rebound hc | addNoMemory hc | added hc | deleteBlank hc
  | deleteAbsent hc | deleted hc | shown hc | listed hc | getBlank hc | getAbsent hc | got hc
  | actionsShown hc =>
    exact actionStacks_same rfl (stackStep_other _ hc (by simp) (by simp) (by simp) (by simp)
      (by simp))

/-- `pop` answers from the top of the stack of its shell. -/
theorem Exit.popAnswers {cacheDir : CStr} (h : Exit c s o) (hi : StackInv cacheDir s) :
    PopAnswers cacheDir (actionStacks s c.pid) c o := by
  intro hc ps hst
  obtain ⟨sh,hs,rfl⟩ := Option.map_eq_some_iff.mp hst
  have hdest : sh.sunPath = sockPath cacheDir c.pid := by
    rw [hi.wellFormed.sunPath_eq hs,hi.cacheDir]
  cases h with
  | ignored _ hs' => simp [hs] at hs'
  | popEmpty _ hs' ha =>
    obtain rfl := Option.mem_unique hs hs'
    simp [reply,stackOf,ha,popReply,hdest]
  | popped _ hs' ha =>
    obtain rfl := Option.mem_unique hs hs'
    have hlen := hi.short sh (shell?_mem hs) _ (by rw [stackOf,ha,List.map_cons]; exact List.mem_cons_self)
    simp only [CStr.length] at hlen
    simp [reply,stackOf,ha,popReply,hdest,pathBuf,OutBuf.sprintf,OutBuf.empty]
    omega
  | _ => simp_all

/-- The invariant of the simulation is kept. -/
theorem StackInv.change {s' : State} {cacheDir : CStr} (hi : StackInv cacheDir s)
    (hc : StackCall c) (h : Change c s s') : StackInv cacheDir s' := by
  refine ⟨hi.wellFormed.change h,?_,?_⟩
  · rw [h.cacheDir,hi.cacheDir]
  · exact h.forall_paths hi.short fun line hcmd hargs => hc.short hcmd line hargs

end Step

section Run
variable {st : Option (List CStr)} {cacheDir : CStr} {pid : ℤ}

/-- `push p`, where `p` exists. -/
def Pushes (c : Call) (p : CStr) : Prop :=
  findCommand c.cmdStr = some .push ∧ validPath c.env p = true ∧
    ∃ line, c.args = some line ∧ trimmed line = p

lemma foldl_stackStep_pushes {pushes : List Call} {ps : List CStr}
    (h : List.Forall₂ Pushes pushes ps) (st : List CStr) :
    pushes.foldl stackStep (some st) = some (ps.foldl pushTop st) := by
  induction h generalizing st with
  | nil => rfl
  | cons hp _ ih =>
    obtain ⟨hc,hv,line,hargs,rfl⟩ := hp
    rw [List.foldl_cons,List.foldl_cons,← ih]
    simp [stackStep,hc,hargs,hv]

/-- Successive pops answer from the stack, top first, and `BAD` when it is used up. -/
theorem popAnswers_run {pops : List Call} {os : List Outcome} {st : List CStr}
    (hpops : ∀ c ∈ pops, findCommand c.cmdStr = some .pop ∧ c.pid = pid)
    (h : Machine.Conforms stackStep (PopAnswers cacheDir) (some st) pops os) :
    os.map Outcome.sent =
      (List.range pops.length).map fun i => [⟨sockPath cacheDir pid,popReply st[i]?⟩] := by
  induction pops generalizing st os with
  | nil => cases os with
    | nil => rfl
    | cons o os => exact h.elim
  | cons c pops ih => cases os with
    | nil => exact h.elim
    | cons o os =>
      obtain ⟨ho,hr⟩ := h
      obtain ⟨hc,rfl⟩ := hpops c (by simp)
      have hnext : stackStep (some st) c = some st.tail := by simp [stackStep,hc]
      rw [hnext] at hr
      rw [List.map_cons,ih (fun d hd => hpops d (by simp [hd])) hr,(ho hc st rfl).1,List.length_cons,
        List.range_succ_eq_map,List.map_cons,List.map_map,List.head?_eq_getElem?]
      simp [Function.comp_def]

/-- The shells of a daemon are an abstract map from PIDs to stacks of paths, however the calls
of different shells are interleaved. In particular, pushes of existing paths on an empty stack
come back in reverse, adjacent repeats once. -/
theorem actionStack_refines (cacheDir : CStr) (validPath : CStr → Bool) (malloc : ℕ → Bool)
    (file : Option (List Byte)) (cs : List Call) (hcs : ∀ c ∈ cs, StackCall c) :
    ∃ s os, runCalls (startState cacheDir validPath malloc file) cs = .ok (s,os) ∧
      actionStacks s = cs.foldl stackNext (fun _ => none) ∧
      Machine.Conforms stackNext (fun m c o => PopAnswers cacheDir (m c.pid) c o)
        (fun _ => none) cs os ∧
      ∀ pid before after pushes pops ps, cs = before ++ after →
        before.foldl stackNext (fun _ => none) pid = some [] →
        after.filter (·.pid = pid) = pushes ++ pops → List.Forall₂ Pushes pushes ps →
        (∀ c ∈ pops, findCommand c.cmdStr = some .pop) →
        ((Machine.outputsAt Call.pid pid after (os.drop before.length)).drop pushes.length).map
            Outcome.sent =
          (List.range pops.length).map fun i =>
            [⟨sockPath cacheDir pid,popReply (ps.destutter (· ≠ ·)).reverse[i]?⟩] := by
  have hstart : StackInv cacheDir (startState cacheDir validPath malloc file) :=
    ⟨startState_wellFormed cacheDir validPath malloc file,rfl,by rintro _ ⟨⟩⟩
  obtain ⟨s,os,hr,_⟩ := Machine.run_total handle (StackInv cacheDir) StackCall (fun s c hi hc => by
    obtain ⟨s',o,hh,_⟩ := handle_total hi.wellFormed hc.args
    exact ⟨s',o,hh,hi.change hc (handle_change hh)⟩) hstart hcs
  obtain ⟨habs,hout⟩ := Machine.run_simulates handle actionStacks stackNext
    (fun m c o => PopAnswers cacheDir (m c.pid) c o) (StackInv cacheDir) StackCall
    (fun s c s' o hi hc hh => ⟨hi.change hc (handle_change hh),
      (handle_exit hh).2 ▸ (handle_exit hh).1.actionStacks_next hi.wellFormed hc.memory,
      (handle_exit hh).1.popAnswers hi⟩) hstart hcs hr
  have hnone : actionStacks (startState cacheDir validPath malloc file) = fun _ => none := rfl
  rw [hnone] at habs hout
  refine ⟨s,os,hr,habs,hout,?_⟩
  rintro pid before after pushes pops ps rfl hempty hsplit hpushes hpops
  -- the calls of one PID, seen alone, are pushes followed by pops
  have hpid := hout.append.2.perKey Call.pid stackStep pid
  rw [hempty,hsplit] at hpid
  have hpop := hpid.append.2
  rw [foldl_stackStep_pushes hpushes,foldl_pushTop] at hpop
  refine popAnswers_run (fun c hc => ⟨hpops c hc,?_⟩) hpop
  have hm : c ∈ after.filter (·.pid = pid) := by simp [hsplit,hc]
  simpa using (List.mem_filter.mp hm).2

theorem actionStack_refines_push_pop : ∃ s os,
    runCalls (startState (CStr.ofLit "/c") (fun _ => true) (fun _ => true) none)
      [⟨openEnv fun _ => true,CStr.ofLit "register",1,none⟩,
       ⟨openEnv fun _ => true,CStr.ofLit "push",1,some (CStr.ofLit "/a ")⟩,
       ⟨openEnv fun _ => true,CStr.ofLit "pop",2,none⟩,
       ⟨openEnv fun _ => true,CStr.ofLit "push",1,some (CStr.ofLit "/a")⟩,
       ⟨openEnv fun _ => true,CStr.ofLit "pop",1,none⟩,
       ⟨openEnv fun _ => true,CStr.ofLit "pop",1,none⟩] = .ok (s,os) ∧
    (os.drop 4).map Outcome.sent =
      [[⟨lit "/c/1.sock",lit "/a\n"⟩],[⟨lit "/c/1.sock",lit "BAD\n"⟩]] := by
  obtain ⟨s,os,hr,_,_,hpops⟩ := actionStack_refines (CStr.ofLit "/c") (fun _ => true) (fun _ => true)
    none [⟨openEnv fun _ => true,CStr.ofLit "register",1,none⟩,
       ⟨openEnv fun _ => true,CStr.ofLit "push",1,some (CStr.ofLit "/a ")⟩,
       ⟨openEnv fun _ => true,CStr.ofLit "pop",2,none⟩,
       ⟨openEnv fun _ => true,CStr.ofLit "push",1,some (CStr.ofLit "/a")⟩,
       ⟨openEnv fun _ => true,CStr.ofLit "pop",1,none⟩,
       ⟨openEnv fun _ => true,CStr.ofLit "pop",1,none⟩] (by
    simp only [List.mem_cons,List.not_mem_nil,or_false,forall_eq_or_imp,forall_eq]
    refine ⟨?_,?_,?_,?_,?_,?_⟩ <;> refine ⟨?_,⟨rfl,rfl⟩,?_⟩ <;> simp [Call.HasArgs] <;> decide)
  have h := hpops 1 [_] _ [_,_] [_,_] [CStr.ofLit "/a",CStr.ofLit "/a"] rfl (by decide) rfl
    (by
      refine .cons ?_ (.cons ?_ .nil) <;> refine ⟨by decide,rfl,_,rfl,by decide⟩) (by decide)
  refine ⟨s,os,hr,?_⟩
  obtain ⟨rfl,rfl⟩ : _ = s ∧ _ = os := by simpa using (Except.ok.inj hr)
  exact h

end Run
end Nav.Daemon
