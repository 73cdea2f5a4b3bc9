import Nav.Daemon.Commands

/-! The exits of the handlers: every way in which a call can be handled, with what was checked
on the way, the state it leaves and what it sends. Whatever is true of the exits is true of
every step of the daemon. -/
namespace Nav.Daemon
open Nav.C Nav.Lib

/-- The registered shell of a PID. -/
def State.shell? (s : State) (pid : ℤ) : Option Shell := s.shells.nodes.find? (·.pid = pid)

/-- The stored entry of a tag. -/
def State.tag? (s : State) (tag : CStr) : Option Tag := s.tags.nodes.find? (·.tag = tag)

lemma getShell (s : State) (pid : ℤ) :
    listGetNode compareShellPid s.shells pid = s.shell? pid := by
  simp [listGetNode_eq,State.shell?]

lemma getTag (s : State) (tag : CStr) :
    listGetNode compareTagTag s.tags tag = s.tag? tag := by
  simp [listGetNode_eq,State.tag?]

section WithShell
variable {s : State} {pid : ℤ} {args : Option CStr} {handler : Shell → Except Fault Outcome}

lemma withShell_none (h : s.shell? pid = none) :
    withShell s pid args handler = .ok (quiet s (region args)) := by
  simp [withShell,getShell,h]

lemma withShell_some {sh : Shell} (h : s.shell? pid = some sh) :
    withShell s pid args handler = handler sh := by
  simp [withShell,getShell,h]

end WithShell

section Lists
variable {s : State} {pid : ℤ} {sh : Shell}

lemma shell?_mem (h : s.shell? pid = some sh) : sh ∈ s.shells.nodes :=
  List.mem_of_find?_eq_some h

lemma shell?_pid (h : s.shell? pid = some sh) : sh.pid = pid :=
  key_of_find? Shell.pid s.shells.nodes pid h

lemma tag?_tag {tag : CStr} {t : Tag} (h : s.tag? tag = some t) : t.tag = tag :=
  key_of_find? Tag.tag s.tags.nodes tag h

/-- Deleting the node of a registered shell. -/
theorem deleteShell (h : s.shell? pid = some sh) : listDeleteNode compareShellPid s.shells pid =
    ⟨0,⟨s.shells.nodes.eraseP (·.pid = pid),s.shells.nItems-1⟩,some sh⟩ := by
  have hf : s.shells.nodes.find? (·.pid = pid) = some sh := h
  rw [listDeleteNode_eq compareShellPid s.shells pid (List.ne_nil_of_mem (shell?_mem h))]
  simp [hf]

/-- Deleting the node of a stored tag. -/
theorem deleteTag {tag : CStr} {t : Tag} (h : s.tag? tag = some t) :
    (listDeleteNode compareTagTag s.tags tag).list =
      ⟨s.tags.nodes.eraseP (·.tag = tag),s.tags.nItems-1⟩ := by
  have hf : s.tags.nodes.find? (·.tag = tag) = some t := h
  rw [listDeleteNode_eq compareTagTag s.tags tag (List.ne_nil_of_mem (List.mem_of_find?_eq_some hf))]
  simp [hf]

/-- Popping deletes the top action, whatever else has the same path. -/
theorem deleteTop {a : Action} {as : List Action} {l : NodeList Action} (h : l.nodes = a::as) :
    (listDeleteNode compareActionPath l a.path).list = ⟨as,l.nItems-1⟩ := by
  obtain ⟨nodes,items⟩ := l
  obtain rfl : nodes = a::as := h
  rw [listDeleteNode_head compareActionPath a.path a as items (by simp)]

end Lists

/-- The ways in which a call is handled. -/
inductive Exit (c : Call) (s : State) : Outcome → Prop
  | unknown (hc : findCommand c.cmdStr = none) : Exit c s (quiet s (region c.args))
  | ignored (hc : findCommand c.cmdStr ≠ some .register) (hs : s.shell? c.pid = none) :
      Exit c s (quiet s (region c.args))
  | registeredAgain {sh} (hc : findCommand c.cmdStr = some .register)
      (hs : s.shell? c.pid = some sh) : Exit c s (reply s sh okNul (region c.args))
  | registerNoMemory (hc : findCommand c.cmdStr = some .register) (hs : s.shell? c.pid = none)
      (hm : ¬ (c.env.nodeMalloc = true ∧ c.env.dataMalloc = true)) :
      Exit c s (quiet s (region c.args))
  | registered (hc : findCommand c.cmdStr = some .register) (hs : s.shell? c.pid = none)
      (hm : c.env.nodeMalloc = true ∧ c.env.dataMalloc = true) :
      Exit c s (reply {s with shells := listAppendNode s.shells (newShell s.cacheDir c.pid)}
        (newShell s.cacheDir c.pid) okNul (region c.args))
  | unregistered {sh} (hc : findCommand c.cmdStr = some .unregister)
      (hs : s.shell? c.pid = some sh) :
      Exit c s (reply {s with shells := (listDeleteNode compareShellPid s.shells c.pid).list}
        sh ok (region c.args))
  | addMalformed {sh line} (hc : findCommand c.cmdStr = some .add)
      (hs : s.shell? c.pid = some sh) (hargs : c.args = some line)
      (hadd : (addArgs line).1 = none) : Exit c s (reply s sh bad (addArgs line).2)
  | addInvalid {sh line tag path} (hc : findCommand c.cmdStr = some .add)
      (hs : s.shell? c.pid = some sh) (hargs : c.args = some line)
      (hadd : (addArgs line).1 = some (tag,path)) (hv : validPath c.env path = false) :
      Exit c s (reply s sh bad (addArgs line).2)
  | rebound {sh line tag path t} (hc : findCommand c.cmdStr = some .add)
      (hs : s.shell? c.pid = some sh) (hargs : c.args = some line)
      (hadd : (addArgs line).1 = some (tag,path)) (hv : validPath c.env path = true)
      (ht : s.tag? tag = some t) :
      Exit c s (reply (saveTags c.env
        {s with tags := updateNode compareTagTag s.tags tag fun t => {t with path}})
        sh ok (addArgs line).2)
  | addNoMemory {sh line tag path} (hc : findCommand c.cmdStr = some .add)
      (hs : s.shell? c.pid = some sh) (hargs : c.args = some line)
      (hadd : (addArgs line).1 = some (tag,path)) (hv : validPath c.env path = true)
      (ht : s.tag? tag = none) (hm : ¬ (c.env.nodeMalloc = true ∧ c.env.dataMalloc = true)) :
      Exit c s (reply s sh bad (addArgs line).2)
  | added {sh line tag path} (hc : findCommand c.cmdStr = some .add)
      (hs : s.shell? c.pid = some sh) (hargs : c.args = some line)
      (hadd : (addArgs line).1 = some (tag,path)) (hv : validPath c.env path = true)
      (ht : s.tag? tag = none) (hm : c.env.nodeMalloc = true ∧ c.env.dataMalloc = true) :
      Exit c s (reply (saveTags c.env {s with tags := listAppendNode s.tags ⟨tag,path⟩})
        sh ok (addArgs line).2)
  | deleteBlank {sh line} (hc : findCommand c.cmdStr = some .delete)
      (hs : s.shell? c.pid = some sh) (hargs : c.args = some line)
      (htag : (tagArg line).1 = none) : Exit c s (quiet s (tagArg line).2)
  | deleteAbsent {sh line tag} (hc : findCommand c.cmdStr = some .delete)
      (hs : s.shell? c.pid = some sh) (hargs : c.args = some line)
      (htag : (tagArg line).1 = some tag) (ht : s.tag? tag = none) :
      Exit c s (reply s sh bad (tagArg line).2)
  | deleted {sh line tag t} (hc : findCommand c.cmdStr = some .delete)
      (hs : s.shell? c.pid = some sh) (hargs : c.args = some line)
      (htag : (tagArg line).1 = some tag) (ht : s.tag? tag = some t) :
      Exit c s (reply (saveTags c.env
        {s with tags := (listDeleteNode compareTagTag s.tags tag).list}) sh ok (tagArg line).2)
  | shown {sh} (hc : findCommand c.cmdStr = some .show) (hs : s.shell? c.pid = some sh) :
      Exit c s {reply s sh (showBuf s.tags).text (region c.args) with
        overrun := (showBuf s.tags).overrun}
  | listed {sh} (hc : findCommand c.cmdStr = some .list) (hs : s.shell? c.pid = some sh) :
      Exit c s {reply s sh (listReply s.tags) (region c.args) with
        overrun := (listBuf s.tags).overrun}
  | getBlank {sh line} (hc : findCommand c.cmdStr = some .get)
      (hs : s.shell? c.pid = some sh) (hargs : c.args = some line)
      (htag : (tagArg line).1 = none) : Exit c s (quiet s (tagArg line).2)
  | getAbsent {sh line tag} (hc : findCommand c.cmdStr = some .get)
      (hs : s.shell? c.pid = some sh) (hargs : c.args = some line)
      (htag : (tagArg line).1 = some tag) (ht : s.tag? tag = none) :
      Exit c s (reply s sh bad (tagArg line).2)
  | got {sh line tag t} (hc : findCommand c.cmdStr = some .get)
      (hs : s.shell? c.pid = some sh) (hargs : c.args = some line)
      (htag : (tagArg line).1 = some tag) (ht : s.tag? tag = some t) :
      Exit c s {reply s sh (pathBuf t.path).text (tagArg line).2 with
        overrun := (pathBuf t.path).overrun}
  | pushNothing {sh} (hc : findCommand c.cmdStr = some .push) (hs : s.shell? c.pid = some sh)
      (hargs : c.args = none) : Exit c s (quiet s (region c.args))
  | pushInvalid {sh line} (hc : findCommand c.cmdStr = some .push)
      (hs : s.shell? c.pid = some sh) (hargs : c.args = some line)
      (hv : validPath c.env (trimmed line) = false) : Exit c s (reply s sh bad (region c.args))
  | pushedAgain {sh line} (hc : findCommand c.cmdStr = some .push)
      (hs : s.shell? c.pid = some sh) (hargs : c.args = some line)
      (hv : validPath c.env (trimmed line) = true)
      (htop : sh.actions.nodes.head?.map Action.path = some (trimmed line)) :
      Exit c s (reply s sh okNul (region c.args))
  | pushNoMemory {sh line} (hc : findCommand c.cmdStr = some .push)
      (hs : s.shell? c.pid = some sh) (hargs : c.args = some line)
      (hv : validPath c.env (trimmed line) = true)
      (htop : sh.actions.nodes.head?.map Action.path ≠ some (trimmed line))
      (hm : ¬ (c.env.nodeMalloc = true ∧ c.env.dataMalloc = true)) :
      Exit c s (reply s sh bad (region c.args))
  | pushed {sh line} (hc : findCommand c.cmdStr = some .push)
      (hs : s.shell? c.pid = some sh) (hargs : c.args = some line)
      (hv : validPath c.env (trimmed line) = true)
      (htop : sh.actions.nodes.head?.map Action.path ≠ some (trimmed line))
      (hm : c.env.nodeMalloc = true ∧ c.env.dataMalloc = true) :
      Exit c s (reply (setActions s c.pid (listPrependNode sh.actions ⟨trimmed line⟩))
        sh okNul (region c.args))
  | popEmpty {sh} (hc : findCommand c.cmdStr = some .pop) (hs : s.shell? c.pid = some sh)
      (ha : sh.actions.nodes = []) : Exit c s (reply s sh bad (region c.args))
  | popped {sh a as} (hc : findCommand c.cmdStr = some .pop)
      (hs : s.shell? c.pid = some sh) (ha : sh.actions.nodes = a::as) :
      Exit c s {reply (setActions s c.pid
          (listDeleteNode compareActionPath sh.actions a.path).list)
          sh (pathBuf a.path).text (region c.args) with overrun := (pathBuf a.path).overrun}
  | actionsShown {sh} (hc : findCommand c.cmdStr = some .actions)
      (hs : s.shell? c.pid = some sh) :
      Exit c s {reply s sh (actionsBuf sh.actions).text (region c.args) with
        overrun := (actionsBuf sh.actions).overrun}
  | reset {sh} (hc : findCommand c.cmdStr = some .reset) (hs : s.shell? c.pid = some sh) :
      Exit c s (reply (setActions s c.pid (listDeleteAll sh.actions).1) sh okNul (region c.args))

section Handlers
variable {c : Call} {s : State} {o : Outcome}

/-- A handler that starts with `withShell` either ignores the call or has found the shell. -/
theorem withShell_exit {handler : Shell → Except Fault Outcome}
    (hc : findCommand c.cmdStr ≠ some .register)
    (h : withShell s c.pid c.args handler = .ok o)
    (hh : ∀ sh, s.shell? c.pid = some sh → handler sh = .ok o → Exit c s o) : Exit c s o := by
  cases hs : s.shell? c.pid with
  | none =>
    rw [withShell_none hs] at h
    cases h
    exact .ignored hc hs
  | some sh =>
    rw [withShell_some hs] at h
    exact hh sh hs h

lemma cmdRegister_exit (hc : findCommand c.cmdStr = some .register)
    (h : cmdRegister c.env s c.pid c.args = .ok o) : Exit c s o := by
  unfold cmdRegister at h
  rw [getShell] at h
  cases hs : s.shell? c.pid with
  | some sh =>
    rw [hs] at h
    cases h
    exact .registeredAgain hc hs
  | none =>
    simp only [hs] at h
    split_ifs at h with hn hd <;> cases h
    · exact .registerNoMemory hc hs fun hm => by simp [hm.1] at hn
    · exact .registerNoMemory hc hs fun hm => by simp [hm.2] at hd
    · exact .registered hc hs ⟨by simpa using hn,by simpa using hd⟩

lemma cmdUnregister_exit (hc : findCommand c.cmdStr = some .unregister)
    (h : cmdUnregister c.env s c.pid c.args = .ok o) : Exit c s o := by
  refine withShell_exit (by simp [hc]) h fun sh hs h => ?_
  have hcode : (listDeleteNode compareShellPid s.shells c.pid).code = 0 := by
    rw [deleteShell hs]
  simp only [hcode,ne_eq,not_true_eq_false,if_false] at h
  split at h
  · cases h
  · cases h
    exact .unregistered hc hs

lemma cmdAdd_exit (hc : findCommand c.cmdStr = some .add)
    (h : cmdAdd c.env s c.pid c.args = .ok o) : Exit c s o := by
  refine withShell_exit (by simp [hc]) h fun sh hs h => ?_
  cases hargs : c.args with
  | none => rw [hargs] at h; cases h
  | some line =>
    simp only [hargs] at h
    cases hadd : (addArgs line).1 with
    | none => rw [hadd] at h; cases h; exact .addMalformed hc hs hargs hadd
    | some p =>
      obtain ⟨tag,path⟩ := p
      simp only [hadd,getTag] at h
      cases hv : validPath c.env path with
      | false => rw [hv] at h; cases h; exact .addInvalid hc hs hargs hadd hv
      | true =>
        simp only [hv,Bool.not_true,Bool.false_eq_true,if_false] at h
        cases ht : s.tag? tag with
        | some t => rw [ht] at h; cases h; exact .rebound hc hs hargs hadd hv ht
        | none =>
          simp only [ht] at h
          split_ifs at h with hn hd <;> cases h
          · exact .addNoMemory hc hs hargs hadd hv ht fun hm => by simp [hm.1] at hn
          · exact .addNoMemory hc hs hargs hadd hv ht fun hm => by simp [hm.2] at hd
          · exact .added hc hs hargs hadd hv ht ⟨by simpa using hn,by simpa using hd⟩

lemma cmdDelete_exit (hc : findCommand c.cmdStr = some .delete)
    (h : cmdDelete c.env s c.pid c.args = .ok o) : Exit c s o := by
  refine withShell_exit (by simp [hc]) h fun sh hs h => ?_
  cases hargs : c.args with
  | none => rw [hargs] at h; cases h
  | some line =>
    simp only [hargs] at h
    cases htag : (tagArg line).1 with
    | none => rw [htag] at h; cases h; exact .deleteBlank hc hs hargs htag
    | some tag =>
      simp only [htag,getTag] at h
      cases ht : s.tag? tag with
      | none => rw [ht] at h; cases h; exact .deleteAbsent hc hs hargs htag ht
      | some t => rw [ht] at h; cases h; exact .deleted hc hs hargs htag ht

lemma cmdGet_exit (hc : findCommand c.cmdStr = some .get)
    (h : cmdGet c.env s c.pid c.args = .ok o) : Exit c s o := by
  refine withShell_exit (by simp [hc]) h fun sh hs h => ?_
  cases hargs : c.args with
  | none => rw [hargs] at h; cases h
  | some line =>
    simp only [hargs] at h
    cases htag : (tagArg line).1 with
    | none => rw [htag] at h; cases h; exact .getBlank hc hs hargs htag
    | some tag =>
      simp only [htag,getTag] at h
      cases ht : s.tag? tag with
      | none => rw [ht] at h; cases h; exact .getAbsent hc hs hargs htag ht
      | some t => rw [ht] at h; cases h; exact .got hc hs hargs htag ht

lemma cmdPush_exit (hc : findCommand c.cmdStr = some .push)
    (h : cmdPush c.env s c.pid c.args = .ok o) : Exit c s o := by
  refine withShell_exit (by simp [hc]) h fun sh hs h => ?_
  cases hargs : c.args with
  | none =>
    have hq : quiet s [] = quiet s (region c.args) := by rw [hargs]; rfl
    rw [hargs] at h
    cases h
    rw [hq]
    exact .pushNothing hc hs hargs
  | some line =>
    have hr : line.bytes = region c.args := by rw [hargs]; rfl
    simp only [hargs] at h
    rw [hr] at h
    split_ifs at h with hv htop hn hd <;> cases h
    · exact .pushInvalid hc hs hargs (by simpa using hv)
    · exact .pushedAgain hc hs hargs (by simpa using hv) htop
    · exact .pushNoMemory hc hs hargs (by simpa using hv) htop fun hm => by simp [hm.1] at hn
    · exact .pushNoMemory hc hs hargs (by simpa using hv) htop fun hm => by simp [hm.2] at hd
    · exact .pushed hc hs hargs (by simpa using hv) htop ⟨by simpa using hn,by simpa using hd⟩

lemma cmdPop_exit (hc : findCommand c.cmdStr = some .pop)
    (h : cmdPop c.env s c.pid c.args = .ok o) : Exit c s o := by
  refine withShell_exit (by simp [hc]) h fun sh hs h => ?_
  cases ha : sh.actions.nodes with
  | nil => rw [ha] at h; cases h; exact .popEmpty hc hs ha
  | cons a as => rw [ha] at h; cases h; exact .popped hc hs ha

/-- Every call that does not fault is handled in one of these ways. -/
theorem dispatchCommand_exit
    (h : dispatchCommand c.env s c.cmdStr c.pid c.args = .ok o) : Exit c s o := by
  unfold dispatchCommand at h
  cases hc : findCommand c.cmdStr with
  | none => rw [hc] at h; cases h; exact .unknown hc
  | some cmd =>
    rw [hc] at h
    cases cmd with
    | register => exact cmdRegister_exit hc h
    | unregister => exact cmdUnregister_exit hc h
    | add => exact cmdAdd_exit hc h
    | delete => exact cmdDelete_exit hc h
    | get => exact cmdGet_exit hc h
    | push => exact cmdPush_exit hc h
    | pop => exact cmdPop_exit hc h
    | «show» => exact withShell_exit (by simp [hc]) h fun sh hs h => by cases h; exact .shown hc hs
    | actions =>
      exact withShell_exit (by simp [hc]) h fun sh hs h => by cases h; exact .actionsShown hc hs
    | list => exact withShell_exit (by simp [hc]) h fun sh hs h => by cases h; exact .listed hc hs
    | reset => exact withShell_exit (by simp [hc]) h fun sh hs h => by cases h; exact .reset hc hs

end Handlers

lemma handle_ok {s s' : State} {c : Call} {o : Outcome} :
    handle s c = .ok (s',o) ↔
      dispatchCommand c.env s c.cmdStr c.pid c.args = .ok o ∧ o.state = s' := by
  unfold handle
  cases dispatchCommand c.env s c.cmdStr c.pid c.args with
  | error e => simp [Except.map]
  | ok o' =>
    simp only [Except.map,Except.ok.injEq,Prod.mk.injEq]
    constructor
    · rintro ⟨rfl,rfl⟩; exact ⟨rfl,rfl⟩
    · rintro ⟨rfl,rfl⟩; exact ⟨rfl,rfl⟩

lemma handle_exit {s s' : State} {c : Call} {o : Outcome} (h : handle s c = .ok (s',o)) :
    Exit c s o ∧ o.state = s' := by
  obtain ⟨hd,hs⟩ := handle_ok.mp h
  exact ⟨dispatchCommand_exit hd,hs⟩

end Nav.Daemon
