import Nav.Daemon.ActionStack
import Nav.Daemon.Setup
import Nav.Lib.Purge

/-! Shells do not notice each other but through the tag list: what the others ask for themselves may
be left out of a run without a difference to one shell. -/
namespace Nav.Daemon
open Nav.C Nav.Lib

/-- The commands that serve the asking shell alone. -/
def Command.isPrivate : Command → Bool
  | .push | .pop | .reset | .actions | .get | .show | .list => true
  | .register | .unregister | .add | .delete => false

/-- The calls that are none of the business of `p`: private commands of others, and what
unregistered shells send besides `register`. -/
def removedFor (p : ℤ) (s : State) (c : Call) : Bool :=
  decide (c.pid ≠ p) && (findCommand c.cmdStr).any Command.isPrivate ||
    decide (findCommand c.cmdStr ≠ some .register) && (s.shell? c.pid).isNone

/-- What comes in at a socket, whoever the call is from that sends it. -/
def repliesTo (dest : List Byte) (_c : Call) (o : Outcome) : List Datagram :=
  o.sent.filter (·.dest = dest)

/-- What a call leaves for the shell of `pid`, as far as `seen` looks at it, and for all: the tags,
the tag file and the replies. -/
def shared {β : Type*} (seen : Shell → β) (pid : ℤ) (o : Outcome) :
    Option β × NodeList Tag × Option (List Byte) × List Datagram :=
  ((o.state.shell? pid).map seen,o.state.tags,o.state.tagFile,o.sent)

section Frame
variable {c : Call} {s s' : State} {q : ℤ}

/-- A call leaves the other shells alone. -/
theorem Change.shell?_other (h : Change c s s') (hw : s.WellFormed) (hq : q ≠ c.pid) :
    s'.shell? q = s.shell? q := by
  cases h with
  | registered _ hs _ => rw [shell?_append s c.pid q hs,if_neg hq]
  | unregistered _ hs => rw [shell?_delete s c.pid q hw hs,if_neg hq]
  | pushed | popped | reset => rw [shell?_setActions,if_neg hq]
  | _ => rfl

/-- A private command changes at most the stack of its own shell. -/
theorem Change.of_private {cmd : Command} (h : Change c s s') (hc : findCommand c.cmdStr = some cmd)
    (hp : cmd.isPrivate = true) :
    s' = s ∨ ∃ actions, s' = setActions s c.pid actions := by
  have hne : ∀ {cmd'}, findCommand c.cmdStr = some cmd' → cmd'.isPrivate = true := by
    intro cmd' hc'
    rwa [← Option.mem_unique hc hc']
  cases h with
  | same => exact Or.inl rfl
  | registered hc' | unregistered hc' | rebound hc' | added hc' | deleted hc' =>
    exact absurd (hne hc') (by simp [Command.isPrivate])
  | pushed | popped | reset => exact Or.inr ⟨_,rfl⟩

/-- Nothing comes of a call from an unregistered shell, other than `register`. -/
theorem Exit.of_unregistered {o : Outcome} (h : Exit c s o)
    (hc : findCommand c.cmdStr ≠ some .register) (hs : s.shell? c.pid = none) :
    o.state = s ∧ o.sent = [] := by
  cases h with
  | unknown | ignored => exact ⟨rfl,rfl⟩
  | _ => simp_all

end Frame

section Alike
variable {β : Type*} {seen : Shell → β} {s : State} {X : NodeList Shell} {pid : ℤ} {args : Option CStr}

/-- Two states that differ in their shells only, and in the shell of `pid` only in what `seen` does
not look at. -/
structure Alike (seen : Shell → β) (pid : ℤ) (s : State) (X : NodeList Shell) : Prop where
  left : s.WellFormed
  right : {s with shells := X}.WellFormed
  shell : ({s with shells := X}.shell? pid).map seen = (s.shell? pid).map seen

/-- A handler behind `withShell` does alike if it does for two shells with the same socket. -/
theorem Alike.withShell (h : Alike seen pid s X) {f g : Shell → Except Fault Outcome}
    (hfg : ∀ sh sh', s.shell? pid = some sh → {s with shells := X}.shell? pid = some sh' →
      sh'.sunPath = sh.sunPath → seen sh' = seen sh →
      (g sh').map (shared seen pid) = (f sh).map (shared seen pid)) :
    (withShell {s with shells := X} pid args g).map (shared seen pid) =
      (Daemon.withShell s pid args f).map (shared seen pid) := by
  have hshell := h.shell
  cases hs : s.shell? pid with
  | none =>
    have hs' : {s with shells := X}.shell? pid = none := by simpa [hs] using hshell
    rw [withShell_none hs,withShell_none hs']
    simp only [Except.map,shared,quiet,hs,hs']
  | some sh =>
    obtain ⟨sh',hs',hseen⟩ : ∃ sh', {s with shells := X}.shell? pid = some sh' ∧
        seen sh' = seen sh := by simpa [hs] using hshell
    rw [withShell_some hs,withShell_some hs']
    refine hfg sh sh' hs hs' ?_ hseen
    rw [h.left.sunPath_eq hs,h.right.sunPath_eq hs']

/-- The same reply, from states whose shells are still the ones compared. -/
lemma Alike.reply (h : Alike seen pid s X) {S : State} {sh sh' : Shell} (hS : S.shells = s.shells)
    (hsun : sh'.sunPath = sh.sunPath) (payload rest : List Byte) (overrun : Bool) :
    (Except.ok {reply {S with shells := X} sh' payload rest with overrun} :
        Except Fault Outcome).map (shared seen pid) =
      (Except.ok {reply S sh payload rest with overrun}).map (shared seen pid) := by
  have hshell : ({S with shells := X}.shell? pid).map seen = (S.shell? pid).map seen := by
    simpa only [State.shell?,hS] using h.shell
  simp only [Except.map,shared,Daemon.reply,hshell,hsun]

lemma Alike.quiet (h : Alike seen pid s X) (rest : List Byte) :
    (Except.ok (quiet {s with shells := X} rest) : Except Fault Outcome).map (shared seen pid) =
      (Except.ok (Daemon.quiet s rest)).map (shared seen pid) := by
  simp only [Except.map,shared,Daemon.quiet,h.shell]

variable (args) (env : Env)

theorem cmdAdd_alike (h : Alike seen pid s X) :
    (cmdAdd env {s with shells := X} pid args).map (shared seen pid) =
      (cmdAdd env s pid args).map (shared seen pid) := by
  refine h.withShell fun sh sh' hs hs' hsun hseen => ?_
  cases args with
  | none => rfl
  | some line =>
    cases hadd : (addArgs line).1 with
    | none => simp only [hadd]; exact h.reply rfl hsun _ _ false
    | some x =>
      obtain ⟨tag,path⟩ := x
      simp only [hadd]
      split
      · exact h.reply rfl hsun _ _ false
      · split
        · exact h.reply (S:=saveTags env {s with tags := _}) rfl hsun _ _ false
        · split
          · exact h.reply rfl hsun _ _ false
          · split
            · exact h.reply rfl hsun _ _ false
            · exact h.reply (S:=saveTags env {s with tags := _}) rfl hsun _ _ false

theorem cmdDelete_alike (h : Alike seen pid s X) :
    (cmdDelete env {s with shells := X} pid args).map (shared seen pid) =
      (cmdDelete env s pid args).map (shared seen pid) := by
  refine h.withShell fun sh sh' hs hs' hsun hseen => ?_
  cases args with
  | none => rfl
  | some line =>
    cases htag : (tagArg line).1 with
    | none => simp only [htag]; exact h.quiet _
    | some tag =>
      simp only [htag]
      split
      · exact h.reply rfl hsun _ _ false
      · exact h.reply (S:=saveTags env {s with tags := _}) rfl hsun _ _ false

theorem cmdGet_alike (h : Alike seen pid s X) :
    (cmdGet env {s with shells := X} pid args).map (shared seen pid) =
      (cmdGet env s pid args).map (shared seen pid) := by
  refine h.withShell fun sh sh' hs hs' hsun hseen => ?_
  cases args with
  | none => rfl
  | some line =>
    cases htag : (tagArg line).1 with
    | none => simp only [htag]; exact h.quiet _
    | some tag =>
      simp only [htag]
      split
      · exact h.reply rfl hsun _ _ false
      · exact h.reply rfl hsun _ _ _

theorem cmdShow_alike (h : Alike seen pid s X) :
    (cmdShow env {s with shells := X} pid args).map (shared seen pid) =
      (cmdShow env s pid args).map (shared seen pid) :=
  h.withShell fun _ _ _ _ hsun _ => h.reply rfl hsun _ _ _

theorem cmdList_alike (h : Alike seen pid s X) :
    (cmdList env {s with shells := X} pid args).map (shared seen pid) =
      (cmdList env s pid args).map (shared seen pid) :=
  h.withShell fun _ _ _ _ hsun _ => h.reply rfl hsun _ _ _

theorem cmdRegister_alike (h : Alike seen pid s X) :
    (cmdRegister env {s with shells := X} pid args).map (shared seen pid) =
      (cmdRegister env s pid args).map (shared seen pid) := by
  have hshell := h.shell
  unfold cmdRegister
  rw [getShell,getShell]
  cases hs : s.shell? pid with
  | some sh =>
    obtain ⟨sh',hs',_⟩ : ∃ sh', {s with shells := X}.shell? pid = some sh' ∧
        seen sh' = seen sh := by simpa [hs] using hshell
    rw [hs']
    refine h.reply rfl ?_ _ _ false
    rw [h.left.sunPath_eq hs,h.right.sunPath_eq hs']
  | none =>
    have hs' : {s with shells := X}.shell? pid = none := by simpa [hs] using hshell
    simp only [hs']
    split
    · exact h.quiet _
    · split
      · exact h.quiet _
      · have hnew := shell?_append s pid pid hs s.cacheDir
        have hnew' := shell?_append {s with shells := X} pid pid hs' s.cacheDir
        simp only [if_true] at hnew hnew'
        simp only [Except.map,shared,Daemon.reply,hnew,hnew']

theorem cmdUnregister_alike (h : Alike seen pid s X) :
    (cmdUnregister env {s with shells := X} pid args).map (shared seen pid) =
      (cmdUnregister env s pid args).map (shared seen pid) := by
  refine h.withShell fun sh sh' hs hs' hsun hseen => ?_
  have hgone := shell?_delete s pid pid h.left hs
  have hgone' := shell?_delete {s with shells := X} pid pid h.right hs'
  rw [deleteShell hs,if_pos rfl] at hgone
  rw [deleteShell hs',if_pos rfl] at hgone'
  simp only [deleteShell hs,deleteShell hs',Option.mapM_some,
    cleanupShell_counted sh (h.left.actionsCounted sh (shell?_mem hs)),
    cleanupShell_counted sh' (h.right.actionsCounted sh' (shell?_mem hs'))]
  simp only [Functor.map,Except.map,ne_eq,not_true_eq_false,if_false,shared,Daemon.reply,hgone,hgone',
    hsun]

section Stacks
variable (hseen : Function.Injective seen)
include hseen

/-- A stack that is replaced looks alike afterwards. -/
lemma Alike.setActions (h : Alike seen pid s X) (sh : Shell) (actions : NodeList Action)
    (payload rest : List Byte) (overrun : Bool) :
    (Except.ok {Daemon.reply (Daemon.setActions {s with shells := X} pid actions) sh payload rest with
        overrun} : Except Fault Outcome).map (shared seen pid) =
      (Except.ok {Daemon.reply (Daemon.setActions s pid actions) sh payload rest with
        overrun}).map (shared seen pid) := by
  have hshell : {s with shells := X}.shell? pid = s.shell? pid :=
    Option.map_injective hseen h.shell
  have hset := shell?_setActions s pid pid actions
  have hset' := shell?_setActions {s with shells := X} pid pid actions
  rw [if_pos rfl] at hset hset'
  rw [hshell] at hset'
  simp only [Except.map,shared,Daemon.reply,hset,hset']
  rfl

theorem cmdPush_alike (h : Alike seen pid s X) :
    (cmdPush env {s with shells := X} pid args).map (shared seen pid) =
      (cmdPush env s pid args).map (shared seen pid) := by
  refine h.withShell fun sh sh' hs hs' hsun hsh => ?_
  obtain rfl := hseen hsh
  cases args with
  | none => exact h.quiet _
  | some line =>
    simp only
    split
    · exact h.reply rfl rfl _ _ false
    · split
      · exact h.reply rfl rfl _ _ false
      · split
        · exact h.reply rfl rfl _ _ false
        · split
          · exact h.reply rfl rfl _ _ false
          · exact h.setActions hseen _ _ _ _ false

theorem cmdPop_alike (h : Alike seen pid s X) :
    (cmdPop env {s with shells := X} pid args).map (shared seen pid) =
      (cmdPop env s pid args).map (shared seen pid) := by
  refine h.withShell fun sh sh' hs hs' hsun hsh => ?_
  obtain rfl := hseen hsh
  cases sh'.actions.nodes with
  | nil => exact h.reply rfl rfl _ _ false
  | cons a as => exact h.setActions hseen _ _ _ _ _

theorem cmdActions_alike (h : Alike seen pid s X) :
    (cmdActions env {s with shells := X} pid args).map (shared seen pid) =
      (cmdActions env s pid args).map (shared seen pid) := by
  refine h.withShell fun sh sh' hs hs' hsun hsh => ?_
  obtain rfl := hseen hsh
  exact h.reply rfl rfl _ _ _

theorem cmdReset_alike (h : Alike seen pid s X) :
    (cmdReset env {s with shells := X} pid args).map (shared seen pid) =
      (cmdReset env s pid args).map (shared seen pid) := by
  refine h.withShell fun sh sh' hs hs' hsun hsh => ?_
  obtain rfl := hseen hsh
  exact h.setActions hseen _ _ _ _ false

end Stacks

/-- What a call leaves is the same for states that look alike. A private command must see the whole
shell. -/
theorem dispatch_alike (h : Alike seen pid s X) {cmdStr : CStr}
    (hseen : (findCommand cmdStr).any Command.isPrivate = true → Function.Injective seen) :
    (dispatchCommand env {s with shells := X} cmdStr pid args).map (shared seen pid) =
      (dispatchCommand env s cmdStr pid args).map (shared seen pid) := by
  unfold dispatchCommand
  cases hc : findCommand cmdStr with
  | none => exact h.quiet _
  | some cmd =>
    rw [hc] at hseen
    cases cmd with
    | register => exact cmdRegister_alike args env h
    | unregister => exact cmdUnregister_alike args env h
    | add => exact cmdAdd_alike args env h
    | delete => exact cmdDelete_alike args env h
    | get => exact cmdGet_alike args env h
    | push => exact cmdPush_alike args env (hseen rfl) h
    | pop => exact cmdPop_alike args env (hseen rfl) h
    | «show» => exact cmdShow_alike args env h
    | list => exact cmdList_alike args env h
    | actions => exact cmdActions_alike args env (hseen rfl) h
    | reset => exact cmdReset_alike args env (hseen rfl) h

end Alike

/-- The full run has reached `s` and the run without the calls that are removed for `p` has reached
`t`: the same shells are registered, and all but the stacks of the others is equal. -/
structure SameFor (p : ℤ) (s t : State) : Prop where
  left : s.WellFormed
  right : t.WellFormed
  cacheDir : t.cacheDir = s.cacheDir
  tags : t.tags = s.tags
  tagFile : t.tagFile = s.tagFile
  registered : ∀ q, (t.shell? q).isSome = (s.shell? q).isSome
  own : t.shell? p = s.shell? p

namespace SameFor
variable {p : ℤ} {s s' t t' : State} {c : Call} {o o' : Outcome}

lemma refl (hw : s.WellFormed) : SameFor p s s := ⟨hw,hw,rfl,rfl,rfl,fun _ => rfl,rfl⟩

lemma shells_eq (h : SameFor p s t) : {s with shells := t.shells} = t := by
  rw [← h.cacheDir,← h.tags,← h.tagFile]

lemma alike {β : Type*} {seen : Shell → β} {pid : ℤ} (h : SameFor p s t)
    (hseen : (t.shell? pid).map seen = (s.shell? pid).map seen) : Alike seen pid s t.shells :=
  ⟨h.left,h.shells_eq.symm ▸ h.right,h.shells_eq.symm ▸ hseen⟩

/-- Another's stack may change. -/
lemma setActions_left {pid : ℤ} {actions : NodeList Action} (h : SameFor p s t) (hp : pid ≠ p)
    (hw : (setActions s pid actions).WellFormed) : SameFor p (setActions s pid actions) t := by
  refine ⟨hw,h.right,h.cacheDir,h.tags,h.tagFile,fun q => ?_,?_⟩
  · rw [shell?_setActions,h.registered q]
    split_ifs with hq
    · rw [Option.isSome_map,hq]
    · rfl
  · rw [shell?_setActions,if_neg hp.symm,h.own]

/-- A call that is removed sends nothing to `p` and changes nothing that `p` depends on. -/
theorem skip (h : SameFor p s t) (hdir : s.cacheDir.length < cacheDirMaxLen) (hp : IsInt p)
    (hpid : IsInt c.pid) (hc : removedFor p s c = true) (hh : handle s c = .ok (s',o)) :
    SameFor p s' t ∧ repliesTo (sockPath s.cacheDir p) c o = [] := by
  have hchange := handle_change hh
  obtain ⟨hexit,hstate⟩ := handle_exit hh
  rw [removedFor,Bool.or_eq_true,Bool.and_eq_true,Bool.and_eq_true,decide_eq_true_eq,
    decide_eq_true_eq,Option.isNone_iff_eq_none] at hc
  rcases hc with ⟨hne,hpriv⟩ | ⟨hreg,hs⟩
  · have hsent : repliesTo (sockPath s.cacheDir p) c o = [] := by
      refine List.filter_eq_nil_iff.mpr fun d hd => ?_
      rw [hexit.addressed h.left d hd,decide_eq_true_eq]
      exact fun he => hne (sockPath_injective hdir hpid hp he)
    obtain ⟨cmd,hcmd,hcp⟩ := (Option.any_eq_true _ _).mp hpriv
    refine ⟨?_,hsent⟩
    have hw := h.left.change hchange
    rcases hchange.of_private hcmd hcp with rfl | ⟨actions,rfl⟩
    · exact h
    · exact h.setActions_left hne hw
  · obtain ⟨hsame,hsent⟩ := hexit.of_unregistered hreg hs
    rw [← hsame,hstate] at h
    refine ⟨h,?_⟩
    rw [repliesTo,hsent,List.filter_nil]

/-- What the two states have after a call that is kept, given what its own shell has. -/
theorem keep_change {β : Type*} {seen : Shell → β} (h : SameFor p s t) (hs : Change c s s')
    (ht : Change c t t') (hshell : (t'.shell? c.pid).map seen = (s'.shell? c.pid).map seen)
    (hown : c.pid = p → Function.Injective seen) (htags : t'.tags = s'.tags)
    (hfile : t'.tagFile = s'.tagFile) : SameFor p s' t' := by
  refine ⟨h.left.change hs,h.right.change ht,?_,htags,hfile,fun q => ?_,?_⟩
  · rw [ht.cacheDir,hs.cacheDir,h.cacheDir]
  · by_cases hq : q = c.pid
    · have hsome := congrArg Option.isSome hshell
      rwa [Option.isSome_map,Option.isSome_map,← hq] at hsome
    · rw [hs.shell?_other h.left hq,ht.shell?_other h.right hq,h.registered q]
  · by_cases hp : c.pid = p
    · subst hp
      exact Option.map_injective (hown rfl) hshell
    · have hp' : p ≠ c.pid := fun he => hp he.symm
      rw [hs.shell?_other h.left hp',ht.shell?_other h.right hp',h.own]

/-- A call that is kept is handled alike by the run without the removed calls. -/
theorem keep (h : SameFor p s t) (hc : removedFor p s c = false) (hh : handle s c = .ok (s',o)) :
    ∃ t' o', handle t c = .ok (t',o') ∧ SameFor p s' t' ∧ o'.sent = o.sent := by
  -- one argument for both cases: `seen` is how much of the calling shell is known to be equal
  have hstep : ∀ {β : Type} (seen : Shell → β),
      (t.shell? c.pid).map seen = (s.shell? c.pid).map seen →
      ((findCommand c.cmdStr).any Command.isPrivate = true → Function.Injective seen) →
      (c.pid = p → Function.Injective seen) →
      ∃ t' o', handle t c = .ok (t',o') ∧ SameFor p s' t' ∧ o'.sent = o.sent := by
    intro β seen hshell hpriv hown
    have halike := dispatch_alike c.args c.env (h.alike hshell) hpriv
    obtain ⟨hd,rfl⟩ := handle_ok.mp hh
    rw [h.shells_eq,hd] at halike
    cases hd' : dispatchCommand c.env t c.cmdStr c.pid c.args with
    | error e => simp [hd',Except.map] at halike
    | ok o' =>
      have hh' : handle t c = .ok (o'.state,o') := handle_ok.mpr ⟨hd',rfl⟩
      simp only [hd',Except.map,Except.ok.injEq,shared,Prod.mk.injEq] at halike
      obtain ⟨hsh,htags,hfile,hsent⟩ := halike
      exact ⟨_,o',hh',h.keep_change (handle_change hh) (handle_change hh') hsh hown htags hfile,hsent⟩
  by_cases hp : c.pid = p
  · refine hstep id ?_ (fun _ => Function.injective_id) (fun _ => Function.injective_id)
    rw [hp,h.own]
  · refine hstep (fun _ => ()) ?_ (fun hpriv => ?_) (fun he => absurd he hp)
    · have hreg := h.registered c.pid
      cases hs : s.shell? c.pid <;> cases ht : t.shell? c.pid <;> simp_all
    · simp [removedFor,hp,hpriv] at hc

end SameFor

/-- For each shell, the calls of other shells matter only as far as they register, unregister, add
or delete: everything that comes in at its socket, from whatever call, stays the same without the
others, and so do its registration, its stack, the tags and the tag file. -/
theorem isolation {s : State} (hs : Reachable s) (hdir : s.cacheDir.length < cacheDirMaxLen) {p : ℤ}
    (hp : IsInt p) (cs : List Call) (hcs : ∀ c ∈ cs, c.HasArgs ∧ IsInt c.pid) :
    ∃ s' t' os os', runCalls s cs = .ok (s',os) ∧
      runCalls s (Machine.purge handle (removedFor p) s cs) = .ok (t',os') ∧
      Machine.observed (repliesTo (sockPath s.cacheDir p))
          (Machine.purge handle (removedFor p) s cs) os' =
        Machine.observed (repliesTo (sockPath s.cacheDir p)) cs os ∧
      t'.shell? p = s'.shell? p ∧ t'.tags = s'.tags ∧ t'.tagFile = s'.tagFile := by
  obtain ⟨s',os,hr,_⟩ := Machine.run_total handle State.WellFormed Call.HasArgs
    (fun _ _ => handle_total) hs.wellFormed (fun c hc => (hcs c hc).1)
  obtain ⟨t',os',hr',⟨hsame,_⟩,hobs⟩ := Machine.run_purge handle (removedFor p)
    (fun s₁ t₁ => SameFor p s₁ t₁ ∧ s₁.cacheDir = s.cacheDir) (fun c => IsInt c.pid)
    (repliesTo (sockPath s.cacheDir p))
    (fun s₁ t₁ c s₂ o ⟨h,hcache⟩ hpid hc hh => by
      obtain ⟨hsame,hsent⟩ := h.skip (by rw [hcache]; exact hdir) hp hpid hc hh
      rw [hcache] at hsent
      exact ⟨⟨hsame,(handle_change hh).cacheDir.trans hcache⟩,hsent⟩)
    (fun s₁ t₁ c s₂ o ⟨h,hcache⟩ _ hc hh => by
      obtain ⟨t₂,o',hh',hsame,hsent⟩ := h.keep hc hh
      exact ⟨t₂,o',hh',⟨hsame,(handle_change hh).cacheDir.trans hcache⟩,by rw [repliesTo,hsent,repliesTo]⟩)
    ⟨SameFor.refl hs.wellFormed,rfl⟩ (fun c hc => (hcs c hc).2) hr
  exact ⟨s',t',os,os',hr,hr',hobs,hsame.own,hsame.tags,hsame.tagFile⟩

/-- Without the `push` of another shell and the `add` of a shell that is not registered, shell 1
gets the same two replies. -/
theorem isolation_push_add : ∃ s' t' os os',
    runCalls (startState (CStr.ofLit "/c") (fun _ => true) (fun _ => true) none)
      [⟨openEnv fun _ => true,CStr.ofLit "register",1,none⟩,
       ⟨openEnv fun _ => true,CStr.ofLit "register",2,none⟩,
       ⟨openEnv fun _ => true,CStr.ofLit "push",2,some (CStr.ofLit "/b")⟩,
       ⟨openEnv fun _ => true,CStr.ofLit "add",2,some (CStr.ofLit "t /a")⟩,
       ⟨openEnv fun _ => true,CStr.ofLit "add",3,some (CStr.ofLit "t /b")⟩,
       ⟨openEnv fun _ => true,CStr.ofLit "get",1,some (CStr.ofLit "t")⟩] = .ok (s',os) ∧
    runCalls (startState (CStr.ofLit "/c") (fun _ => true) (fun _ => true) none)
      [⟨openEnv fun _ => true,CStr.ofLit "register",1,none⟩,
       ⟨openEnv fun _ => true,CStr.ofLit "register",2,none⟩,
       ⟨openEnv fun _ => true,CStr.ofLit "add",2,some (CStr.ofLit "t /a")⟩,
       ⟨openEnv fun _ => true,CStr.ofLit "get",1,some (CStr.ofLit "t")⟩] = .ok (t',os') ∧
    os'.flatMap (fun o => o.sent.filter (·.dest = sockPath (CStr.ofLit "/c") 1)) =
      [⟨sockPath (CStr.ofLit "/c") 1,okNul⟩,⟨sockPath (CStr.ofLit "/c") 1,lit "/a\n"⟩] ∧
    t'.shell? 1 = s'.shell? 1 ∧ t'.tags = s'.tags := by
  obtain ⟨s',t',os,os',hr,hr',hobs,hshell,htags,-⟩ := isolation
    ⟨CStr.ofLit "/c",fun _ => true,fun _ => true,none,[],[],rfl⟩ (by decide) (p:=1) (by decide)
      [⟨openEnv fun _ => true,CStr.ofLit "register",1,none⟩,
       ⟨openEnv fun _ => true,CStr.ofLit "register",2,none⟩,
       ⟨openEnv fun _ => true,CStr.ofLit "push",2,some (CStr.ofLit "/b")⟩,
       ⟨openEnv fun _ => true,CStr.ofLit "add",2,some (CStr.ofLit "t /a")⟩,
       ⟨openEnv fun _ => true,CStr.ofLit "add",3,some (CStr.ofLit "t /b")⟩,
       ⟨openEnv fun _ => true,CStr.ofLit "get",1,some (CStr.ofLit "t")⟩] (by
    simp only [List.mem_cons,List.not_mem_nil,or_false,forall_eq_or_imp,forall_eq]
    refine ⟨⟨?_,?_⟩,⟨?_,?_⟩,⟨?_,?_⟩,⟨?_,?_⟩,⟨?_,?_⟩,⟨?_,?_⟩⟩ <;> simp [Call.HasArgs,IsInt] <;> decide)
  have hfull : os.flatMap (fun o => o.sent.filter (·.dest = sockPath (CStr.ofLit "/c") 1)) =
      [⟨sockPath (CStr.ofLit "/c") 1,okNul⟩,⟨sockPath (CStr.ofLit "/c") 1,lit "/a\n"⟩] := by
    cases hr
    decide +kernel
  refine ⟨s',t',os,os',hr,hr',?_,hshell,htags⟩
  cases hr
  cases hr'
  exact hobs.trans hfull

end Nav.Daemon
