import Nav.Client.Requests
import Nav.Daemon.ActionStack
import Nav.Daemon.StoredPaths

/-! Whether the daemon keeps the path that the client pushes. The path goes through as it is, with
its spaces, but `cmd_push` cuts it at the first one. -/
namespace Nav.Client
open Nav.C Nav.Daemon Nav.Lib

/-- The path on top of the stack of a PID. -/
def topOf (s : State) (pid : ℤ) : Option CStr := (actionStacks s pid).bind List.head?

/-- A push of `q` is answered OK: the path exists, and it is on top already or there is memory. -/
def Accepts (env : Env) (s : State) (pid : ℤ) (q : CStr) : Prop :=
  validPath env q = true ∧
    (topOf s pid = some q ∨ env.nodeMalloc = true ∧ env.dataMalloc = true)

section Handlers
variable {s : State} {c : Call} {o : Outcome} {sh : Shell} {line : CStr}

lemma topOf_some {pid : ℤ} (hs : s.shell? pid = some sh) :
    topOf s pid = sh.actions.nodes.head?.map Action.path := by
  simp [topOf,actionStacks_some hs,stackOf]

/-- A push is answered OK exactly if the cut path is accepted, and then that path is on top. -/
theorem push_answered (h : Exit c s o) (hc : findCommand c.cmdStr = some .push)
    (hs : s.shell? c.pid = some sh) (hargs : c.args = some line) :
    ((∃ d ∈ o.sent, d.payload = okNul) ↔ Accepts c.env s c.pid (trimmed line)) ∧
    ((∃ d ∈ o.sent, d.payload = okNul) →
      ∃ sh' a as, o.state.shell? c.pid = some sh' ∧ sh'.sunPath = sh.sunPath ∧
        sh'.actions.nodes = a::as ∧ a.path = trimmed line) := by
  have hbad : ∀ args, ¬ ∃ d ∈ (reply s sh bad args).sent, d.payload = okNul := by
    simp [reply,show bad ≠ okNul by decide]
  have htop := topOf_some hs
  cases h with
  | ignored _ hs' => simp [hs] at hs'
  | pushNothing _ _ hargs' => simp [hargs] at hargs'
  | pushInvalid _ hs' hargs' hv =>
    obtain rfl := Option.mem_unique hargs hargs'
    obtain rfl := Option.mem_unique hs hs'
    exact ⟨iff_of_false (hbad _) fun ha => by simp [ha.1] at hv,fun hok => absurd hok (hbad _)⟩
  | pushNoMemory _ hs' hargs' _ hne hm =>
    obtain rfl := Option.mem_unique hargs hargs'
    obtain rfl := Option.mem_unique hs hs'
    refine ⟨iff_of_false (hbad _) fun ha => ?_,fun hok => absurd hok (hbad _)⟩
    rcases ha.2 with ht | hm'
    · exact hne (htop ▸ ht)
    · exact hm hm'
  | pushedAgain _ hs' hargs' hv heq =>
    obtain rfl := Option.mem_unique hargs hargs'
    obtain rfl := Option.mem_unique hs hs'
    refine ⟨iff_of_true (by simp [reply]) ⟨hv,Or.inl (htop.trans heq)⟩,fun _ => ?_⟩
    cases ha : sh.actions.nodes with
    | nil => simp [ha] at heq
    | cons a as => exact ⟨sh,a,as,hs,rfl,ha,by simpa [ha] using heq⟩
  | pushed _ hs' hargs' hv _ hm =>
    obtain rfl := Option.mem_unique hargs hargs'
    obtain rfl := Option.mem_unique hs hs'
    refine ⟨iff_of_true (by simp [reply]) ⟨hv,Or.inr hm⟩,fun _ => ?_⟩
    refine ⟨{sh with actions := listPrependNode sh.actions ⟨trimmed line⟩},_,_,?_,rfl,rfl,rfl⟩
    rw [reply,shell?_setActions,if_pos rfl,hs]
    rfl
  | _ => simp_all

/-- A pop sends the path on top. -/
theorem pop_answer {pid : ℤ} {a : Action} {as : List Action} (env : Env) (args : Option CStr)
    (cmdStr : CStr) (hc : findCommand cmdStr = some .pop) (hs : s.shell? pid = some sh)
    (ha : sh.actions.nodes = a::as) (hlen : a.path.length ≤ 98) :
    ∃ o, dispatchCommand env s cmdStr pid args = .ok o ∧ o.overrun = false ∧
      o.sent = [⟨sh.sunPath,a.path.bytes ++ [newline]⟩] := by
  have hd : dispatchCommand env s cmdStr pid args =
      .ok {reply (setActions s pid (listDeleteNode compareActionPath sh.actions a.path).list) sh
        (pathBuf a.path).text (region args) with overrun := (pathBuf a.path).overrun} := by
    simp only [dispatchCommand,hc,cmdFunc,cmdPop,withShell_some hs,ha]
  refine ⟨_,hd,(pathBuf_fits a.path).mpr hlen,?_⟩
  simp [reply,pathBuf,OutBuf.sprintf,OutBuf.empty]

end Handlers

/-- If `push p` is answered OK, then `p` is on top, and a `pop` right behind it sends `p`. -/
def KeepsPath (l : Loop) (env env' : Env) (n : ℕ) (p : CStr) : Prop :=
  ∀ l' r, loopRound l ⟨env,request [pidArg n,pushArg,p]⟩ = .ok (l',r) →
    (∃ d ∈ r.sent, d.payload = okNul) →
    topOf l'.state n = some p ∧
    ∃ l'' r' sh, loopRound l' ⟨env',request [pidArg n,popArg]⟩ = .ok (l'',r') ∧
      l.state.shell? n = some sh ∧ r'.overrun = false ∧
      r'.sent = [⟨sh.sunPath,p.bytes ++ [newline]⟩]

section Paths
variable {p : CStr}

/-- A path without newlines is cut exactly if it has a space. -/
lemma trimmed_eq_self_iff (hp : newline ∉ p.bytes) : trimmed p = p ↔ space ∉ p.bytes := by
  constructor
  · intro h hs
    have hbreak := trimmed_unbroken p space (by rw [h]; exact hs)
    simp [isBreak] at hbreak
  · intro h
    refine trimmed_eq_self p fun b hb => ?_
    have hn : b ≠ newline := by rintro rfl; exact hp hb
    have hs : b ≠ space := by rintro rfl; exact h hb
    simp [isBreak,hn,hs]

lemma pushCommand : findCommand pushArg = some .push := by decide
lemma popCommand : findCommand popArg = some .pop := by decide
lemma pushWord : Word pushArg := by decide
lemma popWord : Word popArg := by decide

lemma push_total (env : Env) {s : State} {pid : ℤ} {sh : Shell} (hs : s.shell? pid = some sh)
    (line : CStr) : ∃ o, dispatchCommand env s pushArg pid (some line) = .ok o := by
  simp only [dispatchCommand,pushCommand,cmdFunc,cmdPush,withShell_some hs]
  split_ifs <;> exact ⟨_,rfl⟩

/-- The daemon keeps the path of every push that it answers OK, exactly if the path has no space or
the part in front of its first space is not accepted. -/
theorem pushPath_iff (l : Loop) (hl : l.running = true) (env env' : Env) (n : ℕ) (hn : n < 2^31)
    (hreg : l.state.shell? n ≠ none) (p : CStr) (hp : newline ∉ p.bytes)
    (hlen : (request [pidArg n,pushArg,p]).length ≤ 99)
    (hzero : ∀ b ∈ l.buf.bytes.drop (request [pidArg n,pushArg,p]).length, b = nul) :
    KeepsPath l env env' n p ↔ (space ∈ p.bytes → ¬ Accepts env l.state n (trimmed p)) := by
  obtain ⟨sh,hs⟩ := Option.ne_none_iff_exists'.mp hreg
  have hbyte := l.buf.getElem?_of_clear hzero le_rfl (by omega)
  have hend : Ended l.buf := l.buf.getElem?_of_clear hzero hlen (by omega)
  have hshort : p.length ≤ 98 := by
    simp only [request_length,List.map_cons,List.map_nil,List.sum_cons,List.sum_nil] at hlen
    omega
  obtain ⟨passed,hround⟩ := loopRound_request env hl hn pushWord hlen hbyte
  obtain ⟨o,ho⟩ := push_total env hs (requestStr [p])
  have hok : ∃ l' r, loopRound l ⟨env,request [pidArg n,pushArg,p]⟩ = .ok (l',r) ∧
      l'.state = o.state ∧ l'.running = true ∧ r.sent = o.sent := by
    rw [hround]
    simp only [calledRound,List.cons_ne_nil,if_false,ho]
    exact ⟨_,_,rfl,rfl,rfl,rfl⟩
  obtain ⟨l₁,r₁,hok,hstate,hrun,hsent⟩ := hok
  have hexit := dispatchCommand_exit (c:=⟨env,pushArg,n,some (requestStr [p])⟩) ho
  obtain ⟨hanswer,htop⟩ := push_answered hexit pushCommand hs rfl
  rw [trimmed_request,← hsent] at hanswer htop
  rw [← hstate] at htop
  constructor
  · intro hkeeps hspace haccepts
    obtain ⟨htop',_⟩ := hkeeps _ _ hok (hanswer.mpr haccepts)
    obtain ⟨sh',a,as,hs',_,ha,hpath⟩ := htop (hanswer.mpr haccepts)
    have hcut : some (trimmed p) = some p := by
      rw [← htop',topOf_some hs',ha,← hpath]
      rfl
    exact (trimmed_eq_self_iff hp).mp (Option.some.inj hcut) hspace
  · intro hcut l' r hk hans
    obtain ⟨rfl,rfl⟩ : l₁ = l' ∧ r₁ = r := by simpa using Except.ok.inj (hok.symm.trans hk)
    have hp' : trimmed p = p := (trimmed_eq_self_iff hp).mpr fun hs => hcut hs (hanswer.mp hans)
    obtain ⟨sh',a,as,hs',hsun,ha,hpath⟩ := htop hans
    rw [hp'] at hpath
    subst hpath
    refine ⟨by rw [topOf_some hs',ha]; rfl,?_⟩
    -- the pop finds the buffer as the push has left it, and its arguments do not matter
    have hpoplen : (request [pidArg n,popArg]).length ≤ 99 := by
      have hpush : pushArg.length = 4 := by decide
      have hpop : popArg.length = 3 := by decide
      simp only [request_length,List.map_cons,List.map_nil,List.sum_cons,List.sum_nil,hpush,hpop] at hlen ⊢
      omega
    obtain ⟨argStr,passed',hpop⟩ := loopRound_command env' hrun
      (loopRound_ended hend hlen hok) hn popWord hpoplen
    obtain ⟨o',ho',hover,hsent'⟩ := pop_answer env' argStr popArg popCommand hs' ha hshort
    rw [hsun] at hsent'
    rw [hpop]
    simp only [calledRound,ho']
    exact ⟨_,_,sh,rfl,hs,hover,hsent'⟩

/-- A loop that serves one shell, with nothing in its buffer. -/
def oneShell : Loop :=
  ⟨{startState (CStr.ofLit "/c") (fun _ => true) (fun _ => true) none with
    shells := listAppendNode NodeList.empty (newShell (CStr.ofLit "/c") 1)},Buffer.zero 100,true⟩

/-- A directory with a space in its name is pushed, and the directory in front of the space is
stored. -/
theorem pushPath_fails : ¬ ∀ l env env' n p, l.running = true → n < 2^31 →
    l.state.shell? n ≠ none → validPath env p = true → newline ∉ p.bytes →
    (request [pidArg n,pushArg,p]).length ≤ 99 →
    (∀ b ∈ l.buf.bytes.drop (request [pidArg n,pushArg,p]).length, b = nul) →
    KeepsPath l env env' n p := by
  intro h
  have hkeeps := h oneShell (openEnv fun _ => true) (openEnv fun _ => true) 1 (CStr.ofLit "/a b") rfl
    (by decide) (by decide) rfl (by decide) (by decide)
    (fun _ hb => List.eq_of_mem_replicate (List.mem_of_mem_drop hb))
  have hstored : ((loopRound oneShell ⟨openEnv fun _ => true,
      request [pidArg 1,pushArg,CStr.ofLit "/a b"]⟩).toOption.map fun p =>
      decide (⟨lit "/c/1.sock",okNul⟩ ∈ p.2.sent ∧ topOf p.1.state 1 = some (CStr.ofLit "/a"))) =
      some true := by decide +kernel
  cases hk : loopRound oneShell ⟨openEnv fun _ => true,
      request [pidArg 1,pushArg,CStr.ofLit "/a b"]⟩ with
  | error e => simp [hk,Except.toOption] at hstored
  | ok p =>
    simp only [hk,Except.toOption,Option.map_some,Option.some.injEq,decide_eq_true_eq] at hstored
    have htop : topOf p.1.state 1 = some (CStr.ofLit "/a b") :=
      (hkeeps p.1 p.2 hk ⟨_,hstored.1,rfl⟩).1
    rw [hstored.2] at htop
    revert htop
    decide

theorem pushPath_plain : KeepsPath oneShell (openEnv fun _ => true) (openEnv fun _ => true) 1
    (CStr.ofLit "/a") :=
  (pushPath_iff oneShell rfl _ _ 1 (by decide) (by decide) (CStr.ofLit "/a") (by decide) (by decide)
    fun _ hb => List.eq_of_mem_replicate (List.mem_of_mem_drop hb)).mpr fun h => absurd h (by decide)

end Paths
end Nav.Client
