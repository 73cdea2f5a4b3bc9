import Nav.Client.Exchange
import Nav.Client.PushPath

/-! What a run of `nav` does to the action stack of its shell. -/
namespace Nav.Client
open Nav.C Nav.Daemon

/-- The action stack of a PID, empty while it is not registered. -/
def stackAt (s : State) (pid : ℤ) : List CStr := (actionStacks s pid).getD []

/-- `register` is answered OK in time: the shell is registered already, or there is memory. -/
def Registers (d : Delivery) (s : State) (pid : ℤ) : Prop :=
  d.late = false ∧ (s.shell? pid ≠ none ∨ d.env.nodeMalloc = true ∧ d.env.dataMalloc = true)

/-- What the wrapper takes for a directory. -/
def Usable (dir : CStr) : Prop := dir.bytes ≠ [] ∧ dir ≠ badOutput

/-- `get` with these arguments returns: it is sent, it has an argument string, and the path that it
finds fits into its answer. -/
def GetReturns (s : State) (d : Delivery) (n : ℕ) (args : List CStr) : Prop :=
  ∃ rest line, Delivered d n getArg args rest ∧ heardArgs n getArg args rest = some line ∧
    ∀ tag t, (tagArg line).1 = some tag → s.tag? tag = some t → t.path.length ≤ 98

/-- `get` with these arguments reads the path of a stored tag, and answers in time. -/
def GetReads (s : State) (d : Delivery) (n : ℕ) (args : List CStr) (dir : CStr) : Prop :=
  d.late = false ∧ ∃ rest line tag t, d.rest (pidArg n::getArg::args) = some rest ∧
    heardArgs n getArg args rest = some line ∧ (tagArg line).1 = some tag ∧ s.tag? tag = some t ∧
    dir = substituted t.path

/-- The client that looks up `t` returns, as it does if it takes `t` for an option. -/
def LookupReturns (s : State) (d : Delivery) (n : ℕ) (t : CStr) : Prop :=
  t.bytes ≠ [] →
  match getopt [] [pidArg n,getArg,t] with
  | .command argv => GetReturns s d n (argv.drop 2)
  | _ => True

/-- The directory that `nav t` sets out for: what `get` reads, or the text of the client if it takes
`t` for an option. -/
def Destination (navClient : CStr) (s : State) (d : Delivery) (n : ℕ) (t dir : CStr) : Prop :=
  t.bytes ≠ [] ∧ Usable dir ∧
  match getopt [] [pidArg n,getArg,t] with
  | .version => dir = CStr.ofLit "nav client version 0"
  | .usage => dir = substituted (printUsage navClient)
  | .command argv => GetReads s d n (argv.drop 2) dir

section Captured
variable (navClient : CStr) {n : ℕ} {se : Session} {d : Delivery} {c : CStr} {args : List CStr}
  {S : State} {sh : Shell} {rest : List Byte}

lemma topOf_eq (s : State) (pid : ℤ) : topOf s pid = (stackAt s pid).head? := by
  cases h : actionStacks s pid with
  | none => simp [topOf,stackAt,h]
  | some st => simp [topOf,stackAt,h]

/-- The requests of the wrapper that have no arguments fit. -/
lemma request_short (hn : n < 2^31) (hc : c.length ≤ 80) : (request [pidArg n,c]).length ≤ 99 := by
  have hpid : (pidArg n).length ≤ 10 := decimalNat_length (hn.trans (by decide)) (by decide)
  simp only [request_length,List.map_cons,List.map_nil,List.sum_cons,List.sum_nil]
  omega

lemma substituted_okNul : substituted (cstr okNul) = okOutput := by decide
lemma substituted_bad : substituted (cstr bad) = badOutput := by decide

lemma registerWord : Word registerArg := by decide
lemma getWord : Word getArg := by decide

lemma captured_plain (h : ∀ arg ∈ args, Plain arg) :
    captured navClient n se d args =
      (processCommand se.state d (pidArg n::args)).map fun p =>
        ({se with state := p.1},substituted p.2) := by
  rw [captured,client_plain navClient _ _ n h]

/-- What registering leaves as it was. -/
structure Registered (s S : State) (pid : ℤ) : Prop where
  wellFormed : S.WellFormed
  shell : ∃ sh, S.shell? pid = some sh
  tags : S.tags = s.tags
  stack : stackAt S pid = stackAt s pid

/-- The first client of a run. Where it is not answered in time, no stack has changed. -/
theorem captured_register (hn : n < 2^31) (hw : se.state.WellFormed) :
    (Registers d se.state n ∧ ∃ S, Registered se.state S n ∧
      captured navClient n se d [registerArg] = some ({se with state := S},okOutput)) ∨
    (¬ Registers d se.state n ∧ ∃ S, stackAt S n = stackAt se.state n ∧
      (d.late = false → S = se.state) ∧
      captured navClient n se d [registerArg] = some ({se with state := S},CStr.empty)) := by
  have hcmd : findCommand registerArg = some .register := by decide
  have hplain : ∀ arg ∈ [registerArg], Plain arg := by simp [Plain]; decide
  have hd : Delivered d n registerArg [] d.left := delivered_short (request_short hn (by decide))
  obtain ⟨o,ho,hexit,hS⟩ := dispatchCommand_ok d.env hw
    (show (Call.mk d.env registerArg n (heardArgs n registerArg [] d.left)).HasArgs by
      simp [Call.HasArgs,hcmd])
  -- an answer OK counts if it comes in time
  have hanswered : ∀ S, Registered se.state S n →
      (se.state.shell? n ≠ none ∨ d.env.nodeMalloc = true ∧ d.env.dataMalloc = true) →
      processCommand se.state d [pidArg n,registerArg] = some (S,d.prints (cstr okNul)) →
      (Registers d se.state n ∧ ∃ S, Registered se.state S n ∧
        captured navClient n se d [registerArg] = some ({se with state := S},okOutput)) ∨
      (¬ Registers d se.state n ∧ ∃ S, stackAt S n = stackAt se.state n ∧
        (d.late = false → S = se.state) ∧
        captured navClient n se d [registerArg] = some ({se with state := S},CStr.empty)) := by
    intro S hS hreg hp
    rw [captured_plain navClient hplain,hp,Option.map_some,substituted_prints,substituted_okNul]
    cases hlate : d.late with
    | false => exact Or.inl ⟨⟨hlate,hreg⟩,S,hS,by simp [Delivery.prints,hlate]⟩
    | true =>
      exact Or.inr ⟨fun h => by simp [h.1] at hlate,S,hS.stack,by simp,
        by simp [Delivery.prints,hlate]⟩
  cases hexit with
  | registeredAgain _ hs =>
    have hsent : _ = [(⟨sockPath se.state.cacheDir n,okNul⟩ : Datagram)] :=
      congrArg (fun a => [(⟨a,okNul⟩ : Datagram)]) (hw.sunPath_eq hs)
    exact hanswered _ ⟨hS,⟨_,hs⟩,rfl,rfl⟩ (Or.inl (by simp [hs]))
      (processCommand_reply hn registerWord hd ho rfl hsent (by decide))
  | registered _ hs hm =>
    have hnew := shell?_append se.state n n hs se.state.cacheDir
    rw [if_pos rfl] at hnew
    refine hanswered _ ⟨hS,⟨_,hnew⟩,rfl,?_⟩ (Or.inr hm)
      (processCommand_reply hn registerWord hd ho rfl rfl (by decide))
    rw [stackAt,stackAt,actionStacks_none hs,reply,actionStacks_some hnew]
    rfl
  | registerNoMemory _ hs hm =>
    refine Or.inr ⟨fun h => h.2.elim (fun h => h hs) hm,se.state,rfl,fun _ => rfl,?_⟩
    rw [captured_plain navClient hplain,processCommand_quiet hn registerWord hd ho rfl rfl]
    rfl
  | _ => simp_all

/-- A reply to the shell of `n` goes to the client of that shell. -/
theorem sent_reply {s : State} {payload : List Byte} (hw : s.WellFormed)
    (hs : s.shell? n = some sh) :
    [(⟨sh.sunPath,payload⟩ : Datagram)] = [⟨sockPath s.cacheDir n,payload⟩] := by
  rw [hw.sunPath_eq hs]

/-- What `get` reads once the tag is looked up. -/
lemma getReads_iff {s : State} {rest line dir : CStr}
    (hrest : d.rest (pidArg n::getArg::args) = some rest)
    (hargs : heardArgs n getArg args rest = some line) :
    GetReads s d n args dir ↔ d.late = false ∧ ∃ tag t, (tagArg line).1 = some tag ∧
      s.tag? tag = some t ∧ dir = substituted t.path := by
  constructor
  · rintro ⟨hlate,rest',line',tag,t,hrest',hargs',h⟩
    obtain rfl := Option.mem_unique hrest hrest'
    obtain rfl := Option.mem_unique hargs hargs'
    exact ⟨hlate,tag,t,h⟩
  · rintro ⟨hlate,tag,t,h⟩
    exact ⟨hlate,rest,line,tag,t,hrest,hargs,h⟩

lemma getReturns_iff {s : State} {rest line : CStr} (hd : Delivered d n getArg args rest)
    (hargs : heardArgs n getArg args rest = some line) :
    GetReturns s d n args ↔
      ∀ tag t, (tagArg line).1 = some tag → s.tag? tag = some t → t.path.length ≤ 98 := by
  constructor
  · rintro ⟨rest',line',hd',hargs',h⟩
    obtain rfl := Option.mem_unique hd.rest hd'.rest
    obtain rfl := Option.mem_unique hargs hargs'
    exact h
  · exact fun h => ⟨rest,line,hd,hargs,h⟩

/-- Among the usable texts a client has printed just the one that it has. -/
lemma usable_prints {text dir : CStr} (hu : Usable dir) :
    dir = d.prints text ↔ d.late = false ∧ dir = text := by
  unfold Delivery.prints
  cases d.late with
  | false => simp
  | true =>
    simp only [if_true,reduceCtorEq,false_and,iff_false]
    rintro rfl
    exact hu.1 rfl

/-- `get` with an argument string changes nothing. It comes back if the path that it finds fits into
its array, and what is usable in its answer is that path. -/
theorem processCommand_getLine (hn : n < 2^31) (hw : se.state.WellFormed)
    (hs : se.state.shell? n = some sh) {rest line : CStr} (hd : Delivered d n getArg args rest)
    (hargs : heardArgs n getArg args rest = some line) :
    (GetReturns se.state d n args ∧ ∃ text,
      processCommand se.state d (pidArg n::getArg::args) = some (se.state,text) ∧
      ∀ dir, Usable dir → (dir = substituted text ↔ GetReads se.state d n args dir)) ∨
    (¬ GetReturns se.state d n args ∧
      processCommand se.state d (pidArg n::getArg::args) = none) := by
  have hcmd : findCommand getArg = some .get := by decide
  obtain ⟨o,ho,hexit,_⟩ := dispatchCommand_ok d.env hw
    (show (Call.mk d.env getArg n (heardArgs n getArg args rest)).HasArgs by
      simp [Call.HasArgs,hargs])
  simp only [getReturns_iff hd hargs,getReads_iff hd.rest hargs]
  cases hexit with
  | getBlank _ _ hargs' htag =>
    obtain rfl := Option.mem_unique hargs hargs'
    refine Or.inl ⟨by simp [htag],_,processCommand_quiet hn getWord hd ho rfl rfl,?_⟩
    refine fun dir hu => iff_of_false ?_ (by simp [htag])
    rintro rfl
    exact hu.1 rfl
  | getAbsent _ hs' hargs' htag hnone =>
    obtain rfl := Option.mem_unique hargs hargs'
    have hno : ∀ tag' t, (tagArg line).1 = some tag' → se.state.tag? tag' ≠ some t := by
      intro tag' t htag'
      obtain rfl := Option.mem_unique htag htag'
      simp [hnone]
    refine Or.inl ⟨fun tag' t htag' ht => absurd ht (hno tag' t htag'),_,
      processCommand_reply hn getWord hd ho rfl (sent_reply hw hs') (by decide),fun dir hu => ?_⟩
    rw [substituted_prints,substituted_bad,usable_prints hu]
    refine iff_of_false (fun h => hu.2 h.2) ?_
    rintro ⟨_,tag',t,htag',ht,_⟩
    exact hno tag' t htag' ht
  | @got _ _ tag t _ hs' hargs' htag ht =>
    obtain rfl := Option.mem_unique hargs hargs'
    have hread : ∀ tag' t', (tagArg line).1 = some tag' → se.state.tag? tag' = some t' → t = t' := by
      intro tag' t' htag' ht'
      obtain rfl := Option.mem_unique htag htag'
      exact Option.mem_unique ht ht'
    have hfits : (∀ tag t, (tagArg line).1 = some tag → se.state.tag? tag = some t →
        t.path.length ≤ 98) ↔ t.path.length ≤ 98 :=
      ⟨fun h => h tag t htag ht,fun h tag' t' htag' ht' => hread tag' t' htag' ht' ▸ h⟩
    have hfound : ∀ dir, (∃ tag t, (tagArg line).1 = some tag ∧ se.state.tag? tag = some t ∧
        dir = substituted t.path) ↔ dir = substituted t.path := by
      refine fun dir => ⟨?_,fun h => ⟨tag,t,htag,ht,h⟩⟩
      rintro ⟨tag',t',htag',ht',rfl⟩
      rw [hread tag' t' htag' ht']
    simp only [hfound,hfits]
    by_cases hpath : t.path.length ≤ 98
    · refine Or.inl ⟨hpath,_,processCommand_reply hn getWord hd ho ((pathBuf_fits _).mpr hpath)
        (sent_reply hw hs') (pathBuf_printed hpath),fun dir hu => ?_⟩
      rw [substituted_prints,usable_prints hu,pathBuf_text,substituted_line]
    · refine Or.inr ⟨hpath,?_⟩
      rw [processCommand_call hn getWord hd,ho]
      simp [pathBuf_overrun hpath]
  | _ => simp_all

/-- `get` changes nothing, and what is usable in its answer is a path that it reads. -/
theorem processCommand_get (hn : n < 2^31) (hw : se.state.WellFormed)
    (hs : se.state.shell? n = some sh) (args : List CStr) :
    (GetReturns se.state d n args ∧ ∃ text,
      processCommand se.state d (pidArg n::getArg::args) = some (se.state,text) ∧
      ∀ dir, Usable dir → (dir = substituted text ↔ GetReads se.state d n args dir)) ∨
    (¬ GetReturns se.state d n args ∧
      processCommand se.state d (pidArg n::getArg::args) = none) := by
  have hcmd : findCommand getArg = some .get := by decide
  by_cases hdelivered : ∃ rest, Delivered d n getArg args rest
  · obtain ⟨rest,hd⟩ := hdelivered
    cases hargs : heardArgs n getArg args rest with
    | some line => exact processCommand_getLine hn hw hs hd hargs
    | none =>
      -- `strtok_r` gets a NULL pointer
      have ho : dispatchCommand d.env se.state getArg n (heardArgs n getArg args rest) =
          .error .nullDeref := by
        simp only [dispatchCommand,hcmd,cmdFunc,cmdGet,withShell_some hs,hargs]
      refine Or.inr ⟨?_,by rw [processCommand_call hn getWord hd,ho]⟩
      rintro ⟨rest',line,hd',hargs',_⟩
      obtain rfl := Option.mem_unique hd.rest hd'.rest
      simp [hargs] at hargs'
  · refine Or.inr ⟨?_,?_⟩
    · rintro ⟨rest,_,hd,_⟩
      exact hdelivered ⟨rest,hd⟩
    · by_contra hran
      obtain ⟨p,hp⟩ := Option.ne_none_iff_exists'.mp hran
      obtain ⟨hfits,rest,_,hrest,_⟩ := processCommand_ran hp
      exact hdelivered ⟨rest,request_short hn (by decide),hfits,hrest⟩

/-- The client that looks up the tag changes nothing, and finds the directory to set out for. -/
theorem captured_get (hn : n < 2^31) (hw : se.state.WellFormed) (hs : se.state.shell? n = some sh)
    {t : CStr} (ht : t.bytes ≠ []) :
    (LookupReturns se.state d n t ∧ ∃ text, captured navClient n se d [getArg,t] = some (se,text) ∧
      ∀ dir, Destination navClient se.state d n t dir ↔ Usable dir ∧ dir = text) ∨
    (¬ LookupReturns se.state d n t ∧ captured navClient n se d [getArg,t] = none) := by
  have hget : Plain getArg := by unfold Plain; decide
  simp only [LookupReturns,Destination,ht,ne_eq,not_false_eq_true,true_and,true_implies]
  unfold captured client
  cases hopt : getopt [] [pidArg n,getArg,t] with
  | version =>
    have htext : substituted (CStr.ofLit "nav client version 0\n") =
        CStr.ofLit "nav client version 0" := by decide
    refine Or.inl ⟨trivial,CStr.ofLit "nav client version 0",?_,fun _ => Iff.rfl⟩
    simp [htext]
  | usage => exact Or.inl ⟨trivial,_,rfl,fun _ => Iff.rfl⟩
  | command argv =>
    rw [getopt_plain (plain_pidArg n),getopt_plain hget] at hopt
    obtain ⟨args,rfl⟩ := getopt_command hopt
    rcases processCommand_get (d:=d) hn hw hs args with ⟨hret,text,hp,htext⟩ | ⟨hret,hp⟩
    · refine Or.inl ⟨hret,substituted text,?_,fun dir => ?_⟩
      · simp [hp]
      · exact and_congr_right fun hu => (htext dir hu).symm
    · exact Or.inr ⟨hret,by simp [hp]⟩

/-- The client that pushes. It is answered OK if the directory, as far as `cmd_push` keeps it, is on top
already or there is memory for it, and in the second case it is recorded. -/
theorem captured_push {path : CStr} (hn : n < 2^31) (hw : se.state.WellFormed)
    (hs : se.state.shell? n = some sh) (hplain : Plain path)
    (hlen : (request [pidArg n,pushArg,path]).length ≤ 99) :
    (topOf se.state n = some (trimmed path) ∧ captured navClient n se d [pushArg,path] =
        some (se,d.prints okOutput)) ∨
    (topOf se.state n ≠ some (trimmed path) ∧
      (d.env.nodeMalloc = true ∧ d.env.dataMalloc = true) ∧
      ∃ S, captured navClient n se d [pushArg,path] =
          some ({se with state := S},d.prints okOutput) ∧
        stackAt S n = trimmed path::stackAt se.state n) ∨
    ((validPath d.env (trimmed path) = true →
        ¬ (d.env.nodeMalloc = true ∧ d.env.dataMalloc = true)) ∧
      captured navClient n se d [pushArg,path] = some (se,d.prints badOutput)) := by
  have hcmd := pushCommand
  have hplain' : ∀ arg ∈ [pushArg,path], Plain arg := by
    simpa using ⟨show Plain pushArg by unfold Plain; decide,hplain⟩
  have hd : Delivered d n pushArg [path] d.left := delivered_short hlen
  have hargs : heardArgs n pushArg [path] d.left = some (argsLine n pushArg [path] d.left) :=
    heardArgs_path hlen
  have htrim : trimmed (argsLine n pushArg [path] d.left) = trimmed path := trimmed_argsLine hlen
  obtain ⟨o,ho,hexit,_⟩ := dispatchCommand_ok d.env hw
    (show (Call.mk d.env pushArg n (heardArgs n pushArg [path] d.left)).HasArgs by
      simp [Call.HasArgs,hcmd])
  rw [captured_plain navClient hplain',topOf_some hs,← substituted_okNul,← substituted_bad,
    ← substituted_prints,← substituted_prints]
  cases hexit with
  | pushInvalid _ hs' hargs' hv =>
    obtain rfl := Option.mem_unique hargs hargs'
    rw [htrim] at hv
    rw [processCommand_reply hn pushWord hd ho rfl (sent_reply hw hs') (by decide)]
    exact Or.inr (Or.inr ⟨fun h => absurd (h.symm.trans hv) (by decide),rfl⟩)
  | pushedAgain _ hs' hargs' _ htop =>
    obtain rfl := Option.mem_unique hargs hargs'
    obtain rfl := Option.mem_unique hs hs'
    rw [htrim] at htop
    rw [processCommand_reply hn pushWord hd ho rfl (sent_reply hw hs) (by decide)]
    exact Or.inl ⟨htop,rfl⟩
  | pushNoMemory _ hs' _ _ _ hm =>
    rw [processCommand_reply hn pushWord hd ho rfl (sent_reply hw hs') (by decide)]
    exact Or.inr (Or.inr ⟨fun _ => hm,rfl⟩)
  | pushed _ hs' hargs' _ htop hm =>
    obtain rfl := Option.mem_unique hargs hargs'
    obtain rfl := Option.mem_unique hs hs'
    rw [htrim] at htop
    rw [processCommand_reply hn pushWord hd ho rfl (sent_reply hw hs) (by decide)]
    refine Or.inr (Or.inl ⟨htop,hm,_,rfl,?_⟩)
    simp only [stackAt,reply]
    rw [actionStacks_setActions hs,Function.update_self,actionStacks_some hs,htrim]
    rfl
  | _ =>
    exfalso
    simp_all

/-- The client that pops. -/
theorem captured_pop (hn : n < 2^31) (hw : se.state.WellFormed)
    (hs : se.state.shell? n = some sh) :
    (stackAt se.state n = [] ∧ captured navClient n se d [popArg] =
      some (se,d.prints badOutput)) ∨
    ∃ p ps, stackAt se.state n = p::ps ∧
      if p.length ≤ 98 then
        ∃ S, captured navClient n se d [popArg] =
          some ({se with state := S},d.prints (substituted p)) ∧ stackAt S n = ps
      else captured navClient n se d [popArg] = none := by
  have hcmd := popCommand
  have hplain : ∀ arg ∈ [popArg], Plain arg := by simp [Plain]; decide
  have hd : Delivered d n popArg [] d.left := delivered_short (request_short hn (by decide))
  have hstack : stackAt se.state n = stackOf sh := by rw [stackAt,actionStacks_some hs]; rfl
  obtain ⟨o,ho,hexit,_⟩ := dispatchCommand_ok d.env hw
    (show (Call.mk d.env popArg n (heardArgs n popArg [] d.left)).HasArgs by
      simp [Call.HasArgs,hcmd])
  rw [captured_plain navClient hplain,hstack,← substituted_bad,← substituted_prints]
  cases hexit with
  | popEmpty _ hs' ha =>
    obtain rfl := Option.mem_unique hs hs'
    rw [processCommand_reply hn popWord hd ho rfl (sent_reply hw hs) (by decide)]
    exact Or.inl ⟨by rw [stackOf,ha]; rfl,rfl⟩
  | @popped _ a as _ hs' ha =>
    obtain rfl := Option.mem_unique hs hs'
    refine Or.inr ⟨a.path,as.map Action.path,by rw [stackOf,ha]; rfl,?_⟩
    split_ifs with hpath
    · rw [processCommand_reply hn popWord hd ho ((pathBuf_fits _).mpr hpath) (sent_reply hw hs)
        (pathBuf_printed hpath),pathBuf_text,← substituted_line,← substituted_prints]
      refine ⟨_,rfl,?_⟩
      simp only [stackAt,reply]
      rw [actionStacks_setActions hs,Function.update_self,deleteTop ha]
      rfl
    · rw [processCommand_call hn popWord hd,ho]
      simp [pathBuf_overrun hpath]
  | _ =>
    exfalso
    simp_all

end Captured

section Runs
variable (navClient : CStr) {n : ℕ} {w : Answers} {se : Session} {sh : Shell}

/-- An answer that comes in time, on a system on which nothing fails. -/
def promptDelivery : Delivery := ⟨openEnv fun _ => true,CStr.empty,none,false⟩

end Runs
end Nav.Client
