import Nav.Client.Shells
import Nav.Client.Protocol

/-! What browsing looks like from one shell while others run theirs: the directory it is in, and the
directories behind it. -/
namespace Nav.Client
open Nav.C Nav.Daemon Nav.Lib Nav.Lib.Script

/-- The answer comes in time, and nothing is known of the memory behind the daemon's buffer: it only
comes to a request that leaves room there. -/
structure Delivery.Plain (d : Delivery) : Prop where
  inTime : d.late = false
  room : d.behind = none

lemma Delivery.Plain.prints {d : Delivery} (hd : d.Plain) (text : CStr) : d.prints text = text := by
  simp [Delivery.prints,hd.inTime]

section Clients
variable {navClient : CStr} {s s' : State} {d : Delivery} {n : ℕ} {c text : CStr} {args : List CStr}

/-- A run of the client makes at most one call, for the PID it is given. -/
theorem processCommand_exit (hn : n ≤ 2^22) (h : processCommand s d (pidArg n::args) = some (s',text)) :
    s' = s ∨ ∃ (c : Call) (o : Outcome), c.pid = n ∧ Exit c s o ∧ o.state = s' := by
  obtain ⟨_,rest,r,_,hline,hrun,rfl⟩ := processCommand_ran h
  obtain ⟨ws,hwords⟩ := heardLine_words hn args rest
  rw [loopLine_eq] at hline
  cases hr : reading (heardLine (pidArg n::args) rest) with
  | skipped line =>
    simp only [hr,readRound,Except.ok.injEq] at hline
    rw [← hline]
    exact Or.inl rfl
  | broken line =>
    simp only [hr,readRound,Except.ok.injEq] at hline
    simp [← hline,idle] at hrun
  | call e passed =>
    obtain ⟨⟨pidStr,hw,_,hpid⟩,_⟩ := reading_call _ hr
    rw [hwords] at hw
    obtain rfl := (List.cons.inj hw).1
    have hlong : strtol (pidArg n).bytes = ((n : ℤ),false) :=
      strtol_decimalNat (by simp only [longMax]; omega)
    rw [hlong,toInt_of_lt (by omega)] at hpid
    simp only [hr,readRound,calledRound] at hline
    cases ho : dispatchCommand d.env s e.cmdStr e.pid e.args with
    | error e => simp [ho,Except.map] at hline
    | ok o =>
      simp only [ho,Except.map,Except.ok.injEq] at hline
      exact Or.inr ⟨⟨d.env,e.cmdStr,e.pid,e.args⟩,o,hpid,
        dispatchCommand_exit (c:=⟨d.env,e.cmdStr,e.pid,e.args⟩) ho,by rw [← hline]⟩

/-- Where nothing is known behind the buffer, the request has left room. -/
lemma short_of_returns (hd : d.Plain) {argv : List CStr} (h : processCommand s d argv = some (s',text)) :
    (request argv).length ≤ 99 := by
  obtain ⟨_,rest,_,hrest,_⟩ := processCommand_ran h
  by_contra hlen
  simp [Delivery.rest,hlen,hd.room] at hrest

lemma client_cases (h : client navClient s d (pidArg n::args) = some (s',text)) :
    s' = s ∨ ∃ args', getopt [pidArg n] args = .command (pidArg n::args') ∧
      processCommand s d (pidArg n::args') = some (s',text) := by
  unfold client at h
  cases hopt : getopt [] (pidArg n::args) with
  | version => simp only [hopt,Option.some.injEq,Prod.mk.injEq] at h; exact Or.inl h.1.symm
  | usage => simp only [hopt,Option.some.injEq,Prod.mk.injEq] at h; exact Or.inl h.1.symm
  | command argv =>
    simp only [hopt] at h
    rw [getopt_plain (plain_pidArg n)] at hopt
    obtain ⟨args',rfl⟩ := getopt_command hopt
    exact Or.inr ⟨args',hopt,h⟩

/-- Other shells keep their stacks. -/
theorem actionStacks_ne {c : Call} (h : Change c s s') (hw : s.WellFormed) {q : ℤ}
    (hq : q ≠ c.pid) : actionStacks s' q = actionStacks s q := by
  cases h with
  | registered _ hs => rw [actionStacks_append hs,Function.update_of_ne hq]
  | unregistered _ hs => rw [actionStacks_delete hw hs,Function.update_of_ne hq]
  | pushed _ hs | popped _ hs | reset _ hs => rw [actionStacks_setActions hs,Function.update_of_ne hq]
  | _ => rfl

theorem client_others (hn : n ≤ 2^22) (hw : s.WellFormed)
    (h : client navClient s d (pidArg n::args) = some (s',text)) :
    s'.WellFormed ∧ ∀ q : ℤ, q ≠ n → actionStacks s' q = actionStacks s q := by
  rcases client_cases h with rfl | ⟨args',_,h⟩
  · exact ⟨hw,fun _ _ => rfl⟩
  · rcases processCommand_exit hn h with rfl | ⟨c,o,hpid,he,rfl⟩
    · exact ⟨hw,fun _ _ => rfl⟩
    · exact ⟨hw.change he.change,fun q hq => actionStacks_ne he.change hw (hpid ▸ hq)⟩

/-- The commands that have nothing to do with stacks. -/
theorem client_other {cmd : Command} (hn : n < 2^31) (hd : d.Plain) (hc : findCommand c = some cmd)
    (hword : Word c) (hplain : Plain c) (hcmd : cmd ∉ [.register,.unregister,.push,.pop,.reset])
    (h : client navClient s d (pidArg n::c::args) = some (s',text)) :
    actionStacks s' = actionStacks s := by
  rcases client_cases h with rfl | ⟨args,hopt,h⟩
  · rfl
  · rw [getopt_plain hplain] at hopt
    obtain ⟨args',hargs⟩ := getopt_command hopt
    obtain rfl : args = c::args' := by simpa using hargs
    have hdel : Delivered d n c args' d.left := delivered_short (short_of_returns hd h)
    rw [processCommand_call hn hword hdel] at h
    cases ho : dispatchCommand d.env s c n (heardArgs n c args' d.left) with
    | error e => simp [ho] at h
    | ok o =>
      have hstate : o.state = s' := by
        simp only [ho,hd.inTime,Bool.false_eq_true,if_false] at h
        split_ifs at h
        obtain ⟨_,_,he⟩ := Option.map_eq_some_iff.mp h
        exact (Prod.mk.inj he).1
      have hch := (dispatchCommand_exit (c:=⟨d.env,c,n,heardArgs n c args' d.left⟩) ho).change
      rw [hstate] at hch
      have hno : ∀ {cmd'}, findCommand c = some cmd' →
          cmd' ∉ [.register,.unregister,.push,.pop,.reset] := by
        intro cmd' h'
        rwa [← Option.mem_unique hc h']
      cases hch with
      | registered hc' | unregistered hc' | pushed hc' | popped hc' | reset hc' =>
        exact absurd (hno hc') (by decide)
      | _ => rfl

end Clients

section Captured
variable {navClient : CStr} {n : ℕ} {se se' : Session} {d : Delivery} {sh : Shell} {path output : CStr}

/-- A client whose request is answered passes the answer on. -/
lemma captured_sent {c : CStr} {args : List CStr} {o : Outcome} {payload : List Byte} (hn : n < 2^31)
    (hd : d.Plain) (hw : se.state.WellFormed) (hs : se.state.shell? n = some sh) (hc : Word c)
    (hplain : ∀ arg ∈ c::args, Plain arg) (hlen : (request (pidArg n::c::args)).length ≤ 99)
    (ho : dispatchCommand d.env se.state c n (heardArgs n c args d.left) = .ok o)
    (hover : o.overrun = false) (hsent : o.sent = [⟨sh.sunPath,payload⟩])
    (hpayload : (cstr payload).length < 1024)
    (h : captured navClient n se d (c::args) = some (se',output)) :
    se' = {se with state := o.state} ∧ output = substituted (cstr payload) := by
  rw [captured_plain navClient hplain,processCommand_reply hn hc (delivered_short hlen) ho hover
    (hsent.trans (sent_reply hw hs)) hpayload,hd.prints] at h
  simp only [Option.map_some,Option.some.injEq,Prod.mk.injEq] at h
  exact ⟨h.1.symm,h.2.symm⟩

/-- The client that pushes: answered OK it has pushed, and else it has done nothing. -/
theorem captured_push_cases (hn : n < 2^31) (hd : d.Plain) (hw : se.state.WellFormed)
    (hs : se.state.shell? n = some sh) (hplain : Plain path)
    (h : captured navClient n se d [pushArg,path] = some (se',output)) :
    (output = okOutput ∧ stackAt se'.state n = pushTop (stackAt se.state n) (trimmed path)) ∨
    (output ≠ okOutput ∧ stackAt se'.state n = stackAt se.state n) := by
  have hlen : (request [pidArg n,pushArg,path]).length ≤ 99 := by
    have hplain' : ∀ arg ∈ [pushArg,path], Plain arg := by
      simpa using ⟨show Plain pushArg by unfold Plain; decide,hplain⟩
    rw [captured_plain navClient hplain'] at h
    obtain ⟨p,hp,_⟩ := Option.map_eq_some_iff.mp h
    exact short_of_returns hd hp
  have hbad : badOutput ≠ okOutput := by decide
  rcases captured_push navClient (d:=d) hn hw hs hplain hlen with
    ⟨htop,hp⟩ | ⟨htop,_,S,hp,hS⟩ | ⟨_,hp⟩
  · rw [hp,hd.prints,Option.some.injEq,Prod.mk.injEq] at h
    obtain ⟨rfl,rfl⟩ := h
    rw [topOf_eq] at htop
    exact Or.inl ⟨rfl,by rw [pushTop,if_pos htop]⟩
  · rw [hp,hd.prints,Option.some.injEq,Prod.mk.injEq] at h
    obtain ⟨rfl,rfl⟩ := h
    rw [topOf_eq] at htop
    exact Or.inl ⟨rfl,by rw [pushTop,if_neg htop,hS]⟩
  · rw [hp,hd.prints,Option.some.injEq,Prod.mk.injEq] at h
    obtain ⟨rfl,rfl⟩ := h
    exact Or.inr ⟨hbad,rfl⟩

/-- The client that empties the stack. -/
theorem captured_reset (hn : n < 2^31) (hd : d.Plain) (hw : se.state.WellFormed)
    (hs : se.state.shell? n = some sh)
    (h : captured navClient n se d [resetArg] = some (se',output)) :
    stackAt se'.state n = [] := by
  have hcmd : findCommand resetArg = some .reset := by decide
  have hplain : ∀ arg ∈ [resetArg], Plain arg := by simp [Plain]; decide
  have hlen := request_short (c:=resetArg) hn (by decide)
  obtain ⟨o,ho,hexit,_⟩ := dispatchCommand_ok d.env hw
    (show (Call.mk d.env resetArg n (heardArgs n resetArg [] d.left)).HasArgs by
      simp [Call.HasArgs,hcmd])
  cases hexit with
  | reset _ hs' =>
    obtain ⟨rfl,_⟩ := captured_sent hn hd hw hs' (by decide) hplain hlen ho rfl rfl (by decide) h
    simp only [stackAt,reply]
    rw [actionStacks_setActions hs',Function.update_self,listDeleteAll_eq]
    rfl
  | _ =>
    exfalso
    simp_all

/-- The client that the trap runs. -/
theorem captured_unregister (hn : n < 2^31) (hd : d.Plain) (hw : se.state.WellFormed)
    (h : captured navClient n se d [unregisterArg] = some (se',output)) :
    stackAt se'.state n = [] := by
  have hcmd : findCommand unregisterArg = some .unregister := by decide
  have hplain : ∀ arg ∈ [unregisterArg], Plain arg := by simp [Plain]; decide
  have hlen := request_short (c:=unregisterArg) hn (by decide)
  obtain ⟨o,ho,hexit,_⟩ := dispatchCommand_ok d.env hw
    (show (Call.mk d.env unregisterArg n (heardArgs n unregisterArg [] d.left)).HasArgs by
      simp [Call.HasArgs,hcmd])
  cases hexit with
  | ignored _ hs =>
    rw [captured_plain navClient hplain,
      processCommand_quiet hn (by decide) (delivered_short hlen) ho rfl rfl] at h
    simp only [Option.map_some,Option.some.injEq,Prod.mk.injEq] at h
    obtain ⟨rfl,_⟩ := h
    have hnone : actionStacks se.state n = none := actionStacks_none hs
    simp [stackAt,quiet,hnone]
  | unregistered _ hs =>
    obtain ⟨rfl,_⟩ := captured_sent hn hd hw hs (by decide) hplain hlen ho rfl rfl (by decide) h
    simp only [stackAt,reply]
    rw [actionStacks_delete hw hs,Function.update_self]
    rfl
  | _ =>
    exfalso
    simp_all

end Captured

/-- A path from the root. -/
def Absolute (path : CStr) : Prop := lit "/" <+: path.bytes

/-- A path that a logical `cd` leaves as it is: the root, or names that are no dots, each behind one
slash. -/
def Canonical (path : CStr) : Prop :=
  path.bytes = lit "/" ∨ ∃ names : List (List Byte), names ≠ [] ∧
    path.bytes = names.flatMap (fun name => lit "/" ++ name) ∧
    ∀ name ∈ names, name ≠ [] ∧ name ≠ lit "." ∧ name ≠ lit ".." ∧ ∀ b ∈ lit "/", b ∉ name

/-- A client is answered in time and within the daemon's buffer, and where `cd` gets to is a path from
the root, the one asked for if that is canonical. -/
structure Meeting.Fits (met : Meeting) : Prop where
  delivery : met.delivery.Plain
  cd : ∀ dir there, met.cd dir = some there → Absolute there ∧ (Canonical dir → there = dir)

/-- The directory a shell is in and those it can go back to. -/
@[ext] structure Place where
  cwd : CStr
  history : List CStr
  deriving DecidableEq

/-- What the daemon keeps is the end of the paths' first lines and words, still from the root. -/
structure Place.Sound (v : Place) : Prop where
  cwd : Absolute v.cwd
  history : ∀ p ∈ v.history, Absolute p ∧ Unbroken p

/-- The history behind a directory that a shell leaves by `nav`. -/
def Place.left (v : Place) : List CStr := pushTop v.history (trimmed v.cwd)

/-- What a job does to a place. -/
inductive Visit (v : Place) : Job → Report → Place → Prop
  | stayed {arg₁ arg₂ arg₃ text} (hk : keyword? arg₁ ≠ some .back) (hk' : keyword? arg₁ ≠ some .reset) :
      Visit v (.nav arg₁ arg₂ arg₃) ⟨none,text⟩ v
  | went {arg₁ arg₂ arg₃ there} (hk : keyword? arg₁ = none) (ht : Absolute there) :
      Visit v (.nav arg₁ arg₂ arg₃) ⟨some true,[]⟩ ⟨there,v.left⟩
  | stranded {arg₁ arg₂ arg₃ text} (hk : keyword? arg₁ = none) :
      Visit v (.nav arg₁ arg₂ arg₃) ⟨some false,text⟩ ⟨v.cwd,v.left⟩
  | nothingBack {arg₁ arg₂ arg₃ text} (hk : keyword? arg₁ = some .back) (hv : v.history = []) :
      Visit v (.nav arg₁ arg₂ arg₃) ⟨none,text⟩ v
  | back {arg₁ arg₂ arg₃ there p ps} (hk : keyword? arg₁ = some .back) (hv : v.history = p::ps)
      (ht : Absolute there) (hp : Canonical p → there = p) :
      Visit v (.nav arg₁ arg₂ arg₃) ⟨some true,[]⟩ ⟨there,ps⟩
  | lost {arg₁ arg₂ arg₃ text p ps} (hk : keyword? arg₁ = some .back) (hv : v.history = p::ps) :
      Visit v (.nav arg₁ arg₂ arg₃) ⟨some false,text⟩ ⟨v.cwd,ps⟩
  | reset {arg₁ arg₂ arg₃ text} (hk : keyword? arg₁ = some .reset) :
      Visit v (.nav arg₁ arg₂ arg₃) ⟨none,text⟩ ⟨v.cwd,[]⟩
  | completed {text} : Visit v .autocomplete ⟨none,text⟩ v
  | exit : Visit v .exit ⟨none,[]⟩ ⟨v.cwd,[]⟩
  | moved {dir there} (ht : Absolute there) (hp : Canonical dir → there = dir) :
      Visit v (.cd dir) ⟨some true,[]⟩ ⟨there,v.history⟩
  | unmoved {dir} : Visit v (.cd dir) ⟨some false,[]⟩ v

section Paths
variable {v v' : Place} {path : CStr}

lemma Absolute.trimmed (h : Absolute path) : Absolute (trimmed path) := by
  obtain ⟨rest,hr⟩ := h
  refine ⟨rest.takeWhile (!isBreak ·),?_⟩
  rw [trimmed_bytes,← hr,show lit "/" = [47] by decide]
  rfl

lemma Absolute.plain (h : Absolute path) : Plain path := by
  obtain ⟨rest,hr⟩ := h
  rw [Plain,← hr,show lit "/" = [47] by decide]
  simp

lemma Absolute.usable (h : Absolute path) : Usable path := by
  obtain ⟨rest,hr⟩ := h
  constructor
  · rw [← hr,show lit "/" = [47] by decide]
    simp
  · rintro rfl
    have hhead := congrArg List.head? hr
    rw [show lit "/" = [47] by decide,List.singleton_append,List.head?_cons] at hhead
    exact absurd hhead (by decide)

/-- `$(pwd)` only takes newlines off. -/
lemma substituted_split (path : CStr) : ∃ ends, (∀ b ∈ ends, b = newline) ∧
    (substituted path).bytes ++ ends = path.bytes := by
  refine ⟨path.bytes.rtakeWhile (· == newline),fun b hb => ?_,List.rdropWhile_append_rtakeWhile ..⟩
  simpa using List.mem_rtakeWhile_imp hb

lemma Absolute.substituted (h : Absolute path) : Absolute (substituted path) := by
  obtain ⟨rest,hr⟩ := h
  obtain ⟨ends,hends,hsplit⟩ := substituted_split path
  rw [← hr,show lit "/" = [47] by decide,List.singleton_append,List.append_eq_cons_iff] at hsplit
  rcases hsplit with ⟨_,he⟩ | ⟨bs,hb,_⟩
  · exact absurd (hends 47 (by simp [he])) (by decide)
  · exact ⟨bs,by rw [hb,show lit "/" = [47] by decide]; rfl⟩

lemma trimmed_substituted (path : CStr) : trimmed (substituted path) = trimmed path := by
  obtain ⟨ends,hends,hsplit⟩ := substituted_split path
  have hnone : ends.takeWhile (!isBreak ·) = [] := by
    cases ends with
    | nil => rfl
    | cons b ends =>
      rw [hends b (by simp)]
      rfl
  ext1
  rw [trimmed_bytes,trimmed_bytes,← hsplit,List.takeWhile_append,hnone]
  split_ifs with hlen
  · rw [(List.takeWhile_prefix _).eq_of_length hlen,List.append_nil]
  · rfl

lemma Visit.sound {job : Job} {r : Report} (h : Visit v job r v') (hv : v.Sound) : v'.Sound := by
  have hleft : ∀ p ∈ v.left, Absolute p ∧ Unbroken p := by
    intro p hp
    unfold Place.left pushTop at hp
    split_ifs at hp
    · exact hv.history p hp
    · rcases List.mem_cons.mp hp with rfl | hp
      · exact ⟨hv.cwd.trimmed,trimmed_unbroken _⟩
      · exact hv.history p hp
  cases h with
  | stayed | nothingBack | completed | unmoved => exact hv
  | went _ ht => exact ⟨ht,hleft⟩
  | stranded => exact ⟨hv.cwd,hleft⟩
  | back _ hh ht => exact ⟨ht,fun p hp => hv.history p (by simp [hh,hp])⟩
  | lost _ hh => exact ⟨hv.cwd,fun p hp => hv.history p (by simp [hh,hp])⟩
  | reset | exit => exact ⟨hv.cwd,by simp⟩
  | moved ht => exact ⟨ht,hv.history⟩

end Paths

/-- The part of a shell in the system: besides its place, whether the daemon has it registered. -/
structure Seat where
  cwd : CStr
  stack : Option (List CStr)

def seat (n : Pid) (s : State) (cwd : CStr) : Seat := ⟨cwd,actionStacks s n⟩

def Seat.place (v : Seat) : Place := ⟨v.cwd,v.stack.getD []⟩

/-- A script of a shell ends with `Q`, whatever other shells do meanwhile. -/
abbrev Ensured (navClient : CStr) (n : Pid) (Q : Report → Seat → Prop) : ShellScript → Seat → Prop :=
  Ensures (shellService navClient) State.WellFormed Meeting.Fits seat n Q

section Scripts
variable {navClient : CStr} {n : Pid} {Q : Report → Seat → Prop} {v : Seat} {argv : List CStr}
  {dir text : CStr}

lemma ensured_client {f : CStr → ShellScript}
    (h : ∀ s d s' output, s.WellFormed → d.Plain → actionStacks s n = v.stack →
      captured navClient n ⟨s,v.cwd⟩ d argv = some (⟨s',v.cwd⟩,output) →
      Ensured navClient n Q (f output) ⟨v.cwd,actionStacks s' n⟩) :
    Ensured navClient n Q (.ask (.client argv) f) v := by
  rintro s cwd met s' cwd' output hw hmet rfl ha
  obtain ⟨⟨S,out⟩,hc,he⟩ := Option.map_eq_some_iff.mp ha
  simp only [Prod.mk.injEq] at he
  obtain ⟨rfl,rfl,rfl⟩ := he
  refine h s met.delivery S _ hw hmet.delivery rfl ?_
  rw [captured,hc]
  rfl

lemma ensured_pwd {f : CStr → ShellScript} (h : Ensured navClient n Q (f (substituted v.cwd)) v) :
    Ensured navClient n Q (.ask .pwd f) v := by
  rintro s cwd met s' cwd' output hw - rfl ha
  simp only [shellService,Option.some.injEq,Prod.mk.injEq] at ha
  obtain ⟨rfl,rfl,rfl⟩ := ha
  exact h

lemma ensured_cd {f : Bool → ShellScript}
    (hyes : ∀ there, Absolute there → (Canonical dir → there = dir) →
      Ensured navClient n Q (f true) ⟨there,v.stack⟩)
    (hno : Ensured navClient n Q (f false) v) : Ensured navClient n Q (.ask (.cd dir) f) v := by
  rintro s cwd met s' cwd' moved hw hmet rfl ha
  simp only [shellService] at ha
  cases hcd : met.cd dir with
  | none =>
    simp only [hcd,Option.some.injEq,Prod.mk.injEq] at ha
    obtain ⟨rfl,rfl,rfl⟩ := ha
    exact hno
  | some there =>
    simp only [hcd,Option.some.injEq,Prod.mk.injEq] at ha
    obtain ⟨rfl,rfl,rfl⟩ := ha
    obtain ⟨habs,hcan⟩ := hmet.cd dir there hcd
    exact hyes there habs hcan

lemma shell?_of_stack {s : State} {st : List CStr} (h : actionStacks s n = some st) :
    ∃ sh, s.shell? n = some sh := by
  obtain ⟨sh,hs,_⟩ := Option.map_eq_some_iff.mp h
  exact ⟨sh,hs⟩

/-- Registering either succeeds, and the history stays, or the shell had none. -/
theorem ensured_register {go : ShellScript}
    (hno : v.stack = none → ∀ text, Q ⟨none,text⟩ v)
    (hgo : Ensured navClient n Q go ⟨v.cwd,some (v.stack.getD [])⟩) :
    Ensured navClient n Q (registerClient go) v := by
  refine ensured_client fun s d s' output hw hd hst hc => ?_
  have hn : n.1 < 2^31 := n.2.trans_lt (by decide)
  rcases captured_register navClient (d:=d) hn
    (show (Session.mk s v.cwd).state.WellFormed from hw) with ⟨_,S,hS,h⟩ | ⟨hreg,S,_,hsame,h⟩
  · rw [hc] at h
    simp only [Option.some.injEq,Prod.mk.injEq,Session.mk.injEq] at h
    obtain ⟨⟨rfl,_⟩,rfl⟩ := h
    obtain ⟨sh,hsh⟩ := hS.shell
    have hstack : actionStacks s' n = some (v.stack.getD []) := by
      have hs := hS.stack
      rw [stackAt,stackAt,hst] at hs
      rw [← hs,actionStacks_some hsh]
      rfl
    have hok : okOutput.bytes ≠ [] := by decide
    rw [hstack,if_neg hok]
    exact hgo
  · rw [hc] at h
    simp only [Option.some.injEq,Prod.mk.injEq,Session.mk.injEq] at h
    obtain ⟨⟨rfl,_⟩,rfl⟩ := h
    obtain rfl : s' = s := hsame hd.inTime
    have hnone : s'.shell? n = none := by
      by_contra hs
      exact hreg ⟨hd.inTime,Or.inl hs⟩
    rw [actionStacks_none hnone] at hst ⊢
    rw [if_pos CStr.empty_bytes]
    exact hst ▸ hno hst.symm _

/-- The command words that have nothing to do with stacks. -/
structure Aside (c : CStr) : Prop where
  word : Word c
  plain : Plain c
  command : ∃ cmd, findCommand c = some cmd ∧ cmd ∉ [.register,.unregister,.push,.pop,.reset]

lemma aside {c : CStr} (cmd : Command) (hc : findCommand c = some cmd) (hword : Word c)
    (hhead : c.bytes.head? ≠ some 45)
    (hcmd : cmd ∉ [.register,.unregister,.push,.pop,.reset]) : Aside c :=
  ⟨hword,hhead,cmd,hc,hcmd⟩

lemma aside_add : Aside addArg := aside .add (by decide) (by decide) (by decide) (by decide)
lemma aside_delete : Aside deleteArg := aside .delete (by decide) (by decide) (by decide) (by decide)
lemma aside_show : Aside showArg := aside .show (by decide) (by decide) (by decide) (by decide)
lemma aside_list : Aside listArg := aside .list (by decide) (by decide) (by decide) (by decide)
lemma aside_actions : Aside actionsArg :=
  aside .actions (by decide) (by decide) (by decide) (by decide)

/-- The output of such a command is only printed. -/
theorem ensured_aside {c : CStr} {args : List CStr} {f : CStr → List Byte} (hc : Aside c)
    (h : ∀ text, Q ⟨none,text⟩ v) :
    Ensured navClient n Q (.ask (.client (c::args)) fun output => say (f output)) v := by
  refine ensured_client fun s d s' output hw hd hst hcap => ?_
  obtain ⟨p,hp,he⟩ := Option.map_eq_some_iff.mp hcap
  simp only [Prod.mk.injEq,Session.mk.injEq,and_true] at he
  obtain ⟨cmd,hcmd,hno⟩ := hc.command
  have hsame := client_other (n.2.trans_lt (by decide)) hd hcmd hc.word hc.plain hno hp
  rw [← he.1,hsame,hst]
  exact h _

lemma ensured_cdOrSay (hyes : ∀ there, Absolute there → (Canonical dir → there = dir) →
      Q ⟨some true,[]⟩ ⟨there,v.stack⟩)
    (hno : ∀ text, Q ⟨some false,text⟩ v) : Ensured navClient n Q (cdOrSay dir) v :=
  ensured_cd (fun there ht hp => hyes there ht hp) (hno _)

/-- `nav` with a tag leaves the directory it has pushed, or does not get as far as `cd`. -/
theorem ensured_tag (tag : CStr) {st : List CStr} (hst : v.stack = some st) (hv : Absolute v.cwd)
    (hnone : ∀ v', v'.place = v.place → ∀ text, Q ⟨none,text⟩ v')
    (hcd : ∀ v', v'.cwd = v.cwd → v'.place.history = v.place.left →
      (∀ text, Q ⟨some false,text⟩ v') ∧
      ∀ there, Absolute there → Q ⟨some true,[]⟩ ⟨there,v'.stack⟩) :
    Ensured navClient n Q (tagScript tag) v := by
  have hn : n.1 < 2^31 := n.2.trans_lt (by decide)
  unfold tagScript
  split_ifs with htag
  · exact hnone v rfl _
  · refine ensured_client fun s d s' dir hw hd hs hc => ?_
    obtain ⟨sh,hsh⟩ := shell?_of_stack (hs.trans hst)
    obtain rfl : s' = s := by
      rcases captured_get navClient (d:=d) hn (show (Session.mk s v.cwd).state.WellFormed from hw) hsh
        htag with ⟨_,text,h,_⟩ | ⟨_,h⟩
      · rw [h] at hc
        exact (congrArg Session.state (Prod.mk.inj (Option.some.inj hc)).1).symm
      · simp [h] at hc
    rw [hs]
    split_ifs
    · exact hnone v rfl _
    · refine ensured_pwd (ensured_client fun s₁ d₁ s₂ output hw₁ hd₁ hs₁ hc₁ => ?_)
      obtain ⟨sh,hsh⟩ := shell?_of_stack (hs₁.trans hst)
      have hhist : v.place.history = stackAt s₁ n := by rw [stackAt,hs₁]; rfl
      rcases captured_push_cases hn hd₁ (show (Session.mk s₁ v.cwd).state.WellFormed from hw₁) hsh
        hv.substituted.plain hc₁ with
        ⟨rfl,hS⟩ | ⟨hno,hS⟩
      · rw [if_pos rfl]
        rw [trimmed_substituted,← hhist] at hS
        obtain ⟨hfalse,htrue⟩ := hcd ⟨v.cwd,actionStacks s₂ n⟩ rfl hS
        exact ensured_cdOrSay (fun there ht _ => htrue there ht) hfalse
      · rw [if_neg hno]
        rw [← hhist] at hS
        exact hnone ⟨v.cwd,actionStacks s₂ n⟩ (congrArg (Place.mk v.cwd) hS) _

/-- `nav back` takes the shell to the top of its history, or has at least taken that off. -/
theorem ensured_back {st : List CStr} (hst : v.stack = some st) (hv : v.place.Sound)
    (hnone : st = [] → ∀ text, Q ⟨none,text⟩ v)
    (hcd : ∀ p ps v', st = p::ps → v'.cwd = v.cwd → v'.place.history = ps →
      (∀ text, Q ⟨some false,text⟩ v') ∧
      ∀ there, Absolute there → (Canonical p → there = p) → Q ⟨some true,[]⟩ ⟨there,v'.stack⟩) :
    Ensured navClient n Q backScript v := by
  refine ensured_client fun s d s' dir hw hd hs hc => ?_
  obtain ⟨sh,hsh⟩ := shell?_of_stack (hs.trans hst)
  have hstack : stackAt s n = st := by rw [stackAt,hs,hst]; rfl
  have hn : n.1 < 2^31 := n.2.trans_lt (by decide)
  rcases captured_pop navClient (d:=d) hn
    (show (Session.mk s v.cwd).state.WellFormed from hw) hsh with ⟨hnil,h⟩ | ⟨p,ps,hp,h⟩
  · rw [hc] at h
    simp only [Option.some.injEq,Prod.mk.injEq,Session.mk.injEq,and_true] at h
    obtain ⟨rfl,rfl⟩ := h
    rw [hd.prints,if_pos (Or.inr rfl),hs]
    exact hnone (hstack.symm.trans hnil) _
  · have hcons : st = p::ps := hstack.symm.trans hp
    obtain ⟨habs,hunbroken⟩ := hv.history p (by simp [Seat.place,hst,hcons])
    split_ifs at h
    · obtain ⟨S,h,hS⟩ := h
      rw [hc] at h
      simp only [Option.some.injEq,Prod.mk.injEq,Session.mk.injEq,and_true] at h
      obtain ⟨rfl,rfl⟩ := h
      rw [hd.prints,substituted_unbroken hunbroken,if_neg (not_or.mpr habs.usable)]
      obtain ⟨hfalse,htrue⟩ := hcd p ps ⟨v.cwd,actionStacks s' n⟩ hcons rfl hS
      exact ensured_cdOrSay htrue hfalse
    · simp [hc] at h

/-- Every script does to the place of its shell what `Visit` allows. -/
theorem ensured_script (job : Job) (v : Seat) (hv : v.place.Sound) :
    Ensured navClient n (fun r v' => Visit v.place job r v'.place) (script job) v := by
  have hn : n.1 < 2^31 := n.2.trans_lt (by decide)
  cases job with
  | nav arg₁ arg₂ arg₃ =>
    have hstay : keyword? arg₁ ≠ some .back → keyword? arg₁ ≠ some .reset → ∀ v' : Seat,
        v'.place = v.place → ∀ text, Visit v.place (.nav arg₁ arg₂ arg₃) ⟨none,text⟩ v'.place :=
      fun hb hr v' he text => he ▸ .stayed hb hr
    refine ensured_register (fun hnone text => ?_) ?_
    · have hnil : v.place.history = [] := by simp [Seat.place,hnone]
      by_cases hb : keyword? arg₁ = some .back
      · exact .nothingBack hb hnil
      · by_cases hr : keyword? arg₁ = some .reset
        · have hsame : v.place = ⟨v.place.cwd,[]⟩ := by rw [← hnil]
          exact hsame ▸ .reset hr
        · exact .stayed hb hr
    · cases hk : keyword? arg₁ with
      | none =>
        refine ensured_tag arg₁ rfl hv.cwd (fun v' => hstay (by simp [hk]) (by simp [hk]) v') ?_
        intro v' hcwd hhist
        have hplace : v'.place = ⟨v.cwd,v.place.left⟩ := by
          rw [← hcwd]
          exact congrArg (Place.mk v'.cwd) hhist
        refine ⟨fun text => hplace ▸ .stranded hk,fun there ht => ?_⟩
        have hthere : (Seat.mk there v'.stack).place = ⟨there,v.place.left⟩ :=
          congrArg (Place.mk there) hhist
        exact hthere ▸ .went hk ht
      | some k =>
        have hquiet : ∀ v' : Seat, v'.place = v.place → k ≠ .back → k ≠ .reset → ∀ text,
            Visit v.place (.nav arg₁ arg₂ arg₃) ⟨none,text⟩ v'.place :=
          fun v' he hb hr => hstay (by simpa [hk] using hb) (by simpa [hk] using hr) v' he
        cases k with
        | add =>
          simp only [addScript]
          split_ifs
          · exact hquiet _ rfl (by simp) (by simp) _
          · exact ensured_aside aside_add (hquiet _ rfl (by simp) (by simp))
        | delete =>
          simp only [deleteScript]
          split_ifs
          · exact hquiet _ rfl (by simp) (by simp) _
          · exact ensured_aside aside_delete (hquiet _ rfl (by simp) (by simp))
        | «show» => exact ensured_aside aside_show (hquiet _ rfl (by simp) (by simp))
        | actions => exact ensured_aside aside_actions (hquiet _ rfl (by simp) (by simp))
        | back =>
          refine ensured_back rfl hv (fun hnil text => .nothingBack hk hnil) ?_
          intro p ps v' hp hcwd hhist
          have hplace : v'.place = ⟨v.cwd,ps⟩ := by
            rw [← hcwd]
            exact congrArg (Place.mk v'.cwd) hhist
          refine ⟨fun text => hplace ▸ .lost hk hp,fun there ht hcan => ?_⟩
          have hthere : (Seat.mk there v'.stack).place = ⟨there,ps⟩ :=
            congrArg (Place.mk there) hhist
          exact hthere ▸ .back hk hp ht hcan
        | reset =>
          refine ensured_client fun s d s' output hw hd hs hc => ?_
          obtain ⟨sh,hsh⟩ := shell?_of_stack hs
          have hplace : (Seat.mk v.cwd (actionStacks s' n)).place = ⟨v.cwd,[]⟩ :=
            congrArg (Place.mk v.cwd) (captured_reset (n:=n) hn hd hw hsh hc)
          show Visit v.place _ _ (Seat.mk v.cwd (actionStacks s' n)).place
          rw [hplace]
          exact .reset hk
  | autocomplete =>
    refine ensured_register (fun _ _ => .completed) ?_
    exact ensured_aside aside_list fun _ => .completed
  | exit =>
    refine ensured_client fun s d s' output hw hd hs hc => ?_
    have hplace : (Seat.mk v.cwd (actionStacks s' n)).place = ⟨v.cwd,[]⟩ :=
      congrArg (Place.mk v.cwd) (captured_unregister (n:=n) hn hd hw hc)
    show Visit v.place _ _ (Seat.mk v.cwd (actionStacks s' n)).place
    rw [hplace]
    exact .exit
  | cd dir => exact ensured_cd (fun there ht hcan => .moved ht hcan) .unmoved

end Scripts

/-- What a shell asks for leaves the other shells where they are. -/
theorem answer_others {navClient : CStr} {n : Pid} {s s' : State} {cwd cwd' : CStr} {request : Ask}
    {met : Meeting} {a : request.Answer} (hw : s.WellFormed)
    (h : (shellService navClient).answer n s cwd request met = some (s',cwd',a)) :
    s'.WellFormed ∧ ∀ j, j ≠ n → ∀ t, seat j s' t = seat j s t := by
  cases request with
  | client argv =>
    obtain ⟨p,hc,he⟩ := Option.map_eq_some_iff.mp h
    obtain ⟨hw',hothers⟩ := client_others n.2 hw hc
    rw [← (Prod.mk.inj he).1]
    refine ⟨hw',fun j hj t => ?_⟩
    have hne : (j : ℤ) ≠ n := fun h => hj (Subtype.ext (Int.ofNat_inj.mp h))
    rw [seat,seat,hothers _ hne]
  | pwd =>
    simp only [shellService,Option.some.injEq,Prod.mk.injEq] at h
    rw [← h.1]
    exact ⟨hw,fun _ _ _ => rfl⟩
  | cd dir =>
    have hs : s' = s := by
      simp only [shellService] at h
      split at h <;> exact (Prod.mk.inj (Option.some.inj h)).1.symm
    rw [hs]
    exact ⟨hw,fun _ _ _ => rfl⟩

lemma ensured_job {navClient : CStr} (n : Pid) (job : Job) (v : Seat) (hv : v.place.Sound) :
    Ensured navClient n (fun r v' => Visit v.place job r v'.place ∧ v'.place.Sound) (script job) v :=
  ensures_mono (fun _ _ h => ⟨h,h.sound hv⟩) (ensured_script job v hv)

/-- Where a shell is, and what `nav back` has before it. -/
def place (n : Pid) (s : State) (cwd : CStr) : Place := ⟨cwd,stackAt s n⟩

/-- What the jobs of a shell have reported, and the place it was at as each of them ended. -/
def visits (n : Pid) (os : List (Option (JobEnd State Pid Job CStr Report))) :
    List ((Job × Report) × Place) := ended place n os

def placeOf (w : Shells) (n : Pid) : Place := place n w.shared (w.processes n).here

/-- `nav` with a tag has changed the directory. -/
def Away (x : Job × Report) : Prop :=
  ∃ arg₁ arg₂ arg₃, keyword? arg₁ = none ∧ x = (.nav arg₁ arg₂ arg₃,⟨some true,[]⟩)

/-- `nav back` has changed the directory. -/
def WentBack (x : Job × Report) : Prop :=
  ∃ arg₁ arg₂ arg₃, keyword? arg₁ = some .back ∧ x = (.nav arg₁ arg₂ arg₃,⟨some true,[]⟩)

/-- The daemon keeps the directory as it is, and `cd` gets back to it. -/
def Place.Kept (v : Place) : Prop := Canonical v.cwd ∧ Unbroken v.cwd

section RoundTrips
variable {v v' : Place} {x : Job × Report} {out back : List ((Job × Report) × Place)}

lemma Away.visit (hx : Away x) (h : Visit v x.1 x.2 v') : v'.history = v.left := by
  obtain ⟨_,_,_,hk,rfl⟩ := hx
  cases h with
  | went => rfl
  | back hk' => simp [hk] at hk'

lemma WentBack.visit (hx : WentBack x) (h : Visit v x.1 x.2 v') :
    ∃ p, v.history = p::v'.history ∧ (Canonical p → v'.cwd = p) := by
  obtain ⟨_,_,_,hk,rfl⟩ := hx
  cases h with
  | went hk' => simp [hk] at hk'
  | back _ hv _ hp => exact ⟨_,hv,hp⟩

/-- Each way out records one directory at most, and all of them do if none is on top already. -/
theorem history_away (h : Trail Visit v out) (hout : ∀ x ∈ out, Away x.1)
    (hkept : ∀ u ∈ starts v out, u.Kept) :
    (last v out).history.length ≤ out.length+v.history.length ∧
    ((last v out).history.length = out.length+v.history.length ↔
      ∀ u ∈ starts v out, u.history.head? ≠ some u.cwd) ∧
    ((∀ u ∈ starts v out, u.history.head? ≠ some u.cwd) →
      (last v out).history = ((starts v out).map Place.cwd).reverse ++ v.history) := by
  induction out generalizing v with
  | nil => simp [last,starts]
  | cons x out ih =>
    have hleft : x.2.history = pushTop v.history v.cwd := by
      rw [(hout x (by simp)).visit h.1,Place.left,trimmed_eq_self _ (hkept v (by simp [starts])).2]
    obtain ⟨hle,heq,hall⟩ := ih h.2 (fun y hy => hout y (by simp [hy]))
      fun u hu => hkept u (by simp [starts,hu])
    have hlast : last v (x::out) = last x.2 out := rfl
    rw [hlast]
    by_cases htop : v.history.head? = some v.cwd
    · rw [pushTop,if_pos htop] at hleft
      rw [hleft] at hle
      have hno : ¬ ∀ u ∈ starts v (x::out), u.history.head? ≠ some u.cwd :=
        fun hu => hu v (by simp [starts]) htop
      refine ⟨by simp only [List.length_cons]; omega,iff_of_false ?_ hno,fun hu => absurd hu hno⟩
      simp only [List.length_cons]
      omega
    · rw [pushTop,if_neg htop] at hleft
      rw [hleft,List.length_cons] at hle heq
      have hiff : (∀ u ∈ starts v (x::out), u.history.head? ≠ some u.cwd) ↔
          ∀ u ∈ starts x.2 out, u.history.head? ≠ some u.cwd := by
        simp [starts,htop]
      rw [hiff,← heq,List.length_cons]
      refine ⟨by omega,by omega,fun hu => ?_⟩
      rw [hall (heq.mp (by omega)),hleft]
      simp [starts]

/-- Each way back takes one directory off, and leads to it. -/
theorem history_back (h : Trail Visit v back) (hback : ∀ x ∈ back, WentBack x.1) :
    ∃ dirs, v.history = dirs ++ (last v back).history ∧ dirs.length = back.length ∧
      ∀ p, dirs.getLast? = some p → Canonical p → (last v back).cwd = p := by
  induction back generalizing v with
  | nil => exact ⟨[],rfl,rfl,by simp⟩
  | cons x back ih =>
    obtain ⟨p,hp,hcan⟩ := (hback x (by simp)).visit h.1
    obtain ⟨dirs,hdirs,hlen,hlast⟩ := ih h.2 fun y hy => hback y (by simp [hy])
    have hcons : last v (x::back) = last x.2 back := rfl
    refine ⟨p::dirs,by rw [hp,hdirs,hcons,List.cons_append],by simp [hlen],fun q hq => ?_⟩
    rw [hcons]
    cases dirs with
    | nil =>
      obtain rfl : back = [] := List.length_eq_zero_iff.mp hlen.symm
      obtain rfl : p = q := by simpa using hq
      exact hcan
    | cons d dirs => exact hlast q (by simpa using hq)

/-- As often back as out takes a shell to where it has been, with the history it had, exactly if it has
left no directory that was on top of its history already. -/
theorem round_trip (h : Trail Visit v (out ++ back)) (hout : ∀ x ∈ out, Away x.1)
    (hback : ∀ x ∈ back, WentBack x.1) (hlen : out.length = back.length)
    (hkept : ∀ u ∈ starts v out, u.Kept) :
    last v (out ++ back) = v ↔ ∀ u ∈ starts v out, u.history.head? ≠ some u.cwd := by
  obtain ⟨ho,hb⟩ := trail_append.mp h
  obtain ⟨hle,heq,hall⟩ := history_away ho hout hkept
  obtain ⟨dirs,hdirs,hdlen,hlast⟩ := history_back hb hback
  rw [last_append]
  constructor
  · intro he
    rw [he] at hdirs
    refine heq.mp ?_
    rw [hdirs,List.length_append,hdlen,hlen]
  · intro hu
    rw [hall hu] at hdirs
    obtain ⟨rfl,hhist⟩ := List.append_inj hdirs (by simp [starts_length,hdlen,hlen])
    cases out with
    | nil =>
      obtain rfl : back = [] := List.length_eq_zero_iff.mp hlen.symm
      rfl
    | cons x out =>
      have hcwd : (last (last v (x::out)) back).cwd = v.cwd :=
        hlast v.cwd (by simp [starts]) (hkept v (by simp [starts])).1
      exact Place.ext hcwd hhist.symm

end RoundTrips
section Runs
variable {navClient cacheDir : CStr} {validPath : CStr → Bool} {malloc : ℕ → Bool}
  {file : Option (List Byte)} {cwds : Pid → CStr} {es : List (Event Pid Job Meeting)} {w : Shells}
  {os : List (Option (JobEnd State Pid Job CStr Report))}
  (hcwds : ∀ n, Absolute (cwds n)) (hes : ∀ e ∈ es, e.Meets Meeting.Fits)
  (h : runShells navClient (startShells (startState cacheDir validPath malloc file) cwds) es =
    .ok (w,os))
include hcwds hes h

/-- Whatever the order in which the shells take their steps, each of them browses as if it were alone:
its jobs take its place from one to the next as `Visit` says. -/
theorem shells_browse (n : Pid) :
    Trail Visit ⟨cwds n,[]⟩ (visits n os) ∧
      ((w.processes n).job = none → placeOf w n = last ⟨cwds n,[]⟩ (visits n os)) := by
  have hat : At (shellService navClient) State.WellFormed Meeting.Fits seat (fun v => v.place.Sound)
      (fun v job r v' => Visit v.place job r v'.place) n ⟨cwds n,none⟩
      (startShells (startState cacheDir validPath malloc file) cwds) :=
    ⟨rfl,hcwds n,by simp [Seat.place]⟩
  obtain ⟨htrail,hlast⟩ := run_trail (fun _ _ _ _ _ _ _ _ hw _ ha => answer_others hw ha) ensured_job
    hes (startState_wellFormed cacheDir validPath malloc file) hat h
  obtain ⟨hmap,hlast'⟩ := trail_map Seat.place htrail
  rw [ended_map] at hmap hlast'
  refine ⟨hmap,fun hidle => ?_⟩
  simp only [At,hidle] at hlast
  refine Eq.trans ?_ hlast'.symm
  rw [← hlast.1]
  rfl

/-- In particular as many ways back as ways out undo each other, whatever the others do meanwhile,
exactly if the shell has left no directory that it had on top of its history. -/
theorem shells_round_trip (n : Pid) (hidle : (w.processes n).job = none)
    {before out back : List ((Job × Report) × Place)} (hvisits : visits n os = before ++ (out ++ back))
    (hout : ∀ x ∈ out, Away x.1) (hback : ∀ x ∈ back, WentBack x.1) (hlen : out.length = back.length)
    (hkept : ∀ u ∈ starts (last ⟨cwds n,[]⟩ before) out, u.Kept) :
    placeOf w n = last ⟨cwds n,[]⟩ before ↔
      ∀ u ∈ starts (last ⟨cwds n,[]⟩ before) out, u.history.head? ≠ some u.cwd := by
  obtain ⟨htrail,hlast⟩ := shells_browse hcwds hes h n
  rw [hvisits] at htrail hlast
  rw [hlast hidle,last_append]
  exact round_trip (trail_append.mp htrail).2 hout hback hlen hkept

end Runs

/-- A system on which nothing fails, and `cd` gets to every path from the root. -/
def openMeeting : Meeting :=
  ⟨promptDelivery,fun dir => if (lit "/").isPrefixOf dir.bytes then some dir else none⟩

lemma openMeeting_fits : openMeeting.Fits := by
  refine ⟨⟨rfl,rfl⟩,fun dir there h => ?_⟩
  simp only [openMeeting] at h
  split_ifs at h with habs
  obtain rfl := Option.some.inj h
  exact ⟨List.isPrefixOf_iff_prefix.mp habs,fun _ => rfl⟩

def shellA : Pid := ⟨1,by decide⟩
def shellB : Pid := ⟨2,by decide⟩

/-- One shell goes to a directory and back, and another ends meanwhile. -/
def outAndBack : List (Event Pid Job Meeting) :=
  [.start shellA (.nav (scriptWord "t") CStr.empty CStr.empty),.start shellB .exit] ++
  [.step shellA openMeeting,.step shellB openMeeting,.step shellA openMeeting,
   .step shellB openMeeting] ++ List.replicate 4 (.step shellA openMeeting) ++
  [.start shellA (.nav (scriptWord "back") CStr.empty CStr.empty)] ++
  List.replicate 4 (.step shellA openMeeting)

lemma absolute_a : Absolute (scriptWord "/a") := by
  unfold Absolute
  decide

lemma outAndBack_meets : ∀ e ∈ outAndBack, e.Meets Meeting.Fits := by
  intro e he
  simp only [outAndBack,List.mem_append,List.mem_cons,List.not_mem_nil,or_false,
    List.mem_replicate] at he
  rcases he with (((( rfl | rfl) | (rfl | rfl | rfl | rfl)) | ⟨_,rfl⟩) | rfl) | ⟨_,rfl⟩
  all_goals first | exact openMeeting_fits | trivial

def browsed : Except Unit (Shells × List (Option (JobEnd State Pid Job CStr Report))) :=
  runShells (scriptWord "client") (startShells (startState (scriptWord "/c") (fun _ => true)
    (fun _ => true) (some (lit "t=/b\n"))) fun _ => scriptWord "/a") outAndBack

def wentOut : (Job × Report) × Place :=
  ((.nav (scriptWord "t") CStr.empty CStr.empty,⟨some true,[]⟩),⟨scriptWord "/b",[scriptWord "/a"]⟩)

def wentBack : (Job × Report) × Place :=
  ((.nav (scriptWord "back") CStr.empty CStr.empty,⟨some true,[]⟩),⟨scriptWord "/a",[]⟩)

lemma browsed_visits : ∃ w os, browsed = .ok (w,os) ∧ (w.processes shellA).job = none ∧
    visits shellA os = [] ++ ([wentOut] ++ [wentBack]) := by
  have hrun : browsed.toOption.map (fun p => decide ((p.1.processes shellA).job.isNone = true ∧
      visits shellA p.2 = [] ++ ([wentOut] ++ [wentBack]))) = some true := by decide +kernel
  cases h : browsed with
  | error e => simp [h,Except.toOption] at hrun
  | ok p =>
    simp only [h,Except.toOption,Option.map_some,Option.some.injEq,decide_eq_true_eq] at hrun
    exact ⟨p.1,p.2,rfl,by simpa using hrun.1,hrun.2⟩

theorem shells_browse_two : ∃ w os, browsed = .ok (w,os) ∧
    visits shellA os = [wentOut,wentBack] ∧ Trail Visit ⟨scriptWord "/a",[]⟩ [wentOut,wentBack] ∧
    placeOf w shellA = last ⟨scriptWord "/a",[]⟩ [wentOut,wentBack] := by
  obtain ⟨w,os,h,hidle,hvisits⟩ := browsed_visits
  refine ⟨w,os,h,hvisits,?_⟩
  unfold browsed at h
  obtain ⟨htrail,hlast⟩ := shells_browse (fun _ => absolute_a) outAndBack_meets h shellA
  rw [hvisits] at htrail hlast
  exact ⟨htrail,hlast hidle⟩

theorem shells_round_trip_one : ∃ w os, browsed = .ok (w,os) ∧
    placeOf w shellA = ⟨scriptWord "/a",[]⟩ := by
  obtain ⟨w,os,h,hidle,hvisits⟩ := browsed_visits
  have hkept : (⟨scriptWord "/a",[]⟩ : Place).Kept :=
    ⟨Or.inr ⟨[lit "a"],by decide,by decide +kernel,by decide +kernel⟩,by decide⟩
  refine ⟨w,os,h,?_⟩
  unfold browsed at h
  refine (shells_round_trip (fun _ => absolute_a) outAndBack_meets h shellA hidle
    hvisits ?_ ?_ rfl ?_).mpr ?_
  · exact List.forall_mem_singleton.mpr ⟨_,_,_,by decide,rfl⟩
  · exact List.forall_mem_singleton.mpr ⟨_,_,_,by decide,rfl⟩
  · simpa [starts,last] using hkept
  · simp [starts,last]

end Nav.Client
