import Nav.Client.Navigation
import Nav.Lib.Script

/-! Any number of interactive shells at one daemon. `nav` is a script here, which asks for one thing
after the other, and between any two of them the other shells may run theirs. -/
namespace Nav.Client
open Nav.C Nav.Daemon Nav.Lib Nav.Lib.Script

/-- A process id; the system gives none above 2^22. -/
abbrev Pid := {n : ℕ // n ≤ 2^22}

/-- A word of a script. -/
def scriptWord (s : String) (h : (lit s).contains nul = false := by decide) : CStr :=
  ⟨lit s,by simpa using h⟩

def addArg : CStr := scriptWord "add"
def deleteArg : CStr := scriptWord "delete"
def showArg : CStr := scriptWord "show"
def listArg : CStr := scriptWord "list"
def actionsArg : CStr := scriptWord "actions"
def resetArg : CStr := scriptWord "reset"
def unregisterArg : CStr := scriptWord "unregister"

/-- What a shell asks for outside its own process, and for its directory. -/
inductive Ask
  | client (argv : List CStr)
  | pwd
  | cd (dir : CStr)

/-- The output of `$(..)`, and whether `cd` succeeds. -/
abbrev Ask.Answer : Ask → Type
  | .client _ => CStr
  | .pwd => CStr
  | .cd _ => Bool

/-- What meets a request: the delivery of a client, and where `cd` ends up. -/
structure Meeting where
  delivery : Delivery
  cd : CStr → Option CStr

/-- A client runs from its request to its answer with no other in between. -/
def shellService (navClient : CStr) : Service State Pid CStr Meeting Ask Ask.Answer where
  answer n s cwd request met :=
    match request with
    | .client argv => (client navClient s met.delivery (pidArg n::argv)).map fun p =>
        (p.1,cwd,substituted p.2)
    | .pwd => some (s,cwd,substituted cwd)
    | .cd dir =>
      match met.cd dir with
      | some there => some (s,there,true)
      | none => some (s,cwd,false)

/-- How the `cd` of a job ended, if it came to one, and what the job printed. -/
structure Report where
  cd : Option Bool
  said : List Byte
  deriving DecidableEq

abbrev ShellScript := Prog Ask Ask.Answer Report

def say (text : List Byte) : ShellScript := .done ⟨none,text⟩

def cdOrSay (dir : CStr) : ShellScript :=
  .ask (.cd dir) fun moved =>
    .done ⟨some moved,if moved then [] else navError (lit "Failed to navigate to " ++ dir.bytes)⟩

/-- `_register_client || return 1`, and what follows. -/
def registerClient (go : ShellScript) : ShellScript :=
  .ask (.client [registerArg]) fun connected =>
    if connected.bytes = [] then say (navError (lit "Unable to reach daemon. Is it running?")) else go

def addScript (tag path : CStr) : ShellScript :=
  if tag.bytes = [] ∨ path.bytes = [] then say navUsage
  else .ask (.client [addArg,tag,path]) fun output =>
    say (if output = okOutput then
        echo (lit "Added tag '" ++ tag.bytes ++ lit "' with path '" ++ path.bytes ++ lit "'")
      else navError (lit "Failed to add tag '" ++ tag.bytes ++ lit "'"))

def deleteScript (tag : CStr) : ShellScript :=
  if tag.bytes = [] then say navUsage
  else .ask (.client [deleteArg,tag]) fun output =>
    say (if output = okOutput then echo (lit "Deleted tag '" ++ tag.bytes ++ lit "'")
      else navError (lit "Failed to delete tag '" ++ tag.bytes ++ lit "'"))

def showScript : ShellScript :=
  .ask (.client [showArg]) fun output =>
    say (if output = badOutput then [] else echo output.bytes)

def actionsScript : ShellScript :=
  .ask (.client [actionsArg]) fun output =>
    say (if output = badOutput ∨ output.bytes = [] then
      echo (lit "No previous actions found") else echo output.bytes)

def backScript : ShellScript :=
  .ask (.client [popArg]) fun dir =>
    if dir.bytes = [] ∨ dir = badOutput then say (echo (lit "No previous actions found"))
    else cdOrSay dir

def resetScript : ShellScript :=
  .ask (.client [resetArg]) fun output =>
    say (if output = okOutput then echo (lit "Action stack cleared") else [])

/-- The directory that is pushed is asked for by `$(pwd)` once the tag has been found. -/
def tagScript (tag : CStr) : ShellScript :=
  if tag.bytes = [] then say navUsage
  else .ask (.client [getArg,tag]) fun dir =>
    if dir = badOutput ∨ dir.bytes = [] then
      say (echo (lit "Tag '" ++ tag.bytes ++ lit "' not found."))
    else .ask .pwd fun cwd => .ask (.client [pushArg,cwd]) fun output =>
      if output = okOutput then cdOrSay dir
      else say (navError (lit "Failed to push current directory to action stack"))

def navScript (arg₁ arg₂ arg₃ : CStr) : ShellScript :=
  registerClient (match keyword? arg₁ with
    | some .add => addScript arg₂ arg₃
    | some .delete => deleteScript arg₂
    | some .show => showScript
    | some .actions => actionsScript
    | some .back => backScript
    | some .reset => resetScript
    | none => tagScript arg₁)

/-- What a shell runs: `nav`, the requests of `_nav_autocomplete`, the trap at its end, and a `cd` of
its user. As a shell is its PID and its directory, the next one with this PID begins as by a `cd`. -/
inductive Job
  | nav (arg₁ arg₂ arg₃ : CStr)
  | autocomplete
  | exit
  | cd (dir : CStr)
  deriving DecidableEq

def script : Job → ShellScript
  | .nav arg₁ arg₂ arg₃ => navScript arg₁ arg₂ arg₃
  | .autocomplete => registerClient (.ask (.client [listArg]) fun _ => say [])
  | .exit => .ask (.client [unregisterArg]) fun _ => say []
  | .cd dir => .ask (.cd dir) fun moved => .done ⟨some moved,[]⟩

abbrev Shells := System State Pid Job CStr Report Ask Ask.Answer

/-- The shells at a daemon that has just come up, each in its directory. -/
def startShells (s : State) (cwds : Pid → CStr) : Shells := ⟨s,fun n => ⟨cwds n,none⟩⟩

abbrev runShells (navClient : CStr) (s : Shells) (es : List (Event Pid Job Meeting)) :=
  runSystem (shellService navClient) script s es

section Alone
variable (navClient : CStr) (n : Pid) (w : Answers) (se : Session)

/-- The clients of a run of `nav` by what they ask. -/
def Answers.meeting : Ask → Meeting
  | .client argv =>
    ⟨if argv = [registerArg] then w.register
      else if argv.head? = some pushArg then w.push else w.command,w.cd se.cwd⟩
  | _ => ⟨w.command,w.cd se.cwd⟩

/-- A script without others, as the wrapper has it. -/
def alone (prog : ShellScript) (se' : Session) : Option (State × CStr × Report) :=
  exec (shellService navClient) n (w.meeting se) prog se'.state se'.cwd

def Ran.left (r : Ran) : State × CStr × Report := (r.session.state,r.session.cwd,⟨r.cd,r.said⟩)

variable {navClient n w se} {se' : Session}

lemma alone_client {argv : List CStr} {f : CStr → ShellScript} :
    alone navClient n w se (.ask (.client argv) f) se' =
      (captured navClient n se' (w.meeting se (.client argv)).delivery argv).bind
        fun p => alone navClient n w se (f p.2) p.1 := by
  simp only [alone,exec,shellService,captured,Option.bind_map]
  rfl

lemma alone_pwd {f : CStr → ShellScript} :
    alone navClient n w se (.ask .pwd f) se' = alone navClient n w se (f (substituted se'.cwd)) se' := rfl

lemma alone_cdOrSay {dir : CStr} (h : se'.cwd = se.cwd) :
    alone navClient n w se (cdOrSay dir) se' = some (changeDir w se' dir).left := by
  simp only [alone,cdOrSay,exec,shellService,Answers.meeting,changeDir,h]
  cases w.cd se.cwd dir with
  | some there => rfl
  | none => simp [Ran.left,h]

lemma captured_cwd {d : Delivery} {argv : List CStr} {output : CStr} {se₁ : Session}
    (h : captured navClient n se' d argv = some (se₁,output)) : se₁.cwd = se'.cwd := by
  obtain ⟨p,_,he⟩ := Option.map_eq_some_iff.mp h
  rw [← (Prod.mk.inj he).1]

lemma alone_said {argv : List CStr} {text : CStr → List Byte}
    (hd : (w.meeting se (.client argv)).delivery = w.command) :
    alone navClient n w se (.ask (.client argv) fun output => say (text output)) se' =
      ((captured navClient n se' w.command argv).map fun p =>
        (⟨p.1,none,text p.2⟩ : Ran)).map Ran.left := by
  rw [alone_client,hd]
  cases captured navClient n se' w.command argv <;> rfl

lemma alone_add (tag path : CStr) : alone navClient n w se (addScript tag path) se' =
    (navAdd navClient n w se' tag path).map Ran.left := by
  unfold addScript navAdd
  split_ifs
  · rfl
  · exact alone_said rfl

lemma alone_delete (tag : CStr) : alone navClient n w se (deleteScript tag) se' =
    (navDelete navClient n w se' tag).map Ran.left := by
  unfold deleteScript navDelete
  split_ifs
  · rfl
  · exact alone_said rfl

lemma alone_show : alone navClient n w se showScript se' =
    (navShow navClient n w se').map Ran.left := alone_said rfl

lemma alone_actions : alone navClient n w se actionsScript se' =
    (navActions navClient n w se').map Ran.left := alone_said rfl

lemma alone_reset : alone navClient n w se resetScript se' =
    (navReset navClient n w se').map Ran.left := alone_said rfl

lemma alone_back (h : se'.cwd = se.cwd) : alone navClient n w se backScript se' =
    (navBack navClient n w se').map Ran.left := by
  refine alone_client.trans ?_
  have hd : (w.meeting se (.client [popArg])).delivery = w.command := rfl
  rw [hd,navBack]
  cases hc : captured navClient n se' w.command [popArg] with
  | none => rfl
  | some p =>
    obtain ⟨se₁,dir⟩ := p
    simp only [Option.bind_some,Option.map_some]
    split_ifs
    · rfl
    · exact alone_cdOrSay ((captured_cwd hc).trans h)

lemma alone_tag (h : se'.cwd = se.cwd) (tag : CStr) : alone navClient n w se (tagScript tag) se' =
    (navTag navClient n w se' tag).map Ran.left := by
  unfold tagScript navTag
  split_ifs
  · rfl
  · refine alone_client.trans ?_
    have hd : (w.meeting se (.client [getArg,tag])).delivery = w.command := rfl
    rw [hd]
    cases hc : captured navClient n se' w.command [getArg,tag] with
    | none => rfl
    | some p =>
      obtain ⟨se₁,dir⟩ := p
      have hcwd := (captured_cwd hc).trans h
      simp only [Option.bind_some]
      split_ifs
      · rfl
      · refine alone_pwd.trans (alone_client.trans ?_)
        have hd' : (w.meeting se (.client [pushArg,substituted se₁.cwd])).delivery = w.push := rfl
        rw [hd']
        cases hp : captured navClient n se₁ w.push [pushArg,substituted se₁.cwd] with
        | none => rfl
        | some q =>
          obtain ⟨se₂,output⟩ := q
          simp only [Option.bind_some,Option.map_some]
          split_ifs
          · exact alone_cdOrSay ((captured_cwd hp).trans hcwd)
          · rfl

/-- A shell that no other gets in the way of runs `nav` as the wrapper alone with the daemon. -/
theorem nav_alone {arg₁ arg₂ arg₃ : CStr} :
    alone navClient n w se (navScript arg₁ arg₂ arg₃) se =
      (nav navClient n w se arg₁ arg₂ arg₃).map Ran.left := by
  refine alone_client.trans ?_
  have hd : (w.meeting se (.client [registerArg])).delivery = w.register := rfl
  rw [hd,nav]
  cases hc : captured navClient n se w.register [registerArg] with
  | none => rfl
  | some p =>
    obtain ⟨se₁,connected⟩ := p
    have hcwd := captured_cwd hc
    simp only [Option.bind_some]
    split_ifs
    · rfl
    · cases keyword? arg₁ with
      | none => exact alone_tag hcwd arg₁
      | some k =>
        cases k with
        | add => exact alone_add arg₂ arg₃
        | delete => exact alone_delete arg₂
        | «show» => exact alone_show
        | actions => exact alone_actions
        | back => exact alone_back hcwd
        | reset => exact alone_reset

/-- Every run of the wrapper is one of the runs of the shells. -/
theorem nav_run {arg₁ arg₂ arg₃ : CStr} {s : Shells} {ran : Ran}
    (hjob : (s.processes n).job = none)
    (h : nav navClient n w ⟨s.shared,(s.processes n).here⟩ arg₁ arg₂ arg₃ = some ran) :
    ∃ es os, (∀ e ∈ es, ∃ request, e = .step n (w.meeting ⟨s.shared,(s.processes n).here⟩ request)) ∧
      runShells navClient s (.start n (.nav arg₁ arg₂ arg₃)::es) =
        .ok ({s with shared := ran.session.state}.put n ⟨ran.session.cwd,none⟩,none::os) ∧
      os.reduceOption =
        [⟨n,.nav arg₁ arg₂ arg₃,⟨ran.cd,ran.said⟩,ran.session.state,ran.session.cwd⟩] := by
  let se : Session := ⟨s.shared,(s.processes n).here⟩
  let busy := s.put n ⟨se.cwd,some (.nav arg₁ arg₂ arg₃,navScript arg₁ arg₂ arg₃)⟩
  have hself : busy.processes n = ⟨se.cwd,some (.nav arg₁ arg₂ arg₃,navScript arg₁ arg₂ arg₃)⟩ := by
    simp [busy,System.put]
  have hstart : s.next (shellService navClient) script (.start n (.nav arg₁ arg₂ arg₃)) =
      .ok (busy,none) := by
    simp only [System.next,hjob]
    rfl
  have hexec : exec (shellService navClient) n (w.meeting se) (navScript arg₁ arg₂ arg₃)
      busy.shared (busy.processes n).here = some ran.left := by
    rw [hself]
    exact nav_alone.trans (by rw [h]; rfl)
  have hmet : ∀ request, w.meeting se request ∈ Set.range (w.meeting se) := Set.mem_range_self
  have hidle : ∃ met, met ∈ Set.range (w.meeting se) := ⟨_,hmet .pwd⟩
  obtain ⟨es,os,hes,hrun,hout⟩ := exec_run hidle hmet (congrArg Process.job hself) hexec
  refine ⟨es,os,fun e he => ?_,(Machine.run_cons _).mpr ⟨_,_,_,hstart,?_,rfl⟩,hout⟩
  · obtain ⟨_,rfl,request,rfl⟩ := hes e he
    exact ⟨request,rfl⟩
  · simpa [busy,System.put] using hrun

end Alone
end Nav.Client
