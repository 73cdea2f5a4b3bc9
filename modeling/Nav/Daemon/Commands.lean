import Nav.Daemon.TagFile
import Nav.Lib.Run

/-! The command handlers of `commands.c` and `dispatch_command`. A handler gets the arguments as
the string behind the command word, `none` for a NULL pointer. -/
namespace Nav.Daemon
open Nav.C

/-- `sendto(.., "OK\n", 4, ..)`: the NUL of the literal is sent along. -/
def okNul : List Byte := lit "OK\n" ++ [nul]

/-- `sendto(.., "OK\n", 3, ..)`. -/
def ok : List Byte := lit "OK\n"

/-- `sendto(.., "BAD\n", 4, ..)`. -/
def bad : List Byte := lit "BAD\n"

/-- The argument bytes of a handler that does not tokenise them. -/
def region (args : Option CStr) : List Byte := (args.map CStr.bytes).getD []

/-- A return without a reply. -/
def quiet (s : State) (args : List Byte) : Outcome := ⟨s,[],false,args⟩

/-- One reply to the shell, and the state it leaves. -/
def reply (s : State) (sh : Shell) (payload : List Byte) (args : List Byte) : Outcome :=
  ⟨s,[⟨sh.sunPath,payload⟩],false,args⟩

/-- The start of every handler but `cmd_register`: an unregistered PID is ignored. -/
def withShell (s : State) (pid : ℤ) (args : Option CStr)
    (handler : Shell → Except Fault Outcome) : Except Fault Outcome :=
  match listGetNode compareShellPid s.shells pid with
  | none => .ok (quiet s (region args))
  | some sh => handler sh

/-- The shell that `cmd_register` builds, with an empty action stack. -/
def newShell (cacheDir : CStr) (pid : ℤ) : Shell := ⟨pid,sockPath cacheDir pid,NodeList.empty⟩

def cmdRegister (env : Env) (s : State) (pid : ℤ) (args : Option CStr) : Except Fault Outcome :=
  match listGetNode compareShellPid s.shells pid with
  | some sh => .ok (reply s sh okNul (region args))
  | none =>
    if !env.nodeMalloc then .ok (quiet s (region args))
    else if !env.dataMalloc then .ok (quiet s (region args))
    else
      let sh := newShell s.cacheDir pid
      .ok (reply {s with shells := listAppendNode s.shells sh} sh okNul (region args))

def cmdUnregister (_env : Env) (s : State) (pid : ℤ) (args : Option CStr) : Except Fault Outcome :=
  withShell s pid args fun sh =>
    let d := listDeleteNode compareShellPid s.shells pid
    match d.removed.mapM cleanupShell with
    | .error e => .error e
    | .ok _ =>
      if d.code ≠ 0 then .ok (quiet {s with shells := d.list} (region args))
      else .ok (reply {s with shells := d.list} sh ok (region args))

/-- The tokenising loop of `cmd_add`, which ends at the third call at the latest: tag and path if
there are exactly two tokens, and the argument bytes afterwards. -/
def addArgs (line : CStr) : Option (CStr × CStr) × List Byte :=
  match (Strtok.start line).next isBlank with
  | (none,k) => (none,k.region)
  | (some token₁,k₁) =>
    match k₁.next isBlank with
    | (none,k) => (none,k.region)
    | (some token₂,k₂) =>
      match k₂.next isBlank with
      | (none,k) => (some (trimmed token₁,trimmed token₂),k.region)
      | (some _,k) => (none,k.region)

/-- The one call of `strtok_r` in `cmd_delete` and `cmd_get`. -/
def tagArg (line : CStr) : Option CStr × List Byte :=
  ((((Strtok.start line).next isBlank).1).map trimmed,((Strtok.start line).next isBlank).2.region)

/-- `write_tag_file(&state->tags, state->tagfile_path)`. The callers ignore the return code. -/
def saveTags (env : Env) (s : State) : State :=
  {s with tagFile := (writeTagFile env.fopen s.tags s.tagFile).2}

def cmdAdd (env : Env) (s : State) (pid : ℤ) (args : Option CStr) : Except Fault Outcome :=
  withShell s pid args fun sh =>
    match args with
    | none => .error .nullDeref
    | some line =>
      let rest := (addArgs line).2
      match (addArgs line).1 with
      | none => .ok (reply s sh bad rest)
      | some (tag,path) =>
        if !validPath env path then .ok (reply s sh bad rest)
        else
          match listGetNode compareTagTag s.tags tag with
          | some _ =>
            let tags := updateNode compareTagTag s.tags tag fun t => {t with path}
            .ok (reply (saveTags env {s with tags}) sh ok rest)
          | none =>
            if !env.nodeMalloc then .ok (reply s sh bad rest)
            else if !env.dataMalloc then .ok (reply s sh bad rest)
            else
              let tags := listAppendNode s.tags ⟨tag,path⟩
              .ok (reply (saveTags env {s with tags}) sh ok rest)

def cmdDelete (env : Env) (s : State) (pid : ℤ) (args : Option CStr) : Except Fault Outcome :=
  withShell s pid args fun sh =>
    match args with
    | none => .error .nullDeref
    | some line =>
      let rest := (tagArg line).2
      match (tagArg line).1 with
      | none => .ok (quiet s rest)
      | some tag =>
        match listGetNode compareTagTag s.tags tag with
        | none => .ok (reply s sh bad rest)
        | some _ =>
          let tags := (listDeleteNode compareTagTag s.tags tag).list
          .ok (reply (saveTags env {s with tags}) sh ok rest)

/-- `"%s --> %s\n"`. -/
def showLine (t : Tag) : List Byte := t.tag.bytes ++ lit " --> " ++ t.path.bytes ++ [newline]

def showBuf (tags : NodeList Tag) : OutBuf :=
  (tags.nodes.map showLine).foldl (OutBuf.snprintf 2048) OutBuf.empty

def cmdShow (_env : Env) (s : State) (pid : ℤ) (args : Option CStr) : Except Fault Outcome :=
  withShell s pid args fun sh =>
    .ok {reply s sh (showBuf s.tags).text (region args) with overrun := (showBuf s.tags).overrun}

/-- `"%s "`. -/
def listItem (t : Tag) : List Byte := t.tag.bytes ++ [space]

def listBuf (tags : NodeList Tag) : OutBuf :=
  (tags.nodes.map listItem).foldl (OutBuf.sprintf 256) OutBuf.empty

/-- The whole array is sent; `buf[offset - 1] = 0` has removed the last space. -/
def listReply (tags : NodeList Tag) : List Byte :=
  let text := (listBuf tags).text
  let text := if 0 < (listBuf tags).offset then text.dropLast else text
  (text ++ List.replicate 256 nul).take 256

def cmdList (_env : Env) (s : State) (pid : ℤ) (args : Option CStr) : Except Fault Outcome :=
  withShell s pid args fun sh =>
    .ok {reply s sh (listReply s.tags) (region args) with overrun := (listBuf s.tags).overrun}

/-- `sprintf(buf, "%s\n", path)` on the 100-byte buffer of `cmd_get` and `cmd_pop`. -/
def pathBuf (path : CStr) : OutBuf := OutBuf.empty.sprintf 100 (path.bytes ++ [newline])

def cmdGet (_env : Env) (s : State) (pid : ℤ) (args : Option CStr) : Except Fault Outcome :=
  withShell s pid args fun sh =>
    match args with
    | none => .error .nullDeref
    | some line =>
      let rest := (tagArg line).2
      match (tagArg line).1 with
      | none => .ok (quiet s rest)
      | some tag =>
        match listGetNode compareTagTag s.tags tag with
        | none => .ok (reply s sh bad rest)
        | some t =>
          .ok {reply s sh (pathBuf t.path).text rest with overrun := (pathBuf t.path).overrun}

/-- A write to the action list of the shell found for `pid`. -/
def setActions (s : State) (pid : ℤ) (actions : NodeList Action) : State :=
  {s with shells := updateNode compareShellPid s.shells pid fun sh => {sh with actions}}

def cmdPush (env : Env) (s : State) (pid : ℤ) (args : Option CStr) : Except Fault Outcome :=
  withShell s pid args fun sh =>
    match args with
    | none => .ok (quiet s [])
    | some line =>
      let action := trimmed line
      if !validPath env action then .ok (reply s sh bad line.bytes)
      else if (sh.actions.nodes.head?.map Action.path) = some action then
        .ok (reply s sh okNul line.bytes)
      else if !env.nodeMalloc then .ok (reply s sh bad line.bytes)
      else if !env.dataMalloc then .ok (reply s sh bad line.bytes)
      else
        .ok (reply (setActions s pid (listPrependNode sh.actions ⟨action⟩)) sh okNul line.bytes)

def cmdPop (_env : Env) (s : State) (pid : ℤ) (args : Option CStr) : Except Fault Outcome :=
  withShell s pid args fun sh =>
    match sh.actions.nodes with
    | [] => .ok (reply s sh bad (region args))
    | a::_ =>
      let actions := (listDeleteNode compareActionPath sh.actions a.path).list
      .ok {reply (setActions s pid actions) sh (pathBuf a.path).text (region args) with
        overrun := (pathBuf a.path).overrun}

/-- `"    %d. %s\n"`. -/
def actionLine (i : ℕ) (a : Action) : List Byte :=
  lit "    " ++ decimal i ++ lit ". " ++ a.path.bytes ++ [newline]

def actionsBuf (actions : NodeList Action) : OutBuf :=
  (actions.nodes.mapIdx fun i a => actionLine (i+1) a).foldl (OutBuf.sprintf 1024) OutBuf.empty

def cmdActions (_env : Env) (s : State) (pid : ℤ) (args : Option CStr) : Except Fault Outcome :=
  withShell s pid args fun sh =>
    .ok {reply s sh (actionsBuf sh.actions).text (region args) with
      overrun := (actionsBuf sh.actions).overrun}

def cmdReset (_env : Env) (s : State) (pid : ℤ) (args : Option CStr) : Except Fault Outcome :=
  withShell s pid args fun sh =>
    .ok (reply (setActions s pid (listDeleteAll sh.actions).1) sh okNul (region args))

/-- `enum commands`. -/
inductive Command
  | register | unregister | add | delete | show | get | push | pop | actions | list | reset
  deriving DecidableEq, Repr

/-- `cmd_table`, in its order. -/
def cmdTable : List (List Byte × Command) :=
  [(lit "register",.register),(lit "unregister",.unregister),
   (lit "add",.add),(lit "delete",.delete),
   (lit "show",.show),(lit "get",.get),
   (lit "push",.push),(lit "pop",.pop),
   (lit "actions",.actions),(lit "list",.list),
   (lit "reset",.reset)]

def cmdFunc : Command → Env → State → ℤ → Option CStr → Except Fault Outcome
  | .register => cmdRegister
  | .unregister => cmdUnregister
  | .add => cmdAdd
  | .delete => cmdDelete
  | .show => cmdShow
  | .get => cmdGet
  | .push => cmdPush
  | .pop => cmdPop
  | .actions => cmdActions
  | .list => cmdList
  | .reset => cmdReset

/-- The first entry of the table with `strncmp(cmd_str, cmd_name, strlen(cmd_name)) == 0`. -/
def findCommand (cmdStr : CStr) : Option Command :=
  (cmdTable.find? fun e => e.1.isPrefixOf cmdStr.bytes).map Prod.snd

def dispatchCommand (env : Env) (s : State) (cmdStr : CStr) (pid : ℤ) (args : Option CStr) :
    Except Fault Outcome :=
  match findCommand cmdStr with
  | some cmd => cmdFunc cmd env s pid args
  | none => .ok (quiet s (region args))

/-- One call of `dispatch_command`, with what the system answers meanwhile. -/
structure Call where
  env : Env
  cmdStr : CStr
  pid : ℤ
  args : Option CStr

/-- A system on which nothing fails. -/
def openEnv (validPath : CStr → Bool) : Env := ⟨validPath,true,true,true⟩

/-- Handle one call. The outcome is the output of the step. -/
def handle (s : State) (c : Call) : Except Fault (State × Outcome) :=
  (dispatchCommand c.env s c.cmdStr c.pid c.args).map fun o => (o.state,o)

/-- The daemon handling calls one after the other. -/
abbrev runCalls (s : State) (cs : List Call) : Except Fault (State × List Outcome) :=
  Machine.run handle s cs

/-- The state after start-up: no shells, and the tags that `read_tag_file` loads. -/
def startState (cacheDir : CStr) (validPath : CStr → Bool) (malloc : ℕ → Bool)
    (file : Option (List Byte)) : State :=
  ⟨cacheDir,NodeList.empty,(readTagFile validPath malloc file NodeList.empty).2,file⟩

/-- The states of a daemon between two commands. -/
def Reachable (s : State) : Prop :=
  ∃ cacheDir validPath malloc file cs os,
    runCalls (startState cacheDir validPath malloc file) cs = .ok (s,os)

end Nav.Daemon
