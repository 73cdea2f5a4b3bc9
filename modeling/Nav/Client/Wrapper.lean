import Nav.Client.Requests
import Mathlib.Data.List.DropRight

/-! The bash function `nav` of `nav-bash.sh`, with the client that it runs up to three times. The
daemon is running, and no other client has its socket at the address of these. -/
namespace Nav.Client
open Nav.C Nav.Daemon

/-- What the arguments of the client come to. -/
inductive Invocation
  | version
  | usage
  | command (argv : List CStr)
  deriving DecidableEq

/-- The loop over `getopt(argc, argv, "vd:")`. Words that are no options are passed over, an option
ends the program, and the first `--` is taken out. -/
def getopt (passed : List CStr) : List CStr → Invocation
  | [] => if passed = [] then .usage else .command passed
  | arg::argv =>
    if arg.bytes = lit "--" then
      if passed ++ argv = [] then .usage else .command (passed ++ argv)
    else
      match arg.bytes with
      | c::opt::_ =>
        if c = 45 then if opt = 118 then .version else .usage else getopt (passed ++ [arg]) argv
      | _ => getopt (passed ++ [arg]) argv

/-- `print_usage`. -/
def printUsage (programName : CStr) : CStr :=
  ⟨lit "Usage: " ++ programName.bytes ++ lit " [options] <command> [arguments]\n" ++
    lit "Options:\n" ++
    lit "  -v                Print version.\n" ++
    lit "\n" ++
    lit "Note: A PID must prefix all commands shown below. Use $$ in bash.\n" ++
    lit "\n" ++
    lit "Commands:\n" ++
    lit "  get [tag]         Retrieve the path for the the specified tag.\n" ++
    lit "  add [tag] [path]  Add a new tag-path association.\n" ++
    lit "  delete [tag]      Remove the specified tag.\n" ++
    lit "  show              Show all tag-path associations.\n" ++
    lit "  push              Save an action to the the action stack.\n" ++
    lit "  pop               Get the last action from the action stack.\n" ++
    lit "  actions           List all recorded actions.\n",by
      simp only [List.mem_append,programName.nulFree,or_false]
      decide +kernel⟩

/-- What one request meets at the daemon: the answers of the system, the bytes that earlier datagrams
have left in the buffer behind the request, for a request that leaves no room there what the memory
behind the buffer holds up to a NUL, if one is known, and whether the client has stopped waiting when
the daemon answers. -/
structure Delivery where
  env : Env
  left : CStr
  behind : Option CStr
  late : Bool

/-- What the daemon reads behind a request. -/
def Delivery.rest (d : Delivery) (argv : List CStr) : Option CStr :=
  if (request argv).length ≤ 99 then some d.left else d.behind

/-- The line that the daemon reads: as much of the request as the buffer takes, and what follows. -/
def heardLine (argv : List CStr) (rest : CStr) : CStr :=
  ⟨(request argv).take 100 ++ rest.bytes,by
    simpa using ⟨fun h => request_nulFree argv (List.mem_of_mem_take h),rest.nulFree⟩⟩

/-- `my_addr.sun_path`, for `argv` from the PID on. -/
def myAddr (cacheDir : CStr) (argv : List CStr) : List Byte :=
  (cacheDir.bytes ++ lit "/" ++ ((argv.head?.map CStr.bytes).getD []) ++ lit ".sock").take 107

/-- What the client prints of the first datagram at its address, nothing if there is none in time. -/
def received (addr : List Byte) (sent : List Datagram) : Option CStr :=
  match sent.find? (·.dest = addr) with
  | none => some CStr.empty
  | some datagram => printed (replyBuf datagram.payload)

/-- `setup_socket` and `process_command` against the daemon. Nothing is said of what follows once
the daemon or the client writes past one of its arrays, reads past it without a NUL or follows a NULL
pointer, or the daemon leaves its loop. -/
def processCommand (s : State) (d : Delivery) (argv : List CStr) : Option (State × CStr) :=
  if (requestBuf argv).overrun then none
  else
    match d.rest argv with
    | none => none
    | some rest =>
      match loopLine d.env s true (heardLine argv rest) with
      | .error _ => none
      | .ok r =>
        if r.overrun || !r.running then none
        else if d.late then some (r.state,CStr.empty)
        else (received (myAddr s.cacheDir argv) r.sent).map fun text => (r.state,text)

/-- `main` of the client: the state it leaves the daemon in and its standard output. -/
def client (programName : CStr) (s : State) (d : Delivery) (argv : List CStr) :
    Option (State × CStr) :=
  match getopt [] argv with
  | .version => some (s,CStr.ofLit "nav client version 0\n")
  | .usage => some (s,printUsage programName)
  | .command argv => processCommand s d argv

/-- `$(..)` drops the newlines at the end of an output. -/
def substituted (output : CStr) : CStr :=
  output.part (output.bytes.rdropWhile (· == newline)) (List.rdropWhile_prefix _ _).subset

def okOutput : CStr := CStr.ofLit "OK"
def badOutput : CStr := CStr.ofLit "BAD"

/-- The interactive shell and the daemon. -/
structure Session where
  state : State
  cwd : CStr

/-- What `nav` meets outside: one delivery for each of the three clients it may run, and whether
`cd` gets from one directory to another, and where it ends up. -/
structure Answers where
  register : Delivery
  command : Delivery
  push : Delivery
  cd : CStr → CStr → Option CStr

/-- What a run of `nav` leaves and prints, and how its `cd` ended, if it came to one. -/
structure Ran where
  session : Session
  cd : Option Bool
  said : List Byte

def echo (text : List Byte) : List Byte := text ++ [newline]

def navError (text : List Byte) : List Byte := echo (lit "Error: " ++ text)

def navUsage : List Byte :=
  echo (lit "Usage: nav [command] <arguments>") ++
  echo [] ++
  echo (lit "Commands:") ++
  echo (lit "  [tag]             Navigate to the specified tag.") ++
  echo (lit "  add [tag] [path]  Add a new tag-path association.") ++
  echo (lit "  delete [tag]      Remove the specified tag.") ++
  echo (lit "  show|s            Show all tag-path associations.") ++
  echo (lit "  back|b            Undo the previous action.") ++
  echo (lit "  actions|a         List all recorded actions.") ++
  echo (lit "  reset|ar          Delete all recorded actions.")

section Wrapper
variable (navClient : CStr) (pid : ℕ) (w : Answers)

/-- `$($NAV_CLIENT $$ .. 2> /dev/null)`. -/
def captured (se : Session) (d : Delivery) (argv : List CStr) : Option (Session × CStr) :=
  (client navClient se.state d (pidArg pid::argv)).map fun p => ({se with state := p.1},substituted p.2)

/-- `cd "$dir" || _nav_error "Failed to navigate to $dir"`. -/
def changeDir (se : Session) (dir : CStr) : Ran :=
  match w.cd se.cwd dir with
  | some cwd => ⟨{se with cwd},some true,[]⟩
  | none => ⟨se,some false,navError (lit "Failed to navigate to " ++ dir.bytes)⟩

def navAdd (se : Session) (tag path : CStr) : Option Ran :=
  if tag.bytes = [] ∨ path.bytes = [] then some ⟨se,none,navUsage⟩
  else (captured navClient pid se w.command [CStr.ofLit "add",tag,path]).map fun (se,output) =>
    ⟨se,none,if output = okOutput then
        echo (lit "Added tag '" ++ tag.bytes ++ lit "' with path '" ++ path.bytes ++ lit "'")
      else navError (lit "Failed to add tag '" ++ tag.bytes ++ lit "'")⟩

def navDelete (se : Session) (tag : CStr) : Option Ran :=
  if tag.bytes = [] then some ⟨se,none,navUsage⟩
  else (captured navClient pid se w.command [CStr.ofLit "delete",tag]).map fun (se,output) =>
    ⟨se,none,if output = okOutput then echo (lit "Deleted tag '" ++ tag.bytes ++ lit "'")
      else navError (lit "Failed to delete tag '" ++ tag.bytes ++ lit "'")⟩

def navShow (se : Session) : Option Ran :=
  (captured navClient pid se w.command [CStr.ofLit "show"]).map fun (se,output) =>
    ⟨se,none,if output = badOutput then [] else echo output.bytes⟩

def navActions (se : Session) : Option Ran :=
  (captured navClient pid se w.command [CStr.ofLit "actions"]).map fun (se,output) =>
    ⟨se,none,if output = badOutput ∨ output.bytes = [] then
      echo (lit "No previous actions found") else echo output.bytes⟩

def navBack (se : Session) : Option Ran :=
  (captured navClient pid se w.command [popArg]).map fun (se,dir) =>
    if dir.bytes = [] ∨ dir = badOutput then
      ⟨se,none,echo (lit "No previous actions found")⟩
    else changeDir w se dir

def navReset (se : Session) : Option Ran :=
  (captured navClient pid se w.command [CStr.ofLit "reset"]).map fun (se,output) =>
    ⟨se,none,if output = okOutput then echo (lit "Action stack cleared") else []⟩

/-- The current directory is pushed before `cd` is tried. -/
def navTag (se : Session) (tag : CStr) : Option Ran :=
  if tag.bytes = [] then some ⟨se,none,navUsage⟩
  else
    match captured navClient pid se w.command [getArg,tag] with
    | none => none
    | some (se,dir) =>
      if dir = badOutput ∨ dir.bytes = [] then
        some ⟨se,none,echo (lit "Tag '" ++ tag.bytes ++ lit "' not found.")⟩
      else
        (captured navClient pid se w.push [pushArg,substituted se.cwd]).map
          fun (se,output) =>
            if output = okOutput then changeDir w se dir
            else ⟨se,none,navError (lit "Failed to push current directory to action stack")⟩

inductive Keyword
  | add | delete | show | actions | back | reset
  deriving DecidableEq

/-- The patterns of the `case`. -/
def keywords : List (List Byte × Keyword) :=
  [(lit "add",.add),(lit "delete",.delete),(lit "show",.show),(lit "s",.show),
   (lit "actions",.actions),(lit "a",.actions),(lit "back",.back),(lit "b",.back),
   (lit "reset",.reset),(lit "ar",.reset)]

def keyword? (arg : CStr) : Option Keyword := (keywords.find? (·.1 = arg.bytes)).map Prod.snd

/-- `nav`, with its arguments `$1`, `$2` and `$3`; a missing one reads as empty. -/
def nav (se : Session) (arg₁ arg₂ arg₃ : CStr) : Option Ran :=
  match captured navClient pid se w.register [registerArg] with
  | none => none
  | some (se,connected) =>
    if connected.bytes = [] then
      some ⟨se,none,navError (lit "Unable to reach daemon. Is it running?")⟩
    else
      match keyword? arg₁ with
      | some .add => navAdd navClient pid w se arg₂ arg₃
      | some .delete => navDelete navClient pid w se arg₂
      | some .show => navShow navClient pid w se
      | some .actions => navActions navClient pid w se
      | some .back => navBack navClient pid w se
      | some .reset => navReset navClient pid w se
      | none => navTag navClient pid w se arg₁

end Wrapper
end Nav.Client
