import Nav.Daemon.Memory
import Nav.Lib.Blocks

/-! The daemon down to what it gets from `malloc` and `strndup`: the nodes of the lists, the structs
that hang on them and their strings, every one a block of its own. A step takes a block, writes to one
or frees one; `strndup` gets its memory. -/
namespace Nav.Daemon
open Nav.C Nav.Lib

/-- A block in use. -/
inductive Block
  | state (cacheDir : CStr) (shells tags : LinkedList)
  | node (data next : Option ℕ)
  | shell (s : ShellNode)
  | action (path : ℕ)
  | tag (tag path : ℕ)
  | str (s : CStr)

/-- What a call sends, and what it writes to the tag file. -/
structure Effect where
  sent : List Datagram
  saved : Option (List Byte)
  deriving DecidableEq, Repr

namespace Alloc

def readNode (a : ℕ) : Code Block (Option ℕ × Option ℕ) := do
  match ← Code.read a with
  | .node data next => pure (data,next)
  | _ => Code.fail .dangling

def readShell (a : ℕ) : Code Block ShellNode := do
  match ← Code.read a with
  | .shell s => pure s
  | _ => Code.fail .dangling

def readAction (a : ℕ) : Code Block ℕ := do
  match ← Code.read a with
  | .action path => pure path
  | _ => Code.fail .dangling

def readTag (a : ℕ) : Code Block (ℕ × ℕ) := do
  match ← Code.read a with
  | .tag tag path => pure (tag,path)
  | _ => Code.fail .dangling

def readStr (a : ℕ) : Code Block CStr := do
  match ← Code.read a with
  | .str s => pure s
  | _ => Code.fail .dangling

/-- Where a `struct list` lies. -/
inductive ListAt
  | shells (state : ℕ)
  | tags (state : ℕ)
  | actions (shell : ℕ)

def ListAt.addr : ListAt → ℕ
  | .shells state | .tags state => state
  | .actions shell => shell

/-- The list in its block. -/
def listIn : ListAt → Block → Option LinkedList
  | .shells _, .state _ shells _ => some shells
  | .tags _, .state _ _ tags => some tags
  | .actions _, .shell s => some s.actions
  | _, _ => none

def withList : ListAt → Block → LinkedList → Block
  | .shells _, .state cacheDir _ tags, l => .state cacheDir l tags
  | .tags _, .state cacheDir shells _, l => .state cacheDir shells l
  | .actions _, .shell s, l => .shell {s with actions := l}
  | _, b, _ => b

def readList (l : ListAt) : Code Block LinkedList := do
  match listIn l (← Code.read l.addr) with
  | some list => pure list
  | none => Code.fail .dangling

def writeList (l : ListAt) (f : LinkedList → LinkedList) : Code Block Unit := do
  let b ← Code.read l.addr
  match listIn l b with
  | some list => Code.write l.addr (withList l b (f list))
  | none => Code.fail .dangling

def setHead (l : ListAt) (head : Option ℕ) : Code Block Unit := writeList l fun list => {list with head}

def addItems (l : ListAt) (n : ℤ) : Code Block Unit :=
  writeList l fun list => {list with nItems := list.nItems+n}

/-! `list.c`. -/

def listNodeCreate (malloc : Bool) : Code Block (Option ℕ) :=
  if malloc then do return some (← Code.malloc (.node none none)) else pure none

/-- The loop of `list_append_node` over `curr`. -/
def appendLoop (l : ListAt) (n : ℕ) : ℕ → Option ℕ → Code Block Unit
  | 0, _ => Code.fail .endless
  | _+1, none => pure ()
  | fuel+1, some curr => do
    let (data,next) ← readNode curr
    match next with
    | none =>
      Code.write curr (.node data (some n))
      addItems l 1
    | some next => appendLoop l n fuel (some next)

def listAppendNode (l : ListAt) (n : ℕ) : Code Block Unit := do
  match (← readList l).head with
  | none =>
    setHead l (some n)
    addItems l 1
  | some head => Code.sized fun fuel => appendLoop l n fuel (some head)

def listPrependNode (l : ListAt) (n : ℕ) : Code Block Unit := do
  match (← readList l).head with
  | none =>
    setHead l (some n)
    addItems l 1
  | some head =>
    let (data,_) ← readNode n
    Code.write n (.node data (some head))
    setHead l (some n)
    addItems l 1

section Callbacks
variable (compareFunc : Option ℕ → Code Block Bool) (cleanupFunc : Option ℕ → Code Block Unit)
  (l : ListAt)

/-- `if (prev) prev->next = next`. -/
def relink (prev next : Option ℕ) : Code Block Unit :=
  match prev with
  | none => pure ()
  | some prev => do
    let (data,_) ← readNode prev
    Code.write prev (.node data next)

/-- The loop of `list_delete_node` over `curr`, with `prev` behind it. -/
def deleteLoop : ℕ → Option ℕ → Option ℕ → Code Block Unit
  | 0, _, _ => Code.fail .endless
  | _+1, _, none => pure ()
  | fuel+1, prev, some curr => do
    let (data,next) ← readNode curr
    if ← compareFunc data then
      relink prev next
      cleanupFunc data
      Code.free curr
      addItems l (-1)
    else deleteLoop fuel (some curr) next

/-- The first item is cleaned up before the head moves on. -/
def listDeleteNode : Code Block ℕ := do
  match (← readList l).head with
  | none => pure 1
  | some head =>
    let (data,_) ← readNode head
    if ← compareFunc data then
      cleanupFunc data
      let (_,next) ← readNode head
      setHead l next
      Code.free head
      addItems l (-1)
      pure 0
    else
      Code.sized fun fuel => deleteLoop compareFunc cleanupFunc l fuel none (some head)
      pure 0

/-- One round of the loop of `list_delete_all`, to the next `curr`. -/
def deleteAllRound (curr : ℕ) : Code Block (Option ℕ) := do
  let (data,next) ← readNode curr
  setHead l next
  cleanupFunc data
  Code.free curr
  addItems l (-1)
  return (← readList l).head

def deleteAllLoop : ℕ → Option ℕ → Code Block Unit
  | 0, _ => Code.fail .endless
  | _+1, none => pure ()
  | fuel+1, some curr => do deleteAllLoop fuel (← deleteAllRound cleanupFunc l curr)

def listDeleteAll : Code Block Unit := do
  match (← readList l).head with
  | none => pure ()
  | some head => Code.sized fun fuel => deleteAllLoop cleanupFunc l fuel (some head)

/-- The loop of `list_get_node`. -/
def getLoop : ℕ → Option ℕ → Code Block (Option ℕ)
  | 0, _ => Code.fail .endless
  | _+1, none => pure none
  | fuel+1, some curr => do
    let (data,next) ← readNode curr
    if ← compareFunc data then pure (some curr) else getLoop fuel next

def listGetNode : Code Block (Option ℕ) := do
  match (← readList l).head with
  | none => pure none
  | some head =>
    let (data,_) ← readNode head
    if ← compareFunc data then pure (some head)
    else Code.sized fun fuel => getLoop compareFunc fuel (some head)

end Callbacks

/-! `shell.c` and `tag.c`. The keys of strings are pointers. -/

def compareShellPid (key : ℤ) (data : Option ℕ) : Code Block Bool := do
  let s ← readShell (← Code.deref data)
  pure (s.pid = key)

def compareActionPath (key : ℕ) (data : Option ℕ) : Code Block Bool := do
  let path ← readAction (← Code.deref data)
  let s ← readStr path
  pure (s = (← readStr key))

def compareTagTag (key : ℕ) (data : Option ℕ) : Code Block Bool := do
  let t ← readTag (← Code.deref data)
  let s ← readStr t.1
  pure (s = (← readStr key))

def cleanupAction (data : Option ℕ) : Code Block Unit := do
  let a ← Code.deref data
  Code.free (← readAction a)
  Code.free a

/-- `struct tag` itself is not freed. -/
def cleanupTag (data : Option ℕ) : Code Block Unit := do
  let t ← readTag (← Code.deref data)
  Code.free t.1
  Code.free t.2

/-- One round of the loop of `cleanup_shell`, with the head that it has read. -/
def cleanupRound (shell : ℕ) (head : Option ℕ) : Code Block Unit := do
  let (data,_) ← readNode (← Code.deref head)
  let path ← readAction (← Code.deref data)
  let _ ← listDeleteNode (compareActionPath path) cleanupAction (.actions shell)

def cleanupLoop (shell : ℕ) : ℕ → Code Block Unit
  | 0 => Code.fail .endless
  | fuel+1 => do
    let s ← readShell shell
    if 0 < s.actions.nItems then
      cleanupRound shell s.actions.head
      cleanupLoop shell fuel
    else pure ()

def cleanupShell (data : Option ℕ) : Code Block Unit := do
  let shell ← Code.deref data
  Code.sized (cleanupLoop shell)
  Code.free shell

/-- The loops over the tags. -/
def tagsLoop : ℕ → Option ℕ → Code Block (List Tag)
  | 0, _ => Code.fail .endless
  | _+1, none => pure []
  | fuel+1, some curr => do
    let (data,next) ← readNode curr
    let t ← readTag (← Code.deref data)
    let tag ← readStr t.1
    let path ← readStr t.2
    return ⟨tag,path⟩::(← tagsLoop fuel next)

/-- The tags from the head on. -/
def readTags (state : ℕ) : Code Block (NodeList Tag) := do
  let list ← readList (.tags state)
  return ⟨← Code.sized fun fuel => tagsLoop fuel list.head,list.nItems⟩

/-- What `write_tag_file` writes. -/
def writeTagFile (fopen : Bool) (state : ℕ) : Code Block (Option (List Byte)) :=
  if fopen then do return some (tagFileText (← readTags state)) else pure none

/-! `commands.c`. -/

/-- `sendto` the address of a shell. -/
def sendTo (shell : ℕ) (payload : List Byte) : Code Block (List Datagram) := do
  return [⟨(← readShell shell).sunPath,payload⟩]

def reply (shell : ℕ) (payload : List Byte) : Code Block Effect := do
  return ⟨← sendTo shell payload,none⟩

def dataOf (node : ℕ) : Code Block ℕ := do
  let (data,_) ← readNode node
  Code.deref data

/-- The start of every handler but `cmd_register`. -/
def withShell (state : ℕ) (pid : ℤ) (handler : ℕ → Code Block Effect) : Code Block Effect := do
  match ← listGetNode (compareShellPid pid) (.shells state) with
  | none => pure ⟨[],none⟩
  | some node => handler (← dataOf node)

section Handlers
variable (env : Env) (state : ℕ) (pid : ℤ) (args : Option CStr)

def cmdRegister : Code Block Effect := do
  match ← listGetNode (compareShellPid pid) (.shells state) with
  | some node => reply (← dataOf node) okNul
  | none =>
    match ← listNodeCreate env.nodeMalloc with
    | none => pure ⟨[],none⟩
    | some node =>
      if !env.dataMalloc then pure ⟨[],none⟩
      else
        match ← Code.read state with
        | .state cacheDir _ _ =>
          let shell ← Code.malloc (.shell ⟨pid,sockPath cacheDir pid,LinkedList.empty⟩)
          Code.write node (.node (some shell) none)
          listAppendNode (.shells state) node
          reply shell okNul
        | _ => Code.fail .dangling

/-- The address is copied before the shell is deleted. -/
def cmdUnregister : Code Block Effect :=
  withShell state pid fun shell => do
    let s ← readShell shell
    if (← listDeleteNode (compareShellPid pid) cleanupShell (.shells state)) ≠ 0 then pure ⟨[],none⟩
    else pure ⟨[⟨s.sunPath,ok⟩],none⟩

/-- From `end:` on. -/
def added (shell : ℕ) : Code Block Effect := do
  let saved ← writeTagFile env.fopen state
  return ⟨← sendTo shell ok,saved⟩

/-- `tag` and `path` are strings that have just been copied. -/
def addTag (shell tag path : ℕ) : Code Block Effect := do
  match ← listGetNode (compareTagTag tag) (.tags state) with
  | some node =>
    let data ← dataOf node
    Code.free (← readTag data).2
    Code.write data (.tag (← readTag data).1 path)
    added env state shell
  | none =>
    match ← listNodeCreate env.nodeMalloc with
    | none =>
      Code.free tag
      Code.free path
      reply shell bad
    | some node =>
      if !env.dataMalloc then
        Code.free tag
        Code.free path
        reply shell bad
      else
        let data ← Code.malloc (.tag tag path)
        Code.write node (.node (some data) none)
        listAppendNode (.tags state) node
        added env state shell

def cmdAdd : Code Block Effect :=
  withShell state pid fun shell =>
    match args with
    | none => Code.fail .dangling
    | some line =>
      match (Strtok.start line).next isBlank with
      | (none,_) => reply shell bad
      | (some token₁,k₁) => do
        let tag ← Code.malloc (.str (trimmed token₁))
        match k₁.next isBlank with
        | (none,_) =>
          Code.free tag
          reply shell bad
        | (some token₂,k₂) =>
          let path ← Code.malloc (.str (trimmed token₂))
          if (k₂.next isBlank).1.isSome || !validPath env (trimmed token₂) then
            Code.free tag
            Code.free path
            reply shell bad
          else addTag env state shell tag path

def cmdDelete : Code Block Effect :=
  withShell state pid fun shell =>
    match args with
    | none => Code.fail .dangling
    | some line =>
      match (tagArg line).1 with
      | none => pure ⟨[],none⟩
      | some token => do
        let tag ← Code.malloc (.str token)
        match ← listGetNode (compareTagTag tag) (.tags state) with
        | none =>
          let effect ← reply shell bad
          Code.free tag
          pure effect
        | some _ =>
          let _ ← listDeleteNode (compareTagTag tag) cleanupTag (.tags state)
          let effect ← added env state shell
          Code.free tag
          pure effect

def cmdShow : Code Block Effect :=
  withShell state pid fun shell => do reply shell (showBuf (← readTags state)).text

def cmdList : Code Block Effect :=
  withShell state pid fun shell => do reply shell (listReply (← readTags state))

def cmdGet : Code Block Effect :=
  withShell state pid fun shell =>
    match args with
    | none => Code.fail .dangling
    | some line =>
      match (tagArg line).1 with
      | none => pure ⟨[],none⟩
      | some token => do
        let tag ← Code.malloc (.str token)
        match ← listGetNode (compareTagTag tag) (.tags state) with
        | none =>
          let effect ← reply shell bad
          Code.free tag
          pure effect
        | some node =>
          let path ← readStr (← readTag (← dataOf node)).2
          let effect ← reply shell (pathBuf path).text
          Code.free tag
          pure effect

/-- The path of the first action, `none` if there is no action. -/
def topPath (shell : ℕ) : Code Block (Option CStr) := do
  match (← readShell shell).actions.head with
  | none => pure none
  | some head =>
    let (data,_) ← readNode head
    match data with
    | none => pure none
    | some data => return some (← readStr (← readAction data))

def cmdPush : Code Block Effect :=
  withShell state pid fun shell =>
    match args with
    | none => pure ⟨[],none⟩
    | some line => do
      let action ← Code.malloc (.str (trimmed line))
      if !validPath env (trimmed line) then
        let effect ← reply shell bad
        Code.free action
        pure effect
      else if (← topPath shell) = some (trimmed line) then
        Code.free action
        reply shell okNul
      else
        match ← listNodeCreate env.nodeMalloc with
        | none =>
          let effect ← reply shell bad
          Code.free action
          pure effect
        | some node =>
          if !env.dataMalloc then
            let effect ← reply shell bad
            Code.free action
            pure effect
          else
            let data ← Code.malloc (.action action)
            Code.write node (.node (some data) none)
            listPrependNode (.actions shell) node
            reply shell okNul

def cmdPop : Code Block Effect :=
  withShell state pid fun shell => do
    match (← readShell shell).actions.head with
    | none => reply shell bad
    | some head =>
      let path ← readAction (← dataOf head)
      let effect ← reply shell (pathBuf (← readStr path)).text
      let _ ← listDeleteNode (compareActionPath path) cleanupAction (.actions shell)
      pure effect

/-- The loop of `cmd_actions`. -/
def actionsLoop : ℕ → Option ℕ → Code Block (List Action)
  | 0, _ => Code.fail .endless
  | _+1, none => pure []
  | fuel+1, some curr => do
    let (data,next) ← readNode curr
    let path ← readStr (← readAction (← Code.deref data))
    return ⟨path⟩::(← actionsLoop fuel next)

def cmdActions : Code Block Effect :=
  withShell state pid fun shell => do
    let list ← readList (.actions shell)
    let actions ← Code.sized fun fuel => actionsLoop fuel list.head
    reply shell (actionsBuf ⟨actions,list.nItems⟩).text

def cmdReset : Code Block Effect :=
  withShell state pid fun shell => do
    listDeleteAll cleanupAction (.actions shell)
    reply shell okNul

end Handlers

def dispatchCommand (env : Env) (state : ℕ) (cmdStr : CStr) (pid : ℤ) (args : Option CStr) :
    Code Block Effect :=
  match findCommand cmdStr with
  | some .register => cmdRegister env state pid
  | some .unregister => cmdUnregister state pid
  | some .add => cmdAdd env state pid args
  | some .delete => cmdDelete env state pid args
  | some .show => cmdShow state pid
  | some .get => cmdGet state pid args
  | some .push => cmdPush env state pid args
  | some .pop => cmdPop state pid
  | some .actions => cmdActions state pid
  | some .list => cmdList state pid
  | some .reset => cmdReset state pid
  | none => pure ⟨[],none⟩

/-! `state.c`, the handler of SIGINT and SIGTERM, and the start of the daemon. -/

def deinitState (state : ℕ) : Code Block Unit := do
  listDeleteAll cleanupShell (.shells state)
  listDeleteAll cleanupTag (.tags state)
  Code.free state

/-- `nav_socket_path` is read from the state. -/
def handler (state : ℕ) : Code Block Unit := do
  let _ ← Code.read state
  deinitState state

/-- One round of the loop of `read_tag_file`; the two answers are those to `list_node_create` and to
the `malloc` behind it. -/
def readLine (validPath : CStr → Bool) (nodeMalloc dataMalloc : Bool) (line : CStr) (state : ℕ) :
    Code Block Unit :=
  match (Strtok.start line).next isEquals with
  | (none,_) => pure ()
  | (some token,k) => do
    let tag ← Code.malloc (.str (trimmed token))
    match k.next noDelim with
    | (none,_) => Code.free tag
    | (some rest,_) =>
      let path ← Code.malloc (.str (trimmed rest))
      match ← listGetNode (compareTagTag tag) (.tags state) with
      | some node =>
        let data ← dataOf node
        Code.write data (.tag (← readTag data).1 path)
      | none =>
        if !validPath (trimmed rest) then
          Code.free tag
          Code.free path
        else
          match ← listNodeCreate nodeMalloc with
          | none =>
            Code.free tag
            Code.free path
          | some node =>
            if !dataMalloc then
              Code.free tag
              Code.free path
            else
              let data ← Code.malloc (.tag tag path)
              Code.write node (.node (some data) none)
              listAppendNode (.tags state) node

/-- The loop of `read_tag_file`, with the answers round by round. -/
def readLoop (validPath : CStr → Bool) (nodeMalloc dataMalloc : ℕ → Bool) (state : ℕ) :
    ℕ → ℕ → List Byte → Code Block Unit
  | 0, _, _ => pure ()
  | fuel+1, i, file =>
    if file = [] then pure ()
    else
      let line := cstr (fgets 255 file).1
      if line.bytes = [newline] then pure ()
      else do
        readLine validPath (nodeMalloc i) (dataMalloc i) line state
        readLoop validPath nodeMalloc dataMalloc state fuel (i+1) (fgets 255 file).2

/-- `init_state` and `setup_initial_state`: the address of the state. -/
def start (cacheDir : CStr) (validPath : CStr → Bool) (nodeMalloc dataMalloc : ℕ → Bool)
    (file : Option (List Byte)) : Code Block ℕ := do
  let state ← Code.malloc (.state cacheDir LinkedList.empty LinkedList.empty)
  match file with
  | none => pure ()
  | some bytes => readLoop validPath nodeMalloc dataMalloc state bytes.length 0 bytes
  pure state

end Alloc
end Nav.Daemon
