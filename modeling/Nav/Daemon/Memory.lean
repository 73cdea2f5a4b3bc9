import Nav.Daemon.LinkedList
import Nav.Daemon.Commands

/-! What the handlers and the loader do to the lists, down to the nodes on the heap. Nodes with
different data lie on heaps of their own, and a node is stored with the data that the handler makes
for it; a node whose data cannot be allocated stays off all chains and is left out. -/
namespace Nav.Daemon
open Nav.C Nav.Lib

/-- `struct shell` with the head of its action list. -/
structure ShellNode where
  pid : ℤ
  sunPath : List Byte
  actions : LinkedList

/-- The lists of the global state. -/
structure Memory where
  cacheDir : CStr
  shellHeap : Heap ShellNode
  shells : LinkedList
  tagHeap : Heap Tag
  tags : LinkedList
  actionHeap : Heap Action

namespace Memory

/-- `compare_shell_pid`. -/
def compareShellPid (s : ShellNode) (key : ℤ) : ℕ := if s.pid = key then 0 else 1

/-- The loop of `cleanup_shell`, which ends with the fuel if it ends at all. -/
def cleanupLoop : ℕ → Heap Action → LinkedList → Except HeapFault (Heap Action × LinkedList)
  | 0, _, _ => .error .endless
  | fuel+1, h, l =>
    if 0 < l.nItems then
      match l.head with
      | none => .error .dangling
      | some head =>
        match h.cells head with
        | none => .error .dangling
        | some cell =>
          match LinkedList.listDeleteNode compareActionPath h l cell.data.path with
          | .error e => .error e
          | .ok r => cleanupLoop fuel r.heap r.list
    else .ok (h,l)

def cleanupShell (h : Heap Action) (s : ShellNode) : Except HeapFault (Heap Action × LinkedList) :=
  cleanupLoop (s.actions.nItems.toNat+1) h s.actions

/-- The start of every handler but `cmd_register`. -/
def withShell (m : Memory) (pid : ℤ) (handler : ℕ → ShellNode → Except HeapFault Memory) :
    Except HeapFault Memory :=
  match LinkedList.listGetNode compareShellPid m.shellHeap m.shells pid with
  | .error e => .error e
  | .ok none => .ok m
  | .ok (some node) =>
    match m.shellHeap.cells node with
    | none => .error .dangling
    | some cell => handler node cell.data

/-- A write to the `actions` of a shell. -/
def setActions (m : Memory) (node : ℕ) (actions : LinkedList) : Except HeapFault Memory :=
  (LinkedList.setData m.shellHeap node fun s => {s with actions}).map fun h => {m with shellHeap := h}

section Handlers
variable (env : Env) (m : Memory) (pid : ℤ) (args : Option CStr) (addr : ℕ)

def cmdRegister : Except HeapFault Memory :=
  match LinkedList.listGetNode compareShellPid m.shellHeap m.shells pid with
  | .error e => .error e
  | .ok (some _) => .ok m
  | .ok none =>
    if !env.nodeMalloc then .ok m
    else if !env.dataMalloc then .ok m
    else
      let s : ShellNode := ⟨pid,sockPath m.cacheDir pid,LinkedList.empty⟩
      (LinkedList.listAppendNode (m.shellHeap.store addr ⟨s,none⟩) m.shells addr).map fun r =>
        {m with shellHeap := r.1, shells := r.2}

def cmdUnregister : Except HeapFault Memory :=
  withShell m pid fun _ _ =>
    match LinkedList.listDeleteNode compareShellPid m.shellHeap m.shells pid with
    | .error e => .error e
    | .ok r =>
      match r.removed with
      | none => .ok {m with shellHeap := r.heap, shells := r.list}
      | some s => (cleanupShell m.actionHeap s).map fun c =>
          {m with shellHeap := r.heap, shells := r.list, actionHeap := c.1}

def cmdAdd : Except HeapFault Memory :=
  withShell m pid fun _ _ =>
    match args with
    | none => .error .dangling
    | some line =>
      match (addArgs line).1 with
      | none => .ok m
      | some (tag,path) =>
        if !validPath env path then .ok m
        else
          match LinkedList.listGetNode compareTagTag m.tagHeap m.tags tag with
          | .error e => .error e
          | .ok (some node) =>
            (LinkedList.setData m.tagHeap node fun t => {t with path}).map fun h => {m with tagHeap := h}
          | .ok none =>
            if !env.nodeMalloc then .ok m
            else if !env.dataMalloc then .ok m
            else
              (LinkedList.listAppendNode (m.tagHeap.store addr ⟨⟨tag,path⟩,none⟩) m.tags addr).map fun r =>
                {m with tagHeap := r.1, tags := r.2}

def cmdDelete : Except HeapFault Memory :=
  withShell m pid fun _ _ =>
    match args with
    | none => .error .dangling
    | some line =>
      match (tagArg line).1 with
      | none => .ok m
      | some tag =>
        match LinkedList.listGetNode compareTagTag m.tagHeap m.tags tag with
        | .error e => .error e
        | .ok none => .ok m
        | .ok (some _) => (LinkedList.listDeleteNode compareTagTag m.tagHeap m.tags tag).map fun r =>
            {m with tagHeap := r.heap, tags := r.list}

/-- The path of the first action, `none` if there is no action. -/
def topPath (h : Heap Action) (l : LinkedList) : Except HeapFault (Option CStr) :=
  match l.head with
  | none => .ok none
  | some head =>
    match h.cells head with
    | none => .error .dangling
    | some cell => .ok (some cell.data.path)

def cmdPush : Except HeapFault Memory :=
  withShell m pid fun node s =>
    match args with
    | none => .ok m
    | some line =>
      let action := trimmed line
      if !validPath env action then .ok m
      else
        match topPath m.actionHeap s.actions with
        | .error e => .error e
        | .ok top =>
          if top = some action then .ok m
          else if !env.nodeMalloc then .ok m
          else if !env.dataMalloc then .ok m
          else
            match LinkedList.listPrependNode (m.actionHeap.store addr ⟨⟨action⟩,none⟩) s.actions addr with
            | .error e => .error e
            | .ok r => setActions {m with actionHeap := r.1} node r.2

def cmdPop : Except HeapFault Memory :=
  withShell m pid fun node s =>
    match topPath m.actionHeap s.actions with
    | .error e => .error e
    | .ok none => .ok m
    | .ok (some path) =>
      match LinkedList.listDeleteNode compareActionPath m.actionHeap s.actions path with
      | .error e => .error e
      | .ok r => setActions {m with actionHeap := r.heap} node r.list

def cmdReset : Except HeapFault Memory :=
  withShell m pid fun node s =>
    match LinkedList.listDeleteAll m.actionHeap s.actions with
    | .error e => .error e
    | .ok r => setActions {m with actionHeap := r.1} node r.2.1

end Handlers

/-- `dispatch_command`. The commands that only read the lists change nothing. -/
def dispatchCommand (env : Env) (m : Memory) (cmdStr : CStr) (pid : ℤ) (args : Option CStr)
    (addr : ℕ) : Except HeapFault Memory :=
  match findCommand cmdStr with
  | some .register => cmdRegister env m pid addr
  | some .unregister => cmdUnregister m pid
  | some .add => cmdAdd env m pid args addr
  | some .delete => cmdDelete m pid args
  | some .push => cmdPush env m pid args addr
  | some .pop => cmdPop m pid
  | some .reset => cmdReset m pid
  | some .show | some .get | some .actions | some .list | none => .ok m

/-- Handle one call, with the address that `malloc` gives to a new node. -/
def handle (m : Memory) (x : Call × ℕ) : Except HeapFault (Memory × Unit) :=
  (dispatchCommand x.1.env m x.1.cmdStr x.1.pid x.1.args x.2).map fun m' => (m',())

/-- `malloc` gives no address that is in use. -/
def Fresh (m : Memory) (x : Call × ℕ) : Prop :=
  m.shellHeap.cells x.2 = none ∧ m.tagHeap.cells x.2 = none ∧ m.actionHeap.cells x.2 = none

/-- One round of the loop of `read_tag_file`. -/
def readLine (validPath : CStr → Bool) (malloc : Bool) (addr : ℕ) (line : CStr)
    (tags : Heap Tag × LinkedList) : Except HeapFault (Heap Tag × LinkedList) :=
  match (Strtok.start line).next isEquals with
  | (none,_) => .ok tags
  | (some token,k) =>
    match k.next noDelim with
    | (none,_) => .ok tags
    | (some rest,_) =>
      let tag := trimmed token
      let path := trimmed rest
      match LinkedList.listGetNode compareTagTag tags.1 tags.2 tag with
      | .error e => .error e
      | .ok (some node) => (LinkedList.setData tags.1 node fun t => {t with path}).map fun h => (h,tags.2)
      | .ok none =>
        if !validPath path then .ok tags
        else if !malloc then .ok tags
        else LinkedList.listAppendNode (tags.1.store addr ⟨⟨tag,path⟩,none⟩) tags.2 addr

/-- The loop of `read_tag_file`; `alloc` are the addresses of the nodes, round by round. -/
def readLoop (validPath : CStr → Bool) (malloc : ℕ → Bool) (alloc : ℕ → ℕ) :
    ℕ → ℕ → List Byte → Heap Tag × LinkedList → Except HeapFault (Heap Tag × LinkedList)
  | 0, _, _, tags => .ok tags
  | fuel+1, i, file, tags =>
    if file = [] then .ok tags
    else
      let line := cstr (fgets 255 file).1
      if line.bytes = [newline] then .ok tags
      else
        match readLine validPath (malloc i) (alloc i) line tags with
        | .error e => .error e
        | .ok tags' => readLoop validPath malloc alloc fuel (i+1) (fgets 255 file).2 tags'

def readTagFile (validPath : CStr → Bool) (malloc : ℕ → Bool) (alloc : ℕ → ℕ)
    (file : Option (List Byte)) : Except HeapFault (Heap Tag × LinkedList) :=
  match file with
  | none => .ok (Heap.empty,LinkedList.empty)
  | some bytes =>
    readLoop validPath malloc alloc bytes.length 0 bytes (Heap.empty,LinkedList.empty)

/-- The memory after start-up. -/
def start (cacheDir : CStr) (validPath : CStr → Bool) (malloc : ℕ → Bool) (alloc : ℕ → ℕ)
    (file : Option (List Byte)) : Except HeapFault Memory :=
  (readTagFile validPath malloc alloc file).map fun tags =>
    ⟨cacheDir,Heap.empty,LinkedList.empty,tags.1,tags.2,Heap.empty⟩

end Memory
end Nav.Daemon
