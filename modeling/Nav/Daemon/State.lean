import Nav.C.Number
import Nav.Daemon.List

/-! The global state of the daemon, what the operating system answers while a command is
handled, and what handling a command produces. -/
namespace Nav.Daemon
open Nav.C

/-- `struct tag`. -/
@[ext] structure Tag where
  tag : CStr
  path : CStr
  deriving DecidableEq, Repr

/-- `struct action`. -/
@[ext] structure Action where
  path : CStr
  deriving DecidableEq, Repr

/-- `struct shell`; of the socket address only `sun_path` varies. -/
structure Shell where
  pid : ℤ
  sunPath : List Byte
  actions : NodeList Action
  deriving DecidableEq, Repr

def compareTagTag (t : Tag) (key : CStr) : ℕ := if t.tag = key then 0 else 1
def compareShellPid (s : Shell) (key : ℤ) : ℕ := if s.pid = key then 0 else 1
def compareActionPath (a : Action) (key : CStr) : ℕ := if a.path = key then 0 else 1

@[simp] theorem compareTagTag_eq_zero (t : Tag) (key : CStr) :
    compareTagTag t key = 0 ↔ t.tag = key := by simp [compareTagTag]
@[simp] theorem compareShellPid_eq_zero (s : Shell) (key : ℤ) :
    compareShellPid s key = 0 ↔ s.pid = key := by simp [compareShellPid]
@[simp] theorem compareActionPath_eq_zero (a : Action) (key : CStr) :
    compareActionPath a key = 0 ↔ a.path = key := by simp [compareActionPath]

/-- `struct state`, as far as the command handlers use it, with the bytes of the file at
`tagfile_path`, `none` while there is no such file. -/
structure State where
  cacheDir : CStr
  shells : NodeList Shell
  tags : NodeList Tag
  tagFile : Option (List Byte)
  deriving DecidableEq, Repr

/-- What the system answers while one command is handled: whether `fstatat` finds a path,
whether the allocations succeed, whether the tag file can be opened for writing. -/
structure Env where
  fstatat : CStr → Bool
  nodeMalloc : Bool
  dataMalloc : Bool
  fopen : Bool

def validPath (env : Env) (path : CStr) : Bool := env.fstatat path

/-- One `sendto`: the `sun_path` it is addressed to and the bytes of the datagram. -/
structure Datagram where
  dest : List Byte
  payload : List Byte
  deriving DecidableEq, Repr

/-- Undefined behaviour that ends a run: a NULL pointer is followed, or a string is read past
the array that holds it. -/
inductive Fault
  | nullDeref
  | overread
  deriving DecidableEq, Repr

/-- What handling one command produces. `overrun` says that a reply was formatted past the end
of its buffer, `args` are the bytes of the argument string as tokenising has left them. -/
structure Outcome where
  state : State
  sent : List Datagram
  overrun : Bool
  args : List Byte
  deriving DecidableEq, Repr

/-- Where `get_trailing_whitespace` stops. -/
def isBreak (b : Byte) : Bool := b == newline || b == space

/-- `get_trailing_whitespace(s)` on the memory that starts at `s`: the index of the first
newline or space. There is no other way out of its loop, so `none` means that it runs off the
memory. -/
def getTrailingWhitespace (mem : List Byte) : Option ℕ :=
  mem.findIdx? isBreak

/-- `strndup(s, n)`. -/
def strndup (mem : List Byte) (n : ℕ) : CStr := cstr (mem.take n)

/-- A token cut at its first newline or space. -/
def trimmed (s : CStr) : CStr := s.takeWhile (!isBreak ·)

@[simp] theorem trimmed_bytes (s : CStr) : (trimmed s).bytes = s.bytes.takeWhile (!isBreak ·) := rfl

lemma trimmed_length_le (s : CStr) : (trimmed s).length ≤ s.length :=
  (List.takeWhile_prefix _).length_le

lemma takeWhile_take_findIdx? (token behind : List Byte) (n : ℕ) (ht : nul ∉ token)
    (h : (token ++ nul::behind).findIdx? isBreak = some n) :
    ((token ++ nul::behind).take n).takeWhile (· != nul) = token.takeWhile (!isBreak ·) := by
  induction token generalizing n with
  | nil =>
    -- the scan does not stop at the NUL, so the copy does
    cases n with
    | zero => simp
    | succ n => simp
  | cons b token ih =>
    have hb : b ≠ nul := fun he => ht (by simp [he])
    by_cases hp : isBreak b = true
    · obtain rfl : n = 0 := by simpa [List.findIdx?_cons,hp] using h.symm
      simp [hp]
    · simp only [List.cons_append,List.findIdx?_cons,hp,Bool.false_eq_true,if_false,
        Option.map_eq_some_iff] at h
      obtain ⟨m,hm,rfl⟩ := h
      have hi := ih m (fun hn => ht (by simp [hn])) hm
      simp only [List.cons_append,List.take_succ_cons,List.takeWhile_cons]
      simp only [hi,hp,show (b != nul) = true by simpa using hb,if_true,Bool.not_false]

/-- `strndup(token, get_trailing_whitespace(token))` is the trimmed token, whatever bytes lie
behind it, as long as the scan ends somewhere. -/
theorem strndup_getTrailingWhitespace (token : CStr) (behind : List Byte) (n : ℕ)
    (h : getTrailingWhitespace (token.bytes ++ nul::behind) = some n) :
    strndup (token.bytes ++ nul::behind) n = trimmed token := by
  ext1
  exact takeWhile_take_findIdx? token.bytes behind n token.nulFree h

/-- `snprintf(sun_path, sizeof(sun_path), "%s/%d.sock", cache_dir, pid)`. -/
def sockPath (cacheDir : CStr) (pid : ℤ) : List Byte :=
  (cacheDir.bytes ++ lit "/" ++ decimal pid ++ lit ".sock").take 107

/-- The loop of `cleanup_shell`: while the counter is positive, delete the head by its own path.
The fuel is the counter the loop starts with. -/
def cleanupLoop : ℕ → NodeList Action → Except Fault (NodeList Action × List Action)
  | 0, l => .ok (l,[])
  | fuel+1, l =>
    if 0 < l.nItems then
      match l.nodes with
      | [] => .error .nullDeref
      | a::_ =>
        let d := listDeleteNode compareActionPath l a.path
        match cleanupLoop fuel d.list with
        | .error e => .error e
        | .ok (l',removed) => .ok (l',d.removed.toList ++ removed)
    else .ok (l,[])

def cleanupShell (s : Shell) : Except Fault (NodeList Action × List Action) :=
  cleanupLoop s.actions.nItems.toNat s.actions

/-- A shell whose counter is right is cleaned up without following a NULL head, action by
action from the top. -/
theorem cleanupLoop_counted (as : List Action) :
    cleanupLoop as.length ⟨as,as.length⟩ = .ok (NodeList.empty,as) := by
  induction as with
  | nil => rfl
  | cons a as ih =>
    have hd : listDeleteNode compareActionPath ⟨a::as,((a::as).length : ℤ)⟩ a.path =
        ⟨0,⟨as,as.length⟩,some a⟩ := by
      rw [listDeleteNode_head compareActionPath a.path a as _ (by simp)]
      simp
    have hpos : (0 : ℤ) < (a::as).length := by simp
    simp only [List.length_cons] at hd hpos ⊢
    simp only [cleanupLoop,hpos,if_true,hd,ih]
    rfl

lemma cleanupShell_counted (s : Shell) (h : s.actions.Counted) :
    cleanupShell s = .ok (NodeList.empty,s.actions.nodes) := by
  have hs : s.actions = ⟨s.actions.nodes,(s.actions.nodes.length : ℤ)⟩ := NodeList.ext rfl h
  rw [cleanupShell,hs]
  simpa using cleanupLoop_counted s.actions.nodes

end Nav.Daemon
