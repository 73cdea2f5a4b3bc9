import Nav.Daemon.Commands

/-! The start of the daemon: the two directories, from the environment or by default, and the paths
below them. -/
namespace Nav.Daemon
open Nav.C

/-- `PATH_MAX`. -/
def pathMax : ℕ := 4096

/-- `CACHE_DIR_MAX_LEN`. -/
def cacheDirMaxLen : ℕ := 95

/-- `SOCKET_PATH_MAX_LEN`, which is also the size of `sun_path`. -/
def socketPathMaxLen : ℕ := 108

/-- `snprintf(dest, size, ..)` of a text: what it stores in front of the NUL, and its return value.
It is negative only for texts that are longer than an `int` can tell, and so than any array here. -/
def snprintf (size : ℕ) (out : List Byte) : List Byte × ℕ := (out.take (size-1),out.length)

/-- `DEFAULT_CONFIG_DIR` for a user. -/
def defaultConfigDir (uname : CStr) : List Byte := lit "/home/" ++ uname.bytes ++ lit "/.config/nav"

/-- `DEFAULT_CACHE_DIR` for a user. -/
def defaultCacheDir (uname : CStr) : List Byte := lit "/home/" ++ uname.bytes ++ lit "/.cache/nav"

/-- The first half of `setup_directory`, up to the log line: the directory in `dest`, `none` if it is
too long. -/
def loadDirectory (destSize : ℕ) (tempEnv : Option CStr) (defaultPath : List Byte) : Option CStr :=
  match tempEnv with
  | some tempEnv =>
    if destSize ≤ tempEnv.length then none else some (cstr (tempEnv.bytes.take (destSize-1)))
  | none =>
    if destSize ≤ (snprintf destSize defaultPath).2 then none
    else some (cstr (snprintf destSize defaultPath).1)

/-- What `fstatat` says of a directory. -/
inductive Stat
  | found
  | missing
  | failed
  deriving DecidableEq, Repr

/-- What the system answers while the daemon starts. -/
structure System where
  username : Option CStr
  getenv : List Byte → Option CStr
  fstatat : CStr → Stat
  mkdir : CStr → Bool
  file : List Byte → Option (List Byte)

/-- `setup_directory`: the directory in `dest`, which exists then. -/
def setupDirectory (sys : System) (destSize : ℕ) (envVar defaultPath : List Byte) : Option CStr :=
  match loadDirectory destSize (sys.getenv envVar) defaultPath with
  | none => none
  | some dest =>
    match sys.fstatat dest with
    | .found => some dest
    | .missing => if sys.mkdir dest then some dest else none
    | .failed => none

/-- `nav_socket_path`, `none` where the program exits. -/
def navSocketPath (cacheDir : CStr) : Option (List Byte) :=
  let r := snprintf socketPathMaxLen (cacheDir.bytes ++ lit "/nav.sock")
  if socketPathMaxLen ≤ r.2 ∨ r.2 = 0 then none else some r.1

def tagfilePath (configDir : CStr) : List Byte :=
  (snprintf pathMax (configDir.bytes ++ lit "/tags")).1

/-- The paths of `struct state`. -/
structure Paths where
  configDir : CStr
  cacheDir : CStr
  navSocketPath : List Byte
  tagfilePath : List Byte
  deriving DecidableEq, Repr

/-- `setup_initial_state`: the paths and the rest of the state, `none` where the program exits. -/
def setupInitialState (sys : System) (validPath : CStr → Bool) (malloc : ℕ → Bool) :
    Option (Paths × State) := do
  let uname ← sys.username
  let configDir ← setupDirectory sys (pathMax-5) (lit "NAV_CONFIG_DIR") (defaultConfigDir uname)
  let cacheDir ← setupDirectory sys cacheDirMaxLen (lit "NAV_CACHE_DIR") (defaultCacheDir uname)
  let navSocket ← navSocketPath cacheDir
  let tagfile := tagfilePath configDir
  some (⟨configDir,cacheDir,navSocket,tagfile⟩,startState cacheDir validPath malloc (sys.file tagfile))

lemma snprintf_fits {size : ℕ} {out : List Byte} (h : out.length < size) :
    (snprintf size out).1 = out := List.take_of_length_le (Nat.le_sub_one_of_lt h)

/-- A directory that is loaded is the one that was asked for, and shorter than its array. -/
theorem loadDirectory_some {destSize : ℕ} {tempEnv : Option CStr} {defaultPath : List Byte}
    {dest : CStr} (h : loadDirectory destSize tempEnv defaultPath = some dest) :
    dest = tempEnv.getD (cstr defaultPath) ∧ dest.length < destSize := by
  have htake : ∀ bs : List Byte, bs.length < destSize → cstr (bs.take (destSize-1)) = cstr bs :=
    fun bs hbs => by rw [List.take_of_length_le (Nat.le_sub_one_of_lt hbs)]
  cases tempEnv with
  | some tempEnv =>
    simp only [loadDirectory,Option.ite_none_left_eq_some,Option.some.injEq,not_le] at h
    obtain ⟨hlen,rfl⟩ := h
    rw [htake tempEnv.bytes hlen,cstr_self]
    exact ⟨rfl,hlen⟩
  | none =>
    simp only [loadDirectory,Option.ite_none_left_eq_some,Option.some.injEq,not_le] at h
    obtain ⟨hlen,rfl⟩ := h
    have hdefault : cstr (snprintf destSize defaultPath).1 = cstr defaultPath := htake defaultPath hlen
    rw [hdefault]
    exact ⟨rfl,(List.takeWhile_prefix _).length_le.trans_lt hlen⟩

lemma setupDirectory_loads {sys : System} {destSize : ℕ} {envVar defaultPath : List Byte}
    {dest : CStr} (h : setupDirectory sys destSize envVar defaultPath = some dest) :
    loadDirectory destSize (sys.getenv envVar) defaultPath = some dest := by
  unfold setupDirectory at h
  cases hload : loadDirectory destSize (sys.getenv envVar) defaultPath with
  | none => simp [hload] at h
  | some d =>
    simp only [hload] at h
    cases hstat : sys.fstatat d <;> simp_all

/-- A daemon that has started has loaded its two directories, and the other paths lie below them. -/
theorem setupInitialState_loads {sys : System} {validPath : CStr → Bool} {malloc : ℕ → Bool}
    {paths : Paths} {s : State} (h : setupInitialState sys validPath malloc = some (paths,s)) :
    ∃ uname, sys.username = some uname ∧
      loadDirectory (pathMax-5) (sys.getenv (lit "NAV_CONFIG_DIR")) (defaultConfigDir uname) =
        some paths.configDir ∧
      loadDirectory cacheDirMaxLen (sys.getenv (lit "NAV_CACHE_DIR")) (defaultCacheDir uname) =
        some paths.cacheDir ∧
      navSocketPath paths.cacheDir = some paths.navSocketPath ∧
      paths.tagfilePath = tagfilePath paths.configDir ∧
      s = startState paths.cacheDir validPath malloc (sys.file paths.tagfilePath) := by
  simp only [setupInitialState,Option.bind_eq_bind,Option.bind_eq_some_iff,Option.some.injEq,
    Prod.mk.injEq] at h
  obtain ⟨uname,huser,configDir,hconfig,cacheDir,hcache,navSocket,hnav,rfl,rfl⟩ := h
  exact ⟨uname,huser,setupDirectory_loads hconfig,setupDirectory_loads hcache,hnav,rfl,rfl⟩

/-- Below a cache directory that `setup_directory` lets pass different PIDs have different sockets:
what is cut off is behind the number. -/
theorem sockPath_injective {cacheDir : CStr} {m n : ℤ} (hdir : cacheDir.length < cacheDirMaxLen)
    (hm : IsInt m) (hn : IsInt n) (h : sockPath cacheDir m = sockPath cacheDir n) : m = n := by
  have hcut : ∀ {k : ℤ}, IsInt k → ∃ rest, sockPath cacheDir k =
      cacheDir.bytes ++ lit "/" ++ (decimal k ++ 46::rest) := by
    intro k hk
    have hlen := decimal_length hk
    have hslash : (lit "/").length = 1 := by decide
    have hsock : lit ".sock" = 46::lit "sock" := by decide
    have hfront : (cacheDir.bytes ++ lit "/" ++ decimal k).length < 107 := by
      simp only [CStr.length,cacheDirMaxLen] at hdir
      simp only [List.length_append,hslash]
      omega
    obtain ⟨r,hr⟩ := Nat.exists_eq_succ_of_ne_zero (Nat.sub_ne_zero_of_lt hfront)
    refine ⟨(lit "sock").take r,?_⟩
    rw [sockPath,List.take_append,List.take_of_length_le hfront.le,hr,hsock,List.take_succ_cons,
      List.append_assoc]
  obtain ⟨r,hr⟩ := hcut hm
  obtain ⟨r',hr'⟩ := hcut hn
  rw [hr,hr'] at h
  have hdot : ∀ (k : ℤ) (rest : List Byte),
      (decimal k ++ 46::rest).takeWhile (· != 46) = decimal k := by
    intro k rest
    have hall : ∀ b ∈ decimal k, (b != 46) = true := by
      intro b hb
      rcases mem_decimal hb with rfl | hd
      · decide
      · rw [bne_iff_ne]
        rintro rfl
        exact absurd hd (by decide)
    rw [List.takeWhile_append_of_pos hall]
    simp
  have hd := congrArg (List.takeWhile (· != 46)) (List.append_cancel_left h)
  rw [hdot,hdot] at hd
  exact decimal_injective hd

end Nav.Daemon
