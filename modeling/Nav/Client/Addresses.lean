import Nav.Client.Exchange
import Nav.Daemon.Setup

/-! The socket paths that client and daemon derive, each for itself, from the cache directory. -/
namespace Nav.Client
open Nav.C Nav.Daemon

/-- The client's `cache_dir`, `none` where it gives up. -/
def loadCacheDir (getenv : List Byte → Option CStr) (username : Option CStr) : Option CStr :=
  match getenv (lit "NAV_CACHE_DIR") with
  | some tempEnv => if 95 ≤ tempEnv.length then none else some (cstr (tempEnv.bytes.take (95-1)))
  | none =>
    match username with
    | none => none
    | some uname =>
      let r := snprintf 95 (lit "/home/" ++ uname.bytes ++ lit "/.cache/nav")
      if 95 ≤ r.2 then none else some (cstr r.1)

/-- `nav_addr.sun_path`. -/
def navAddr (cacheDir : CStr) : List Byte := (snprintf 108 (cacheDir.bytes ++ lit "/nav.sock")).1

/-- For the same user the client checks what the daemon checks. -/
theorem loadCacheDir_eq (getenv : List Byte → Option CStr) (uname : CStr) :
    loadCacheDir getenv (some uname) =
      loadDirectory cacheDirMaxLen (getenv (lit "NAV_CACHE_DIR")) (defaultCacheDir uname) := by
  unfold loadCacheDir loadDirectory
  cases getenv (lit "NAV_CACHE_DIR") <;> rfl

/-- The path of the socket of a PID, before it is put into an array. -/
def sockName (cacheDir : CStr) (n : ℕ) : List Byte :=
  cacheDir.bytes ++ lit "/" ++ decimalNat n ++ lit ".sock"

section Names
variable {configDir cacheDir : CStr} {m n : ℕ}

/-- PIDs up to 2^22 have seven digits at most, and so just fit. -/
theorem sockPath_fits (hdir : cacheDir.length < cacheDirMaxLen) (hn : n ≤ 2^22) :
    sockPath cacheDir n = sockName cacheDir n := by
  have hdigits : (decimalNat n).length ≤ 7 := decimalNat_length (by omega) (by omega)
  rw [sockPath,decimal_natCast,← sockName]
  apply List.take_of_length_le
  simp only [sockName,List.length_append,CStr.length,cacheDirMaxLen] at hdir ⊢
  have hslash : (lit "/").length = 1 := by decide
  have hsock : (lit ".sock").length = 5 := by decide
  omega

/-- The longest configuration directory leaves room for the name of the tag file. -/
theorem tagfilePath_fits (h : configDir.length < pathMax-5) :
    tagfilePath configDir = configDir.bytes ++ lit "/tags" := by
  have hlit : (lit "/tags").length = 5 := by decide
  apply snprintf_fits
  simp only [CStr.length,pathMax] at h ⊢
  rw [List.length_append,hlit]
  omega

lemma navPath_fits (hdir : cacheDir.length < cacheDirMaxLen) :
    snprintf socketPathMaxLen (cacheDir.bytes ++ lit "/nav.sock") =
      (cacheDir.bytes ++ lit "/nav.sock",cacheDir.length+9) := by
  have hlit : (lit "/nav.sock").length = 9 := by decide
  simp only [CStr.length,cacheDirMaxLen] at hdir ⊢
  refine Prod.ext (snprintf_fits ?_) ?_
  · rw [List.length_append,hlit,socketPathMaxLen]
    omega
  · simp [snprintf,hlit]

/-- The longest cache directory leaves room for the name of the nav socket. -/
theorem navSocketPath_fits (hdir : cacheDir.length < cacheDirMaxLen) :
    navSocketPath cacheDir = some (cacheDir.bytes ++ lit "/nav.sock") := by
  unfold navSocketPath
  rw [navPath_fits hdir,if_neg]
  simp only [CStr.length,cacheDirMaxLen,socketPathMaxLen] at hdir ⊢
  omega

/-- Different PIDs have different sockets. -/
theorem sockName_injective (h : sockName cacheDir m = sockName cacheDir n) : m = n := by
  have hdigits : decimalNat m = decimalNat n := by
    unfold sockName at h
    exact List.append_cancel_left (List.append_cancel_right h)
  rw [← digitsValue_decimalNat m,hdigits,digitsValue_decimalNat]

/-- No PID is `nav`. -/
theorem sockName_ne_nav : sockName cacheDir n ≠ cacheDir.bytes ++ lit "/nav.sock" := by
  intro h
  have hnav : cacheDir.bytes ++ lit "/nav.sock" =
      cacheDir.bytes ++ lit "/" ++ lit "nav" ++ lit ".sock" := by
    rw [List.append_assoc,List.append_assoc]
    rfl
  rw [hnav] at h
  unfold sockName at h
  have hdigits : decimalNat n = lit "nav" := List.append_cancel_left (List.append_cancel_right h)
  have hdigit := isDigit_decimalNat n 110 (by rw [hdigits]; decide)
  exact absurd hdigit (by decide)

end Names

/-- Whatever directories pass the length checks at start-up, no derived path is cut off, client and
daemon derive the same ones, and every PID up to 2^22 has a socket of its own. -/
theorem derivedPaths (getenv : List Byte → Option CStr) (uname configDir cacheDir : CStr)
    (hconfig : loadDirectory (pathMax-5) (getenv (lit "NAV_CONFIG_DIR")) (defaultConfigDir uname) =
      some configDir)
    (hcache : loadDirectory cacheDirMaxLen (getenv (lit "NAV_CACHE_DIR")) (defaultCacheDir uname) =
      some cacheDir) (n : ℕ) (hn : n ≤ 2^22) :
    tagfilePath configDir = configDir.bytes ++ lit "/tags" ∧
    navSocketPath cacheDir = some (cacheDir.bytes ++ lit "/nav.sock") ∧
    (newShell cacheDir n).sunPath = cacheDir.bytes ++ lit "/" ++ decimal n ++ lit ".sock" ∧
    (∀ env user, loadCacheDir env (some user) =
      loadDirectory cacheDirMaxLen (env (lit "NAV_CACHE_DIR")) (defaultCacheDir user)) ∧
    loadCacheDir getenv (some uname) = some cacheDir ∧
    some (navAddr cacheDir) = navSocketPath cacheDir ∧
    (∀ args, myAddr cacheDir (pidArg n::args) = (newShell cacheDir n).sunPath) ∧
    (∀ m : ℕ, m ≤ 2^22 → m ≠ n →
      (newShell cacheDir m).sunPath ≠ (newShell cacheDir n).sunPath) ∧
    some (newShell cacheDir n).sunPath ≠ navSocketPath cacheDir := by
  have hconfig' := (loadDirectory_some hconfig).2
  have hdir := (loadDirectory_some hcache).2
  have htags : tagfilePath configDir = configDir.bytes ++ lit "/tags" := tagfilePath_fits hconfig'
  have hnav : navSocketPath cacheDir = some (cacheDir.bytes ++ lit "/nav.sock") :=
    navSocketPath_fits hdir
  have hshell : ∀ m : ℕ, m ≤ 2^22 → (newShell cacheDir m).sunPath = sockName cacheDir m :=
    fun m hm => sockPath_fits hdir hm
  refine ⟨htags,hnav,?_,loadCacheDir_eq,?_,?_,?_,?_,?_⟩
  · rw [hshell n hn,sockName,decimal_natCast]
  · rw [loadCacheDir_eq,hcache]
  · rw [hnav]
    exact congrArg (fun r => some r.1) (navPath_fits hdir)
  · intro args
    exact myAddr_pid cacheDir
  · intro m hm hne h
    rw [hshell m hm,hshell n hn] at h
    exact hne (sockName_injective h)
  · rw [hshell n hn,hnav]
    exact fun h => sockName_ne_nav (Option.some.inj h)

/-- The longest cache directory and the largest PID fill `sun_path`. -/
theorem derivedPaths_longest :
    (newShell ⟨List.replicate 94 99,fun h => absurd (List.eq_of_mem_replicate h) (by decide)⟩
      (4194304 : ℕ)).sunPath =
      List.replicate 94 99 ++ lit "/" ++ decimal (4194304 : ℕ) ++ lit ".sock" :=
  (derivedPaths
    (fun name => if name = lit "NAV_CACHE_DIR" then some ⟨List.replicate 94 99,
      fun h => absurd (List.eq_of_mem_replicate h) (by decide)⟩ else none)
    (CStr.ofLit "u") (CStr.ofLit "/home/u/.config/nav")
    ⟨List.replicate 94 99,fun h => absurd (List.eq_of_mem_replicate h) (by decide)⟩
    (by decide +kernel) (by decide +kernel) 4194304 (by decide)).2.2.1

end Nav.Client
