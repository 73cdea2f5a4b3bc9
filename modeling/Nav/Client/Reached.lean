import Nav.Client.Protocol
import Nav.Daemon.Takeover

/-! Which daemon the clients of the shells get to, where more than one has been started. -/
namespace Nav.Client
open Nav.C Nav.Daemon Nav.Lib Nav.Lib.Servers

/-- The requests are those of shells. -/
def FromShells {δ κ : Type*} : Servers.Event δ κ Arrival (ℕ → Bool) → Prop
  | .request _ a => ∃ argv, ShellRequest argv ∧ a.datagram = request argv
  | _ => True

/-- The steps in which a daemon unlinks `nav.sock`: as it starts, and as it is stopped. -/
def Unlinks {δ κ : Type*} (w : DaemonWorld δ κ) (d : δ) : Servers.Event δ κ Arrival (ℕ → Bool) → Prop
  | .clear d' => d' = d ∧ ∃ l, w.servers d = .loaded l
  | .stop d' => d' = d ∧ ∃ l, w.servers d = .serving l
  | _ => False

section Runs
variable {δ κ : Type*} [DecidableEq δ] [DecidableEq κ] {cacheDir : CStr} {validPath : CStr → Bool}
  {file : Option (List Byte)} {es post : List (Servers.Event δ κ Arrival (ℕ → Bool))}
  {w w₁ : DaemonWorld δ κ} {os : List (Option (Arrival × Round))} {d : δ}

lemma serving_withFile {l : Loop} (h : Serving cacheDir l) (tagFile : Option (List Byte)) :
    Serving cacheDir (l.withFile tagFile) :=
  ⟨((⟨h.wellFormed,h.ended⟩ : SaneLoop l).withFile tagFile).wellFormed,h.cacheDir,h.ended,h.running⟩

lemma daemon_shell_step {l l' : Loop} {f f' : Option (List Byte)} {a : Arrival} {r : Round}
    (hl : Serving cacheDir l) (ha : ∃ argv, ShellRequest argv ∧ a.datagram = request argv)
    (h : (daemonService cacheDir validPath).step l f a = .ok (l',f',r)) : Serving cacheDir l' := by
  obtain ⟨argv,hargv,hreq⟩ := ha
  obtain ⟨env,datagram⟩ := a
  obtain rfl : datagram = request argv := hreq
  simp only [daemonService] at h
  cases hround : loopRound (l.withFile f) ⟨env,request argv⟩ with
  | error e => simp [hround,Except.map] at h
  | ok p =>
    simp only [hround,Except.map,Except.ok.injEq,Prod.mk.injEq] at h
    obtain ⟨rfl,_⟩ := h
    exact (shell_round (serving_withFile hl f) hargv hround).1

/-- All daemons that run are in their loops or in front of them. -/
theorem run_serving (hes : ∀ e ∈ es, FromShells e)
    (hw : ∀ d l, (w.servers d).memory = some l → Serving cacheDir l)
    (h : runWorld (daemonService cacheDir validPath) w es = .ok (w₁,os)) :
    ∀ d l, (w₁.servers d).memory = some l → Serving cacheDir l :=
  World.run_memory (fun malloc f => serving_start cacheDir validPath malloc f)
    (fun _ _ _ _ _ _ _ hl he hs => daemon_shell_step hl he hs) hes hw h

omit [DecidableEq δ] [DecidableEq κ] in
/-- No request of a shell makes a daemon unlink the socket. -/
lemma takes_iff {e : Servers.Event δ κ Arrival (ℕ → Bool)} (he : FromShells e)
    (hw : ∀ d l, (w.servers d).memory = some l → Serving cacheDir l) :
    World.Takes (daemonService cacheDir validPath) w d e ↔ Unlinks w d e := by
  cases e with
  | request k a =>
    refine iff_of_false ?_ id
    rintro ⟨_,l,l',f,r,hl,hstep,hup⟩
    have hserving := daemon_shell_step (hw d l (by rw [hl]; rfl)) he hstep
    have hrunning : l'.running = false := hup
    simp [hserving.running] at hrunning
  | _ => exact Iff.rfl

lemma settled_of_answers {v : Servers.Server Loop} (h : v.answers = true) : v.settled = true := by
  cases v with
  | bound | serving => rfl
  | off | loaded | cleared | ended => cases h

/-- A daemon that has `nav.sock` still has it later, if it is still there, exactly if no other daemon
has been started and none that was started before it has been stopped by SIGINT or SIGTERM. If it has
lost the socket, it does not get it again, and no client gets to it that is not connected already. -/
theorem socket_kept_iff (hpre : ∀ e ∈ es, FromShells e) (hpost : ∀ e ∈ post, FromShells e)
    {os₁ : List (Option (Arrival × Round))}
    (h₁ : runWorld (daemonService cacheDir validPath) (World.start file) es = .ok (w₁,os₁))
    (hname : w₁.name = some d) (hsettled : (w₁.servers d).answers = true)
    (h : runWorld (daemonService cacheDir validPath) w₁ post = .ok (w,os))
    (hanswers : (w.servers d).answers = true) :
    (w.name = some d ↔ Machine.Along (fun w e => w.next (daemonService cacheDir validPath) e)
      (fun w e => ∀ d', d' ≠ d → ¬ Unlinks w d' e) w₁ post) ∧
    (w.name ≠ some d → ∀ es' w' os',
      runWorld (daemonService cacheDir validPath) w es' = .ok (w',os') →
      w'.name ≠ some d ∧ ∀ k, w'.peers k = some d → w.peers k = some d) := by
  have hserving₁ : ∀ d l, (w₁.servers d).memory = some l → Serving cacheDir l :=
    run_serving hpre (by simp [World.start,Servers.Server.memory]) h₁
  constructor
  · rw [World.run_keeps hname (settled_of_answers hsettled) h hanswers]
    refine Machine.along_congr _ (fun w : DaemonWorld δ κ => ∀ d l, (w.servers d).memory = some l →
      Serving cacheDir l) FromShells (fun w e hw he => ?_) (fun w e w' o hw he _ hnext => ?_) hserving₁
      hpost
    · exact forall_congr' fun d' => imp_congr_right fun _ => not_congr (takes_iff he hw)
    · have hrun : runWorld (daemonService cacheDir validPath) w [e] = .ok (w',[o]) :=
        (Machine.run_cons _).mpr ⟨w',o,[],hnext,rfl,rfl⟩
      exact run_serving (by simpa using he) hw hrun
  · intro hlost es' w' os' h'
    have hl : World.Lost d w := ⟨settled_of_answers hanswers,hlost⟩
    exact ⟨(World.run_lost hl h').2,fun k => World.run_lost_peers hl h'⟩

def firstStarted : List (Servers.Event ℕ ℕ Arrival (ℕ → Bool)) :=
  [.load 0 fun _ => true,.clear 0,.bind 0,.ready 0,.connect 0]

def secondStarted : List (Servers.Event ℕ ℕ Arrival (ℕ → Bool)) :=
  [.load 1 fun _ => true,.clear 1,.bind 1,.ready 1,.connect 1]

theorem socket_kept_iff_secondStarted : ∃ w₁ os₁ w os,
    runWorld (daemonService tmpDir fun _ => true) (World.start none) firstStarted = .ok (w₁,os₁) ∧
    runWorld (daemonService tmpDir fun _ => true) w₁ secondStarted = .ok (w,os) ∧
    ¬ Machine.Along (fun w e => w.next (daemonService tmpDir fun _ => true) e)
      (fun w e => ∀ d, d ≠ 0 → ¬ Unlinks w d e) w₁ secondStarted ∧
    ∀ es w' os', runWorld (daemonService tmpDir fun _ => true) w es = .ok (w',os') →
      w'.name ≠ some 0 ∧ ∀ k, w'.peers k = some 0 → w.peers k = some 0 := by
  obtain ⟨w₁,os₁,w,os,h₁,hname,hsettled,h,hanswers,hlost⟩ : ∃ w₁ os₁ w os,
      runWorld (daemonService tmpDir fun _ => true) (World.start none) firstStarted = .ok (w₁,os₁) ∧
      w₁.name = some 0 ∧ (w₁.servers 0).answers = true ∧
      runWorld (daemonService tmpDir fun _ => true) w₁ secondStarted = .ok (w,os) ∧
      (w.servers 0).answers = true ∧ w.name ≠ some 0 :=
    ⟨_,_,_,_,rfl,rfl,rfl,rfl,rfl,by decide⟩
  obtain ⟨hkept,hgone⟩ := socket_kept_iff (by simp [firstStarted,FromShells])
    (by simp [secondStarted,FromShells]) h₁ hname hsettled h hanswers
  exact ⟨w₁,os₁,w,os,h₁,h,fun hall => hlost (hkept.mpr hall),hgone hlost⟩

end Runs
end Nav.Client
