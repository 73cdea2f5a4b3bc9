import Nav.Daemon.Restart
import Nav.Daemon.Service
import Nav.Daemon.TagStore
import Nav.Lib.Servers

/-! Daemons that are started one after the other in the same directories, with or without the last one
being stopped first. `main` reads the tag file, unlinks the socket of whoever has it, binds its own and
serves; the handler of SIGINT and SIGTERM, and the way out of the loop, unlink it again. A round of the
loop runs without another daemon in between. -/
namespace Nav.Daemon
open Nav.C Nav.Lib Nav.Lib.Servers

/-- The tag file is the one thing of the state that is not the daemon's own. -/
def Loop.withFile (l : Loop) (tagFile : Option (List Byte)) : Loop :=
  {l with state := {l.state with tagFile}}

/-- `main` in front of the loop, and one round of the loop with the tag file as it stands. -/
def daemonService (cacheDir : CStr) (validPath : CStr → Bool) :
    Servers.Service (Option (List Byte)) Loop Arrival Round (ℕ → Bool) Fault where
  load malloc file := startLoop (startState cacheDir validPath malloc file)
  step l file a := (loopRound (l.withFile file) a).map fun p => (p.1,p.1.state.tagFile,p.2)
  up l := l.running

abbrev DaemonWorld (δ κ : Type*) := World (Option (List Byte)) Loop δ κ

/-- The change of the tags that a round has acknowledged. -/
def roundOps (a : Arrival) (r : Round) : List (MapOp CStr CStr) :=
  (r.dispatched.bind fun d =>
    ackedOp ⟨a.env,d.cmdStr,d.pid,d.args⟩ ⟨r.state,r.sent,r.overrun,r.line⟩).toList

section Calls
variable {s : State} {c : Call} {o : Outcome}

/-- Only what is acknowledged is written. -/
theorem Exit.file_same (h : Exit c s o) (hop : ackedOp c o = none) : o.state.tagFile = s.tagFile := by
  cases h with
  | rebound hc hs hargs hadd =>
    rw [ackedOp_add hc hargs hadd rfl] at hop
    cases hop
  | added hc hs hargs hadd =>
    rw [ackedOp_add hc hargs hadd rfl] at hop
    cases hop
  | deleted hc hs hargs htag =>
    rw [ackedOp_delete hc hargs htag rfl] at hop
    cases hop
  | _ => rfl

/-- What is acknowledged is in the file, with all the rest. -/
theorem Exit.file_saved {op : MapOp CStr CStr} (h : Exit c s o) (hop : ackedOp c o = some op)
    (hf : c.env.fopen = true) : o.state.tagFile = some (tagFileText o.state.tags) := by
  have hsame : o.state.tagFile = some (tagFileText o.state.tags) ∨ o.sent.map Datagram.payload ≠ [ok] ∨
      ∃ cmd, findCommand c.cmdStr = some cmd ∧ cmd ≠ .add ∧ cmd ≠ .delete := by
    cases h with
    | rebound | added | deleted => exact Or.inl (saveTags_file _ _ hf)
    | unknown | ignored | registerNoMemory | deleteBlank => exact Or.inr (Or.inl (by simp [quiet]))
    | addMalformed | addInvalid | addNoMemory | deleteAbsent =>
      exact Or.inr (Or.inl (by simp [reply,bad_ne_ok]))
    | registeredAgain hc | registered hc | unregistered hc | shown hc | listed hc | getBlank hc
    | getAbsent hc | got hc | pushNothing hc | pushInvalid hc | pushedAgain hc | pushNoMemory hc
    | pushed hc | popEmpty hc | popped hc | actionsShown hc | reset hc =>
      exact Or.inr (Or.inr ⟨_,hc,by simp,by simp⟩)
  rcases hsame with hsame | hsilent | ⟨cmd,hc,ha,hd⟩
  · exact hsame
  · simp [ackedOp_silent hsilent] at hop
  · simp [ackedOp_other hc ha hd] at hop

/-- A tag comes in by an `add` that is acknowledged. -/
theorem Exit.forall_tags {p : Tag → Prop} (h : Exit c s o) (hp : ∀ t ∈ s.tags.nodes, p t)
    (hnew : ∀ tag path, ackedOp c o = some (.put tag path) → Stores s c tag path → p ⟨tag,path⟩) :
    ∀ t ∈ o.state.tags.nodes, p t := by
  have hput : ∀ {line tag path}, findCommand c.cmdStr = some .add → c.args = some line →
      (addArgs line).1 = some (tag,path) → o.sent.map Datagram.payload = [ok] →
      ∀ tag' path', Stores s c tag' path' → p ⟨tag',path'⟩ := by
    intro line tag path hc hargs hadd hok tag' path' hst
    obtain ⟨line',hargs',hadd'⟩ := hst.args
    exact hnew tag' path' (ackedOp_add hc hargs' hadd' hok) hst
  cases h with
  | rebound hc hs hargs hadd hv ht =>
    exact (Change.rebound hc hs hargs hadd hv ht).forall_tags hp (hput hc hargs hadd rfl)
  | added hc hs hargs hadd hv ht hm =>
    exact (Change.added hc hs hargs hadd hv ht hm).forall_tags hp (hput hc hargs hadd rfl)
  | deleted hc hs hargs htag ht =>
    refine (Change.deleted hc hs hargs htag ht).forall_tags hp fun tag path hst => ?_
    exact absurd (Option.mem_unique hc hst.command) (by simp)
  | _ => exact hp

end Calls

/-- Entries that a start reads back as they were written. -/
structure Readable (validPath : CStr → Bool) (t : Tag) : Prop where
  storable : Storable validPath t
  loadable : Loadable t.tag

/-- The list has what was written. -/
structure HasTags (validPath : CStr → Bool) (tags : NodeList Tag) (log : List (MapOp CStr CStr)) :
    Prop where
  names : (tags.nodes.map Tag.tag).Nodup
  counted : tags.Counted
  readable : ∀ t ∈ tags.nodes, Readable validPath t
  entries : (tags.nodes.map fun t => (t.tag,t.path)) = (OrderedMap.replay log).entries

/-- The file has what was written; nothing has been while there is no file. -/
def FileHasTags (validPath : CStr → Bool) (file : Option (List Byte)) (log : List (MapOp CStr CStr)) :
    Prop :=
  ∃ tags, HasTags validPath tags log ∧
    (file = some (tagFileText tags) ∨ file = none ∧ tags = NodeList.empty)

/-- A daemon in the loop, or on its way there. -/
structure SaneLoop (l : Loop) : Prop where
  wellFormed : l.state.WellFormed
  ended : Ended l.buf

/-- Requests that fit, while the file can be written and paths stay. -/
structure FitArrival (validPath : CStr → Bool) (a : Arrival) : Prop where
  paths : a.env.fstatat = validPath
  fopen : a.env.fopen = true
  short : a.datagram.length ≤ 99

/-- No tag is stored that a start would read as another. -/
def Clean (a : Arrival) (r : Round) : Prop :=
  ∀ tag path, .put tag path ∈ roundOps a r → Loadable tag

lemma SaneLoop.withFile {l : Loop} (h : SaneLoop l) (tagFile : Option (List Byte)) :
    SaneLoop (l.withFile tagFile) :=
  have hw := h.wellFormed
  ⟨⟨hw.pids,hw.tags,hw.shellsCounted,hw.tagsCounted,hw.actionsCounted,hw.noRepeat,hw.addressed⟩,h.ended⟩

section Rounds
variable {validPath : CStr → Bool} {cacheDir : CStr} {l l' : Loop} {a : Arrival} {r : Round}
  {file file' : Option (List Byte)} {log : List (MapOp CStr CStr)}

/-- A start reads what the file has. -/
theorem FileHasTags.start (h : FileHasTags validPath file log) {malloc : ℕ → Bool}
    (hm : ∀ i, malloc i = true) :
    HasTags validPath (startState cacheDir validPath malloc file).tags log := by
  obtain rfl : malloc = fun _ => true := funext hm
  obtain ⟨tags,htags,rfl | ⟨rfl,rfl⟩⟩ := h
  · have hread := (readTagFile_tagFileText validPath tags (fun t ht => (htags.readable t ht).storable)
      htags.names htags.counted).mpr fun t ht => (htags.readable t ht).loadable
    simp only [startState]
    rwa [hread]
  · exact htags

theorem stores_readable {s : State} {c : Call} {tag path : CStr} (h : Stores s c tag path)
    (hv : c.env.fstatat = validPath) (hshort : ∀ line, c.args = some line → line.length ≤ 98)
    (hload : Loadable tag) : Readable validPath ⟨tag,path⟩ := by
  obtain ⟨line,hargs,hadd⟩ := h.args
  have hlen := addArgs_length line hadd
  have hline := hshort line hargs
  have hvalid : validPath path = true := by rw [← hv]; exact h.valid
  obtain ⟨w₁,w₂,_,rfl,rfl⟩ := (addArgs_eq_some line).mp hadd
  exact ⟨⟨trimmed_unbroken w₁,trimmed_unbroken w₂,hvalid,by simp only; omega⟩,hload⟩

/-- One round changes list and file by what it acknowledges. -/
theorem round_tags (hl : SaneLoop l) (ha : FitArrival validPath a) (h : loopRound l a = .ok (l',r)) :
    SaneLoop l' ∧ (roundOps a r = [] → l'.state.tagFile = l.state.tagFile) ∧
    ∀ log, HasTags validPath l.state.tags log → FileHasTags validPath l.state.tagFile log → Clean a r →
      HasTags validPath l'.state.tags (log ++ roundOps a r) ∧
      FileHasTags validPath l'.state.tagFile (log ++ roundOps a r) := by
  have hw' := loopRound_wellFormed hl.wellFormed h
  refine ⟨⟨hw',loopRound_ended hl.ended ha.short h⟩,?_⟩
  rcases loopRound_dispatched h with ⟨hnone,_,hs⟩ | ⟨d,passed,o,hr,hdisp,hsent,_,hh⟩
  · have hops : roundOps a r = [] := by simp [roundOps,hnone]
    rw [hops,hs]
    exact ⟨fun _ => rfl,fun log htags hfile _ => by simpa using ⟨htags,hfile⟩⟩
  · have hops : roundOps a r = (ackedOp ⟨a.env,d.cmdStr,d.pid,d.args⟩ o).toList := by
      simp only [roundOps,hdisp,Option.bind_some,ackedOp,hsent]
    obtain ⟨hexit,hstate⟩ := handle_exit hh
    have hshort : ∀ line, d.args = some line → line.length ≤ 98 := by
      intro line hline
      have hheard := heard_length hl.ended ha.short
      obtain ⟨_,hpos,hlen⟩ := reading_call _ hr
      rw [hline] at hlen
      simp only [region,Option.map_some,Option.getD_some] at hlen
      simp only [CStr.length] at hheard hlen ⊢
      omega
    rw [← hstate] at hw' ⊢
    have hnext : ∀ log, HasTags validPath l.state.tags log → Clean a r →
        HasTags validPath o.state.tags (log ++ roundOps a r) := by
      intro log htags hclean
      refine ⟨hw'.tags,hw'.tagsCounted,?_,?_⟩
      · refine hexit.forall_tags htags.readable fun tag path hop hst => ?_
        exact stores_readable hst ha.paths hshort (hclean tag path (by simp [hops,hop]))
      · rw [hops,replay_append_toList]
        exact hexit.tagEntries_acked hl.wellFormed htags.entries
    cases hop : ackedOp ⟨a.env,d.cmdStr,d.pid,d.args⟩ o with
    | none =>
      have hnil : roundOps a r = [] := by rw [hops,hop]; rfl
      have hfile := hexit.file_same hop
      refine ⟨fun _ => hfile,fun log htags hfile' hclean => ⟨hnext log htags hclean,?_⟩⟩
      rw [hfile,hnil,List.append_nil]
      exact hfile'
    | some op =>
      have hfile := hexit.file_saved hop ha.fopen
      refine ⟨fun hnil => by simp [hops,hop] at hnil,fun log htags _ hclean => ?_⟩
      exact ⟨hnext log htags hclean,_,hnext log htags hclean,Or.inl hfile⟩

end Rounds

section Runs
variable {δ κ : Type*} [DecidableEq δ] [DecidableEq κ] {cacheDir : CStr} {validPath : CStr → Bool}
  {es : List (Servers.Event δ κ Arrival (ℕ → Bool))} {w : DaemonWorld δ κ}
  {os : List (Option (Arrival × Round))}

lemma daemon_load (malloc : ℕ → Bool) (file : Option (List Byte)) (hm : ∀ i, malloc i = true) :
    SaneLoop ((daemonService cacheDir validPath).load malloc file) ∧ ∀ log,
      FileHasTags validPath file log →
      HasTags validPath ((daemonService cacheDir validPath).load malloc file).state.tags log :=
  ⟨⟨startState_wellFormed cacheDir validPath malloc file,startLoop_ended _⟩,fun _ h => h.start hm⟩

lemma daemon_step (l : Loop) (file : Option (List Byte)) (a : Arrival) (l' : Loop)
    (file' : Option (List Byte)) (r : Round) (hl : SaneLoop l) (ha : FitArrival validPath a)
    (h : (daemonService cacheDir validPath).step l file a = .ok (l',file',r)) :
    SaneLoop l' ∧ (roundOps a r = [] → file' = file) ∧
    ∀ log, HasTags validPath l.state.tags log → FileHasTags validPath file log → Clean a r →
      HasTags validPath l'.state.tags (log ++ roundOps a r) ∧
      FileHasTags validPath file' (log ++ roundOps a r) := by
  simp only [daemonService] at h
  cases hround : loopRound (l.withFile file) a with
  | error e => simp [hround,Except.map] at h
  | ok p =>
    simp only [hround,Except.map,Except.ok.injEq,Prod.mk.injEq] at h
    obtain ⟨rfl,rfl,rfl⟩ := h
    exact round_tags (hl.withFile file) ha hround

/-- What the daemons have acknowledged, in the order in which they did. -/
def acknowledged (os : List (Option (Arrival × Round))) : List (MapOp CStr CStr) :=
  World.written roundOps os

/-- The condition on a step: a daemon that reads the tag file has memory for it, and a request that
changes tags is handled by the daemon that has read the tag file last. -/
abbrev Fence (cacheDir : CStr) (validPath : CStr → Bool) (w : DaemonWorld δ κ)
    (e : Servers.Event δ κ Arrival (ℕ → Bool)) : Prop :=
  World.Fenced (daemonService cacheDir validPath) roundOps (fun malloc => ∀ i, malloc i = true)
    (FitArrival validPath) Clean w e

/-- No tag that was acknowledged is lost, whatever daemons are started, stopped or killed: the daemon
that has read the tag file last has what was acknowledged, by itself or by others before, and so has
the next that is started. -/
theorem tags_durable
    (hes : Machine.Along (fun w e => w.next (daemonService cacheDir validPath) e)
      (Fence cacheDir validPath) (World.start none) es)
    (h : runWorld (daemonService cacheDir validPath) (World.start none) es = .ok (w,os)) :
    (∀ d l, w.newest = some d → (w.servers d).memory = some l →
      tagEntries l.state = (OrderedMap.replay (acknowledged os)).entries) ∧
    tagEntries (startState cacheDir validPath (fun _ => true) w.file) =
      (OrderedMap.replay (acknowledged os)).entries := by
  have hstart : World.Current (fun l => HasTags validPath l.state.tags) (FileHasTags validPath) SaneLoop
      [] (World.start none : DaemonWorld δ κ) :=
    ⟨⟨NodeList.empty,⟨by simp [NodeList.empty],rfl,by rintro _ ⟨⟩,rfl⟩,Or.inr ⟨rfl,rfl⟩⟩,
      by simp [World.start],by simp [World.start,Servers.Server.memory]⟩
  have hend := World.run_current daemon_load daemon_step hstart hes h
  rw [List.nil_append] at hend
  exact ⟨fun d l hd hl => (hend.newest d l hd hl).entries,(hend.file.start fun _ => rfl).entries⟩

def tmpDir : CStr := CStr.ofLit "/tmp"

/-- A system on which nothing fails. -/
def openArrival (datagram : List Byte) : Arrival := ⟨openEnv fun _ => true,datagram⟩

/-- A daemon is started, stores a tag and is killed, and another one is started after it. -/
def killedAndStarted : List (Servers.Event ℕ ℕ Arrival (ℕ → Bool)) :=
  [.load 0 fun _ => true,.clear 0,.bind 0,.ready 0,.connect 0,
   .request 0 (openArrival (lit "1 register ")),.request 0 (openArrival (lit "1 add t /a ")),
   .kill 0,.load 1 fun _ => true]

lemma killedAndStarted_fence : Machine.Along
    (fun w e => w.next (daemonService tmpDir fun _ => true) e)
    (Fence tmpDir fun _ => true) (World.start none) killedAndStarted := by
  refine Machine.along_cons _ (fun _ => rfl) rfl ?_
  refine Machine.along_cons _ trivial rfl ?_
  refine Machine.along_cons _ trivial rfl ?_
  refine Machine.along_cons _ trivial rfl ?_
  refine Machine.along_cons _ trivial rfl ?_
  refine Machine.along_cons _ (World.fenced_request rfl rfl rfl ⟨rfl,rfl,by decide⟩
    (Or.inl rfl) ?_) rfl ?_
  · rintro tag path hop
    exact absurd (show MapOp.put tag path ∈ [] from hop) List.not_mem_nil
  refine Machine.along_cons _ (World.fenced_request rfl rfl rfl ⟨rfl,rfl,by decide⟩
    (Or.inl rfl) ?_) rfl ?_
  · rintro tag path hop
    have hput : MapOp.put tag path ∈ [.put (CStr.ofLit "t") (CStr.ofLit "/a")] := hop
    obtain ⟨rfl,rfl⟩ : tag = CStr.ofLit "t" ∧ path = CStr.ofLit "/a" := by simpa using hput
    decide
  refine Machine.along_cons _ trivial rfl ?_
  exact Machine.along_cons _ (fun _ => rfl) rfl trivial

theorem tags_durable_killed : ∃ w os,
    runWorld (daemonService tmpDir fun _ => true) (World.start none) killedAndStarted =
      .ok (w,os) ∧
    tagEntries (startState tmpDir (fun _ => true) (fun _ => true) w.file) =
      (OrderedMap.replay (acknowledged os)).entries := by
  obtain ⟨w,os,h⟩ : ∃ w os, runWorld (daemonService tmpDir fun _ => true)
      (World.start none) killedAndStarted = .ok (w,os) := ⟨_,_,rfl⟩
  exact ⟨w,os,h,(tags_durable killedAndStarted_fence h).2⟩

end Runs
end Nav.Daemon
