import Nav.Daemon.Restart
import Nav.Daemon.TagStore

/-! What an `OK` says about the tag file. The return code of `write_tag_file` is ignored, so the
file follows the list only as long as it can be opened. -/
namespace Nav.Daemon
open Nav.C Nav.Lib

/-- The call is a `delete` of a stored tag by a registered shell. -/
structure Deletes (s : State) (c : Call) (tag : CStr) : Prop where
  command : findCommand c.cmdStr = some .delete
  shell : ∃ sh, s.shell? c.pid = some sh
  args : ∃ line, c.args = some line ∧ (tagArg line).1 = some tag
  stored : s.tag? tag ≠ none

/-- The change of the tags that the daemon has to carry out for a call. -/
inductive Accepted (s : State) (c : Call) : MapOp CStr CStr → Prop
  | put {tag path} (h : Stores s c tag path) : Accepted s c (.put tag path)
  | del {tag} (h : Deletes s c tag) : Accepted s c (.del tag)

/-- The tags of a well-formed state as a map. -/
def State.WellFormed.tagMap {s : State} (hw : s.WellFormed) : OrderedMap CStr CStr :=
  ⟨tagEntries s,by
    have hk : (tagEntries s).map Prod.fst = s.tags.nodes.map Tag.tag := by
      rw [tagEntries,List.map_map]
      rfl
    rw [hk]
    exact hw.tags⟩

/-- The serialisation of a map: every binding on its own line, then an empty line. -/
def mapText (m : OrderedMap CStr CStr) : List Byte :=
  (m.entries.map fun e => e.1.bytes ++ equals::e.2.bytes ++ [newline]).flatten ++ [newline]

/-- The file can be opened, or holds the text already that the change leads to. -/
def Kept {s : State} (hw : s.WellFormed) (c : Call) : Prop :=
  ∀ op, Accepted s c op → c.env.fopen = true ∨ s.tagFile = some (mapText (hw.tagMap.apply op))

/-- What an `OK` is taken to promise. -/
def OkStored (c : Call) (o : Outcome) : Prop :=
  findCommand c.cmdStr = some .add ∨ findCommand c.cmdStr = some .delete →
    o.sent.map Datagram.payload = [ok] → o.state.tagFile = some (tagFileText o.state.tags)

section Saving
variable {s : State} {c : Call} {o : Outcome}

lemma tagFileText_eq {m : OrderedMap CStr CStr} (h : tagEntries s = m.entries) :
    tagFileText s.tags = mapText m := by
  rw [mapText,← h,tagEntries,List.map_map]
  rfl

/-- Saving makes the file hold the list, or leaves it as it was. -/
theorem saveTags_tagFile {m : OrderedMap CStr CStr} (env : Env) (tags : NodeList Tag)
    (hm : tagEntries (saveTags env {s with tags}) = m.entries) :
    (saveTags env {s with tags}).tagFile = some (tagFileText (saveTags env {s with tags}).tags) ↔
      env.fopen = true ∨ s.tagFile = some (mapText m) := by
  rw [tagFileText_eq hm]
  cases hf : env.fopen with
  | true =>
    have htext : tagFileText tags = mapText m := tagFileText_eq (s:=saveTags env {s with tags}) hm
    simp [saveTags,writeTagFile,hf,htext]
  | false => simp [saveTags,writeTagFile,hf]

lemma Stores.addArgs {line tag path : CStr} (h : Stores s c tag path) (hargs : c.args = some line) :
    (addArgs line).1 = some (tag,path) := by
  obtain ⟨line',hargs',hadd⟩ := h.args
  obtain rfl := Option.mem_unique hargs hargs'
  exact hadd

lemma Deletes.tagArg {line tag : CStr} (h : Deletes s c tag) (hargs : c.args = some line) :
    (tagArg line).1 = some tag := by
  obtain ⟨line',hargs',htag⟩ := h.args
  obtain rfl := Option.mem_unique hargs hargs'
  exact htag

lemma Accepted.unique {op op' : MapOp CStr CStr} (h : Accepted s c op) (h' : Accepted s c op') :
    op = op' := by
  cases h with
  | put h =>
    obtain ⟨line,hargs,hadd⟩ := h.args
    cases h' with
    | put h' =>
      obtain ⟨rfl,rfl⟩ : _ ∧ _ := by simpa using hadd.symm.trans (h'.addArgs hargs)
      rfl
    | del h' => simpa [h.command] using h'.command
  | del h =>
    obtain ⟨line,hargs,htag⟩ := h.args
    cases h' with
    | put h' => simpa [h.command] using h'.command
    | del h' =>
      obtain rfl := Option.mem_unique htag (h'.tagArg hargs)
      rfl

/-- Only the shell that is found for the PID has its changes accepted. -/
theorem Accepted.shell {op : MapOp CStr CStr} (h : Accepted s c op) :
    ∃ sh, s.shell? c.pid = some sh := by
  cases h with
  | put h => exact h.shell
  | del h => exact h.shell

lemma Accepted.command {op : MapOp CStr CStr} (h : Accepted s c op) :
    findCommand c.cmdStr = some .add ∨ findCommand c.cmdStr = some .delete := by
  cases h with
  | put h => exact Or.inl h.command
  | del h => exact Or.inr h.command

/-- An `add` that stores nothing is not accepted as anything. -/
theorem not_accepted_add (hc : findCommand c.cmdStr = some .add)
    (h : ∀ tag path, ¬ Stores s c tag path) (op : MapOp CStr CStr) : ¬ Accepted s c op := by
  intro ha
  cases ha with
  | put hst => exact h _ _ hst
  | del hd => simpa [hc] using hd.command

lemma not_accepted_delete (hc : findCommand c.cmdStr = some .delete)
    (h : ∀ tag, ¬ Deletes s c tag) (op : MapOp CStr CStr) : ¬ Accepted s c op := by
  intro ha
  cases ha with
  | put hst => simpa [hc] using hst.command
  | del hd => exact h _ hd

/-- Each exit of `add` and `delete` either refuses, or carries an accepted change out, saves the
list and answers `OK`. -/
theorem Exit.accepted_cases (h : Exit c s o) (hw : s.WellFormed)
    (hc : findCommand c.cmdStr = some .add ∨ findCommand c.cmdStr = some .delete) :
    (o.sent.map Datagram.payload ≠ [ok] ∧ ∀ op, ¬ Accepted s c op) ∨
    ∃ op tags sh args, Accepted s c op ∧
      tagEntries (saveTags c.env {s with tags}) = (hw.tagMap.apply op).entries ∧
      o = reply (saveTags c.env {s with tags}) sh ok args := by
  have hbad : ∀ sh args, (reply s sh bad args).sent.map Datagram.payload ≠ [ok] := by
    simp [reply,bad_ne_ok]
  have hquiet : ∀ args, (quiet s args).sent.map Datagram.payload ≠ [ok] := by simp [quiet]
  cases h with
  | ignored _ hs =>
    refine Or.inl ⟨hquiet _,?_⟩
    intro op ha
    obtain ⟨sh,hsh⟩ := ha.shell
    simp [hs] at hsh
  | addMalformed hcmd _ hargs hadd =>
    refine Or.inl ⟨hbad _ _,not_accepted_add hcmd fun tag path hst => ?_⟩
    simp [hst.addArgs hargs] at hadd
  | addInvalid hcmd _ hargs hadd hv =>
    refine Or.inl ⟨hbad _ _,not_accepted_add hcmd fun tag path hst => ?_⟩
    obtain ⟨rfl,rfl⟩ : _ ∧ _ := by simpa using hadd.symm.trans (hst.addArgs hargs)
    have hv' := hst.valid
    simp [hv] at hv'
  | addNoMemory hcmd _ hargs hadd hv ht hn =>
    refine Or.inl ⟨hbad _ _,not_accepted_add hcmd fun tag path hst => ?_⟩
    obtain ⟨rfl,rfl⟩ : _ ∧ _ := by simpa using hadd.symm.trans (hst.addArgs hargs)
    exact hn (hst.room.resolve_left (fun hne => hne ht))
  | deleteBlank hcmd _ hargs htag =>
    refine Or.inl ⟨hquiet _,not_accepted_delete hcmd fun tag hd => ?_⟩
    simp [hd.tagArg hargs] at htag
  | deleteAbsent hcmd _ hargs htag ht =>
    refine Or.inl ⟨hbad _ _,not_accepted_delete hcmd fun tag hd => ?_⟩
    obtain rfl := Option.mem_unique htag (hd.tagArg hargs)
    exact hd.stored ht
  | rebound hcmd hs hargs hadd hv ht =>
    exact Or.inr ⟨_,_,_,_,.put ⟨hcmd,⟨_,hs⟩,⟨_,hargs,hadd⟩,hv,Or.inl (by simp [ht])⟩,
      tagEntries_rebound (m:=hw.tagMap) rfl hw ht _ _,rfl⟩
  | added hcmd hs hargs hadd hv ht hm =>
    exact Or.inr ⟨_,_,_,_,.put ⟨hcmd,⟨_,hs⟩,⟨_,hargs,hadd⟩,hv,Or.inr hm⟩,
      tagEntries_added (m:=hw.tagMap) rfl ht _ _,rfl⟩
  | deleted hcmd hs hargs htag ht =>
    exact Or.inr ⟨_,_,_,_,.del ⟨hcmd,⟨_,hs⟩,⟨_,hargs,htag⟩,by simp [ht]⟩,
      tagEntries_deleted (m:=hw.tagMap) rfl hw ht _,rfl⟩
  | _ => simp_all

/-- The promise of an `OK` is kept exactly when the file is. -/
theorem Exit.okStored (h : Exit c s o) (hw : s.WellFormed)
    (hc : findCommand c.cmdStr = some .add ∨ findCommand c.cmdStr = some .delete) :
    OkStored c o ↔ Kept hw c := by
  rcases h.accepted_cases hw hc with ⟨ho,ha⟩ | ⟨op,tags,sh,args,ha,hm,rfl⟩
  · exact iff_of_true (fun _ h => absurd h ho) (fun op h => absurd h (ha op))
  · have hiff := saveTags_tagFile c.env tags hm
    constructor
    · intro h op' ha'
      obtain rfl := ha.unique ha'
      exact hiff.mp (h hc rfl)
    · exact fun h _ _ => hiff.mpr (h op ha)

/-- After an accepted change the file is what `write_tag_file` makes of it. -/
theorem Exit.saved (h : Exit c s o) (hw : s.WellFormed) {op : MapOp CStr CStr}
    (ha : Accepted s c op) :
    o.state.tagFile = (writeTagFile c.env.fopen o.state.tags s.tagFile).2 := by
  rcases h.accepted_cases hw ha.command with ⟨_,hn⟩ | ⟨_,tags,_,_,_,_,rfl⟩
  · exact absurd ha (hn op)
  · rfl

/-- In every reachable state an `add` or `delete` keeps the promise of its `OK` exactly when the
file can be opened or holds the right text already; and in a run whose calls all are of that
kind every `OK` stands for a file that holds the list. -/
theorem okStored_iff (s : State) (hs : Reachable s) :
    (∀ c, findCommand c.cmdStr = some .add ∨ findCommand c.cmdStr = some .delete →
      ((∀ s' o, handle s c = .ok (s',o) → OkStored c o) ↔ Kept hs.wellFormed c)) ∧
    (∀ cs s' os,
      Machine.Along handle (fun s c => ∀ hw : s.WellFormed, Kept hw c) s cs →
      runCalls s cs = .ok (s',os) → List.Forall₂ OkStored cs os) := by
  constructor
  · intro c hc
    constructor
    · intro h
      by_cases hargs : c.HasArgs
      · obtain ⟨s',o,hh,_⟩ := handle_total hs.wellFormed hargs
        exact ((handle_exit hh).1.okStored hs.wellFormed hc).mp (h s' o hh)
      · -- the daemon crashes on a NULL argument, before it accepts anything
        have hnone : c.args = none := by
          by_contra hne
          exact hargs fun _ => hne
        rintro op (⟨ha⟩ | ⟨ha⟩)
        · obtain ⟨line,hl,_⟩ := ha.args
          simp [hnone] at hl
        · obtain ⟨line,hl,_⟩ := ha.args
          simp [hnone] at hl
    · intro hk s' o hh
      exact ((handle_exit hh).1.okStored hs.wellFormed hc).mpr hk
  · intro cs s' os hcs hr
    refine Machine.run_forall₂ handle State.WellFormed (fun t c t' o hw hk hh => ?_)
      hs.wellFormed hcs hr
    refine ⟨hw.change (handle_change hh),fun hc => ?_⟩
    exact ((handle_exit hh).1.okStored hw hc).mpr (hk hw) hc

/-- An `add` is answered `OK` although the tag file cannot be opened. -/
theorem okStored_fails : ¬ ∀ s, Reachable s → ∀ c,
    findCommand c.cmdStr = some .add ∨ findCommand c.cmdStr = some .delete →
    s.shell? c.pid ≠ none → ∀ s' o, handle s c = .ok (s',o) → OkStored c o := by
  intro h
  have hp := h _ ⟨CStr.ofLit "/c",fun _ => true,fun _ => true,none,
    [⟨openEnv fun _ => true,CStr.ofLit "register",1,none⟩],_,rfl⟩
    ⟨{openEnv fun _ => true with fopen := false},CStr.ofLit "add",1,some (CStr.ofLit "t /a")⟩
    (by decide) (by decide) _ _ rfl (by decide) rfl
  revert hp
  decide

theorem okStored_register_add : ∃ s os,
    runCalls (startState (CStr.ofLit "/c") (fun _ => true) (fun _ => true) none)
      [⟨openEnv fun _ => true,CStr.ofLit "register",1,none⟩] = .ok (s,os) ∧
    ∀ s' o, handle s ⟨openEnv fun _ => true,CStr.ofLit "add",1,some (CStr.ofLit "t /a")⟩ =
      .ok (s',o) →
      OkStored ⟨openEnv fun _ => true,CStr.ofLit "add",1,some (CStr.ofLit "t /a")⟩ o :=
  ⟨_,_,rfl,((okStored_iff _ ⟨CStr.ofLit "/c",fun _ => true,fun _ => true,none,
    [⟨openEnv fun _ => true,CStr.ofLit "register",1,none⟩],_,rfl⟩).1 _ (by decide)).mpr
    fun _ _ => Or.inl rfl⟩

end Saving
end Nav.Daemon
