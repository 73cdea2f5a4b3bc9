import Nav.Daemon.Arguments
import Nav.Daemon.Invariant
import Nav.Lib.OrderedMap

/-! The tag list as an insertion-ordered map shared by all shells. What a tag is bound to, and
where it stands, is decided by the changes that were answered OK. -/
namespace Nav.Daemon
open Nav.C Nav.Lib

/-- The bindings in list order. -/
def tagEntries (s : State) : List (CStr × CStr) := s.tags.nodes.map fun t => (t.tag,t.path)

/-- The change a call stands for if it was answered OK: an `add` of two words binds the first
to the second, a `delete` unbinds its first word. -/
def ackedOp (c : Call) (o : Outcome) : Option (MapOp CStr CStr) :=
  if o.sent.map Datagram.payload = [ok] then
    match findCommand c.cmdStr, c.args.map (CStr.words isBlank) with
    | some .add, some [tag,path] => some (.put (trimmed tag) (trimmed path))
    | some .delete, some (tag::_) => some (.del (trimmed tag))
    | _, _ => none
  else none

/-- The acknowledged changes of a run, whichever shells asked for them. -/
def ackedLog (cs : List Call) (os : List Outcome) : List (MapOp CStr CStr) :=
  (cs.zip os).filterMap fun x => ackedOp x.1 x.2

/-- The calls that are considered: there is memory, and the arguments are there where they are
tokenised and as short as the receive buffer leaves them. -/
structure TagCall (c : Call) : Prop where
  args : c.HasArgs
  memory : c.env.nodeMalloc = true ∧ c.env.dataMalloc = true
  short : ∀ line, c.args = some line → line.length ≤ 93

structure StoreInv (s : State) : Prop where
  wellFormed : s.WellFormed
  short : ∀ t ∈ s.tags.nodes, t.path.length ≤ 93

/-- What a registered shell at `dest` is answered, given the acknowledged changes so far. -/
structure TagReplies (log : List (MapOp CStr CStr)) (dest : List Byte) (c : Call) (o : Outcome) :
    Prop where
  get : findCommand c.cmdStr = some .get → ∀ line tag, c.args = some line →
    (line.words isBlank).head? = some tag →
    (∀ path, Binds log (trimmed tag) path →
      o.sent = [⟨dest,path.bytes ++ [newline]⟩] ∧ o.overrun = false) ∧
    ((∀ path, ¬ Binds log (trimmed tag) path) → o.sent = [⟨dest,bad⟩])
  add : findCommand c.cmdStr = some .add → ∀ line, c.args = some line →
    (o.sent = [⟨dest,ok⟩] ↔ ∃ tag path, line.words isBlank = [tag,path] ∧
      validPath c.env (trimmed path) = true)
  delete : findCommand c.cmdStr = some .delete → ∀ line, c.args = some line →
    (o.sent = [⟨dest,ok⟩] ↔ ∃ tag, (line.words isBlank).head? = some tag ∧
      ∃ path, Binds log (trimmed tag) path)

section Entries
variable {s : State} {m : OrderedMap CStr CStr} (hm : tagEntries s = m.entries)
include hm

/-- The map looks a tag up as the list does. -/
theorem lookup_tagEntries (tag : CStr) : m.lookup tag = (s.tag? tag).map Tag.path := by
  simp only [OrderedMap.lookup,← hm,tagEntries,List.find?_map,State.tag?,Option.map_map]
  rfl

lemma mem_keys_tagEntries (tag : CStr) : tag ∈ m.keys ↔ s.tag? tag ≠ none := by
  rw [OrderedMap.mem_keys_iff,lookup_tagEntries hm]
  simp

/-- Writing through the found node rebinds the tag in its place. -/
theorem tagEntries_rebound (hw : s.WellFormed) {tag : CStr} {t : Tag} (ht : s.tag? tag = some t)
    (path : CStr) (env : Env) :
    tagEntries (saveTags env
      {s with tags := updateNode compareTagTag s.tags tag fun t => {t with path}}) =
      (m.put tag path).entries := by
  have hk : tag ∈ m.keys := (mem_keys_tagEntries hm tag).mpr (by simp [ht])
  rw [OrderedMap.put_entries,if_pos hk,← hm]
  simp only [tagEntries,saveTags,updateNode_nodes,compareTagTag_eq_zero,OrderedMap.rebind]
  rw [modifyFirst_eq_map Tag.tag _ _ _ hw.tags,List.map_map,List.map_map]
  refine List.map_congr_left fun u _ => ?_
  by_cases hu : u.tag = tag
  · simp [hu]
  · simp [hu]

lemma tagEntries_added {tag : CStr} (ht : s.tag? tag = none) (path : CStr) (env : Env) :
    tagEntries (saveTags env {s with tags := listAppendNode s.tags ⟨tag,path⟩}) =
      (m.put tag path).entries := by
  have hk : tag ∉ m.keys := fun h => (mem_keys_tagEntries hm tag).mp h ht
  rw [OrderedMap.put_entries,if_neg hk,← hm]
  simp [tagEntries,saveTags]

lemma tagEntries_deleted (hw : s.WellFormed) {tag : CStr} {t : Tag} (ht : s.tag? tag = some t)
    (env : Env) :
    tagEntries (saveTags env {s with tags := (listDeleteNode compareTagTag s.tags tag).list}) =
      (m.del tag).entries := by
  simp only [tagEntries,saveTags,deleteTag ht,OrderedMap.del,← hm]
  rw [eraseP_eq_filter Tag.tag _ _ hw.tags,List.filter_map]
  rfl

end Entries

lemma bad_ne_ok : bad ≠ ok := by decide

section Step
variable {s : State} {c : Call} {o : Outcome}

lemma ackedOp_other {cmd : Command} (hc : findCommand c.cmdStr = some cmd) (ha : cmd ≠ .add)
    (hd : cmd ≠ .delete) : ackedOp c o = none := by
  unfold ackedOp
  rw [hc]
  split_ifs
  · cases cmd <;> first | rfl | contradiction
  · rfl

lemma ackedOp_silent (h : o.sent.map Datagram.payload ≠ [ok]) : ackedOp c o = none := by
  rw [ackedOp,if_neg h]

lemma ackedOp_add {line tag path : CStr} (hc : findCommand c.cmdStr = some .add)
    (hargs : c.args = some line) (hadd : (addArgs line).1 = some (tag,path))
    (h : o.sent.map Datagram.payload = [ok]) : ackedOp c o = some (.put tag path) := by
  obtain ⟨w₁,w₂,hw,rfl,rfl⟩ := (addArgs_eq_some line).mp hadd
  simp [ackedOp,h,hc,hargs,hw]

lemma ackedOp_delete {line tag : CStr} (hc : findCommand c.cmdStr = some .delete)
    (hargs : c.args = some line) (htag : (tagArg line).1 = some tag)
    (h : o.sent.map Datagram.payload = [ok]) : ackedOp c o = some (.del tag) := by
  obtain ⟨w,hw,rfl⟩ := (tagArg_eq_some line).mp htag
  obtain ⟨ws,hws⟩ := List.head?_eq_some_iff.mp hw
  simp [ackedOp,h,hc,hargs,hws]

/-- One step: the list follows the map through the change that was acknowledged, if any. -/
theorem Exit.tagEntries_acked {m : OrderedMap CStr CStr} (h : Exit c s o) (hw : s.WellFormed)
    (hm : tagEntries s = m.entries) :
    tagEntries o.state = ((ackedOp c o).elim m m.apply).entries := by
  cases h with
  | rebound hc hs hargs hadd hv ht =>
    rw [ackedOp_add hc hargs hadd rfl]
    exact tagEntries_rebound hm hw ht _ _
  | added hc hs hargs hadd hv ht =>
    rw [ackedOp_add hc hargs hadd rfl]
    exact tagEntries_added hm ht _ _
  | deleted hc hs hargs htag ht =>
    rw [ackedOp_delete hc hargs htag rfl]
    exact tagEntries_deleted hm hw ht _
  | unknown | ignored | registerNoMemory | deleteBlank =>
    rw [ackedOp_silent (by simp [quiet])]
    exact hm
  | addMalformed | addInvalid | addNoMemory | deleteAbsent =>
    rw [ackedOp_silent (by simp [reply,bad_ne_ok])]
    exact hm
  | registeredAgain hc | registered hc | unregistered hc | shown hc | listed hc | getBlank hc
  | getAbsent hc | got hc | pushNothing hc | pushInvalid hc | pushedAgain hc | pushNoMemory hc
  | pushed hc | popEmpty hc | popped hc | actionsShown hc | reset hc =>
    rw [ackedOp_other hc (by simp) (by simp)]
    exact hm

/-- Tags are changed for registered shells only. -/
theorem Exit.tags_unregistered (h : Exit c s o) (hs : s.shell? c.pid = none) :
    o.state.tags = s.tags := by
  cases h <;> first | rfl | simp_all

lemma StoreInv.change {s' : State} (hi : StoreInv s) (hc : TagCall c) (h : Change c s s') :
    StoreInv s' := by
  refine ⟨hi.wellFormed.change h,h.forall_tags hi.short fun tag path hst => ?_⟩
  obtain ⟨line,hargs,hadd⟩ := hst.args
  have h1 := addArgs_length line hadd
  have h2 := hc.short line hargs
  show path.length ≤ 93
  omega

end Step

section Replies
variable {s : State} {c : Call} {o : Outcome} {log : List (MapOp CStr CStr)} {sh : Shell}
  {line : CStr}

lemma binds_tagEntries (hlog : tagEntries s = (OrderedMap.replay log).entries)
    (tag path : CStr) : Binds log tag path ↔ (s.tag? tag).map Tag.path = some path := by
  rw [← lookup_replay,lookup_tagEntries hlog]

lemma Exit.replies_get (h : Exit c s o) (hi : StoreInv s)
    (hlog : tagEntries s = (OrderedMap.replay log).entries) (hs : s.shell? c.pid = some sh)
    (hc : findCommand c.cmdStr = some .get) (hargs : c.args = some line) {tag : CStr}
    (htag : (tagArg line).1 = some tag) :
    (∀ path, Binds log tag path →
      o.sent = [⟨sh.sunPath,path.bytes ++ [newline]⟩] ∧ o.overrun = false) ∧
    ((∀ path, ¬ Binds log tag path) → o.sent = [⟨sh.sunPath,bad⟩]) := by
  have hbinds := binds_tagEntries hlog
  cases h with
  | ignored _ hs' => simp [hs] at hs'
  | getBlank _ _ hargs' htag' =>
    obtain rfl := Option.mem_unique hargs hargs'
    simp [htag] at htag'
  | getAbsent _ hs' hargs' htag' ht =>
    obtain rfl := Option.mem_unique hargs hargs'
    obtain rfl := Option.mem_unique hs hs'
    obtain rfl := Option.mem_unique htag htag'
    refine ⟨fun path hb => ?_,fun _ => rfl⟩
    simp [hbinds,ht] at hb
  | got _ hs' hargs' htag' ht =>
    obtain rfl := Option.mem_unique hargs hargs'
    obtain rfl := Option.mem_unique hs hs'
    obtain rfl := Option.mem_unique htag htag'
    refine ⟨fun path hb => ?_,fun hn => absurd ((hbinds _ _).mpr (by rw [ht]; rfl)) (hn _)⟩
    obtain rfl : _ = path := by simpa [hbinds,ht] using hb
    have hlen := hi.short _ (List.mem_of_find?_eq_some ht)
    simp only [CStr.length] at hlen
    simp [reply,pathBuf,OutBuf.sprintf,OutBuf.empty]
    omega
  | _ => simp_all

lemma Exit.replies_add (h : Exit c s o)
    (hm : c.env.nodeMalloc = true ∧ c.env.dataMalloc = true) (hs : s.shell? c.pid = some sh)
    (hc : findCommand c.cmdStr = some .add) (hargs : c.args = some line) :
    o.sent = [⟨sh.sunPath,ok⟩] ↔
      ∃ tag path, (addArgs line).1 = some (tag,path) ∧ validPath c.env path = true := by
  have hbad : ∀ args, (reply s sh bad args).sent ≠ [⟨sh.sunPath,ok⟩] := by simp [reply,bad_ne_ok]
  cases h with
  | ignored _ hs' => simp [hs] at hs'
  | addMalformed _ hs' hargs' hadd =>
    obtain rfl := Option.mem_unique hargs hargs'
    obtain rfl := Option.mem_unique hs hs'
    exact iff_of_false (hbad _) (by simp [hadd])
  | addInvalid _ hs' hargs' hadd hv =>
    obtain rfl := Option.mem_unique hargs hargs'
    obtain rfl := Option.mem_unique hs hs'
    refine iff_of_false (hbad _) ?_
    rintro ⟨tag,path,hadd',hv'⟩
    obtain ⟨rfl,rfl⟩ : _ ∧ _ := by simpa using hadd.symm.trans hadd'
    simp [hv] at hv'
  | addNoMemory _ _ _ _ _ _ hn => exact absurd hm hn
  | rebound _ hs' hargs' hadd hv | added _ hs' hargs' hadd hv =>
    obtain rfl := Option.mem_unique hargs hargs'
    obtain rfl := Option.mem_unique hs hs'
    exact iff_of_true rfl ⟨_,_,hadd,hv⟩
  | _ => simp_all

lemma Exit.replies_delete (h : Exit c s o)
    (hlog : tagEntries s = (OrderedMap.replay log).entries) (hs : s.shell? c.pid = some sh)
    (hc : findCommand c.cmdStr = some .delete) (hargs : c.args = some line) :
    o.sent = [⟨sh.sunPath,ok⟩] ↔
      ∃ tag, (tagArg line).1 = some tag ∧ ∃ path, Binds log tag path := by
  have hbinds := binds_tagEntries hlog
  cases h with
  | ignored _ hs' => simp [hs] at hs'
  | deleteBlank _ _ hargs' htag =>
    obtain rfl := Option.mem_unique hargs hargs'
    exact iff_of_false (by simp [quiet]) (by simp [htag])
  | deleteAbsent _ _ hargs' htag ht =>
    obtain rfl := Option.mem_unique hargs hargs'
    refine iff_of_false (by simp [reply,bad_ne_ok]) ?_
    rintro ⟨tag,htag',path,hb⟩
    obtain rfl := Option.mem_unique htag htag'
    simp [hbinds,ht] at hb
  | deleted _ hs' hargs' htag ht =>
    obtain rfl := Option.mem_unique hargs hargs'
    obtain rfl := Option.mem_unique hs hs'
    exact iff_of_true rfl ⟨_,htag,_,(hbinds _ _).mpr (by rw [ht]; rfl)⟩
  | _ => simp_all

/-- The replies follow from what the acknowledged changes bind. -/
theorem Exit.tagReplies (h : Exit c s o) (hi : StoreInv s)
    (hm : c.env.nodeMalloc = true ∧ c.env.dataMalloc = true)
    (hlog : tagEntries s = (OrderedMap.replay log).entries)
    (hs : s.shell? c.pid = some sh) : TagReplies log sh.sunPath c o where
  get hc line w hargs hw :=
    h.replies_get hi hlog hs hc hargs ((tagArg_eq_some line).mpr ⟨w,hw,rfl⟩)
  add hc line hargs := by
    rw [h.replies_add hm hs hc hargs]
    simp only [addArgs_eq_some]
    constructor
    · rintro ⟨_,_,⟨w₁,w₂,hw,rfl,rfl⟩,hv⟩
      exact ⟨w₁,w₂,hw,hv⟩
    · rintro ⟨w₁,w₂,hw,hv⟩
      exact ⟨_,_,⟨w₁,w₂,hw,rfl,rfl⟩,hv⟩
  delete hc line hargs := by
    rw [h.replies_delete hlog hs hc hargs]
    simp only [tagArg_eq_some]
    constructor
    · rintro ⟨_,⟨w,hw,rfl⟩,hb⟩
      exact ⟨w,hw,hb⟩
    · rintro ⟨w,hw,hb⟩
      exact ⟨_,⟨w,hw,rfl⟩,hb⟩

end Replies

section Run
variable {s₀ : State}

lemma ackedLog_snoc {cs : List Call} {os : List Outcome} (h : os.length = cs.length) (c : Call)
    (o : Outcome) : ackedLog (cs ++ [c]) (os ++ [o]) =
      ackedLog cs os ++ (ackedOp c o).toList := by
  rw [ackedLog,List.zip_append h.symm,List.filterMap_append,ackedLog]
  cases hop : ackedOp c o <;> simp [hop]

lemma replay_append_toList (log : List (MapOp CStr CStr)) (op : Option (MapOp CStr CStr)) :
    OrderedMap.replay (log ++ op.toList) =
      op.elim (OrderedMap.replay log) (OrderedMap.replay log).apply := by
  cases op <;> simp

/-- Over a whole run the list is the map that the acknowledged changes build. -/
theorem run_tagEntries {s : State} {cs : List Call} {os : List Outcome} (hw : s₀.WellFormed)
    (htags : s₀.tags = NodeList.empty) (hr : runCalls s₀ cs = .ok (s,os)) :
    tagEntries s = (OrderedMap.replay (ackedLog cs os)).entries := by
  induction cs using List.reverseRecOn generalizing s os with
  | nil =>
    obtain ⟨rfl,rfl⟩ : s₀ = s ∧ [] = os := by simpa using hr
    simp [tagEntries,htags,NodeList.empty,ackedLog,OrderedMap.empty]
  | append_singleton cs c ih =>
    obtain ⟨t,os',o,hr',hh,rfl⟩ := (Machine.run_snoc handle).mp hr
    obtain ⟨he,rfl⟩ := handle_exit hh
    rw [ackedLog_snoc (Machine.run_length handle hr'),replay_append_toList]
    exact he.tagEntries_acked (run_wellFormed hw hr') (ih hr')

/-- The tag list is an insertion-ordered map shared by all shells: after every run from an empty
list it holds what the acknowledged changes bind, in the order in which the present tags came
in, every further call of a registered shell is answered accordingly, and a call from an
unregistered PID leaves it alone. -/
theorem tagStore_refines (s₀ : State) (h₀ : Reachable s₀) (htags : s₀.tags = NodeList.empty)
    (cs : List Call) (hcs : ∀ c ∈ cs, TagCall c) :
    ∃ s os, runCalls s₀ cs = .ok (s,os) ∧
      (∀ tag path, ⟨tag,path⟩ ∈ s.tags.nodes ↔ Binds (ackedLog cs os) tag path) ∧
      (s.tags.nodes.map Tag.tag).Nodup ∧
      (s.tags.nodes.map Tag.tag).Pairwise (fun a b => ∃ p q,
        Born (ackedLog cs os) a p ∧ Born (ackedLog cs os) b q ∧ p.length < q.length) ∧
      ∀ c, TagCall c → ∃ s' o, handle s c = .ok (s',o) ∧
        (s.shell? c.pid = none → s'.tags = s.tags) ∧
        (s.shell? c.pid ≠ none → TagReplies (ackedLog cs os) (sockPath s.cacheDir c.pid) c o) := by
  have hstart : StoreInv s₀ := ⟨h₀.wellFormed,by simp [htags,NodeList.empty]⟩
  obtain ⟨s,os,hr,hi⟩ := Machine.run_total handle StoreInv TagCall (fun s c hi hc => by
    obtain ⟨s',o,hh,_⟩ := handle_total hi.wellFormed hc.args
    exact ⟨s',o,hh,hi.change hc (handle_change hh)⟩) hstart hcs
  have hlog := run_tagEntries h₀.wellFormed htags hr
  have hkeys : (OrderedMap.replay (ackedLog cs os)).keys = s.tags.nodes.map Tag.tag := by
    rw [OrderedMap.keys,← hlog,tagEntries,List.map_map]
    rfl
  refine ⟨s,os,hr,?_,hi.wellFormed.tags,?_,?_⟩
  · intro tag path
    rw [binds_tagEntries hlog]
    constructor
    · intro hm
      have hf : s.tag? tag = some ⟨tag,path⟩ := find?_of_mem Tag.tag _ hi.wellFormed.tags hm
      rw [hf]
      rfl
    · intro hf
      obtain ⟨t,ht,rfl⟩ := Option.map_eq_some_iff.mp hf
      rw [← tag?_tag ht]
      exact List.mem_of_find?_eq_some ht
  · rw [← hkeys]
    exact keys_replay_sorted _
  · intro c hc
    obtain ⟨s',o,hh,_⟩ := handle_total hi.wellFormed hc.args
    obtain ⟨he,rfl⟩ := handle_exit hh
    refine ⟨o.state,o,hh,he.tags_unregistered,fun hs => ?_⟩
    obtain ⟨sh,hs⟩ := Option.ne_none_iff_exists'.mp hs
    rw [← hi.wellFormed.sunPath_eq hs]
    exact he.tagReplies hi hc.memory hlog hs

theorem tagStore_refines_add_get : ∃ s os o,
    runCalls (startState (CStr.ofLit "/c") (fun _ => true) (fun _ => true) none)
      [⟨openEnv fun _ => true,CStr.ofLit "register",1,none⟩,
       ⟨openEnv fun _ => true,CStr.ofLit "add",1,some (CStr.ofLit "t /a")⟩] = .ok (s,os) ∧
    handle s ⟨openEnv fun _ => true,CStr.ofLit "get",1,some (CStr.ofLit "t")⟩ = .ok (s,o) ∧
    o.sent = [⟨lit "/c/1.sock",lit "/a\n"⟩] := by
  have hreg : TagCall ⟨openEnv fun _ => true,CStr.ofLit "register",1,none⟩ :=
    ⟨by simp [Call.HasArgs]; decide,⟨rfl,rfl⟩,by simp⟩
  have hadd : TagCall ⟨openEnv fun _ => true,CStr.ofLit "add",1,some (CStr.ofLit "t /a")⟩ :=
    ⟨by simp [Call.HasArgs],⟨rfl,rfl⟩,by rintro _ ⟨⟩; decide⟩
  have hget : TagCall ⟨openEnv fun _ => true,CStr.ofLit "get",1,some (CStr.ofLit "t")⟩ :=
    ⟨by simp [Call.HasArgs],⟨rfl,rfl⟩,by rintro _ ⟨⟩; decide⟩
  obtain ⟨s,os,hr,_,_,_,hnext⟩ := tagStore_refines
    (startState (CStr.ofLit "/c") (fun _ => true) (fun _ => true) none)
    ⟨_,_,_,_,[],[],rfl⟩ rfl
    [⟨openEnv fun _ => true,CStr.ofLit "register",1,none⟩,
     ⟨openEnv fun _ => true,CStr.ofLit "add",1,some (CStr.ofLit "t /a")⟩] (by simp [hreg,hadd])
  obtain ⟨s',o,hh,_,hreply⟩ := hnext _ hget
  obtain ⟨rfl,rfl⟩ : _ = s ∧ _ = os := by simpa using Except.ok.inj hr
  obtain ⟨rfl,rfl⟩ : _ = s' ∧ _ = o := by simpa using Except.ok.inj hh
  refine ⟨_,_,_,hr,hh,?_⟩
  exact (((hreply (by decide)).get rfl _ (CStr.ofLit "t") rfl (by decide)).1 (CStr.ofLit "/a")
    ⟨[],[],by decide,by simp⟩).1

end Run
end Nav.Daemon
