import Nav.Daemon.Exits

/-! What handling one call can do to the state: it leaves the state alone or makes one of eight
changes. -/
namespace Nav.Daemon
open Nav.C Nav.Lib

/-- The changes a call can make. -/
inductive Change (c : Call) (s : State) : State → Prop
  | same : Change c s s
  | registered (hc : findCommand c.cmdStr = some .register) (h : s.shell? c.pid = none)
      (hm : c.env.nodeMalloc = true ∧ c.env.dataMalloc = true) :
      Change c s {s with shells := listAppendNode s.shells (newShell s.cacheDir c.pid)}
  | unregistered {sh} (hc : findCommand c.cmdStr = some .unregister)
      (h : s.shell? c.pid = some sh) :
      Change c s {s with shells := (listDeleteNode compareShellPid s.shells c.pid).list}
  | rebound {sh line tag path t} (hc : findCommand c.cmdStr = some .add)
      (h : s.shell? c.pid = some sh) (hargs : c.args = some line)
      (hadd : (addArgs line).1 = some (tag,path)) (hv : validPath c.env path = true)
      (ht : s.tag? tag = some t) :
      Change c s (saveTags c.env
        {s with tags := updateNode compareTagTag s.tags tag fun t => {t with path}})
  | added {sh line tag path} (hc : findCommand c.cmdStr = some .add)
      (h : s.shell? c.pid = some sh) (hargs : c.args = some line)
      (hadd : (addArgs line).1 = some (tag,path)) (hv : validPath c.env path = true)
      (ht : s.tag? tag = none) (hm : c.env.nodeMalloc = true ∧ c.env.dataMalloc = true) :
      Change c s (saveTags c.env {s with tags := listAppendNode s.tags ⟨tag,path⟩})
  | deleted {sh line tag t} (hc : findCommand c.cmdStr = some .delete)
      (h : s.shell? c.pid = some sh) (hargs : c.args = some line)
      (htag : (tagArg line).1 = some tag) (ht : s.tag? tag = some t) :
      Change c s (saveTags c.env
        {s with tags := (listDeleteNode compareTagTag s.tags tag).list})
  | pushed {sh line} (hc : findCommand c.cmdStr = some .push)
      (h : s.shell? c.pid = some sh) (hargs : c.args = some line)
      (hv : validPath c.env (trimmed line) = true)
      (htop : sh.actions.nodes.head?.map Action.path ≠ some (trimmed line))
      (hm : c.env.nodeMalloc = true ∧ c.env.dataMalloc = true) :
      Change c s (setActions s c.pid (listPrependNode sh.actions ⟨trimmed line⟩))
  | popped {sh a as} (hc : findCommand c.cmdStr = some .pop)
      (h : s.shell? c.pid = some sh) (ha : sh.actions.nodes = a::as) :
      Change c s (setActions s c.pid (listDeleteNode compareActionPath sh.actions a.path).list)
  | reset {sh} (hc : findCommand c.cmdStr = some .reset) (h : s.shell? c.pid = some sh) :
      Change c s (setActions s c.pid (listDeleteAll sh.actions).1)

/-- Every exit makes one of the changes. -/
theorem Exit.change {c : Call} {s : State} {o : Outcome} (h : Exit c s o) : Change c s o.state := by
  cases h with
  | registered hc hs hm => exact .registered hc hs hm
  | unregistered hc hs => exact .unregistered hc hs
  | rebound hc hs hargs hadd hv ht => exact .rebound hc hs hargs hadd hv ht
  | added hc hs hargs hadd hv ht hm => exact .added hc hs hargs hadd hv ht hm
  | deleted hc hs hargs htag ht => exact .deleted hc hs hargs htag ht
  | pushed hc hs hargs hv htop hm => exact .pushed hc hs hargs hv htop hm
  | popped hc hs ha => exact .popped hc hs ha
  | reset hc hs => exact .reset hc hs
  | _ => exact .same

lemma Change.cacheDir {c : Call} {s s' : State} (h : Change c s s') :
    s'.cacheDir = s.cacheDir := by
  cases h <;> rfl

/-- The call is an `add` that binds `tag` to `path`: it comes from a registered shell, has
exactly two words, the path exists, and there is memory for an entry that is needed. -/
structure Stores (s : State) (c : Call) (tag path : CStr) : Prop where
  command : findCommand c.cmdStr = some .add
  shell : ∃ sh, s.shell? c.pid = some sh
  args : ∃ line, c.args = some line ∧ (addArgs line).1 = some (tag,path)
  valid : validPath c.env path = true
  room : s.tag? tag ≠ none ∨ c.env.nodeMalloc = true ∧ c.env.dataMalloc = true

/-- A change brings no tag in but the one that the call stores. -/
theorem Change.forall_tags {c : Call} {s s' : State} {p : Tag → Prop} (h : Change c s s')
    (hp : ∀ t ∈ s.tags.nodes, p t) (hnew : ∀ tag path, Stores s c tag path → p ⟨tag,path⟩) :
    ∀ t ∈ s'.tags.nodes, p t := by
  cases h with
  | rebound hc hs hargs hadd hv ht =>
    apply forall_mem_modifyFirst _ _ _ hp
    intro old _ hsame
    have hst := hnew _ _ ⟨hc,⟨_,hs⟩,⟨_,hargs,hadd⟩,hv,Or.inl (by simp [ht])⟩
    rwa [← (compareTagTag_eq_zero _ _).mp (of_decide_eq_true hsame)] at hst
  | added hc hs hargs hadd hv ht hm =>
    exact forall_listAppendNode _ hp (hnew _ _ ⟨hc,⟨_,hs⟩,⟨_,hargs,hadd⟩,hv,Or.inr hm⟩)
  | deleted => exact forall_listDeleteNode _ _ _ hp
  | _ => exact hp

lemma handle_change {s s' : State} {c : Call} {o : Outcome} (h : handle s c = .ok (s',o)) :
    Change c s s' := by
  obtain ⟨he,rfl⟩ := handle_exit h
  exact he.change

end Nav.Daemon
