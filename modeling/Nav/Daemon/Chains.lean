import Nav.Daemon.Invariant
import Nav.Daemon.Memory

/-! The state that a memory stands for, and what may be done to the nodes with the state still
represented: tags exchanged, one stack exchanged, a shell appended or taken out. -/
namespace Nav.Daemon
open Nav.C Nav.Lib

/-- The nodes of all lists: those of the shells, those of the tags, and for every PID those of its
actions. -/
structure Layout where
  shells : List (ℕ × ShellNode)
  tags : List (ℕ × Tag)
  actions : ℤ → List (ℕ × Action)

/-- The node of a shell with its actions in place of their list head. -/
def shellView (actions : ℤ → List (ℕ × Action)) (x : ℕ × ShellNode) : ℕ × Shell :=
  (x.1,⟨x.2.pid,x.2.sunPath,LinkedList.nodeList (actions x.2.pid)⟩)

/-- The chains of the memory run through the nodes of the layout, the stacks of different shells
share no nodes, and the state has the data of the nodes. -/
structure Memory.Represents (m : Memory) (y : Layout) (s : State) : Prop where
  cacheDir : m.cacheDir = s.cacheDir
  shells : LinkedList.Holds m.shellHeap m.shells y.shells
  tags : LinkedList.Holds m.tagHeap m.tags y.tags
  actions : ∀ x ∈ y.shells, LinkedList.Holds m.actionHeap x.2.actions (y.actions x.2.pid)
  apart : ∀ x ∈ y.shells, ∀ x' ∈ y.shells, x.2.pid ≠ x'.2.pid →
    ∀ a ∈ addrs (y.actions x.2.pid), a ∉ addrs (y.actions x'.2.pid)
  shellsEq : s.shells = LinkedList.nodeList (y.shells.map (shellView y.actions))
  tagsEq : s.tags = LinkedList.nodeList y.tags

namespace Memory

/-- A test of the PID reads the same off the node and off what it stands for. -/
lemma same_shellView (actions : ℤ → List (ℕ × Action)) (pid : ℤ) :
    LinkedList.same Daemon.compareShellPid pid ∘ shellView actions =
      LinkedList.same compareShellPid pid := rfl

lemma same_eq (pid : ℤ) :
    LinkedList.same compareShellPid pid = fun x => decide (x.2.pid = pid) := by
  funext x
  simp [LinkedList.same,compareShellPid]

lemma same_view_eq (pid : ℤ) : LinkedList.same Daemon.compareShellPid pid =
    fun x : ℕ × Shell => decide (x.2.pid = pid) := by
  funext x
  simp [LinkedList.same]

lemma same_iff {pid : ℤ} {x : ℕ × ShellNode} :
    LinkedList.same compareShellPid pid x = true ↔ x.2.pid = pid := by
  simp [LinkedList.same,compareShellPid]

end Memory

namespace Layout
variable {y : Layout} {pid q : ℤ} {l : LinkedList} {zs : List (ℕ × Action)}

/-- The stack of one shell exchanged, and the list head in its node. -/
def setActions (y : Layout) (pid : ℤ) (l : LinkedList) (zs : List (ℕ × Action)) : Layout where
  shells := y.shells.map fun x => if x.2.pid = pid then (x.1,{x.2 with actions := l}) else x
  tags := y.tags
  actions := Function.update y.actions pid zs

lemma setActions_self : (y.setActions pid l zs).actions pid = zs := Function.update_self ..

lemma setActions_other (hq : q ≠ pid) : (y.setActions pid l zs).actions q = y.actions q :=
  Function.update_of_ne hq ..

lemma mem_setActions {x : ℕ × ShellNode} (hx : x ∈ (y.setActions pid l zs).shells) :
    x.2.pid = pid ∧ x.2.actions = l ∨ x ∈ y.shells ∧ x.2.pid ≠ pid := by
  obtain ⟨z,hz,rfl⟩ := List.mem_map.mp hx
  split_ifs with hp
  · exact Or.inl ⟨hp,rfl⟩
  · exact Or.inr ⟨hz,hp⟩

/-- What the nodes stand for changes in the actions of the one shell. -/
theorem views_setActions (hpids : (y.shells.map fun x => x.2.pid).Nodup) :
    (y.setActions pid l zs).shells.map (shellView (y.setActions pid l zs).actions) =
      modifyFirst (LinkedList.same compareShellPid pid)
        (fun v => (v.1,{v.2 with actions := LinkedList.nodeList zs}))
        (y.shells.map (shellView y.actions)) := by
  have hviews : ((y.shells.map (shellView y.actions)).map fun v => v.2.pid).Nodup := by
    simpa [Function.comp_def,shellView] using hpids
  rw [Memory.same_view_eq,modifyFirst_eq_map (fun v : ℕ × Shell => v.2.pid) _ _ _ hviews,
    setActions,List.map_map,List.map_map]
  refine List.map_congr_left fun x _ => ?_
  by_cases hp : x.2.pid = pid
  · simp [shellView,hp]
  · simp [shellView,hp]

end Layout

namespace Memory.Represents
variable {m : Memory} {y : Layout} {s : State} {pid : ℤ} {sh : Shell}

/-- The node that is found for a PID. -/
theorem shell? (h : m.Represents y s) : s.shell? pid =
    (y.shells.find? (LinkedList.same compareShellPid pid)).map fun x => (shellView y.actions x).2 := by
  rw [← getShell,h.shellsEq,LinkedList.nodeList_get,List.find?_map,same_shellView,Option.map_map]
  rfl

lemma withShell_none {f : ℕ → ShellNode → Except HeapFault Memory} (h : m.Represents y s)
    (hs : s.shell? pid = none) : withShell m pid f = .ok m := by
  rw [h.shell?,Option.map_eq_none_iff] at hs
  simp only [withShell,LinkedList.listGetNode_spec compareShellPid pid h.shells,hs,Option.map_none]

/-- A handler behind `withShell` gets the node of its shell. -/
theorem withShell_some {f : ℕ → ShellNode → Except HeapFault Memory} (h : m.Represents y s)
    (hs : s.shell? pid = some sh) :
    ∃ x, y.shells.find? (LinkedList.same compareShellPid pid) = some x ∧ x ∈ y.shells ∧
      x.2.pid = pid ∧ sh.actions = LinkedList.nodeList (y.actions pid) ∧
      withShell m pid f = f x.1 x.2 := by
  rw [h.shell?] at hs
  obtain ⟨x,hx,rfl⟩ := Option.map_eq_some_iff.mp hs
  have hpid : x.2.pid = pid := same_iff.mp (List.find?_some hx)
  have hmem := List.mem_of_find?_eq_some hx
  refine ⟨x,hx,hmem,hpid,by rw [← hpid]; rfl,?_⟩
  obtain ⟨pre,post,hsplit⟩ := List.append_of_mem hmem
  have hchain := h.shells.chain
  rw [hsplit] at hchain
  obtain ⟨_,_,_,next,hc,_⟩ := Heap.seg_append.mp hchain
  simp only [withShell,LinkedList.listGetNode_spec compareShellPid pid h.shells,hx,Option.map_some,hc]

lemma tag? (h : m.Represents y s) (tag : CStr) :
    s.tag? tag = (y.tags.find? (LinkedList.same compareTagTag tag)).map Prod.snd := by
  rw [← getTag,h.tagsEq,LinkedList.nodeList_get]

lemma tags_update (h : m.Represents y s) (tag : CStr) (f : Tag → Tag) :
    updateNode compareTagTag s.tags tag f = LinkedList.nodeList
      (modifyFirst (LinkedList.same compareTagTag tag) (fun z => (z.1,f z.2)) y.tags) := by
  rw [h.tagsEq,LinkedList.nodeList_update]

lemma tags_append (h : m.Represents y s) (addr : ℕ) (t : Tag) :
    Daemon.listAppendNode s.tags t = LinkedList.nodeList (y.tags ++ [(addr,t)]) := by
  rw [h.tagsEq,LinkedList.nodeList_append _ addr]

lemma tags_delete (h : m.Represents y s) (tag : CStr) :
    (Daemon.listDeleteNode compareTagTag s.tags tag).list =
      LinkedList.nodeList (y.tags.eraseP (LinkedList.same compareTagTag tag)) := by
  rw [h.tagsEq,LinkedList.nodeList_delete]

/-- The nodes of the tags may be exchanged. -/
theorem with_tags {h' : Heap Tag} {l : LinkedList} {ys : List (ℕ × Tag)} (h : m.Represents y s)
    (hl : LinkedList.Holds h' l ys) {s' : State} (hcache : s'.cacheDir = s.cacheDir)
    (hshells : s'.shells = s.shells) (htags : s'.tags = LinkedList.nodeList ys) :
    {m with tagHeap := h', tags := l}.Represents {y with tags := ys} s' where
  cacheDir := h.cacheDir.trans hcache.symm
  shells := h.shells
  tags := hl
  actions := h.actions
  apart := h.apart
  shellsEq := hshells.trans h.shellsEq
  tagsEq := htags

/-- The PIDs of the nodes are distinct. -/
lemma pids (h : m.Represents y s) (hw : s.WellFormed) : (y.shells.map fun x => x.2.pid).Nodup := by
  have hp := hw.pids
  rw [h.shellsEq] at hp
  simpa [LinkedList.nodeList,Function.comp_def,shellView] using hp

/-- The stack of one shell may be exchanged for one that shares no nodes with the others. -/
theorem setActions {h' : Heap Action} {l : LinkedList} {zs : List (ℕ × Action)} {x : ℕ × ShellNode}
    (h : m.Represents y s) (hw : s.WellFormed)
    (hx : y.shells.find? (LinkedList.same compareShellPid pid) = some x)
    (hl : LinkedList.Holds h' l zs)
    (hothers : ∀ x' ∈ y.shells, x'.2.pid ≠ pid → ∀ a ∈ addrs (y.actions x'.2.pid),
      h'.cells a = m.actionHeap.cells a ∧ a ∉ addrs zs) :
    ∃ m' y', Memory.setActions {m with actionHeap := h'} x.1 l = .ok m' ∧
      m'.Represents y' (Daemon.setActions s pid (LinkedList.nodeList zs)) := by
  obtain ⟨H,hset,hH,_⟩ := LinkedList.setData_spec compareShellPid pid
    (fun n => {n with actions := l}) h.shells hx
  rw [same_eq,modifyFirst_eq_map (fun x : ℕ × ShellNode => x.2.pid) _ _ _ (h.pids hw)] at hH
  refine ⟨⟨m.cacheDir,H,m.shells,m.tagHeap,m.tags,h'⟩,y.setActions pid l zs,
    by rw [Memory.setActions,hset]; rfl,h.cacheDir,hH,h.tags,fun x' hx' => ?_,
    fun x₁ hx₁ x₂ hx₂ hne a ha hm => ?_,?_,h.tagsEq⟩
  · rcases Layout.mem_setActions hx' with ⟨hp,hl'⟩ | ⟨hx',hp⟩
    · rw [hp,hl',Layout.setActions_self]
      exact hl
    · rw [Layout.setActions_other hp]
      exact ⟨(h.actions x' hx').chain.congr fun a ha => (hothers x' hx' hp a ha).1,
        (h.actions x' hx').nodup,(h.actions x' hx').counted⟩
  · rcases Layout.mem_setActions hx₁ with ⟨hp₁,_⟩ | ⟨hx₁,hp₁⟩
    · rcases Layout.mem_setActions hx₂ with ⟨hp₂,_⟩ | ⟨hx₂,hp₂⟩
      · exact hne (hp₁.trans hp₂.symm)
      · rw [hp₁,Layout.setActions_self] at ha
        rw [Layout.setActions_other hp₂] at hm
        exact (hothers x₂ hx₂ hp₂ a hm).2 ha
    · rw [Layout.setActions_other hp₁] at ha
      rcases Layout.mem_setActions hx₂ with ⟨hp₂,_⟩ | ⟨hx₂,hp₂⟩
      · rw [hp₂,Layout.setActions_self] at hm
        exact (hothers x₁ hx₁ hp₁ a ha).2 hm
      · rw [Layout.setActions_other hp₂] at hm
        exact h.apart x₁ hx₁ x₂ hx₂ hne a ha hm
  · rw [Layout.views_setActions (h.pids hw),Daemon.setActions,h.shellsEq]
    exact LinkedList.nodeList_update Daemon.compareShellPid pid _
      fun sh => {sh with actions := LinkedList.nodeList zs}

/-- A node for a shell without actions may be appended. -/
theorem append {H : Heap ShellNode} {l : LinkedList} {addr : ℕ} (h : m.Represents y s)
    (hs : s.shell? pid = none)
    (hl : LinkedList.Holds H l
      (y.shells ++ [(addr,⟨pid,sockPath s.cacheDir pid,LinkedList.empty⟩)])) :
    ∃ y', {m with shellHeap := H, shells := l}.Represents y'
      {s with shells := Daemon.listAppendNode s.shells (newShell s.cacheDir pid)} := by
  let acts := Function.update y.actions pid []
  have hself : acts pid = [] := Function.update_self ..
  have hold : ∀ x ∈ y.shells, acts x.2.pid = y.actions x.2.pid := by
    intro x hx
    rw [h.shell?,Option.map_eq_none_iff,List.find?_eq_none] at hs
    exact Function.update_of_ne (fun hp => hs x hx (same_iff.mpr hp)) ..
  have hnew : ∀ x ∈ y.shells ++ [(addr,(⟨pid,sockPath s.cacheDir pid,LinkedList.empty⟩ : ShellNode))],
      x ∈ y.shells ∨ x.2.actions = LinkedList.empty ∧ acts x.2.pid = [] := by
    intro x hx
    rcases List.mem_append.mp hx with hx | hx
    · exact Or.inl hx
    · rw [List.mem_singleton] at hx
      subst hx
      exact Or.inr ⟨rfl,hself⟩
  refine ⟨⟨_,y.tags,acts⟩,h.cacheDir,hl,h.tags,fun x hx => ?_,fun x hx x' hx' hne a ha hm => ?_,?_,
    h.tagsEq⟩
  · rcases hnew x hx with hx | ⟨hempty,hnil⟩
    · simp only [hold x hx]
      exact h.actions x hx
    · simp only [hempty,hnil]
      exact LinkedList.holds_empty _
  · rcases hnew x hx with hx | ⟨_,hnil⟩
    · rcases hnew x' hx' with hx' | ⟨_,hnil⟩
      · simp only [hold x hx] at ha
        simp only [hold x' hx'] at hm
        exact h.apart x hx x' hx' hne a ha hm
      · simp [hnil] at hm
    · simp [hnil] at ha
  · have hviews : y.shells.map (shellView acts) = y.shells.map (shellView y.actions) :=
      List.map_congr_left fun x hx => by simp only [shellView,hold x hx]
    have hempty : newShell s.cacheDir pid =
        ⟨pid,sockPath s.cacheDir pid,LinkedList.nodeList (acts pid)⟩ := by
      rw [hself]
      rfl
    rw [h.shellsEq,List.map_append,hviews,hempty]
    exact LinkedList.nodeList_append _ addr _

/-- The node of a shell may be taken out. -/
theorem erase {H : Heap ShellNode} {h' : Heap Action} {l : LinkedList} {x : ℕ × ShellNode}
    (h : m.Represents y s) (hw : s.WellFormed)
    (hx : y.shells.find? (LinkedList.same compareShellPid pid) = some x)
    (hl : LinkedList.Holds H l (y.shells.eraseP (LinkedList.same compareShellPid pid)))
    (hoff : m.actionHeap.SameOff h' (addrs (y.actions pid))) :
    ∃ y', {m with shellHeap := H, shells := l, actionHeap := h'}.Represents y'
      {s with shells := (Daemon.listDeleteNode Daemon.compareShellPid s.shells pid).list} := by
  have hrest : ∀ x' ∈ y.shells.eraseP (LinkedList.same compareShellPid pid),
      x' ∈ y.shells ∧ x'.2.pid ≠ pid := by
    intro x' hx'
    rw [same_eq,eraseP_eq_filter (fun x : ℕ × ShellNode => x.2.pid) _ _ (h.pids hw)] at hx'
    simpa using hx'
  have hpid : x.2.pid = pid := same_iff.mp (List.find?_some hx)
  refine ⟨⟨_,y.tags,y.actions⟩,h.cacheDir,hl,h.tags,fun x' hx' => ?_,fun x₁ hx₁ x₂ hx₂ => ?_,?_,
    h.tagsEq⟩
  · obtain ⟨hm,hne⟩ := hrest x' hx'
    refine (h.actions x' hm).sameOff hoff ?_
    rw [← hpid] at hne ⊢
    exact h.apart x' hm x (List.mem_of_find?_eq_some hx) hne
  · exact h.apart x₁ (hrest x₁ hx₁).1 x₂ (hrest x₂ hx₂).1
  · rw [h.shellsEq,LinkedList.nodeList_delete,List.eraseP_map,same_shellView]

end Memory.Represents
end Nav.Daemon
