import Nav.Daemon.Chains

/-! The handlers and the loader on the heap do to the chains what those on lists do to the lists,
and so the lists in memory are intact after every run. -/
namespace Nav.Daemon
open Nav.C Nav.Lib

namespace Memory

/-- A handler on the heap comes out where the handler on lists does. -/
def Follows (r : Except HeapFault Memory) (s : State) : Prop :=
  ∃ m y, r = .ok m ∧ m.Represents y s

section Handlers
variable {m : Memory} {y : Layout} {s : State} {env : Env} {pid : ℤ} {args : Option CStr} {addr : ℕ}
  {o : Outcome}

lemma Represents.follows (h : m.Represents y s) : Follows (.ok m) s := ⟨m,y,rfl,h⟩

/-- The loop of `cleanup_shell` empties the stack and touches nothing else. -/
theorem cleanupLoop_spec {h : Heap Action} {l : LinkedList} {xs : List (ℕ × Action)} (fuel : ℕ)
    (hl : LinkedList.Holds h l xs) (hfuel : xs.length < fuel) :
    ∃ h' l', cleanupLoop fuel h l = .ok (h',l') ∧ h.SameOff h' (addrs xs) := by
  induction xs generalizing h l fuel with
  | nil =>
    cases fuel with
    | zero => simp at hfuel
    | succ fuel =>
      have hzero : l.nItems = 0 := by simpa using hl.counted
      exact ⟨h,l,by simp [cleanupLoop,hzero],fun _ _ => rfl⟩
  | cons x xs ih =>
    cases fuel with
    | zero => simp at hfuel
    | succ fuel =>
      obtain ⟨hp,next,hx,_⟩ := hl.chain
      have hpos : 0 < l.nItems := by
        rw [hl.counted,List.length_cons]
        omega
      have hsame : LinkedList.same compareActionPath x.2.path x = true := by
        simp [LinkedList.same]
      obtain ⟨r,hr,_,_,hrest,hoff⟩ :=
        LinkedList.listDeleteNode_spec compareActionPath x.2.path hl
      rw [List.eraseP_cons_of_pos hsame] at hrest
      obtain ⟨h',l',hloop,hoff'⟩ := ih fuel hrest (by simpa using hfuel)
      refine ⟨h',l',?_,fun a ha => ?_⟩
      · simp only [cleanupLoop,hpos,if_true,hp,hx,hr]
        exact hloop
      · rw [hoff' a fun hm => ha (by simp [hm]),hoff a ha]

lemma topPath_spec {h : Heap Action} {l : LinkedList} {xs : List (ℕ × Action)}
    (hl : LinkedList.Holds h l xs) :
    topPath h l = .ok ((LinkedList.nodeList xs).nodes.head?.map Action.path) := by
  unfold topPath
  cases xs with
  | nil =>
    have hp : l.head = none := hl.chain
    rw [hp]
    rfl
  | cons x xs =>
    obtain ⟨hp,next,hx,_⟩ := hl.chain
    rw [hp]
    simp [hx,LinkedList.nodeList]

/-- A handler that starts with `withShell` follows if it does on the node that is found. -/
theorem Represents.withShell {f : ℕ → ShellNode → Except HeapFault Memory}
    {g : Shell → Except Fault Outcome} (h : m.Represents y s)
    (hs : Daemon.withShell s pid args g = .ok o)
    (hstep : ∀ x sh, y.shells.find? (LinkedList.same compareShellPid pid) = some x →
      s.shell? pid = some sh → sh.actions = LinkedList.nodeList (y.actions pid) →
      LinkedList.Holds m.actionHeap x.2.actions (y.actions pid) → g sh = .ok o →
      Follows (f x.1 x.2) o.state) : Follows (withShell m pid f) o.state := by
  cases hsh : s.shell? pid with
  | none =>
    rw [Daemon.withShell_none hsh] at hs
    cases hs
    rw [h.withShell_none hsh]
    exact h.follows
  | some sh =>
    rw [Daemon.withShell_some hsh] at hs
    obtain ⟨x,hx,hmem,hpid,hacts,hrun⟩ := h.withShell_some (f:=f) hsh
    rw [hrun]
    exact hstep x sh hx hsh hacts (hpid ▸ h.actions x hmem) hs

/-- The node that `cmd_register` appends has a PID of its own and no actions. -/
theorem cmdRegister_follows (h : m.Represents y s) (hfresh : m.shellHeap.cells addr = none)
    (hs : Daemon.cmdRegister env s pid args = .ok o) :
    Follows (cmdRegister env m pid addr) o.state := by
  have hget := LinkedList.listGetNode_spec compareShellPid pid h.shells
  unfold Daemon.cmdRegister at hs
  unfold cmdRegister
  rw [getShell] at hs
  rw [hget]
  cases hsh : s.shell? pid with
  | some sh =>
    obtain ⟨x,hx,_⟩ := h.withShell_some (f:=fun _ _ => .ok m) hsh
    simp only [hsh] at hs
    cases hs
    simp only [hx]
    exact h.follows
  | none =>
    have hnone : y.shells.find? (LinkedList.same compareShellPid pid) = none := by
      rwa [h.shell?,Option.map_eq_none_iff] at hsh
    simp only [hsh] at hs
    simp only [hnone,Option.map_none]
    split_ifs at hs ⊢ with hn hd <;> cases hs
    · exact h.follows
    · exact h.follows
    · obtain ⟨H,l,happ,hH,_⟩ := LinkedList.listAppendNode_fresh
        ⟨pid,sockPath m.cacheDir pid,LinkedList.empty⟩ h.shells hfresh
      rw [h.cacheDir] at hH
      obtain ⟨y',hy'⟩ := h.append hsh hH
      refine ⟨_,y',?_,hy'⟩
      rw [happ]
      rfl

theorem cmdUnregister_follows (env : Env) (h : m.Represents y s) (hw : s.WellFormed)
    (hs : Daemon.cmdUnregister env s pid args = .ok o) : Follows (cmdUnregister m pid) o.state := by
  refine h.withShell hs fun x sh hx hsh _ hstack hs => ?_
  have hcode : (Daemon.listDeleteNode Daemon.compareShellPid s.shells pid).code = 0 := by
    rw [deleteShell hsh]
  simp only [hcode,ne_eq,not_true_eq_false,if_false] at hs
  split at hs
  · cases hs
  · cases hs
    obtain ⟨r,hr,_,hremoved,hl,_⟩ := LinkedList.listDeleteNode_spec compareShellPid pid h.shells
    obtain ⟨A,l,hclean,hoff⟩ := cleanupLoop_spec (x.2.actions.nItems.toNat+1) hstack
      (by rw [hstack.counted,Int.toNat_natCast]; exact Nat.lt_succ_self _)
    obtain ⟨y',hy'⟩ := h.erase hw hx hl hoff
    refine ⟨_,y',?_,hy'⟩
    simp only [hr,hremoved,hx,Option.map_some,cleanupShell,hclean]
    rfl

theorem cmdAdd_follows (h : m.Represents y s) (hfresh : m.tagHeap.cells addr = none)
    (hs : Daemon.cmdAdd env s pid args = .ok o) : Follows (cmdAdd env m pid args addr) o.state := by
  refine h.withShell hs fun x sh _ _ _ _ hs => ?_
  cases args with
  | none => cases hs
  | some line =>
    cases hadd : (addArgs line).1 with
    | none =>
      simp only [hadd] at hs ⊢
      cases hs
      exact h.follows
    | some p =>
      obtain ⟨tag,path⟩ := p
      have hget := LinkedList.listGetNode_spec compareTagTag tag h.tags
      simp only [hadd,hget,getTag,h.tag? tag] at hs ⊢
      cases hv : validPath env path with
      | false =>
        simp only [hv,Bool.not_false,if_true] at hs ⊢
        cases hs
        exact h.follows
      | true =>
        simp only [hv,Bool.not_true,Bool.false_eq_true,if_false] at hs ⊢
        cases ht : y.tags.find? (LinkedList.same compareTagTag tag) with
        | some z =>
          simp only [ht,Option.map_some] at hs ⊢
          cases hs
          obtain ⟨H,hset,hH,_⟩ := LinkedList.setData_spec compareTagTag tag
            (fun t => {t with path}) h.tags ht
          exact ⟨_,_,by rw [hset]; rfl,h.with_tags hH rfl rfl (h.tags_update tag _)⟩
        | none =>
          simp only [ht,Option.map_none] at hs ⊢
          split_ifs at hs ⊢ with hn hd <;> cases hs
          · exact h.follows
          · exact h.follows
          · obtain ⟨H,l,happ,hH,_⟩ := LinkedList.listAppendNode_fresh ⟨tag,path⟩ h.tags hfresh
            exact ⟨_,_,by rw [happ]; rfl,h.with_tags hH rfl rfl (h.tags_append addr _)⟩

theorem cmdDelete_follows (env : Env) (h : m.Represents y s)
    (hs : Daemon.cmdDelete env s pid args = .ok o) : Follows (cmdDelete m pid args) o.state := by
  refine h.withShell hs fun x sh _ _ _ _ hs => ?_
  cases args with
  | none => cases hs
  | some line =>
    cases htag : (tagArg line).1 with
    | none =>
      simp only [htag] at hs ⊢
      cases hs
      exact h.follows
    | some tag =>
      have hget := LinkedList.listGetNode_spec compareTagTag tag h.tags
      simp only [htag,hget,getTag,h.tag? tag] at hs ⊢
      cases ht : y.tags.find? (LinkedList.same compareTagTag tag) with
      | none =>
        simp only [ht,Option.map_none] at hs ⊢
        cases hs
        exact h.follows
      | some z =>
        simp only [ht,Option.map_some] at hs ⊢
        cases hs
        obtain ⟨r,hr,_,_,hl,_⟩ := LinkedList.listDeleteNode_spec compareTagTag tag h.tags
        exact ⟨_,_,by rw [hr]; rfl,h.with_tags hl rfl rfl (h.tags_delete tag)⟩

/-- What is done to one stack leaves the others alone. -/
theorem Represents.others {h' : Heap Action} {x : ℕ × ShellNode} (h : m.Represents y s)
    (hx : y.shells.find? (LinkedList.same compareShellPid pid) = some x)
    (hoff : m.actionHeap.SameOff h' (addrs (y.actions pid))) :
    ∀ x' ∈ y.shells, x'.2.pid ≠ pid → ∀ a ∈ addrs (y.actions x'.2.pid),
      h'.cells a = m.actionHeap.cells a ∧ a ∉ addrs (y.actions pid) := by
  intro x' hx' hne a ha
  have hpid : x.2.pid = pid := same_iff.mp (List.find?_some hx)
  have hnot : a ∉ addrs (y.actions pid) := by
    rw [← hpid] at hne ⊢
    exact h.apart x' hx' x (List.mem_of_find?_eq_some hx) hne a ha
  exact ⟨hoff a hnot,hnot⟩

theorem cmdPush_follows (h : m.Represents y s) (hw : s.WellFormed)
    (hfresh : m.actionHeap.cells addr = none)
    (hs : Daemon.cmdPush env s pid args = .ok o) : Follows (cmdPush env m pid args addr) o.state := by
  refine h.withShell hs fun x sh hx _ hacts hstack hs => ?_
  cases args with
  | none =>
    cases hs
    exact h.follows
  | some line =>
    have htop := topPath_spec hstack
    simp only [htop,hacts] at hs ⊢
    split_ifs at hs ⊢ <;> cases hs
    · exact h.follows
    · exact h.follows
    · exact h.follows
    · exact h.follows
    · obtain ⟨H,l,hpre,hH,hoff⟩ := LinkedList.listPrependNode_fresh ⟨trimmed line⟩ hstack hfresh
      have hothers : ∀ x' ∈ y.shells, x'.2.pid ≠ pid → ∀ a ∈ addrs (y.actions x'.2.pid),
          H.cells a = m.actionHeap.cells a ∧ a ∉ addrs ((addr,⟨trimmed line⟩)::y.actions pid) := by
        intro x' hx' hne a ha
        have hna : a ≠ addr := by
          rintro rfl
          exact (h.actions x' hx').chain.fresh hfresh ha
        have hnot := (h.others hx (fun _ _ => rfl) x' hx' hne a ha).2
        exact ⟨hoff a hna,by simp [hna,hnot]⟩
      obtain ⟨m',y',hset,hy'⟩ := h.setActions hw hx hH hothers
      refine ⟨m',y',?_,?_⟩
      · simp only [hpre]
        exact hset
      · rw [LinkedList.nodeList_prepend _ addr]
        exact hy'

theorem cmdPop_follows (env : Env) (h : m.Represents y s) (hw : s.WellFormed)
    (hs : Daemon.cmdPop env s pid args = .ok o) : Follows (cmdPop m pid) o.state := by
  refine h.withShell hs fun x sh hx _ hacts hstack hs => ?_
  have htop := topPath_spec hstack
  rw [← hacts] at htop
  simp only [htop]
  cases ha : sh.actions.nodes with
  | nil =>
    simp only [ha] at hs ⊢
    cases hs
    exact h.follows
  | cons a as =>
    simp only [ha] at hs ⊢
    cases hs
    obtain ⟨r,hr,_,_,hl,hoff⟩ := LinkedList.listDeleteNode_spec compareActionPath a.path hstack
    have hothers : ∀ x' ∈ y.shells, x'.2.pid ≠ pid → ∀ b ∈ addrs (y.actions x'.2.pid),
        r.heap.cells b = m.actionHeap.cells b ∧
          b ∉ addrs ((y.actions pid).eraseP (LinkedList.same compareActionPath a.path)) := by
      intro x' hx' hne b hb
      obtain ⟨hcell,hnot⟩ := h.others hx hoff x' hx' hne b hb
      exact ⟨hcell,fun hm => hnot ((List.eraseP_sublist.map _).subset hm)⟩
    obtain ⟨m',y',hset,hy'⟩ := h.setActions hw hx hl hothers
    refine ⟨m',y',?_,?_⟩
    · simp only [List.head?_cons,Option.map_some,hr]
      exact hset
    · rw [hacts,LinkedList.nodeList_delete]
      exact hy'

theorem cmdReset_follows (env : Env) (h : m.Represents y s) (hw : s.WellFormed)
    (hs : Daemon.cmdReset env s pid args = .ok o) : Follows (cmdReset m pid) o.state := by
  refine h.withShell hs fun x sh hx _ hacts hstack hs => ?_
  cases hs
  obtain ⟨H,hall,hoff⟩ : ∃ H, LinkedList.listDeleteAll m.actionHeap x.2.actions =
      .ok (H,LinkedList.empty,(y.actions pid).map Prod.snd) ∧
        m.actionHeap.SameOff H (addrs (y.actions pid)) :=
    ⟨_,LinkedList.listDeleteAll_spec hstack,m.actionHeap.freeAll_sameOff _⟩
  have hothers : ∀ x' ∈ y.shells, x'.2.pid ≠ pid → ∀ a ∈ addrs (y.actions x'.2.pid),
      H.cells a = m.actionHeap.cells a ∧ a ∉ addrs ([] : List (ℕ × Action)) :=
    fun x' hx' hne a ha => ⟨(h.others hx hoff x' hx' hne a ha).1,by simp⟩
  obtain ⟨m',y',hset,hy'⟩ := h.setActions hw hx (LinkedList.holds_empty H) hothers
  refine ⟨m',y',?_,?_⟩
  · simp only [hall]
    exact hset
  · rw [hacts,LinkedList.nodeList_deleteAll]
    exact hy'

/-- One call does to the chains what it does to the lists. -/
theorem handle_follows {s' : State} {c : Call} (h : m.Represents y s) (hw : s.WellFormed)
    (hfresh : Fresh m (c,addr)) (hs : Daemon.handle s c = .ok (s',o)) :
    ∃ m' y', handle m (c,addr) = .ok (m',()) ∧ m'.Represents y' s' := by
  have hchange := handle_change hs
  obtain ⟨hd,ho⟩ := handle_ok.mp hs
  suffices hf : Follows (dispatchCommand c.env m c.cmdStr c.pid c.args addr) s' by
    obtain ⟨m',y',hm,hy⟩ := hf
    exact ⟨m',y',by rw [handle,hm]; rfl,hy⟩
  unfold dispatchCommand
  unfold Daemon.dispatchCommand at hd
  rw [← ho]
  cases hc : findCommand c.cmdStr with
  | none =>
    rw [hc] at hd
    cases hd
    exact h.follows
  | some cmd =>
    rw [hc] at hd
    cases cmd with
    | register => exact cmdRegister_follows h hfresh.1 hd
    | unregister => exact cmdUnregister_follows c.env h hw hd
    | add => exact cmdAdd_follows h hfresh.2.1 hd
    | delete => exact cmdDelete_follows c.env h hd
    | push => exact cmdPush_follows h hw hfresh.2.2 hd
    | pop => exact cmdPop_follows c.env h hw hd
    | reset => exact cmdReset_follows c.env h hw hd
    | _ =>
      -- the commands that only read the lists
      obtain rfl : s' = s := by cases hchange <;> simp_all
      rw [ho]
      exact h.follows

end Handlers

section Start
variable (validPath : CStr → Bool)

/-- One line of the tag file. Addresses that are free stay so, but for the one that is given. -/
theorem readLine_follows {h : Heap Tag} {l : LinkedList} {ys : List (ℕ × Tag)} {addr : ℕ}
    (malloc : Bool) (line : CStr) (hl : LinkedList.Holds h l ys) (hfresh : h.cells addr = none) :
    ∃ h' l' ys', readLine validPath malloc addr line (h,l) = .ok (h',l') ∧
      LinkedList.Holds h' l' ys' ∧
      Daemon.readLine validPath malloc line (LinkedList.nodeList ys) = LinkedList.nodeList ys' ∧
      ∀ a, a ≠ addr → h.cells a = none → h'.cells a = none := by
  unfold readLine Daemon.readLine
  cases (Strtok.start line).next isEquals with
  | mk token k =>
    cases token with
    | none => exact ⟨h,l,ys,rfl,hl,rfl,fun _ _ ha => ha⟩
    | some token =>
      cases hk : k.next noDelim with
      | mk rest k' =>
        cases rest with
        | none =>
          simp only [hk]
          exact ⟨h,l,ys,rfl,hl,rfl,fun _ _ ha => ha⟩
        | some rest =>
          have hget := LinkedList.listGetNode_spec compareTagTag (trimmed token) hl
          simp only [hk,hget,LinkedList.nodeList_get]
          cases ht : ys.find? (LinkedList.same compareTagTag (trimmed token)) with
          | some z =>
            obtain ⟨H,hset,hH,hoff⟩ := LinkedList.setData_spec compareTagTag (trimmed token)
              (fun t => {t with path := trimmed rest}) hl ht
            refine ⟨H,l,_,by simp only [Option.map_some,hset]; rfl,hH,?_,fun a _ ha => ?_⟩
            · exact LinkedList.nodeList_update compareTagTag (trimmed token) ys _
            · rw [hoff a (hl.chain.fresh ha),ha]
          | none =>
            simp only [Option.map_none]
            split_ifs
            · exact ⟨h,l,ys,rfl,hl,rfl,fun _ _ ha => ha⟩
            · exact ⟨h,l,ys,rfl,hl,rfl,fun _ _ ha => ha⟩
            · obtain ⟨H,l',happ,hH,hfree⟩ :=
                LinkedList.listAppendNode_fresh ⟨trimmed token,trimmed rest⟩ hl hfresh
              exact ⟨H,l',_,happ,hH,LinkedList.nodeList_append ys addr _,hfree⟩

/-- The loop of `read_tag_file`, with an address of its own for every round. -/
theorem readLoop_follows (malloc : ℕ → Bool) {alloc : ℕ → ℕ} (halloc : Function.Injective alloc)
    (fuel i : ℕ) (file : List Byte) {h : Heap Tag} {l : LinkedList} {ys : List (ℕ × Tag)}
    (hl : LinkedList.Holds h l ys) (hfresh : ∀ j, i ≤ j → h.cells (alloc j) = none) :
    ∃ h' l' ys', readLoop validPath malloc alloc fuel i file (h,l) = .ok (h',l') ∧
      LinkedList.Holds h' l' ys' ∧
      Daemon.readLoop validPath malloc fuel i file (LinkedList.nodeList ys) =
        LinkedList.nodeList ys' := by
  induction fuel generalizing i file h l ys with
  | zero => exact ⟨h,l,ys,rfl,hl,rfl⟩
  | succ fuel ih =>
    simp only [readLoop,Daemon.readLoop]
    split_ifs
    · exact ⟨h,l,ys,rfl,hl,rfl⟩
    · exact ⟨h,l,ys,rfl,hl,rfl⟩
    · obtain ⟨H,l',ys',hline,hH,heq,hfree⟩ := readLine_follows validPath (malloc i)
        (cstr (fgets 255 file).1) hl (hfresh i le_rfl)
      have hfresh' : ∀ j, i+1 ≤ j → H.cells (alloc j) = none := fun j hj =>
        hfree _ (fun he => by have := halloc he; omega) (hfresh j (by omega))
      obtain ⟨H',l'',ys'',hloop,hH',heq'⟩ := ih (i+1) (fgets 255 file).2 hH hfresh'
      exact ⟨H',l'',ys'',by simp only [hline,hloop],hH',by rw [heq,heq']⟩

/-- The memory after start-up stands for the state after start-up. -/
theorem start_follows (cacheDir : CStr) (malloc : ℕ → Bool) {alloc : ℕ → ℕ}
    (halloc : Function.Injective alloc) (file : Option (List Byte)) :
    Follows (start cacheDir validPath malloc alloc file)
      (startState cacheDir validPath malloc file) := by
  have htags : ∃ h l ys, readTagFile validPath malloc alloc file = .ok (h,l) ∧
      LinkedList.Holds h l ys ∧
      (Daemon.readTagFile validPath malloc file NodeList.empty).2 = LinkedList.nodeList ys := by
    cases file with
    | none => exact ⟨_,_,[],rfl,LinkedList.holds_empty _,rfl⟩
    | some bytes =>
      exact readLoop_follows validPath malloc halloc bytes.length 0 bytes
        (LinkedList.holds_empty Heap.empty) fun _ _ => rfl
  obtain ⟨h,l,ys,hread,hl,hys⟩ := htags
  refine ⟨⟨cacheDir,Heap.empty,LinkedList.empty,h,l,Heap.empty⟩,⟨[],ys,fun _ => []⟩,?_,rfl,
    LinkedList.holds_empty _,hl,by simp,by simp,rfl,hys⟩
  rw [start,hread]
  rfl

end Start

/-- The invariant of the lists, said of the nodes that their chains run through. -/
structure WellFormed (m : Memory) (y : Layout) : Prop where
  pids : (y.shells.map fun x => x.2.pid).Nodup
  tagNames : (y.tags.map fun x => x.2.tag).Nodup
  noRepeat : ∀ x ∈ y.shells, ((y.actions x.2.pid).map fun a => a.2.path).IsChain (· ≠ ·)
  addressed : ∀ x ∈ y.shells, x.2.sunPath = sockPath m.cacheDir x.2.pid
  shells : LinkedList.Holds m.shellHeap m.shells y.shells
  tags : LinkedList.Holds m.tagHeap m.tags y.tags
  actions : ∀ x ∈ y.shells, LinkedList.Holds m.actionHeap x.2.actions (y.actions x.2.pid)

theorem Represents.wellFormed {m : Memory} {y : Layout} {s : State} (h : m.Represents y s)
    (hw : s.WellFormed) : m.WellFormed y := by
  have hview : ∀ x ∈ y.shells, (shellView y.actions x).2 ∈ s.shells.nodes := by
    intro x hx
    rw [h.shellsEq,LinkedList.nodeList_nodes]
    exact List.mem_map_of_mem (List.mem_map_of_mem hx)
  refine ⟨h.pids hw,?_,fun x hx => ?_,fun x hx => ?_,h.shells,h.tags,h.actions⟩
  · have ht := hw.tags
    rw [h.tagsEq] at ht
    simpa [LinkedList.nodeList,Function.comp_def] using ht
  · have hr := hw.noRepeat _ (hview x hx)
    simpa [stackOf,shellView,LinkedList.nodeList,Function.comp_def] using hr
  · rw [h.cacheDir]
    exact hw.addressed _ (hview x hx)

end Memory

/-- After start-up with any tag file, and any commands from any shells, `malloc` giving an address
of its own to every node in use, the lists in memory are intact. -/
theorem lists_intact (cacheDir : CStr) (validPath : CStr → Bool) (malloc : ℕ → Bool)
    (file : Option (List Byte)) (alloc : ℕ → ℕ) (halloc : Function.Injective alloc)
    (cs : List (Call × ℕ)) {s : State} {os : List Outcome}
    (hr : runCalls (startState cacheDir validPath malloc file) (cs.map Prod.fst) = .ok (s,os))
    (hfresh : ∀ m, Memory.start cacheDir validPath malloc alloc file = .ok m →
      Machine.Along Memory.handle Memory.Fresh m cs) :
    ∃ m₀ m us y, Memory.start cacheDir validPath malloc alloc file = .ok m₀ ∧
      Machine.run Memory.handle m₀ cs = .ok (m,us) ∧ m.Represents y s ∧ m.WellFormed y := by
  obtain ⟨m₀,y₀,hstart,hy₀⟩ := Memory.start_follows validPath cacheDir malloc halloc file
  obtain ⟨m,us,hrun,hw,y,hy⟩ := Machine.run_follows handle Memory.handle Prod.fst
    (fun s m => s.WellFormed ∧ ∃ y, m.Represents y s)
    (fun s m x s' o ⟨hw,y,hy⟩ hx hs => by
      obtain ⟨m',y',hm,hy'⟩ := Memory.handle_follows hy hw hx hs
      exact ⟨m',(),hm,hw.change (handle_change hs),y',hy'⟩)
    ⟨startState_wellFormed cacheDir validPath malloc file,y₀,hy₀⟩ (hfresh m₀ hstart) hr
  exact ⟨m₀,m,us,y,hstart,hrun,hy,hy.wellFormed hw⟩

theorem lists_intact_push : ∃ s os m₀ m us y,
    runCalls (startState (CStr.ofLit "/c") (fun _ => true) (fun _ => true) (some (lit "t=/a\n")))
      [⟨openEnv fun _ => true,CStr.ofLit "register",7,none⟩,
       ⟨openEnv fun _ => true,CStr.ofLit "push",7,some (CStr.ofLit "/b")⟩] = .ok (s,os) ∧
    Memory.start (CStr.ofLit "/c") (fun _ => true) (fun _ => true) id (some (lit "t=/a\n")) =
      .ok m₀ ∧
    Machine.run Memory.handle m₀
      [(⟨openEnv fun _ => true,CStr.ofLit "register",7,none⟩,1),
       (⟨openEnv fun _ => true,CStr.ofLit "push",7,some (CStr.ofLit "/b")⟩,2)] = .ok (m,us) ∧
    m.Represents y s ∧ m.WellFormed y := by
  have hcs : ∀ c ∈ [(⟨openEnv fun _ => true,CStr.ofLit "register",7,none⟩ : Call),
      ⟨openEnv fun _ => true,CStr.ofLit "push",7,some (CStr.ofLit "/b")⟩], c.HasArgs := by
    simp only [List.mem_cons,List.not_mem_nil,or_false,forall_eq_or_imp,forall_eq]
    constructor
    · simp [Call.HasArgs]
      decide
    · simp [Call.HasArgs]
  obtain ⟨s,os,hr,_⟩ := Machine.run_total handle State.WellFormed Call.HasArgs
    (fun _ _ => handle_total) (startState_wellFormed (CStr.ofLit "/c") (fun _ => true)
      (fun _ => true) (some (lit "t=/a\n"))) hcs
  obtain ⟨m₀,m,us,y,hstart,hrun,hy,hw⟩ := lists_intact (CStr.ofLit "/c") (fun _ => true)
    (fun _ => true) (some (lit "t=/a\n")) id Function.injective_id
    [(⟨openEnv fun _ => true,CStr.ofLit "register",7,none⟩,1),
     (⟨openEnv fun _ => true,CStr.ofLit "push",7,some (CStr.ofLit "/b")⟩,2)] hr (by
    intro m hm
    obtain rfl := Except.ok.inj (show Except.ok _ = Except.ok m from hm)
    refine ⟨⟨rfl,rfl,rfl⟩,fun m' o h => ?_⟩
    obtain ⟨rfl,-⟩ := Prod.mk.inj (Except.ok.inj (show Except.ok (_,()) = Except.ok (m',o) from h))
    exact ⟨⟨rfl,rfl,rfl⟩,fun _ _ _ => trivial⟩)
  exact ⟨s,os,m₀,m,us,y,hr,hstart,hrun,hy,hw⟩

end Nav.Daemon
