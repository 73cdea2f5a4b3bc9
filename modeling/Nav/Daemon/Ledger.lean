import Nav.Daemon.Settling
import Nav.Daemon.Loading

/-! The blocks of a daemon from its start on. Every block in use is one of the lists, or has been lost;
`deinit_state` gives back all but the structs of the tags and what has been lost. -/
namespace Nav.Daemon
open Nav.C Nav.Lib Nav.Lib.Blocks

namespace Alloc

/-- The blocks that a line of the tag file loses: the old path and the second copy of a tag that is
already there, or a node without data. -/
def lostLine (validPath : CStr → Bool) (nodeMalloc dataMalloc : Bool) (line : CStr) (tags : NodeList Tag) :
    ℕ :=
  match lineEntry line with
  | none => 0
  | some t =>
    if (Daemon.listGetNode Daemon.compareTagTag tags t.tag).isSome then 2
    else if validPath t.path && nodeMalloc && !dataMalloc then 1 else 0

/-- The blocks that the loop of `read_tag_file` loses. -/
def lostLoop (validPath : CStr → Bool) (nodeMalloc dataMalloc : ℕ → Bool) :
    ℕ → ℕ → List Byte → NodeList Tag → ℕ
  | 0, _, _, _ => 0
  | fuel+1, i, file, tags =>
    if file = [] then 0
    else
      let line := cstr (fgets 255 file).1
      if line.bytes = [newline] then 0
      else lostLine validPath (nodeMalloc i) (dataMalloc i) line tags +
        lostLoop validPath nodeMalloc dataMalloc fuel (i+1) (fgets 255 file).2
          (Daemon.readLine validPath (nodeMalloc i && dataMalloc i) line tags)

/-- The blocks that the start loses. -/
def lostStart (validPath : CStr → Bool) (nodeMalloc dataMalloc : ℕ → Bool) (file : Option (List Byte)) : ℕ :=
  match file with
  | none => 0
  | some bytes => lostLoop validPath nodeMalloc dataMalloc bytes.length 0 bytes NodeList.empty

/-- The blocks that a run loses. -/
def lostRun : State → List Call → ℕ
  | _, [] => 0
  | s, c::cs =>
    match handle s c with
    | .error _ => lost s c
    | .ok (s',_) => lost s c + lostRun s' cs

/-- The blocks that the lists of a state are made of, with the state itself: two for a shell, three for
an action and four for a tag. -/
def held (s : State) : ℕ :=
  1 + 2*s.shells.nodes.length + 3*(s.shells.nodes.map fun sh => sh.actions.nodes.length).sum +
    4*s.tags.nodes.length

/-- The daemon handling calls one after the other, on its blocks. -/
def serve (state : ℕ) : List Call → Code Block (List Effect)
  | [] => pure []
  | c::cs => do
    let effect ← dispatchCommand c.env state c.cmdStr c.pid c.args
    return effect::(← serve state cs)

/-- A daemon from its start on: the address of the state, and what the calls do. -/
def daemon (cacheDir : CStr) (validPath : CStr → Bool) (nodeMalloc dataMalloc : ℕ → Bool)
    (file : Option (List Byte)) (cs : List Call) : Code Block (ℕ × List Effect) := do
  let state ← start cacheDir validPath nodeMalloc dataMalloc file
  return (state,← serve state cs)

section Counting
variable {ι : Type} {g : Layout} {s : State}

lemma card_owned {own : Entry ι → Multiset (ℕ × Block)} (xs : List (Entry ι)) :
    (owned own xs).card = (xs.map fun x => (own x).card).sum := by
  induction xs with
  | nil => rfl
  | cons x xs ih => simp [ih]

lemma card_stackBlocks (xs : List (Entry ActionItem)) : (stackBlocks xs).card = 3*xs.length := by
  have htwo : (xs.map fun x => (ownAction x).card).sum = 2*xs.length := by
    simp [ownAction,mul_comm]
  rw [stackBlocks,Multiset.card_add,card_nodesTo,card_owned,htwo]
  omega

lemma card_leftTag (xs : List (Entry TagItem)) : (owned leftTag xs).card = xs.length := by
  rw [card_owned]
  simp [leftTag]

lemma card_ownShell (x : Entry ShellItem) : (ownShell x).card = 1+3*(toShell x).actions.nodes.length := by
  simp [ownShell,card_stackBlocks,toShell,add_comm]

lemma card_blocks (hg : g.Represents s) (state : ℕ) : (g.blocks state).card = held s := by
  have hshell : ∀ xs : List (Entry ShellItem), (xs.map fun x => (ownShell x).card).sum =
      xs.length + 3*((xs.map toShell).map fun sh => sh.actions.nodes.length).sum := by
    intro xs
    induction xs with
    | nil => rfl
    | cons x xs ih =>
      rw [List.map_cons,List.sum_cons,ih,card_ownShell]
      simp only [List.map_cons,List.sum_cons,List.length_cons]
      ring
  have htag : (g.tags.map fun x => (ownTag x).card).sum = 3*g.tags.length := by
    simp [ownTag,leftTag,mul_comm]
  rw [Layout.blocks,Layout.shellBlocks,Layout.tagBlocks,held,hg.shells,hg.tags]
  simp only [Multiset.card_add,Multiset.card_singleton,card_nodesTo,card_owned,hshell,htag,List.length_map]
  ring

lemma left_exact {xs : List (Entry ShellItem)} (h : ∀ x ∈ xs, x.item.nItems = x.item.actions.length) :
    owned leftShell xs = 0 := by
  induction xs with
  | nil => rfl
  | cons x xs ih => rw [owned_cons,leftShell_exact (h x (by simp)),ih fun y hy => h y (by simp [hy]),zero_add]

end Counting

section Starting
variable {validPath : CStr → Bool} {g : Layout} {state : ℕ} {r : Multiset (ℕ × Block)} {s : State}

/-- The blocks of a daemon that is reading its tag file. -/
def Loaded (state : ℕ) (r : Multiset (ℕ × Block)) (s : State) (tags : NodeList Tag) (n : ℕ)
    (u : Multiset (ℕ × Block)) : Prop :=
  ∃ g v, Layout.Represents g {s with tags} ∧ u = g.blocks state + (v + r) ∧ v.card = n

lemma sweepable_start (hg : g.Represents s) (hs : s.shells = NodeList.empty) : g.Sweepable := by
  have hnone : g.shells = [] := by
    have hmap : g.shells.map toShell = [] := congrArg NodeList.nodes (hg.shells.symm.trans hs)
    simpa using hmap
  intro x hx
  rw [hnone] at hx
  simp at hx

variable {C : Multiset (ℕ × Block) → Prop} (hC : ∀ u, C u)
include hC

lemma triple_readLine (hg : g.Represents s) (hs : s.shells = NodeList.empty)
    (nodeMalloc dataMalloc : Bool) (line : CStr) :
    Triple C (g.blocks state + r) (readLine validPath nodeMalloc dataMalloc line state)
      fun _ => Loaded state r s (Daemon.readLine validPath (nodeMalloc && dataMalloc) line s.tags)
        (lostLine validPath nodeMalloc dataMalloc line s.tags) := by
  have hsw := sweepable_start hg hs
  have hsafe : ∀ g r, Layout.Sweepable g → C (g.blocks state + r) := fun _ _ _ => hC _
  have hsame : Loaded state r s s.tags 0 (g.blocks state + r) := ⟨g,0,hg,by rw [zero_add],rfl⟩
  unfold readLine Daemon.readLine lostLine lineEntry
  rcases h₁ : (Strtok.start line).next isEquals with ⟨_ | token,k⟩
  · exact Triple.pure hsame
  · refine triple_take hsafe hsw fun t => ?_
    rcases h₂ : k.next noDelim with ⟨_ | rest,k'⟩
    · simp only [h₂,Option.map_none]
      exact Triple.free (add_left_comm _ _ _) (hC _) hsame
    · simp only [h₂,Option.map_some,getTag]
      refine triple_take hsafe hsw fun p => ?_
      -- both strings are given back
      have hfree : ∀ n : Multiset (ℕ × Block), Triple C
          (g.blocks state + ({(p,.str (trimmed rest))} + ({(t,.str (trimmed token))} + (n + r))))
          (do Code.free t; Code.free p) fun _ => Loaded state r s s.tags n.card := by
        intro n
        refine triple_giveBack hsafe hsw (add_left_comm _ _ _) ?_
        exact Triple.free (add_left_comm _ _ _) (hC _) ⟨g,n,hg,rfl,rfl⟩
      cases ht : s.tag? (trimmed token) with
      | some old =>
        obtain ⟨pre,y,post,hy,rfl,hread,hdata⟩ := reads_key state
          (r:={(p,.str (trimmed rest))} + ({(t,.str (trimmed token))} + r)) hg t (by simp) ht
        refine Reads.andThen hread (Reads.andThen hdata ?_)
        have hself : g.blocks state + ({(p,.str (trimmed rest))} + ({(t,.str (trimmed token))} + r)) =
            {(y.data,.tag y.item.tagAt y.item.pathAt)} + ({(y.item.tagAt,.str y.item.tag.tag)} +
              {(p,.str (trimmed rest))} + g.beside state pre post +
              ({(y.item.pathAt,.str y.item.tag.path)} + {(t,.str (trimmed token))} + r)) := by
          rw [Layout.tag_blocks hy.split]
          abel
        rw [hself]
        refine Reads.andThen (reads_readTag (t:=y.item.tagAt) (p:=y.item.pathAt) (by simp)) ?_
        refine Triple.write rfl (hC _) ⟨_,{(y.item.pathAt,.str y.item.tag.path)} +
          {(t,.str (trimmed token))},represents_rebind hg hy p (trimmed rest),?_,by simp⟩
        rw [Layout.rebind_blocks hy.split]
        abel
      | none =>
        refine Reads.andThen (reads_noKey hg (by simp) ht) ?_
        have hback := hfree 0
        rw [zero_add,Multiset.card_zero] at hback
        cases hv : validPath (trimmed rest) with
        | false => simpa [hv] using hback
        | true =>
          simp only [Bool.not_true,Bool.false_eq_true,if_false,Option.isSome_none,Bool.true_and]
          refine triple_nodeCreate hsafe hsw (fun hn => ?_) fun hn n => ?_
          · simpa [hn] using hback
          · cases dataMalloc with
            | false =>
              have horder : ({(n,Block.node none none)} + ({(p,.str (trimmed rest))} +
                  ({(t,.str (trimmed token))} + r)) : Multiset (ℕ × Block)) =
                  {(p,.str (trimmed rest))} + ({(t,.str (trimmed token))} + ({(n,.node none none)} + r)) := by
                abel
              rw [horder]
              simpa [hn] using hfree {(n,.node none none)}
            | true =>
              simp only [hn,Bool.not_true,Bool.and_true,Bool.and_false,Bool.false_eq_true,if_false]
              refine triple_tagData hsafe hsw fun d => ?_
              refine (triple_appendTag hsafe hsw _ rfl).mono (fun _ _ => hC _) ?_
              rintro _ _ rfl
              exact ⟨_,0,represents_addTag hg _,by rw [zero_add],rfl⟩

lemma triple_readLoop (hs : s.shells = NodeList.empty) (nodeMalloc dataMalloc : ℕ → Bool) (fuel i : ℕ)
    (file : List Byte) (tags : NodeList Tag) (hg : g.Represents {s with tags}) :
    Triple C (g.blocks state + r) (readLoop validPath nodeMalloc dataMalloc state fuel i file)
      fun _ => Loaded state r s
        (Daemon.readLoop validPath (fun j => nodeMalloc j && dataMalloc j) fuel i file tags)
        (lostLoop validPath nodeMalloc dataMalloc fuel i file tags) := by
  have hsame : Loaded state r s tags 0 (g.blocks state + r) := ⟨g,0,hg,by rw [zero_add],rfl⟩
  induction fuel generalizing i file tags g r with
  | zero => exact Triple.pure hsame
  | succ fuel ih =>
    simp only [readLoop,Daemon.readLoop,lostLoop]
    by_cases hf : file = []
    · simp only [hf,if_true]
      exact Triple.pure hsame
    simp only [hf,if_false]
    by_cases hl : (cstr (fgets 255 file).1).bytes = [newline]
    · simp only [hl,if_true]
      exact Triple.pure hsame
    simp only [hl,if_false]
    refine (triple_readLine hC hg hs (nodeMalloc i) (dataMalloc i) _).bind ?_
    rintro _ _ ⟨g',v,hg',rfl,hv⟩
    refine (ih (i+1) (fgets 255 file).2 _ hg' ⟨g',0,hg',by rw [zero_add],rfl⟩).mono (fun _ h => h) ?_
    rintro _ _ ⟨g'',v',hg'',rfl,hv'⟩
    exact ⟨g'',v' + v,hg'',by rw [add_assoc],by rw [Multiset.card_add,hv,hv',add_comm]⟩

omit hC in
/-- The start, on no blocks at all. -/
theorem triple_start (cacheDir : CStr) (validPath : CStr → Bool) (nodeMalloc dataMalloc : ℕ → Bool)
    (file : Option (List Byte)) :
    Triple (fun _ => True) 0 (start cacheDir validPath nodeMalloc dataMalloc file) fun state u =>
      ∃ g v, Layout.Represents g
          (startState cacheDir validPath (fun i => nodeMalloc i && dataMalloc i) file) ∧
        u = g.blocks state + v ∧ v.card = lostStart validPath nodeMalloc dataMalloc file := by
  let s : State := ⟨cacheDir,NodeList.empty,NodeList.empty,file⟩
  let g : Layout := ⟨cacheDir,[],0,[],0⟩
  have hg : g.Represents s := ⟨rfl,rfl,rfl⟩
  refine Triple.mallocThen fun state => ⟨trivial,?_⟩
  have hfirst : {(state,Block.state cacheDir LinkedList.empty LinkedList.empty)} + 0 =
      g.blocks state + 0 := by
    simp [g,Layout.blocks,Layout.stateBlock,Layout.shellBlocks,Layout.tagBlocks,LinkedList.empty]
  rw [hfirst]
  cases file with
  | none => exact Reads.andThen .pure (Triple.pure ⟨g,0,hg,rfl,rfl⟩)
  | some bytes =>
    refine (triple_readLoop (s:=s) (fun _ => trivial) rfl nodeMalloc dataMalloc bytes.length 0 bytes
      NodeList.empty hg).bind ?_
    rintro _ _ ⟨g',v,hg',rfl,hv⟩
    exact Triple.pure ⟨g',v,⟨hg'.cacheDir,hg'.shells,hg'.tags⟩,by rw [add_zero],hv⟩

end Starting

section Serving
variable {g : Layout} {state : ℕ} {r : Multiset (ℕ × Block)} {s s' : State} {os : List Outcome}

/-- The calls of a run, one after the other. -/
theorem triple_serve {cs : List Call} (hg : g.Represents s) (hw : s.WellFormed)
    (hr : runCalls s cs = .ok (s',os)) :
    Triple (fun _ => True) (g.blocks state + r) (serve state cs) fun es u =>
      ∃ g' v, Layout.Represents g' s' ∧ u = g'.blocks state + (v + r) ∧ v.card = lostRun s cs ∧
        es.map Effect.sent = os.map Outcome.sent ∧
        s'.tagFile = es.foldl (fun file e => e.saved.or file) s.tagFile := by
  induction cs generalizing s os g r with
  | nil =>
    obtain ⟨rfl,rfl⟩ := (Machine.run_nil handle).mp hr
    exact Triple.pure ⟨g,0,hg,by rw [zero_add],rfl,rfl,rfl⟩
  | cons c cs ih =>
    obtain ⟨s₁,o,os',hstep,hrest,rfl⟩ := (Machine.run_cons handle).mp hr
    obtain ⟨hexit,rfl⟩ := handle_exit hstep
    refine (triple_exit (fun _ _ _ => trivial) hg hw (fun _ _ => trivial) hexit).bind ?_
    rintro e _ ⟨g₁,v,hg₁,rfl,hv,hsent,hsaved⟩
    refine (ih hg₁ (hw.change (handle_change hstep)) hrest).bind ?_
    rintro es _ ⟨g₂,v',hg₂,rfl,hv',hsents,hfile⟩
    refine Triple.pure ⟨g₂,v' + v,hg₂,by rw [add_assoc],?_,?_,?_⟩
    · rw [Multiset.card_add,hv,hv',lostRun,hstep,add_comm]
    · rw [List.map_cons,List.map_cons,hsent,hsents]
    · rw [hfile,hsaved,List.foldl_cons]

/-- The memory of a daemon after a run, whatever addresses the allocator has given out. -/
theorem daemon_owns {cacheDir : CStr} {validPath : CStr → Bool} {nodeMalloc dataMalloc : ℕ → Bool}
    {file : Option (List Byte)} {cs : List Call}
    (hr : runCalls (startState cacheDir validPath (fun i => nodeMalloc i && dataMalloc i) file) cs =
      .ok (s,os)) (proposals : ℕ → ℕ) :
    ∃ state es m g v,
      (daemon cacheDir validPath nodeMalloc dataMalloc file cs (Blocks.empty proposals)).result =
        .ok ((state,es),m) ∧
      Owns m (g.blocks state + v) ∧ Layout.Represents g s ∧
      v.card = lostStart validPath nodeMalloc dataMalloc file +
        lostRun (startState cacheDir validPath (fun i => nodeMalloc i && dataMalloc i) file) cs ∧
      es.map Effect.sent = os.map Outcome.sent ∧
      s.tagFile = es.foldl (fun file e => e.saved.or file) file := by
  have hdaemon : Triple (fun _ => True) 0
      (daemon cacheDir validPath nodeMalloc dataMalloc file cs) fun se u =>
      ∃ g v, Layout.Represents g s ∧ u = g.blocks se.1 + v ∧
        v.card = lostStart validPath nodeMalloc dataMalloc file +
          lostRun (startState cacheDir validPath (fun i => nodeMalloc i && dataMalloc i) file) cs ∧
        se.2.map Effect.sent = os.map Outcome.sent ∧
        s.tagFile = se.2.foldl (fun file e => e.saved.or file) file := by
    refine (triple_start cacheDir validPath nodeMalloc dataMalloc file).bind ?_
    rintro state _ ⟨g,v,hg,rfl,hv⟩
    refine (triple_serve hg (startState_wellFormed _ _ _ _) hr).bind ?_
    rintro es _ ⟨g',v',hg',rfl,hv',hsents,hfile⟩
    exact Triple.pure ⟨g',v' + v,hg',rfl,by rw [Multiset.card_add,hv,hv',add_comm],hsents,hfile⟩
  obtain ⟨-,⟨state,es⟩,m,_,hm,hu,g,v,hg,rfl,hv,hsents,hfile⟩ := hdaemon _ (owns_empty proposals)
  exact ⟨state,es,m,g,v,hm,hu,hg,hv,hsents,hfile⟩

/-- A daemon on its blocks does what the daemon on its state does, follows no pointer to a block that is
not in use and frees none twice. After any run two blocks are in use for each shell, three for each
action, four for each tag, one for the state, and those that have been lost on the way; when the lists
are taken down the structs of the tags stay behind as well. -/
theorem blocks_accounted (cacheDir : CStr) (validPath : CStr → Bool) (nodeMalloc dataMalloc : ℕ → Bool)
    (file : Option (List Byte)) (cs : List Call)
    (hr : runCalls (startState cacheDir validPath (fun i => nodeMalloc i && dataMalloc i) file) cs =
      .ok (s,os)) (proposals : ℕ → ℕ) :
    ∃ state es m m',
      (daemon cacheDir validPath nodeMalloc dataMalloc file cs (Blocks.empty proposals)).result =
        .ok ((state,es),m) ∧
      es.map Effect.sent = os.map Outcome.sent ∧
      s.tagFile = es.foldl (fun file e => e.saved.or file) file ∧
      m.inUse = held s + (lostStart validPath nodeMalloc dataMalloc file +
        lostRun (startState cacheDir validPath (fun i => nodeMalloc i && dataMalloc i) file) cs) ∧
      (deinitState state m).result = .ok ((),m') ∧
      m'.inUse = s.tags.nodes.length + (lostStart validPath nodeMalloc dataMalloc file +
        lostRun (startState cacheDir validPath (fun i => nodeMalloc i && dataMalloc i) file) cs) := by
  obtain ⟨state,es,m,g,v,hm,hu,hg,hv,hsents,hfile⟩ := daemon_owns hr proposals
  have hexact := hg.exact (run_wellFormed (startState_wellFormed _ _ _ _) hr)
  obtain ⟨-,_,m',_,hm',hu',rfl⟩ := triple_deinitState (r:=v) hexact.sweepable m hu
  refine ⟨state,es,m,m',hm,hsents,hfile,?_,hm',?_⟩
  · rw [hu.inUse,Multiset.card_add,card_blocks hg,hv]
  · rw [hu'.inUse,left_exact hexact,zero_add,Multiset.card_add,card_leftTag,hv,hg.tags,
      List.length_map]

theorem blocks_accounted_addedTwice : ∃ state es m m',
    (daemon (CStr.ofLit "/c") (fun _ => true) (fun _ => true) (fun _ => true) none
      [⟨openEnv fun _ => true,CStr.ofLit "register",1,none⟩,
       ⟨openEnv fun _ => true,CStr.ofLit "add",1,some (CStr.ofLit "t /a")⟩,
       ⟨openEnv fun _ => true,CStr.ofLit "add",1,some (CStr.ofLit "t /b")⟩] (Blocks.empty id)).result =
      .ok ((state,es),m) ∧ m.inUse = 8 ∧ (deinitState state m).result = .ok ((),m') ∧ m'.inUse = 2 := by
  obtain ⟨state,es,m,m',hm,_,_,huse,hm',huse'⟩ := blocks_accounted (CStr.ofLit "/c") (fun _ => true)
    (fun _ => true) (fun _ => true) none
    [⟨openEnv fun _ => true,CStr.ofLit "register",1,none⟩,
     ⟨openEnv fun _ => true,CStr.ofLit "add",1,some (CStr.ofLit "t /a")⟩,
     ⟨openEnv fun _ => true,CStr.ofLit "add",1,some (CStr.ofLit "t /b")⟩] rfl id
  exact ⟨state,es,m,m',hm,huse.trans (by decide),hm',huse'.trans (by decide)⟩

end Serving
end Alloc
end Nav.Daemon
