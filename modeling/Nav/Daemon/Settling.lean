import Nav.Daemon.Accounts

/-! The handlers on their blocks, exit by exit: what they leave in use, what they lose, and that they do
what the handlers on the state do. Between two steps of most of them the lists are safe for the handler
of SIGINT and SIGTERM. -/
namespace Nav.Daemon
open Nav.C Nav.Lib Nav.Lib.Blocks

namespace Alloc

/-- A node that gets no data is lost. -/
def orphans (env : Env) : ℕ := if env.nodeMalloc && !env.dataMalloc then 1 else 0

/-- The blocks that a call loses: the struct of a tag that is deleted, the second copy of a tag that is
bound again, or a node without data. -/
def lost (s : State) (c : Call) : ℕ :=
  match findCommand c.cmdStr, s.shell? c.pid with
  | some .register, none => orphans c.env
  | some .add, some _ =>
    match c.args.bind fun line => (addArgs line).1 with
    | none => 0
    | some (tag,path) =>
      if !validPath c.env path then 0 else if (s.tag? tag).isSome then 1 else orphans c.env
  | some .delete, some _ =>
    match c.args.bind fun line => (tagArg line).1 with
    | none => 0
    | some tag => if (s.tag? tag).isSome then 1 else 0
  | some .push, some sh =>
    match c.args with
    | none => 0
    | some line =>
      if !validPath c.env (trimmed line) then 0
      else if sh.actions.nodes.head?.map Action.path = some (trimmed line) then 0
      else orphans c.env
  | _, _ => 0

/-- The calls that free a block while it can still be reached, or take a node off a stack before it is
uncounted: a tag that is bound again, the first tag deleted, the first shell unregistered, an action
popped, a stack that is not empty reset. -/
def Exposes (s : State) (c : Call) : Prop :=
  ∃ sh, s.shell? c.pid = some sh ∧
    match findCommand c.cmdStr with
    | some .add => ∃ line tag path, c.args = some line ∧ (addArgs line).1 = some (tag,path) ∧
        validPath c.env path = true ∧ s.tag? tag ≠ none
    | some .delete => ∃ line tag, c.args = some line ∧ (tagArg line).1 = some tag ∧
        s.tags.nodes.head?.map Tag.tag = some tag
    | some .unregister => s.shells.nodes.head?.map Shell.pid = some c.pid
    | some .pop | some .reset => sh.actions.nodes ≠ []
    | _ => False

/-- After a call the blocks are those of the state that it leaves, with what it has lost. -/
def Settles (state : ℕ) (r : Multiset (ℕ × Block)) (s : State) (c : Call) (o : Outcome) (e : Effect)
    (u : Multiset (ℕ × Block)) : Prop :=
  ∃ g v, Layout.Represents g o.state ∧ u = g.blocks state + (v + r) ∧ v.card = lost s c ∧
    e.sent = o.sent ∧ o.state.tagFile = e.saved.or s.tagFile

section Temporaries
variable {α : Type} {g : Layout} {state a : ℕ} {r r' : Multiset (ℕ × Block)} {b : Block}
  {C : Multiset (ℕ × Block) → Prop} {Q : α → Multiset (ℕ × Block) → Prop}
  (hC : ∀ g r, Layout.Sweepable g → C (g.blocks state + r)) (hg : g.Sweepable)
include hC hg

lemma triple_take {f : ℕ → Code Block α} (h : ∀ a, Triple C (g.blocks state + ({(a,b)} + r)) (f a) Q) :
    Triple C (g.blocks state + r) (Code.malloc b >>= f) Q :=
  Triple.mallocThen fun a => by
    rw [add_left_comm]
    exact ⟨hC g _ hg,h a⟩

lemma triple_giveBack {f : Unit → Code Block α} (hr : r = {(a,b)} + r')
    (h : Triple C (g.blocks state + r') (f ()) Q) :
    Triple C (g.blocks state + r) (Code.free a >>= f) Q :=
  Triple.freeThen (by rw [hr,add_left_comm]) (hC g r' hg) h

lemma triple_set {f : Unit → Code Block α} {b' : Block} (hr : r = {(a,b)} + r')
    (h : Triple C (g.blocks state + ({(a,b')} + r')) (f ()) Q) :
    Triple C (g.blocks state + r) (Code.write a b' >>= f) Q :=
  Triple.writeThen (by rw [hr,add_left_comm]) (by rw [add_left_comm]; exact hC g _ hg)
    (by rwa [add_left_comm])

/-- `list_node_create`. -/
lemma triple_nodeCreate {f : Option ℕ → Code Block α} {malloc : Bool}
    (hnone : malloc = false → Triple C (g.blocks state + r) (f none) Q)
    (hsome : malloc = true → ∀ n, Triple C (g.blocks state + ({(n,.node none none)} + r)) (f (some n)) Q) :
    Triple C (g.blocks state + r) (listNodeCreate malloc >>= f) Q := by
  cases malloc with
  | false => exact Reads.andThen .pure (hnone rfl)
  | true =>
    refine Triple.bind (R:=fun n u => ∃ a, n = some a ∧ u = g.blocks state + ({(a,.node none none)} + r))
      (triple_take hC hg fun a => Triple.pure ⟨a,rfl,rfl⟩) ?_
    rintro _ _ ⟨a,rfl,rfl⟩
    exact hsome rfl a

/-- A new tag gets its struct, and the node leads to it. -/
lemma triple_tagData {f : ℕ → Unit → Code Block α} {n t p : ℕ} {tag path : CStr}
    (h : ∀ d, Triple C (g.blocks state + ({(n,.node (some d) none)} +
      (ownTag ⟨n,d,⟨t,p,⟨tag,path⟩⟩⟩ + r))) (f d ()) Q) :
    Triple C (g.blocks state + ({(n,.node none none)} + ({(p,.str path)} + ({(t,.str tag)} + r))))
      (Code.malloc (.tag t p) >>= fun d => Code.write n (.node (some d) none) >>= f d) Q := by
  refine triple_take hC hg fun d => triple_set hC hg (add_left_comm _ _ _) ?_
  have hown : ({(d,Block.tag t p)} + ({(p,.str path)} + ({(t,.str tag)} + r)) : Multiset (ℕ × Block)) =
      ownTag ⟨n,d,⟨t,p,⟨tag,path⟩⟩⟩ + r := by
    simp only [ownTag,leftTag]
    abel
  rw [hown]
  exact h d

end Temporaries

section Exits
variable {g : Layout} {state : ℕ} {r : Multiset (ℕ × Block)} {s : State} {c : Call} {o : Outcome}
  {C : Multiset (ℕ × Block) → Prop}

lemma settles_same (hg : g.Represents s) (ho : o.state = s) (hl : lost s c = 0) :
    Settles state r s c o ⟨o.sent,none⟩ (g.blocks state + r) :=
  ⟨g,0,ho.symm ▸ hg,by rw [zero_add],hl.symm,rfl,by rw [ho]; rfl⟩

lemma triple_reads_same {p : Code Block Effect} (hg : g.Represents s)
    (hp : Reads (g.blocks state + r) p ⟨o.sent,none⟩) (ho : o.state = s) (hl : lost s c = 0) :
    Triple C (g.blocks state + r) p (Settles state r s c o) :=
  hp.triple (settles_same hg ho hl)

/-- The tag file is not in memory. -/
lemma represents_saveTags {env : Env} (hg : g.Represents s) : g.Represents (saveTags env s) :=
  ⟨hg.cacheDir,hg.shells,hg.tags⟩

lemma saveTags_tagFile (env : Env) (s : State) : (saveTags env s).tagFile =
    (if env.fopen then some (tagFileText s.tags) else none).or s.tagFile := by
  cases hf : env.fopen <;> simp [saveTags,Daemon.writeTagFile,hf]

variable (hC : ∀ g r, Layout.Sweepable g → C (g.blocks state + r)) (hg : g.Represents s)
  (hw : s.WellFormed)
include hC hg hw

/-- `cmd_register` of a shell that is not there yet. -/
lemma triple_register_noMemory (hc : findCommand c.cmdStr = some .register) (hs : s.shell? c.pid = none)
    (hm : ¬ (c.env.nodeMalloc = true ∧ c.env.dataMalloc = true)) (args : List Byte) :
    Triple C (g.blocks state + r) (cmdRegister c.env state c.pid)
      (Settles state r s c (quiet s args)) := by
  have hsw := (hg.exact hw).sweepable
  refine Reads.andThen (reads_noShell hg hs) (triple_nodeCreate hC hsw (fun hn => ?_) fun hn n => ?_)
  · exact Triple.pure (settles_same hg rfl (by simp [lost,hc,hs,orphans,hn]))
  · have hd : c.env.dataMalloc = false := by simpa [hn] using hm
    simp only [hd,Bool.not_false,if_true]
    exact Triple.pure ⟨g,_,hg,rfl,by simp [lost,hc,hs,orphans,hn,hd],rfl,rfl⟩

lemma triple_register (hc : findCommand c.cmdStr = some .register) (hs : s.shell? c.pid = none)
    (hm : c.env.nodeMalloc = true ∧ c.env.dataMalloc = true) (args : List Byte) :
    Triple C (g.blocks state + r) (cmdRegister c.env state c.pid)
      (Settles state r s c (Daemon.reply
        {s with shells := Daemon.listAppendNode s.shells (newShell s.cacheDir c.pid)}
        (newShell s.cacheDir c.pid) okNul args)) := by
  have hsw := (hg.exact hw).sweepable
  refine Reads.andThen (reads_noShell hg hs) (triple_nodeCreate hC hsw (fun hn => ?_) fun hn n => ?_)
  · simp [hm.1] at hn
  · simp only [hm.2,Bool.not_true,Bool.false_eq_true,if_false]
    refine Reads.andThen (.read state_mem) ?_
    refine triple_take hC hsw fun d => triple_set hC hsw (add_left_comm _ _ _) ?_
    let e : Entry ShellItem := ⟨n,d,⟨c.pid,sockPath g.cacheDir c.pid,0,[]⟩⟩
    have hown : g.blocks state + ({(n,.node (some d) none)} +
        ({(d,.shell ⟨c.pid,sockPath g.cacheDir c.pid,LinkedList.empty⟩)} + r)) =
        g.blocks state + ({(e.node,.node (some e.data) none)} + (ownShell e + r)) := by
      simp [ownShell,stackBlocks,shellBlock,e,LinkedList.empty]
    refine (triple_appendShell hC hsw e le_rfl hown).seq fun _ => ?_
    refine (reads_reply (g:=g.addShell e) (x:=e) (by simp [Layout.addShell]) okNul).triple ?_
    have hrep := represents_addShell hg e
    have hnew : toShell e = newShell s.cacheDir c.pid := by
      rw [← hg.cacheDir]
      rfl
    rw [hnew] at hrep
    exact ⟨_,0,hrep,by rw [zero_add],by simp [lost,hc,hs,orphans,hm.2],by rw [← hnew]; rfl,rfl⟩

lemma triple_unregister {sh : Shell} (hc : findCommand c.cmdStr = some .unregister)
    (hs : s.shell? c.pid = some sh) (hexp : Exposes s c → ∀ u, C u) (args : List Byte) :
    Triple C (g.blocks state + r) (cmdUnregister state c.pid)
      (Settles state r s c (Daemon.reply
        {s with shells := (Daemon.listDeleteNode Daemon.compareShellPid s.shells c.pid).list}
        sh ok args)) := by
  have hsw := (hg.exact hw).sweepable
  obtain ⟨pre,x,post,hx,rfl⟩ := hg.found_shell hs
  refine triple_withShell hx (Reads.andThen (reads_readShell (shellBlock_mem hx.mem)) ?_)
  have hhead : pre = [] → ∀ u, C u := by
    rintro rfl
    refine hexp ⟨_,hs,?_⟩
    have hpid : x.item.pid = c.pid := by simpa using hx.here
    simp [hc,hg.shells,hx.split,toShell,hpid]
  refine (triple_dropShell hC hsw hx (hg.exact hw x hx.mem) hhead).bind ?_
  rintro _ _ ⟨rfl,rfl⟩
  exact Triple.pure ⟨_,0,represents_dropShell hg hx,by rw [zero_add],by simp [lost,hc],rfl,rfl⟩

omit hC hw in
/-- A call that takes no block and leaves the state as it is. -/
lemma triple_reply {sh : Shell} (hs : s.shell? c.pid = some sh) (hl : lost s c = 0)
    {payload : List Byte} {f : ℕ → Code Block Effect} (ho : o.state = s)
    (hsent : o.sent = [⟨sh.sunPath,payload⟩])
    (hf : ∀ x ∈ g.shells, toShell x = sh →
      Reads (g.blocks state + r) (f x.data) ⟨[⟨x.item.sunPath,payload⟩],none⟩) :
    Triple C (g.blocks state + r) (withShell state c.pid f) (Settles state r s c o) := by
  obtain ⟨pre,x,post,hx,rfl⟩ := hg.found_shell hs
  refine triple_withShell hx (triple_reads_same hg ?_ ho hl)
  rw [hsent]
  exact hf x hx.mem rfl

omit hC hw in
lemma triple_answer {x : Entry ShellItem} (hx : x ∈ g.shells) (hl : lost s c = 0) (payload args : List Byte) :
    Triple C (g.blocks state + r) (reply x.data payload)
      (Settles state r s c (Daemon.reply s (toShell x) payload args)) :=
  triple_reads_same hg (reads_reply hx payload) rfl hl

/-! `cmd_add`. -/

lemma triple_add_malformed {sh : Shell} {line : CStr} (hc : findCommand c.cmdStr = some .add)
    (hs : s.shell? c.pid = some sh) (hargs : c.args = some line) (hadd : (addArgs line).1 = none)
    (args : List Byte) :
    Triple C (g.blocks state + r) (cmdAdd c.env state c.pid c.args)
      (Settles state r s c (Daemon.reply s sh bad args)) := by
  have hsw := (hg.exact hw).sweepable
  have hl : lost s c = 0 := by simp [lost,hc,hs,hargs,hadd]
  obtain ⟨pre,x,post,hx,rfl⟩ := hg.found_shell hs
  refine triple_withShell hx ?_
  simp only [hargs]
  rcases h₁ : (Strtok.start line).next isBlank with ⟨_ | token₁,k₁⟩
  · exact triple_answer hg hx.mem hl bad args
  · refine triple_take hC hsw fun tag => ?_
    rcases h₂ : k₁.next isBlank with ⟨_ | token₂,k₂⟩
    · exact triple_giveBack hC hsw rfl (triple_answer hg hx.mem hl bad args)
    · refine triple_take hC hsw fun path => ?_
      rcases h₃ : k₂.next isBlank with ⟨_ | token₃,k₃⟩
      · simp [addArgs,h₁,h₂,h₃] at hadd
      · simp only [Option.isSome_some,Bool.true_or,if_true]
        refine triple_giveBack hC hsw (add_left_comm _ _ _) (triple_giveBack hC hsw rfl ?_)
        exact triple_answer hg hx.mem hl bad args

omit hC hg hw in
/-- With two words both are copied, and the path is checked. -/
lemma cmdAdd_words {env : Env} {pid : ℤ} {line tag path : CStr} (hadd : (addArgs line).1 = some (tag,path)) :
    cmdAdd env state pid (some line) = withShell state pid (fun shell => do
      let t ← Code.malloc (.str tag)
      let p ← Code.malloc (.str path)
      if !validPath env path then
        Code.free t
        Code.free p
        reply shell bad
      else addTag env state shell t p) := by
  unfold cmdAdd
  congr 1
  funext shell
  rcases h₁ : (Strtok.start line).next isBlank with ⟨_ | token₁,k₁⟩
  · simp [addArgs,h₁] at hadd
  rcases h₂ : k₁.next isBlank with ⟨_ | token₂,k₂⟩
  · simp [addArgs,h₁,h₂] at hadd
  rcases h₃ : k₂.next isBlank with ⟨_ | token₃,k₃⟩
  · obtain ⟨rfl,rfl⟩ : trimmed token₁ = tag ∧ trimmed token₂ = path := by
      simpa [addArgs,h₁,h₂,h₃] using hadd
    simp only [h₁,h₂,h₃,Option.isSome_none,Bool.false_or]
  · simp [addArgs,h₁,h₂,h₃] at hadd

lemma triple_add_words {line tag path : CStr} {pre post : List (Entry ShellItem)} {x : Entry ShellItem}
    (hx : Found (fun x => x.item.pid = c.pid) g.shells pre x post) (hargs : c.args = some line)
    (hadd : (addArgs line).1 = some (tag,path)) {Q : Effect → Multiset (ℕ × Block) → Prop}
    (hbad : validPath c.env path = false → Triple C (g.blocks state + r) (Alloc.reply x.data bad) Q)
    (hgo : validPath c.env path = true → ∀ t p,
      Triple C (g.blocks state + ({(p,.str path)} + ({(t,.str tag)} + r))) (addTag c.env state x.data t p) Q) :
    Triple C (g.blocks state + r) (cmdAdd c.env state c.pid c.args) Q := by
  have hsw := (hg.exact hw).sweepable
  rw [hargs,cmdAdd_words hadd]
  refine triple_withShell hx (triple_take hC hsw fun t => triple_take hC hsw fun p => ?_)
  cases hv : validPath c.env path with
  | false => exact triple_giveBack hC hsw (add_left_comm _ _ _) (triple_giveBack hC hsw rfl (hbad hv))
  | true => exact hgo hv t p

omit hC hw in
variable (state) in
lemma reads_key {tag : CStr} (key : ℕ) {t : Tag} (hkey : (key,Block.str tag) ∈ r) (ht : s.tag? tag = some t) :
    ∃ pre x post, Found (fun x => x.item.tag.tag = tag) g.tags pre x post ∧ toTag x = t ∧
      Reads (g.blocks state + r) (listGetNode (compareTagTag key) (.tags state)) (some x.node) ∧
      Reads (g.blocks state + r) (dataOf x.node) x.data := by
  obtain ⟨pre,x,post,hx,hxt⟩ := hg.found_tag ht
  have hmem : (key,Block.str tag) ∈ g.blocks state + r := Multiset.mem_add.mpr (Or.inr hkey)
  have hread := reads_tag hmem
  rw [hx.find?] at hread
  have hnode : (x.node,Block.node (some x.data) (linkTo none post)) ∈ g.blocks state + r :=
    Multiset.mem_of_le tags_le (hx.split ▸ node_mem pre x post)
  exact ⟨pre,x,post,hx,hxt,hread,reads_dataOf hnode⟩

omit hC hw in
lemma reads_noKey {tag : CStr} {key : ℕ} (hkey : (key,Block.str tag) ∈ r) (ht : s.tag? tag = none) :
    Reads (g.blocks state + r) (listGetNode (compareTagTag key) (.tags state)) none := by
  have hmem : (key,Block.str tag) ∈ g.blocks state + r := Multiset.mem_add.mpr (Or.inr hkey)
  have hread := reads_tag hmem
  rw [hg.tag?,Option.map_eq_none_iff] at ht
  rwa [ht] at hread

lemma triple_addTag_noMemory {tag path : CStr} {t p : ℕ} {x : Entry ShellItem} (hx : x ∈ g.shells)
    (ht : s.tag? tag = none) (hm : ¬ (c.env.nodeMalloc = true ∧ c.env.dataMalloc = true))
    (hl : lost s c = orphans c.env) (args : List Byte) :
    Triple C (g.blocks state + ({(p,.str path)} + ({(t,.str tag)} + r))) (addTag c.env state x.data t p)
      (Settles state r s c (Daemon.reply s (toShell x) bad args)) := by
  have hsw := (hg.exact hw).sweepable
  refine Reads.andThen (reads_noKey hg (by simp) ht)
    (triple_nodeCreate hC hsw (fun hn => ?_) fun hn n => ?_)
  · refine triple_giveBack hC hsw (add_left_comm _ _ _) (triple_giveBack hC hsw rfl ?_)
    exact triple_answer hg hx (by simp [hl,orphans,hn]) bad args
  · have hd : c.env.dataMalloc = false := by simpa [hn] using hm
    simp only [hd,Bool.not_false,if_true]
    have hr : ({(n,Block.node none none)} + ({(p,.str path)} + ({(t,.str tag)} + r)) :
        Multiset (ℕ × Block)) = {(t,.str tag)} + ({(p,.str path)} + ({(n,.node none none)} + r)) := by abel
    refine triple_giveBack hC hsw hr (triple_giveBack hC hsw rfl ?_)
    refine (reads_reply hx bad).triple ⟨g,_,hg,rfl,?_,rfl,rfl⟩
    simp [hl,orphans,hn,hd]

lemma triple_addTag_new {tag path : CStr} {t p : ℕ} {x : Entry ShellItem} (hx : x ∈ g.shells)
    (ht : s.tag? tag = none) (hm : c.env.nodeMalloc = true ∧ c.env.dataMalloc = true)
    (hl : lost s c = orphans c.env) (args : List Byte) :
    Triple C (g.blocks state + ({(p,.str path)} + ({(t,.str tag)} + r))) (addTag c.env state x.data t p)
      (Settles state r s c (Daemon.reply (saveTags c.env
        {s with tags := Daemon.listAppendNode s.tags ⟨tag,path⟩}) (toShell x) ok args)) := by
  have hsw := (hg.exact hw).sweepable
  refine Reads.andThen (reads_noKey hg (by simp) ht)
    (triple_nodeCreate hC hsw (fun hn => ?_) fun hn n => ?_)
  · simp [hm.1] at hn
  · simp only [hm.2,Bool.not_true,Bool.false_eq_true,if_false]
    refine triple_tagData hC hsw fun d => ?_
    let e : Entry TagItem := ⟨n,d,⟨t,p,⟨tag,path⟩⟩⟩
    refine (triple_appendTag hC hsw e rfl).seq fun _ => ?_
    have hrep := represents_addTag hg e
    refine (reads_added hrep c.env (x:=x) hx).triple
      ⟨_,0,represents_saveTags hrep,by rw [zero_add],?_,rfl,saveTags_tagFile c.env _⟩
    simp [hl,orphans,hm.2]

omit hC hw in
/-- The new path takes the place of the old one, and the second copy of the tag stays. -/
lemma triple_addTag_rebound {tag path : CStr} {t p : ℕ} {x : Entry ShellItem} {old : Tag} (hx : x ∈ g.shells)
    (ht : s.tag? tag = some old) (hcrash : ∀ u, C u) (hl : lost s c = 1) (args : List Byte) :
    Triple C (g.blocks state + ({(p,.str path)} + ({(t,.str tag)} + r))) (addTag c.env state x.data t p)
      (Settles state r s c (Daemon.reply (saveTags c.env
        {s with tags := updateNode Daemon.compareTagTag s.tags tag fun t => {t with path}})
        (toShell x) ok args)) := by
  obtain ⟨pre,y,post,hy,rfl,hread,hdata⟩ := reads_key state
    (r:={(p,.str path)} + ({(t,.str tag)} + r)) hg t (by simp) ht
  have hself : g.blocks state + ({(p,.str path)} + ({(t,.str tag)} + r)) =
      {(y.item.pathAt,.str y.item.tag.path)} + ({(y.data,.tag y.item.tagAt y.item.pathAt)} +
        ({(y.item.tagAt,.str y.item.tag.tag)} + ({(p,.str path)} +
          (g.beside state pre post + ({(t,.str tag)} + r))))) := by
    rw [Layout.tag_blocks hy.split]
    abel
  have hrebound : {(y.data,.tag y.item.tagAt p)} + ({(y.item.tagAt,.str y.item.tag.tag)} +
      ({(p,.str path)} + (g.beside state pre post + ({(t,.str tag)} + r)))) =
      (g.rebind pre post y p path).blocks state + ({(t,.str tag)} + r) := by
    rw [Layout.rebind_blocks hy.split]
    abel
  refine Reads.andThen hread (Reads.andThen hdata ?_)
  rw [hself]
  refine Reads.andThen (reads_readTag (t:=y.item.tagAt) (p:=y.item.pathAt) (by simp))
    (Triple.freeThen rfl (hcrash _) ?_)
  refine Reads.andThen (reads_readTag (t:=y.item.tagAt) (p:=y.item.pathAt) (by simp))
    (Triple.writeThen rfl (hcrash _) ?_)
  rw [hrebound]
  have hrep := represents_rebind hg hy p path
  exact (reads_added hrep c.env (x:=x) hx).triple
    ⟨_,_,represents_saveTags hrep,rfl,by simp [hl],rfl,saveTags_tagFile c.env _⟩

omit hw in
/-- A copied word is given back after the reply. -/
lemma triple_replyFree {x : Entry ShellItem} {v r' : Multiset (ℕ × Block)} {a : ℕ} {b : Block}
    (hsw : g.Sweepable) (hx : x ∈ g.shells) (payload : List Byte) (hr : r' = {(a,b)} + (v + r))
    (hl : lost s c = v.card) (ho : o.state = s) (hsent : o.sent = [⟨x.item.sunPath,payload⟩]) :
    Triple C (g.blocks state + r') (do let effect ← reply x.data payload; Code.free a; pure effect)
      (Settles state r s c o) := by
  refine Reads.andThen (reads_reply hx payload) (triple_giveBack hC hsw hr (Triple.pure ?_))
  exact ⟨g,v,ho.symm ▸ hg,rfl,hl.symm,hsent.symm,by rw [ho]; rfl⟩

/-! `cmd_delete` and `cmd_get`. -/

omit hC hw in
lemma triple_delete_blank {sh : Shell} {line : CStr} (hc : findCommand c.cmdStr = some .delete)
    (hs : s.shell? c.pid = some sh) (hargs : c.args = some line) (htag : (tagArg line).1 = none)
    (args : List Byte) : Triple C (g.blocks state + r) (cmdDelete c.env state c.pid c.args)
      (Settles state r s c (quiet s args)) := by
  obtain ⟨pre,x,post,hx,rfl⟩ := hg.found_shell hs
  refine triple_withShell hx ?_
  simp only [hargs,htag]
  exact Triple.pure (settles_same hg rfl (by simp [lost,hc,hs,hargs,htag]))

lemma triple_delete_absent {sh : Shell} {line tag : CStr} (hc : findCommand c.cmdStr = some .delete)
    (hs : s.shell? c.pid = some sh) (hargs : c.args = some line) (htag : (tagArg line).1 = some tag)
    (ht : s.tag? tag = none) (args : List Byte) :
    Triple C (g.blocks state + r) (cmdDelete c.env state c.pid c.args)
      (Settles state r s c (Daemon.reply s sh bad args)) := by
  have hsw := (hg.exact hw).sweepable
  obtain ⟨pre,x,post,hx,rfl⟩ := hg.found_shell hs
  refine triple_withShell hx ?_
  simp only [hargs,htag]
  refine triple_take hC hsw fun t => Reads.andThen (reads_noKey hg (by simp) ht) ?_
  exact triple_replyFree (v:=0) hC hg hsw hx.mem bad (by rw [zero_add])
    (by simp [lost,hc,hs,hargs,htag,ht]) rfl rfl

/-- The struct of the tag stays. -/
lemma triple_deleted {sh : Shell} {line tag : CStr} {old : Tag} (hc : findCommand c.cmdStr = some .delete)
    (hs : s.shell? c.pid = some sh) (hargs : c.args = some line) (htag : (tagArg line).1 = some tag)
    (ht : s.tag? tag = some old) (hexp : Exposes s c → ∀ u, C u) (args : List Byte) :
    Triple C (g.blocks state + r) (cmdDelete c.env state c.pid c.args)
      (Settles state r s c (Daemon.reply (saveTags c.env
        {s with tags := (Daemon.listDeleteNode Daemon.compareTagTag s.tags tag).list}) sh ok args)) := by
  have hsw := (hg.exact hw).sweepable
  obtain ⟨pre,x,post,hx,rfl⟩ := hg.found_shell hs
  refine triple_withShell hx ?_
  simp only [hargs,htag]
  refine triple_take hC hsw fun t => ?_
  obtain ⟨before,y,after,hy,rfl,hread,-⟩ := reads_key state (r:={(t,.str tag)} + r) hg t (by simp) ht
  refine Reads.andThen hread ?_
  have hhead : before = [] → ∀ u, C u := by
    rintro rfl
    have htag' : y.item.tag.tag = tag := by simpa using hy.here
    refine hexp ⟨_,hs,?_⟩
    simp only [hc]
    exact ⟨line,tag,hargs,htag,by simp [hg.tags,hy.split,toTag,htag']⟩
  have hrep := represents_dropTag hg hy
  refine (triple_dropTag hC hsw hy (by simp) hhead).seq fun _ => ?_
  refine Reads.andThen (reads_added hrep c.env (x:=x) hx.mem)
    (triple_giveBack hC (g:=g.dropTag _) hsw (add_left_comm _ _ _) (Triple.pure ?_))
  exact ⟨_,_,represents_saveTags hrep,rfl,by simp [lost,hc,hs,hargs,htag,ht,leftTag],rfl,
    saveTags_tagFile c.env _⟩

omit hC hw in
lemma triple_get_blank {sh : Shell} {line : CStr} (hc : findCommand c.cmdStr = some .get)
    (hs : s.shell? c.pid = some sh) (hargs : c.args = some line) (htag : (tagArg line).1 = none)
    (args : List Byte) : Triple C (g.blocks state + r) (cmdGet state c.pid c.args)
      (Settles state r s c (quiet s args)) := by
  obtain ⟨pre,x,post,hx,rfl⟩ := hg.found_shell hs
  refine triple_withShell hx ?_
  simp only [hargs,htag]
  exact Triple.pure (settles_same hg rfl (by simp [lost,hc]))

lemma triple_get_absent {sh : Shell} {line tag : CStr} (hc : findCommand c.cmdStr = some .get)
    (hs : s.shell? c.pid = some sh) (hargs : c.args = some line) (htag : (tagArg line).1 = some tag)
    (ht : s.tag? tag = none) (args : List Byte) :
    Triple C (g.blocks state + r) (cmdGet state c.pid c.args)
      (Settles state r s c (Daemon.reply s sh bad args)) := by
  have hsw := (hg.exact hw).sweepable
  obtain ⟨pre,x,post,hx,rfl⟩ := hg.found_shell hs
  refine triple_withShell hx ?_
  simp only [hargs,htag]
  refine triple_take hC hsw fun t => Reads.andThen (reads_noKey hg (by simp) ht) ?_
  exact triple_replyFree (v:=0) hC hg hsw hx.mem bad (by rw [zero_add]) (by simp [lost,hc]) rfl rfl

lemma triple_got {sh : Shell} {line tag : CStr} {t : Tag} (hc : findCommand c.cmdStr = some .get)
    (hs : s.shell? c.pid = some sh) (hargs : c.args = some line) (htag : (tagArg line).1 = some tag)
    (ht : s.tag? tag = some t) (ho : o.state = s) (hsent : o.sent = [⟨sh.sunPath,(pathBuf t.path).text⟩]) :
    Triple C (g.blocks state + r) (cmdGet state c.pid c.args) (Settles state r s c o) := by
  have hsw := (hg.exact hw).sweepable
  obtain ⟨pre,x,post,hx,rfl⟩ := hg.found_shell hs
  refine triple_withShell hx ?_
  simp only [hargs,htag]
  refine triple_take hC hsw fun key => ?_
  obtain ⟨before,y,after,hy,rfl,hread,hdata⟩ := reads_key state (r:={(key,.str tag)} + r) hg key
    (by simp) ht
  have hown : ownTag y ≤ g.blocks state + ({(key,.str tag)} + r) := ownTag_le hy.mem
  refine Reads.andThen hread (Reads.andThen hdata ?_)
  refine Reads.andThen (reads_readTag (t:=y.item.tagAt) (p:=y.item.pathAt) ?_)
    (Reads.andThen (reads_readStr (c:=y.item.tag.path) ?_) ?_)
  · exact Multiset.mem_of_le hown (by simp [ownTag,leftTag])
  · exact Multiset.mem_of_le hown (by simp [ownTag])
  · exact triple_replyFree (v:=0) hC hg hsw hx.mem _ (by rw [zero_add]) (by simp [lost,hc]) ho hsent

/-! `cmd_push`, `cmd_pop`, `cmd_actions` and `cmd_reset`. -/

omit hC hg hw in
lemma ownAction_le {x : Entry ShellItem} {a : Entry ActionItem} (hx : x ∈ g.shells)
    (ha : a ∈ x.item.actions) : ownAction a ≤ g.blocks state + r := by
  refine le_trans ?_ (ownShell_le hx)
  rw [ownShell,stackBlocks]
  exact (own_le ha).trans ((Multiset.le_add_left _ _).trans (Multiset.le_add_left _ _))

omit hC hg hw in
lemma actions_le {x : Entry ShellItem} (hx : x ∈ g.shells) :
    nodesTo none x.item.actions ≤ g.blocks state + r := by
  refine le_trans ?_ (ownShell_le hx)
  rw [ownShell,stackBlocks]
  exact (Multiset.le_add_right _ _).trans (Multiset.le_add_left _ _)

omit hC hg hw in
lemma reads_topPath {x : Entry ShellItem} (hx : x ∈ g.shells) :
    Reads (g.blocks state + r) (topPath x.data) ((toShell x).actions.nodes.head?.map Action.path) := by
  refine Reads.bind (reads_readShell (shellBlock_mem hx)) ?_
  rcases hxs : x.item.actions with _ | ⟨a,as⟩
  · simpa [toShell,hxs] using Reads.pure
  · have hchain : nodesTo none (a::as) ≤ g.blocks state + r := hxs ▸ actions_le hx
    have hown : ownAction a ≤ g.blocks state + r := ownAction_le hx (by simp [hxs])
    simp only [linkTo_cons,toShell,hxs,List.map_cons,List.head?_cons,Option.map_some]
    refine Reads.bind (reads_readNode (nodesTo_head hchain)) (Reads.bind
      (reads_readAction (p:=a.item.path) ?_) (Reads.bind (reads_readStr ?_) .pure))
    · exact Multiset.mem_of_le hown (by simp [ownAction])
    · exact Multiset.mem_of_le hown (by simp [ownAction,toAction])

lemma triple_push_invalid {sh : Shell} {line : CStr} (hc : findCommand c.cmdStr = some .push)
    (hs : s.shell? c.pid = some sh) (hargs : c.args = some line)
    (hv : validPath c.env (trimmed line) = false) (args : List Byte) :
    Triple C (g.blocks state + r) (cmdPush c.env state c.pid c.args)
      (Settles state r s c (Daemon.reply s sh bad args)) := by
  have hsw := (hg.exact hw).sweepable
  obtain ⟨pre,x,post,hx,rfl⟩ := hg.found_shell hs
  refine triple_withShell hx ?_
  simp only [hargs]
  refine triple_take hC hsw fun a => ?_
  simp only [hv,Bool.not_false,if_true]
  exact triple_replyFree (v:=0) hC hg hsw hx.mem bad (by rw [zero_add])
    (by simp [lost,hc,hs,hargs,hv]) rfl rfl

lemma triple_pushedAgain {sh : Shell} {line : CStr} (hc : findCommand c.cmdStr = some .push)
    (hs : s.shell? c.pid = some sh) (hargs : c.args = some line)
    (hv : validPath c.env (trimmed line) = true)
    (htop : sh.actions.nodes.head?.map Action.path = some (trimmed line)) (args : List Byte) :
    Triple C (g.blocks state + r) (cmdPush c.env state c.pid c.args)
      (Settles state r s c (Daemon.reply s sh okNul args)) := by
  have hsw := (hg.exact hw).sweepable
  obtain ⟨pre,x,post,hx,rfl⟩ := hg.found_shell hs
  refine triple_withShell hx ?_
  simp only [hargs]
  refine triple_take hC hsw fun a => ?_
  simp only [hv,Bool.not_true,Bool.false_eq_true,if_false]
  refine Reads.andThen (reads_topPath hx.mem) ?_
  rw [if_pos htop]
  exact triple_giveBack hC hsw rfl (triple_answer hg hx.mem (by simp [lost,hc,hs,hargs,htop]) okNul args)

lemma triple_push_noMemory {sh : Shell} {line : CStr} (hc : findCommand c.cmdStr = some .push)
    (hs : s.shell? c.pid = some sh) (hargs : c.args = some line)
    (hv : validPath c.env (trimmed line) = true)
    (htop : sh.actions.nodes.head?.map Action.path ≠ some (trimmed line))
    (hm : ¬ (c.env.nodeMalloc = true ∧ c.env.dataMalloc = true)) (args : List Byte) :
    Triple C (g.blocks state + r) (cmdPush c.env state c.pid c.args)
      (Settles state r s c (Daemon.reply s sh bad args)) := by
  have hsw := (hg.exact hw).sweepable
  obtain ⟨pre,x,post,hx,rfl⟩ := hg.found_shell hs
  have hlost : lost s c = orphans c.env := by simp [lost,hc,hs,hargs,hv,htop]
  refine triple_withShell hx ?_
  simp only [hargs]
  refine triple_take hC hsw fun a => ?_
  simp only [hv,Bool.not_true,Bool.false_eq_true,if_false]
  refine Reads.andThen (reads_topPath hx.mem) ?_
  rw [if_neg htop]
  refine triple_nodeCreate hC hsw (fun hn => ?_) fun hn n => ?_
  · exact triple_replyFree (v:=0) hC hg hsw hx.mem bad (by rw [zero_add])
      (by simp [hlost,orphans,hn]) rfl rfl
  · have hd : c.env.dataMalloc = false := by simpa [hn] using hm
    simp only [hd,Bool.not_false,if_true]
    exact triple_replyFree hC hg hsw hx.mem bad (add_left_comm _ _ _)
      (by simp [hlost,orphans,hn,hd]) rfl rfl

lemma triple_pushed {sh : Shell} {line : CStr} (hc : findCommand c.cmdStr = some .push)
    (hs : s.shell? c.pid = some sh) (hargs : c.args = some line)
    (hv : validPath c.env (trimmed line) = true)
    (htop : sh.actions.nodes.head?.map Action.path ≠ some (trimmed line))
    (hm : c.env.nodeMalloc = true ∧ c.env.dataMalloc = true) (args : List Byte) :
    Triple C (g.blocks state + r) (cmdPush c.env state c.pid c.args)
      (Settles state r s c (Daemon.reply
        (setActions s c.pid (Daemon.listPrependNode sh.actions ⟨trimmed line⟩)) sh okNul args)) := by
  have hsw := (hg.exact hw).sweepable
  obtain ⟨pre,x,post,hx,rfl⟩ := hg.found_shell hs
  refine triple_withShell hx ?_
  simp only [hargs]
  refine triple_take hC hsw fun a => ?_
  simp only [hv,Bool.not_true,Bool.false_eq_true,if_false]
  refine Reads.andThen (reads_topPath hx.mem) ?_
  rw [if_neg htop]
  refine triple_nodeCreate hC hsw (fun hn => ?_) fun hn n => ?_
  · simp [hm.1] at hn
  · simp only [hm.2,Bool.not_true,Bool.false_eq_true,if_false]
    refine triple_take hC hsw fun d => triple_set hC hsw (add_left_comm _ _ _) ?_
    let e : Entry ActionItem := ⟨n,d,⟨a,⟨trimmed line⟩⟩⟩
    have hown : g.blocks state + ({(n,.node (some d) none)} + ({(d,.action a)} +
        ({(a,.str (trimmed line))} + r))) =
        g.blocks state + ({(e.node,.node (some e.data) none)} + (ownAction e + r)) := by
      simp only [ownAction,e]
      abel
    refine (triple_prependAction hC hsw hx.split e hown).seq fun _ => ?_
    have hrep := represents_setItem hg hx (x.item.nItems+1) (e::x.item.actions)
    let y : Entry ShellItem :=
      ⟨x.node,x.data,{x.item with nItems := x.item.nItems+1, actions := e::x.item.actions}⟩
    refine (reads_reply (g:=g.setItem pre post x y.item) (x:=y) (by simp [Layout.setItem,y])
      okNul).triple ⟨_,0,hrep,by rw [zero_add],?_,rfl,rfl⟩
    simp [lost,hc,hs,hargs,hv,htop,orphans,hm.2]

omit hC hw in
lemma triple_pop_empty {sh : Shell} (hc : findCommand c.cmdStr = some .pop)
    (hs : s.shell? c.pid = some sh) (ha : sh.actions.nodes = []) (args : List Byte) :
    Triple C (g.blocks state + r) (cmdPop state c.pid)
      (Settles state r s c (Daemon.reply s sh bad args)) := by
  obtain ⟨pre,x,post,hx,rfl⟩ := hg.found_shell hs
  have hxs : x.item.actions = [] := by simpa [toShell] using ha
  refine triple_withShell hx (Reads.andThen (reads_readShell (shellBlock_mem hx.mem)) ?_)
  simp only [hxs,linkTo_nil]
  exact triple_answer hg hx.mem (by simp [lost,hc]) bad args

omit hC hw in
/-- The reply is sent before the action goes. -/
lemma triple_popped {sh : Shell} {a : Action} {as : List Action} (hc : findCommand c.cmdStr = some .pop)
    (hs : s.shell? c.pid = some sh) (ha : sh.actions.nodes = a::as) (hcrash : ∀ u, C u)
    (ho : o.state = setActions s c.pid (Daemon.listDeleteNode Daemon.compareActionPath sh.actions a.path).list)
    (hsent : o.sent = [⟨sh.sunPath,(pathBuf a.path).text⟩]) (hfile : o.state.tagFile = s.tagFile) :
    Triple C (g.blocks state + r) (cmdPop state c.pid) (Settles state r s c o) := by
  obtain ⟨pre,x,post,hx,rfl⟩ := hg.found_shell hs
  obtain ⟨b,bs,hxs,rfl,rfl⟩ : ∃ b bs, x.item.actions = b::bs ∧ toAction b = a ∧ bs.map toAction = as := by
    simpa [toShell,List.map_eq_cons_iff] using ha
  have hchain : nodesTo none (b::bs) ≤ g.blocks state + r := hxs ▸ actions_le hx.mem
  have hown : ownAction b ≤ g.blocks state + r := ownAction_le hx.mem (by simp [hxs])
  refine triple_withShell hx (Reads.andThen (reads_readShell (shellBlock_mem hx.mem)) ?_)
  simp only [hxs,linkTo_cons]
  refine Reads.andThen (reads_dataOf (nodesTo_head hchain)) (Reads.andThen
    (reads_readAction (p:=b.item.path) ?_) (Reads.andThen (reads_readStr (c:=b.item.action.path) ?_) ?_))
  · exact Multiset.mem_of_le hown (by simp [ownAction])
  · exact Multiset.mem_of_le hown (by simp [ownAction])
  · refine Reads.andThen (reads_reply hx.mem _) (((triple_popAction hx.split hxs).mono
      (fun _ _ => hcrash _) fun _ _ h => h).seq fun _ => Triple.pure ?_)
    have hrep := represents_setItem hg hx (x.item.nItems-1) bs
    have hstate : o.state = setActions s c.pid ⟨bs.map toAction,x.item.nItems-1⟩ := by
      rw [ho,deleteTop ha]
      rfl
    exact ⟨_,0,hstate ▸ hrep,by rw [zero_add],by simp [lost,hc],hsent.symm,hfile⟩

omit hC hg hw in
lemma reads_actionsLoop {u : Multiset (ℕ × Block)} {xs : List (Entry ActionItem)} (fuel : ℕ)
    (hu : nodesTo none xs ≤ u) (hx : ∀ x ∈ xs, ownAction x ≤ u) (hf : xs.length < fuel) :
    Reads u (actionsLoop fuel (linkTo none xs)) (xs.map toAction) := by
  induction xs generalizing fuel with
  | nil =>
    cases fuel with
    | zero => simp at hf
    | succ fuel => exact .pure
  | cons x xs ih =>
    cases fuel with
    | zero => simp at hf
    | succ fuel =>
      have hown := hx x (by simp)
      refine Reads.bind (reads_readNode (nodesTo_head hu)) (Reads.bind .deref (Reads.bind
        (reads_readAction (p:=x.item.path) ?_) (Reads.bind (reads_readStr (c:=x.item.action.path) ?_)
          (Reads.bind (ih fuel (nodesTo_tail hu) (fun y hy => hx y (by simp [hy]))
            (by simpa using hf)) .pure))))
      · exact Multiset.mem_of_le hown (by simp [ownAction])
      · exact Multiset.mem_of_le hown (by simp [ownAction])

omit hC hw in
lemma triple_actions {sh : Shell} (hs : s.shell? c.pid = some sh) (hl : lost s c = 0) (ho : o.state = s)
    (hsent : o.sent = [⟨sh.sunPath,(actionsBuf sh.actions).text⟩]) :
    Triple C (g.blocks state + r) (cmdActions state c.pid) (Settles state r s c o) := by
  refine triple_reply hg hs hl ho hsent fun x hx hxs => ?_
  have hlist : ((ListAt.actions x.data).addr,Block.shell ⟨x.item.pid,x.item.sunPath,
      ⟨linkTo none x.item.actions,x.item.nItems⟩⟩) ∈ g.blocks state + r := shellBlock_mem hx
  refine Reads.bind (reads_readList (holds_actions x.data x.item.pid x.item.sunPath) hlist)
    (Reads.bind (Reads.sized fun fuel hfuel => reads_actionsLoop fuel (actions_le hx)
      (fun a ha => ownAction_le hx ha) (length_lt (actions_le hx) hfuel)) ?_)
  rw [← hxs]
  exact reads_reply hx _

omit hC hw in
lemma triple_reset {sh : Shell} (hc : findCommand c.cmdStr = some .reset) (hs : s.shell? c.pid = some sh)
    (hexp : Exposes s c → ∀ u, C u) (args : List Byte) :
    Triple C (g.blocks state + r) (cmdReset state c.pid) (Settles state r s c (Daemon.reply
      (setActions s c.pid (Daemon.listDeleteAll sh.actions).1) sh okNul args)) := by
  obtain ⟨pre,x,post,hx,rfl⟩ := hg.found_shell hs
  have hdrop : Triple C (g.blocks state + r) (listDeleteAll cleanupAction (.actions x.data)) fun _ u =>
      u = (g.setItem pre post x {x.item with
        nItems := x.item.nItems-x.item.actions.length, actions := []}).blocks state + r := by
    rcases hxs : x.item.actions with _ | ⟨a,as⟩
    · -- an empty stack is not touched
      have hlist := blocks_actions state hx.split r
      have hempty := setItem_actions state (r:=r) hx.split x.item.nItems []
      rw [hxs] at hlist
      refine Reads.andThen (reads_readList (holds_actions x.data x.item.pid x.item.sunPath)
        (L:=⟨none,x.item.nItems⟩) (by rw [hlist]; simp)) (Triple.pure ?_)
      rw [hlist]
      simpa using hempty
    · have hcrash : ∀ u, C u := hexp ⟨_,hs,by simp [hc,toShell,hxs]⟩
      have hreset := triple_resetActions state (r:=r) hx.split
      rw [hxs] at hreset
      exact hreset.mono (fun _ _ => hcrash _) fun _ _ h => h
  refine triple_withShell hx (hdrop.seq fun _ => ?_)
  have hrep := represents_setItem hg hx (x.item.nItems-x.item.actions.length) []
  let y : Entry ShellItem :=
    ⟨x.node,x.data,{x.item with nItems := x.item.nItems-x.item.actions.length, actions := []}⟩
  refine (reads_reply (g:=g.setItem pre post x y.item) (x:=y) (by simp [Layout.setItem,y])
    okNul).triple ⟨_,0,?_,by rw [zero_add],by simp [lost,hc],rfl,rfl⟩
  simpa [listDeleteAll_eq,toShell,y,Daemon.reply] using hrep

omit hw in
lemma triple_add_invalid {sh : Shell} {line tag path : CStr} (hw : s.WellFormed)
    (hc : findCommand c.cmdStr = some .add) (hs : s.shell? c.pid = some sh) (hargs : c.args = some line)
    (hadd : (addArgs line).1 = some (tag,path)) (hv : validPath c.env path = false) (args : List Byte) :
    Triple C (g.blocks state + r) (cmdAdd c.env state c.pid c.args)
      (Settles state r s c (Daemon.reply s sh bad args)) := by
  obtain ⟨pre,x,post,hx,rfl⟩ := hg.found_shell hs
  refine triple_add_words hC hg hw hx hargs hadd (fun _ => ?_) fun hv' => absurd hv' (by simp [hv])
  exact triple_answer hg hx.mem (by simp [lost,hc,hs,hargs,hadd,hv]) bad args

/-- Every way of handling a call, on the blocks. -/
theorem triple_exit (hexp : Exposes s c → ∀ u, C u) (hexit : Exit c s o) :
    Triple C (g.blocks state + r) (dispatchCommand c.env state c.cmdStr c.pid c.args)
      (Settles state r s c o) := by
  unfold dispatchCommand
  cases hexit with
  | unknown hc =>
    rw [hc]
    exact Triple.pure (settles_same hg rfl (by simp [lost,hc]))
  | ignored hc hs =>
    have hquiet : ∀ f, Triple C (g.blocks state + r) (withShell state c.pid f)
        (Settles state r s c (quiet s (region c.args))) := fun f =>
      triple_reads_same hg (reads_withShell_none hg hs) rfl (by
        cases hcmd : findCommand c.cmdStr with
        | none => simp [lost,hcmd]
        | some cmd => cases cmd <;> simp_all [lost])
    cases hcmd : findCommand c.cmdStr with
    | none => exact Triple.pure (settles_same hg rfl (by simp [lost,hcmd]))
    | some cmd =>
      cases cmd with
      | register => exact absurd hcmd hc
      | unregister | add | delete | «show» | get | push | pop | actions | list | reset => exact hquiet _
  | registeredAgain hc hs =>
    rw [hc]
    obtain ⟨pre,x,post,hx,rfl⟩ := hg.found_shell hs
    exact Reads.andThen (reads_found hx) (Reads.andThen (reads_foundData hx)
      (triple_answer hg hx.mem (by simp [lost,hc,hs]) okNul _))
  | registerNoMemory hc hs hm => rw [hc]; exact triple_register_noMemory hC hg hw hc hs hm _
  | registered hc hs hm => rw [hc]; exact triple_register hC hg hw hc hs hm _
  | unregistered hc hs => rw [hc]; exact triple_unregister hC hg hw hc hs hexp _
  | addMalformed hc hs hargs hadd => rw [hc]; exact triple_add_malformed hC hg hw hc hs hargs hadd _
  | addInvalid hc hs hargs hadd hv => rw [hc]; exact triple_add_invalid hC hg hw hc hs hargs hadd hv _
  | @rebound sh line tag path t hc hs hargs hadd hv ht =>
    rw [hc]
    have hcrash : ∀ u, C u := hexp ⟨sh,hs,by
      simp only [hc]
      exact ⟨line,tag,path,hargs,hadd,hv,by simp [ht]⟩⟩
    obtain ⟨pre,x,post,hx,rfl⟩ := hg.found_shell hs
    refine triple_add_words hC hg hw hx hargs hadd (fun hv' => absurd hv (by simp [hv'])) fun _ key p => ?_
    exact triple_addTag_rebound hg hx.mem ht hcrash (by simp [lost,hc,hs,hargs,hadd,hv,ht]) _
  | addNoMemory hc hs hargs hadd hv ht hm =>
    rw [hc]
    obtain ⟨pre,x,post,hx,rfl⟩ := hg.found_shell hs
    refine triple_add_words hC hg hw hx hargs hadd (fun hv' => absurd hv (by simp [hv'])) fun _ key p => ?_
    exact triple_addTag_noMemory hC hg hw hx.mem ht hm (by simp [lost,hc,hs,hargs,hadd,hv,ht]) _
  | added hc hs hargs hadd hv ht hm =>
    rw [hc]
    obtain ⟨pre,x,post,hx,rfl⟩ := hg.found_shell hs
    refine triple_add_words hC hg hw hx hargs hadd (fun hv' => absurd hv (by simp [hv'])) fun _ key p => ?_
    exact triple_addTag_new hC hg hw hx.mem ht hm (by simp [lost,hc,hs,hargs,hadd,hv,ht]) _
  | deleteBlank hc hs hargs htag => rw [hc]; exact triple_delete_blank hg hc hs hargs htag _
  | deleteAbsent hc hs hargs htag ht => rw [hc]; exact triple_delete_absent hC hg hw hc hs hargs htag ht _
  | deleted hc hs hargs htag ht => rw [hc]; exact triple_deleted hC hg hw hc hs hargs htag ht hexp _
  | shown hc hs =>
    rw [hc]
    exact triple_reply hg hs (by simp [lost,hc]) rfl rfl fun x hx _ =>
      Reads.bind (reads_readTags hg) (reads_reply hx _)
  | listed hc hs =>
    rw [hc]
    exact triple_reply hg hs (by simp [lost,hc]) rfl rfl fun x hx _ =>
      Reads.bind (reads_readTags hg) (reads_reply hx _)
  | getBlank hc hs hargs htag => rw [hc]; exact triple_get_blank hg hc hs hargs htag _
  | getAbsent hc hs hargs htag ht => rw [hc]; exact triple_get_absent hC hg hw hc hs hargs htag ht _
  | got hc hs hargs htag ht => rw [hc]; exact triple_got hC hg hw hc hs hargs htag ht rfl rfl
  | pushNothing hc hs hargs =>
    rw [hc]
    obtain ⟨pre,x,post,hx,rfl⟩ := hg.found_shell hs
    refine triple_withShell hx ?_
    simp only [hargs]
    exact Triple.pure (settles_same hg rfl (by simp [lost,hc,hs,hargs]))
  | pushInvalid hc hs hargs hv => rw [hc]; exact triple_push_invalid hC hg hw hc hs hargs hv _
  | pushedAgain hc hs hargs hv htop => rw [hc]; exact triple_pushedAgain hC hg hw hc hs hargs hv htop _
  | pushNoMemory hc hs hargs hv htop hm =>
    rw [hc]
    exact triple_push_noMemory hC hg hw hc hs hargs hv htop hm _
  | pushed hc hs hargs hv htop hm => rw [hc]; exact triple_pushed hC hg hw hc hs hargs hv htop hm _
  | popEmpty hc hs ha => rw [hc]; exact triple_pop_empty hg hc hs ha _
  | @popped sh a as hc hs ha =>
    rw [hc]
    have hcrash : ∀ u, C u := hexp ⟨sh,hs,by simp [hc,ha]⟩
    exact triple_popped hg hc hs ha hcrash rfl rfl rfl
  | actionsShown hc hs => rw [hc]; exact triple_actions hg hs (by simp [lost,hc]) rfl rfl
  | reset hc hs => rw [hc]; exact triple_reset hg hc hs hexp _

end Exits
end Alloc
end Nav.Daemon
