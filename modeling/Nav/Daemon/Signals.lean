import Nav.Daemon.Ledger
import Mathlib.Logic.Relation

/-! SIGINT and SIGTERM while a command is handled. The handler takes the lists down; it comes to its end
at every point of a call unless the call frees a block that can still be reached, or takes a node off a
stack before it is uncounted. -/
namespace Nav.Daemon
open Nav.C Nav.Lib Nav.Lib.Blocks

namespace Alloc

/-! Lists that cannot be taken down. -/

section Failing
variable {ι : Type} {s u r : Multiset (ℕ × Block)} {l : ListAt} {blk : LinkedList → Block} {n : ℤ}
  {x : Entry ι} {cleanupFunc : Option ℕ → Code Block Unit} {own left : Entry ι → Multiset (ℕ × Block)}

/-- `list_delete_all` gets as far as the first entry that cannot be cleaned up. -/
lemma fails_deleteAllLoop (hl : Holds l blk) (pre post : List (Entry ι)) (fuel : ℕ)
    (hs : s = {(l.addr,blk ⟨linkTo none (pre ++ x::post),n⟩)} + nodesTo none (pre ++ x::post) +
      (owned own pre + r))
    (hpre : ∀ y ∈ pre, Cleans cleanupFunc own left y)
    (hx : ∀ k, Fails ({(l.addr,blk ⟨linkTo none post,k⟩)} + nodesTo none (x::post) + (owned left pre + r))
      (cleanupFunc (some x.data))) :
    Fails s (deleteAllLoop cleanupFunc l fuel (linkTo none (pre ++ x::post))) := by
  induction pre generalizing s n r fuel with
  | nil =>
    cases fuel with
    | zero => exact Fails.fail
    | succ fuel =>
      simp only [List.nil_append,nodesTo_cons,linkTo_cons,owned_nil,zero_add] at hs hx
      refine Fails.bind (Fails.andThen (reads_readNode (d:=some x.data) (q:=linkTo none post)
        (by simp [hs])) ?_)
      refine Fails.next (triple_writeList (Q:=fun _ u => u = {(l.addr,blk ⟨linkTo none post,n⟩)} +
        ({(x.node,.node (some x.data) (linkTo none post))} + nodesTo none post) + r) hl
        (L:=⟨some x.node,n⟩) _ (hs.trans (add_assoc _ _ _)) trivial (add_assoc _ _ _).symm) ?_
      rintro _ _ rfl
      exact Fails.bind (hx n)
  | cons y pre ih =>
    cases fuel with
    | zero => exact Fails.fail
    | succ fuel =>
      rw [List.cons_append,owned_cons,add_assoc (own y)] at hs
      refine Fails.next ((triple_deleteAllRound hl hs (hpre y (by simp))).mono (fun _ _ => trivial)
        fun _ _ h => h) ?_
      rintro _ _ ⟨rfl,rfl⟩
      refine ih (r:=left y + r) fuel (by rw [add_left_comm (left y)])
        (fun z hz => hpre z (by simp [hz])) fun k => ?_
      have hmove : owned left (y::pre) + r = owned left pre + (left y + r) := by
        rw [owned_cons]
        abel
      rw [← hmove]
      exact hx k

lemma fails_listDeleteAll (hl : Holds l blk) (pre post : List (Entry ι))
    (hs : s = {(l.addr,blk ⟨linkTo none (pre ++ x::post),n⟩)} + nodesTo none (pre ++ x::post) +
      (owned own pre + r))
    (hpre : ∀ y ∈ pre, Cleans cleanupFunc own left y)
    (hx : ∀ k, Fails ({(l.addr,blk ⟨linkTo none post,k⟩)} + nodesTo none (x::post) + (owned left pre + r))
      (cleanupFunc (some x.data))) :
    Fails s (listDeleteAll cleanupFunc l) := by
  refine Fails.andThen (reads_readList hl (L:=⟨linkTo none (pre ++ x::post),n⟩) (by simp [hs])) ?_
  have hloop : ∀ fuel, Fails s (deleteAllLoop cleanupFunc l fuel (linkTo none (pre ++ x::post))) :=
    fun fuel => fails_deleteAllLoop hl pre post fuel hs hpre hx
  cases pre with
  | nil => exact Fails.sized fun fuel _ => hloop fuel
  | cons y pre => exact Fails.sized fun fuel _ => hloop fuel

lemma fails_readShell {a : ℕ} (h : Gone a u) : Fails u (readShell a) := Fails.bind (Fails.read h)

lemma fails_readStr {a : ℕ} (h : Gone a u) : Fails u (readStr a) := Fails.bind (Fails.read h)

/-- The struct of a shell is gone. -/
lemma fails_cleanupShell {d : ℕ} (h : Gone d u) : Fails u (cleanupShell (some d)) := by
  refine Fails.andThen .deref (Fails.bind (Fails.sized fun fuel _ => ?_))
  cases fuel with
  | zero => exact Fails.fail
  | succ fuel => exact Fails.bind (fails_readShell h)

/-- The path of the first action is gone. -/
lemma fails_cleanupShell_path {x : Entry ShellItem} {a : Entry ActionItem} {as : List (Entry ActionItem)}
    (hx : x.item.actions = a::as) (hn : 0 < x.item.nItems) (hshell : (x.data,shellBlock x.item) ∈ u)
    (hnode : (a.node,Block.node (some a.data) (linkTo none as)) ∈ u)
    (haction : (a.data,Block.action a.item.path) ∈ u) (ha : Gone a.item.path u) :
    Fails u (cleanupShell (some x.data)) := by
  rw [shellBlock,hx,linkTo_cons] at hshell
  have hnode := reads_readNode hnode
  have haction := reads_readAction haction
  refine Fails.andThen .deref (Fails.bind (Fails.sized fun fuel _ => ?_))
  cases fuel with
  | zero => exact Fails.fail
  | succ fuel =>
    refine Fails.andThen (reads_readShell hshell) ?_
    rw [if_pos hn]
    refine Fails.bind (Fails.andThen .deref (Fails.andThen hnode (Fails.andThen .deref
      (Fails.andThen haction (Fails.bind ?_)))))
    refine Fails.andThen (reads_readList (l:=.actions x.data)
      (holds_actions x.data x.item.pid x.item.sunPath) hshell) (Fails.andThen hnode (Fails.bind ?_))
    exact Fails.andThen .deref (Fails.andThen haction (Fails.bind (fails_readStr ha)))

/-- A shell counts more actions than it has. -/
lemma fails_cleanupLoop {d : ℕ} {pid : ℤ} {sunPath : List Byte} {xs : List (Entry ActionItem)} (fuel : ℕ)
    (hs : s = {(d,shellBlock ⟨pid,sunPath,n,xs⟩)} + (stackBlocks xs + r)) (hn : xs.length < n) :
    Fails s (cleanupLoop d fuel) := by
  induction fuel generalizing s n xs with
  | zero => exact Fails.fail
  | succ fuel ih =>
    refine Fails.andThen (reads_readShell (i:=⟨pid,sunPath,⟨linkTo none xs,n⟩⟩)
      (by simp [hs,shellBlock])) ?_
    have hpos : 0 < n := by omega
    rw [if_pos hpos]
    cases xs with
    | nil => exact Fails.bind (Fails.bind Fails.fail)
    | cons x xs =>
      refine Fails.next ((triple_cleanupRound hs).mono (fun _ _ => trivial) fun _ _ h => h) ?_
      rintro _ _ rfl
      exact ih rfl (by simp only [List.length_cons,Nat.cast_add,Nat.cast_one] at hn; omega)

lemma fails_cleanupShell_count {x : Entry ShellItem} (hn : x.item.actions.length < x.item.nItems)
    (hs : s = ownShell x + r) : Fails s (cleanupShell (some x.data)) :=
  Fails.andThen .deref (Fails.bind (Fails.sized fun fuel _ =>
    fails_cleanupLoop fuel (hs.trans (add_assoc _ _ _)) hn))

/-- A string of a tag is gone. -/
lemma fails_cleanupTag {d t p : ℕ} (h : (d,Block.tag t p) ∈ u) (ha : Gone t u ∨ Gone p u) :
    Fails u (cleanupTag (some d)) := by
  refine Fails.andThen .deref (Fails.andThen (reads_readTag h) ?_)
  by_cases ht : Gone t u
  · exact Fails.bind (Fails.free ht)
  · obtain ⟨b,hb⟩ : ∃ b, (t,b) ∈ u := by simpa [Gone] using ht
    obtain ⟨v,rfl⟩ := Multiset.exists_cons_of_mem hb
    refine Fails.next (Triple.free (b:=b) (Q:=fun _ u => u = v) (Multiset.singleton_add _ _).symm trivial
      rfl) ?_
    rintro _ _ rfl
    exact Fails.free ((ha.resolve_left ht).mono (Multiset.le_cons_self _ _))

end Failing

/-! The handler on such lists. -/

section Handling
variable {g : Layout} {state : ℕ} {u r : Multiset (ℕ × Block)}

/-- The shells in front of the one that cannot be cleaned up leave nothing behind. -/
lemma fails_handler_shell {pre post : List (Entry ShellItem)} {x : Entry ShellItem}
    (hx : g.shells = pre ++ x::post) (hpre : ∀ y ∈ pre, y.item.nItems = y.item.actions.length)
    (hu : u = {(state,g.stateBlock)} + nodesTo none g.shells + (owned ownShell pre + r))
    (hfail : ∀ k, Fails ({(state,.state g.cacheDir ⟨linkTo none post,k⟩ ⟨linkTo none g.tags,g.tagItems⟩)} +
      nodesTo none (x::post) + r) (cleanupShell (some x.data))) :
    Fails u (handler state) := by
  refine Fails.andThen (.read (b:=g.stateBlock) (by simp [hu])) (Fails.bind ?_)
  rw [Layout.stateBlock,hx] at hu
  refine fails_listDeleteAll (l:=.shells state) (holds_shells state g.cacheDir _) pre post hu
    (fun y hy => cleans_shell (hpre y hy).le) fun k => ?_
  rw [left_exact hpre,zero_add]
  exact hfail k

lemma leftTag_le (xs : List (Entry TagItem)) : owned leftTag xs ≤ owned ownTag xs := by
  induction xs with
  | nil => exact le_rfl
  | cons y ys ih =>
    rw [owned_cons,owned_cons]
    exact add_le_add (Multiset.le_add_right _ _) ih

/-- The shells go, and then the tag cannot be cleaned up. -/
lemma fails_handler_tag (hg : g.Exact) {pre post : List (Entry TagItem)} {x : Entry TagItem} {a : ℕ}
    (hx : g.tags = pre ++ x::post)
    (hu : u = {(state,g.stateBlock)} + g.shellBlocks + nodesTo none g.tags +
      (owned ownTag pre + (leftTag x + r)))
    (ha : a = x.item.tagAt ∨ a = x.item.pathAt) (hgone : Gone a u) : Fails u (handler state) := by
  refine Fails.andThen (.read (b:=g.stateBlock) (by simp [hu])) ?_
  have hshells : u = {((ListAt.shells state).addr,.state g.cacheDir ⟨linkTo none g.shells,g.shellItems⟩
      ⟨linkTo none g.tags,g.tagItems⟩)} + nodesTo none g.shells + (owned ownShell g.shells +
        (nodesTo none g.tags + (owned ownTag pre + (leftTag x + r)))) := by
    rw [hu,Layout.stateBlock,Layout.shellBlocks]
    simp only [ListAt.addr]
    abel
  refine Fails.next ((triple_listDeleteAll (holds_shells state g.cacheDir _) hshells
    fun y hy => cleans_shell (hg y hy).le).mono (fun _ _ => trivial) fun _ _ h => h) ?_
  rintro _ _ rfl
  rw [left_exact hg,zero_add]
  have htags : {((ListAt.shells state).addr,Block.state g.cacheDir ⟨none,g.shellItems-g.shells.length⟩
      ⟨linkTo none g.tags,g.tagItems⟩)} + (nodesTo none g.tags + (owned ownTag pre + (leftTag x + r))) =
      {((ListAt.tags state).addr,.state g.cacheDir ⟨none,g.shellItems-g.shells.length⟩
        ⟨linkTo none (pre ++ x::post),g.tagItems⟩)} + nodesTo none (pre ++ x::post) +
        (owned ownTag pre + (leftTag x + r)) := by
    rw [hx]
    simp only [ListAt.addr]
    abel
  refine Fails.bind (fails_listDeleteAll (holds_tags state g.cacheDir _) pre post htags (fun y _ => cleans_tag y)
    fun k => ?_)
  have hcut : Gone a ({((ListAt.tags state).addr,Block.state g.cacheDir
      ⟨none,g.shellItems-g.shells.length⟩ ⟨linkTo none post,k⟩)} + nodesTo none (x::post) +
      (owned leftTag pre + (leftTag x + r))) := by
    simp only [hu,gone_add,gone_singleton,hx,nodesTo_append] at hgone ⊢
    obtain ⟨⟨⟨hstate,-⟩,-,hpost⟩,hpre,hrest⟩ := hgone
    exact ⟨⟨hstate,hpost⟩,hpre.mono (leftTag_le pre),hrest⟩
  refine fails_cleanupTag (t:=x.item.tagAt) (p:=x.item.pathAt) (by simp [leftTag]) ?_
  rcases ha with rfl | rfl
  · exact Or.inl hcut
  · exact Or.inr hcut

end Handling

/-! What the handlers of the commands go through. -/

section Hitting
variable {r : Multiset (ℕ × Block)}

lemma hits_cleanupAction (x : Entry ActionItem) : Hits (ownAction x + r) (cleanupAction (some x.data))
    fun u => u = {(x.data,.action x.item.path)} + r ∧ Gone x.item.path u := by
  have hown : ownAction x + r = {(x.item.path,.str x.item.action.path)} +
      ({(x.data,.action x.item.path)} + r) := by
    rw [ownAction]
    abel
  refine Hits.andThen .deref (Hits.andThen (reads_readAction (p:=x.item.path) (by simp [ownAction]))
    (Hits.bind ?_))
  exact Hits.free hown fun h => ⟨rfl,h⟩

lemma hits_cleanupTag (x : Entry TagItem) : Hits (ownTag x + r) (cleanupTag (some x.data))
    fun u => u = leftTag x + ({(x.item.pathAt,.str x.item.tag.path)} + r) ∧ Gone x.item.tagAt u := by
  refine Hits.andThen .deref (Hits.andThen (reads_readTag (t:=x.item.tagAt) (p:=x.item.pathAt)
    (by simp [ownTag,leftTag])) (Hits.bind ?_))
  refine Hits.free (b:=.str x.item.tag.tag) ?_ fun h => ⟨rfl,h⟩
  rw [ownTag]
  abel

/-- The struct of a shell is freed last. -/
lemma hits_cleanupShell {x : Entry ShellItem} (hn : x.item.nItems = x.item.actions.length) :
    Hits (ownShell x + r) (cleanupShell (some x.data)) fun u => u = r ∧ Gone x.data u := by
  refine Hits.andThen .deref (Hits.next (Triple.sized fun fuel hfuel => (triple_cleanupLoop (d:=x.data) fuel
    (add_assoc _ _ _) hn.le ?_).mono (fun _ _ => trivial) fun _ _ h => h) ?_)
  · have hle : nodesTo none x.item.actions ≤ ownShell x + r :=
      (Multiset.le_add_right _ _).trans ((Multiset.le_add_left _ _).trans (Multiset.le_add_right _ _))
    have hlen := length_lt hle hfuel
    change x.item.nItems.toNat < fuel
    omega
  rintro _ _ ⟨k,rfl⟩
  have hnone : stackBlocks (x.item.actions.drop x.item.nItems.toNat) = 0 := leftShell_exact hn
  rw [hnone,zero_add]
  exact Hits.free rfl fun h => ⟨rfl,h⟩

end Hitting

section Exposing
variable {g : Layout} {state : ℕ} {r : Multiset (ℕ × Block)} {s : State} {c : Call}

lemma hits_take {α : Type} {u : Multiset (ℕ × Block)} {b : Block} {f : ℕ → Code Block α}
    {P : Multiset (ℕ × Block) → Prop} (h : ∀ a, Hits (g.blocks state + ({(a,b)} + u)) (f a) P) :
    Hits (g.blocks state + u) (Code.malloc b >>= f) P := by
  refine Hits.next (Triple.malloc (Q:=fun a v => v = g.blocks state + ({(a,b)} + u)) fun a _ =>
    ⟨trivial,add_left_comm _ _ _⟩) ?_
  rintro a _ rfl
  exact h a

/-- The first shell is cleaned up while the list still leads to it. -/
lemma hits_unregister (hg : g.Exact) {pid : ℤ} {post : List (Entry ShellItem)} {x : Entry ShellItem}
    (hx : Found (fun x => x.item.pid = pid) g.shells [] x post) :
    Hits (g.blocks state + r) (cmdUnregister state pid) fun u => Fails u (handler state) := by
  have hblock : ∀ y ∈ g.shells, (y.data,shellBlock y.item) ∈ g.blocks state + r := fun _ => shellBlock_mem
  have hcompare : ∀ y ∈ g.shells, Reads (g.blocks state + r) (compareShellPid pid (some y.data))
      (y.item.pid = pid) := fun y hy => reads_compareShellPid pid (hblock y hy)
  have hlist := blocks_shells state hx.split r
  have hown : g.blocks state + r = ownShell x + ({(state,g.stateBlock)} + nodesTo none (x::post) +
      (owned ownShell post + g.tagBlocks + r)) := by
    rw [hlist,Layout.stateBlock,hx.split,owned_nil]
    simp only [ListAt.addr,List.nil_append]
    abel
  refine hits_withShell hx (Hits.andThen (reads_readShell (hblock x hx.mem)) (Hits.bind ?_))
  refine hits_deleteHead (holds_shells state g.cacheDir _) hlist (hx.reads_here hcompare) ?_
  rw [hown]
  refine (hits_cleanupShell (hg x hx.mem)).mono ?_
  rintro _ ⟨rfl,hgone⟩
  refine fails_handler_shell (g:=g) (r:=owned ownShell post + g.tagBlocks + r) hx.split (by simp) ?_
    fun k => fails_cleanupShell ?_
  · rw [owned_nil,zero_add,hx.split,List.nil_append]
  · simpa only [gone_add,gone_singleton] using hgone

/-- The first tag, likewise. -/
lemma hits_dropTag (hg : g.Exact) {key : ℕ} {tag : CStr} {post : List (Entry TagItem)} {x : Entry TagItem}
    (hx : Found (fun x => x.item.tag.tag = tag) g.tags [] x post)
    (hkey : (key,Block.str tag) ∈ g.blocks state + r) :
    Hits (g.blocks state + r) (listDeleteNode (compareTagTag key) cleanupTag (.tags state))
      fun u => Fails u (handler state) := by
  have hcompare : ∀ y ∈ g.tags, Reads (g.blocks state + r) (compareTagTag key (some y.data))
      (y.item.tag.tag = tag) := fun y hy => reads_compareTagTag (ownTag_le hy) hkey
  have hlist := blocks_tags state hx.split r
  have hown : g.blocks state + r = ownTag x + ({(state,g.stateBlock)} + g.shellBlocks +
      nodesTo none g.tags + (owned ownTag post + r)) := by
    rw [hlist,Layout.stateBlock,hx.split,owned_nil]
    simp only [ListAt.addr,List.nil_append]
    abel
  refine hits_deleteHead (holds_tags state g.cacheDir _) hlist (hx.reads_here hcompare) ?_
  rw [hown]
  refine (hits_cleanupTag x).mono ?_
  rintro u ⟨hu,hgone⟩
  refine fails_handler_tag hg hx.split (r:={(x.item.pathAt,.str x.item.tag.path)} +
    (owned ownTag post + r)) ?_ (Or.inl rfl) hgone
  rw [hu,owned_nil]
  abel

/-- The old path is freed before the new one takes its place. -/
lemma hits_rebound (hg : g.Exact) {env : Env} {key p shell : ℕ} {tag : CStr}
    {pre post : List (Entry TagItem)} {x : Entry TagItem}
    (hx : Found (fun x => x.item.tag.tag = tag) g.tags pre x post)
    (hkey : (key,Block.str tag) ∈ g.blocks state + r) :
    Hits (g.blocks state + r) (addTag env state shell key p) fun u => Fails u (handler state) := by
  have hread := reads_tag hkey
  rw [hx.find?] at hread
  have hnode : (x.node,Block.node (some x.data) (linkTo none post)) ∈ g.blocks state + r :=
    Multiset.mem_of_le tags_le (hx.split ▸ node_mem pre x post)
  have htag : (x.data,Block.tag x.item.tagAt x.item.pathAt) ∈ g.blocks state + r :=
    Multiset.mem_of_le (ownTag_le hx.mem) (by simp [ownTag,leftTag])
  refine Hits.andThen hread (Hits.andThen (reads_dataOf hnode) (Hits.andThen (reads_readTag htag)
    (Hits.bind ?_)))
  have hcut : g.blocks state + r = {(x.item.pathAt,.str x.item.tag.path)} + ({(state,g.stateBlock)} +
      g.shellBlocks + nodesTo none g.tags + (owned ownTag pre + (leftTag x +
        ({(x.item.tagAt,.str x.item.tag.tag)} + owned ownTag post + r)))) := by
    rw [Layout.tag_blocks hx.split,Layout.beside,leftTag]
    abel
  exact Hits.free hcut fun hgone => fails_handler_tag hg hx.split rfl (Or.inr rfl) hgone

/-- The first action is cleaned up while the stack still leads to it. -/
lemma hits_pop (hg : g.Exact) {pid : ℤ} {pre post : List (Entry ShellItem)} {x : Entry ShellItem}
    {a : Entry ActionItem} {as : List (Entry ActionItem)}
    (hx : Found (fun x => x.item.pid = pid) g.shells pre x post) (ha : x.item.actions = a::as) :
    Hits (g.blocks state + r) (cmdPop state pid) fun u => Fails u (handler state) := by
  have hchain : nodesTo none (a::as) ≤ g.blocks state + r := ha ▸ actions_le hx.mem
  have hown : ownAction a ≤ g.blocks state + r := ownAction_le hx.mem (by simp [ha])
  have haction : Reads (g.blocks state + r) (readAction a.data) a.item.path :=
    reads_readAction (Multiset.mem_of_le hown (by simp [ownAction]))
  have hkey : (a.item.path,Block.str a.item.action.path) ∈ g.blocks state + r :=
    Multiset.mem_of_le hown (by simp [ownAction])
  have hc : Reads (g.blocks state + r) (compareActionPath a.item.path (some a.data)) true := by
    simpa using reads_compareActionPath hown hkey
  have hlist := blocks_actions state hx.split r
  rw [ha,owned_cons,add_assoc (ownAction a)] at hlist
  have hrest : g.blocks state + r = ownAction a + ({(state,g.stateBlock)} + nodesTo none g.shells +
      (owned ownShell pre + ({(x.data,shellBlock x.item)} + nodesTo none (a::as) +
        (owned ownAction as + owned ownShell post + g.tagBlocks + r)))) := by
    rw [hlist,shellBlock,Layout.around,ha]
    simp only [ListAt.addr]
    abel
  refine hits_withShell hx (Hits.andThen (reads_readShell (shellBlock_mem hx.mem)) ?_)
  simp only [ha,linkTo_cons]
  refine Hits.andThen (reads_dataOf (nodesTo_head hchain)) (Hits.andThen haction
    (Hits.andThen (reads_readStr hkey) (Hits.andThen (reads_reply hx.mem _) (Hits.bind ?_))))
  refine hits_deleteHead (holds_actions x.data x.item.pid x.item.sunPath) hlist hc ?_
  rw [hrest]
  refine (hits_cleanupAction a).mono ?_
  rintro u ⟨hu,hgone⟩
  have hn : 0 < x.item.nItems := by
    rw [hg x hx.mem,ha,List.length_cons]
    omega
  refine fails_handler_shell (r:={(a.data,.action a.item.path)} + ({(x.data,shellBlock x.item)} +
    nodesTo none (a::as) + (owned ownAction as + owned ownShell post + g.tagBlocks + r))) hx.split
    (fun y hy => hg y (by simp [hx.split,hy])) ?_ fun k => ?_
  · rw [hu]
    abel
  · refine fails_cleanupShell_path ha hn (by simp) (by simp) (by simp) ?_
    simp only [hu,hx.split,gone_add,gone_singleton,nodesTo_append] at hgone ⊢
    tauto

lemma hits_listDeleteAll {ι : Type} {u v : Multiset (ℕ × Block)} {l : ListAt} {blk : LinkedList → Block}
    {n : ℤ} {x : Entry ι} {xs : List (Entry ι)} {cleanupFunc : Option ℕ → Code Block Unit}
    {P : Multiset (ℕ × Block) → Prop} (hl : Holds l blk)
    (hu : u = {(l.addr,blk ⟨linkTo none (x::xs),n⟩)} + (nodesTo none (x::xs) + v))
    (hP : P ({(l.addr,blk ⟨linkTo none xs,n⟩)} + (nodesTo none (x::xs) + v))) :
    Hits u (listDeleteAll cleanupFunc l) P := by
  refine Hits.andThen (reads_readList hl (L:=⟨linkTo none (x::xs),n⟩) (by simp [hu])) ?_
  refine Hits.sized fun fuel hfuel => ?_
  cases fuel with
  | zero => simp at hfuel
  | succ fuel =>
    refine Hits.bind (Hits.andThen (reads_readNode (d:=some x.data) (q:=linkTo none xs) (by simp [hu]))
      (Hits.bind ?_))
    exact hits_writeList hl _ hu hP

/-- The head moves on before the action is uncounted. -/
lemma hits_reset (hg : g.Exact) {pid : ℤ} {pre post : List (Entry ShellItem)} {x : Entry ShellItem}
    (hx : Found (fun x => x.item.pid = pid) g.shells pre x post) (ha : x.item.actions ≠ []) :
    Hits (g.blocks state + r) (cmdReset state pid) fun u => Fails u (handler state) := by
  obtain ⟨a,as,has⟩ := List.exists_cons_of_ne_nil ha
  have hlist := blocks_actions state hx.split r
  rw [has,owned_cons,add_assoc,add_assoc (ownAction a)] at hlist
  refine hits_withShell hx (Hits.bind ?_)
  refine hits_listDeleteAll (holds_actions x.data x.item.pid x.item.sunPath) hlist ?_
  let y : Entry ShellItem := ⟨x.node,x.data,{x.item with actions := as}⟩
  have hcount : y.item.actions.length < y.item.nItems := by
    have hxn := hg x hx.mem
    rw [has,List.length_cons] at hxn
    simp only [y,hxn]
    omega
  have hy : (g.setItem pre post x y.item).shells = pre ++ y::post := rfl
  refine fails_handler_shell (r:=ownShell y + ({(a.node,.node (some a.data) (linkTo none as))} +
    ownAction a + (owned ownShell post + g.tagBlocks + r))) hy
    (fun z hz => hg z (by simp [hx.split,hz])) ?_ fun k => ?_
  · simp only [y,Layout.setItem,Layout.around,Layout.stateBlock,Layout.tagBlocks,hx.split,nodesTo_append,
      nodesTo_cons,linkTo_append,linkTo_cons,ownShell,shellBlock,stackBlocks,ListAt.addr]
    abel
  · exact fails_cleanupShell_count hcount (add_left_comm _ _ _)

/-- A call that exposes its blocks comes by a point where the handler does not get through. -/
theorem hits_exposed (hg : g.Represents s) (hw : s.WellFormed) (hexp : Exposes s c) :
    Hits (g.blocks state + r) (dispatchCommand c.env state c.cmdStr c.pid c.args)
      fun u => Fails u (handler state) := by
  have hexact := hg.exact hw
  obtain ⟨sh,hs,hexp⟩ := hexp
  obtain ⟨pre,x,post,hx,rfl⟩ := hg.found_shell hs
  unfold dispatchCommand
  cases hc : findCommand c.cmdStr with
  | none => simp [hc] at hexp
  | some cmd =>
    simp only [hc] at hexp
    cases cmd with
    | register | «show» | get | push | actions | list => simp at hexp
    | add =>
      obtain ⟨line,tag,path,hargs,hadd,hv,ht⟩ := hexp
      obtain ⟨t,ht⟩ := Option.ne_none_iff_exists'.mp ht
      obtain ⟨before,y,after,hy,-⟩ := hg.found_tag ht
      rw [hargs]
      simp only [cmdAdd_words hadd]
      refine hits_withShell hx (hits_take fun key => hits_take fun p => ?_)
      simp only [hv,Bool.not_true,Bool.false_eq_true,if_false]
      exact hits_rebound hexact hy (by simp)
    | delete =>
      obtain ⟨line,tag,hargs,htag,hhead⟩ := hexp
      obtain ⟨y,after,hy,hytag⟩ : ∃ y after, g.tags = y::after ∧ y.item.tag.tag = tag := by
        rw [hg.tags] at hhead
        cases htags : g.tags with
        | nil => simp [htags] at hhead
        | cons y after => exact ⟨y,after,rfl,by simpa [htags,toTag] using hhead⟩
      have hfound : Found (fun x => x.item.tag.tag = tag) g.tags [] y after :=
        ⟨hy,by simpa using hytag,by simp⟩
      refine hits_withShell hx ?_
      simp only [hargs,htag]
      refine hits_take fun key => ?_
      have hkey : (key,Block.str tag) ∈ g.blocks state + ({(key,.str tag)} + r) := by simp
      have hread := reads_tag hkey
      rw [hfound.find?] at hread
      exact Hits.andThen hread (Hits.bind (hits_dropTag hexact hfound hkey))
    | unregister =>
      obtain ⟨y,after,hy,hypid⟩ : ∃ y after, g.shells = y::after ∧ y.item.pid = c.pid := by
        rw [hg.shells] at hexp
        cases hshells : g.shells with
        | nil => simp [hshells] at hexp
        | cons y after => exact ⟨y,after,rfl,by simpa [hshells,toShell] using hexp⟩
      exact hits_unregister hexact ⟨hy,by simpa using hypid,by simp⟩
    | pop =>
      obtain ⟨a,as,ha⟩ := List.exists_cons_of_ne_nil (l:=x.item.actions) (by simpa [toShell] using hexp)
      exact hits_pop hexact hx ha
    | reset => exact hits_reset hexact hx (by simpa [toShell] using hexp)

end Exposing

section Points
variable {g : Layout} {state : ℕ} {v : Multiset (ℕ × Block)} {s s' : State} {c : Call} {o : Outcome}
  {m : Blocks Block}

/-- The points of a call that exposes nothing. -/
lemma safe_points (hg : g.Represents s) (hw : s.WellFormed) (hc : handle s c = .ok (s',o))
    (hexp : ¬ Exposes s c) (hu : Owns m (g.blocks state + v)) :
    ∀ m' ∈ m::(dispatchCommand c.env state c.cmdStr c.pid c.args m).trace,
      ∃ u, Owns m' u ∧ Safe state u := by
  have hdispatch : Triple (Safe state) (g.blocks state + v)
      (dispatchCommand c.env state c.cmdStr c.pid c.args) (Settles state v s c o) :=
    triple_exit (fun g r hg => ⟨g,r,hg,rfl⟩) hg hw (fun h => absurd h hexp) (handle_exit hc).1
  intro m' hm'
  rcases List.mem_cons.mp hm' with rfl | hm'
  · exact ⟨_,hu,g,v,(hg.exact hw).sweepable,rfl⟩
  · exact (hdispatch m hu).1 m' hm'

lemma leftShell_le (xs : List (Entry ShellItem)) : owned leftShell xs ≤ owned ownShell xs := by
  induction xs with
  | nil => exact le_rfl
  | cons x xs ih =>
    have hstack : leftShell x ≤ stackBlocks x.item.actions := by
      conv_rhs => rw [← List.take_append_drop x.item.nItems.toNat x.item.actions]
      rw [leftShell,stackBlocks,stackBlocks,nodesTo_append,owned_append]
      exact add_le_add (Multiset.le_add_left _ _) (Multiset.le_add_left _ _)
    rw [owned_cons,owned_cons]
    exact add_le_add (hstack.trans (Multiset.le_add_left _ _)) ih

/-- The points of `deinit_state` before the state is freed. -/
lemma safe_deinitState (hs : ∃ u, Owns m u ∧ Safe state u) {m' : Blocks Block}
    (hm' : m' ∈ (deinitState state m).trace) (hstate : (m'.cells state).isSome) :
    ∃ u, Owns m' u ∧ Safe state u := by
  obtain ⟨_,hu,g,r,hg,rfl⟩ := hs
  obtain ⟨u,hu',hsafe | rfl⟩ := (triple_deinitState hg m hu).1 m' hm'
  · exact ⟨u,hu',hsafe⟩
  · -- nothing that is left is at the address of the state
    have hblocks : g.blocks state + r = {(state,g.stateBlock)} + (g.shellBlocks + g.tagBlocks + r) := by
      rw [Layout.blocks]
      abel
    rw [hblocks] at hu
    obtain ⟨hgone,-⟩ := hu.once
    simp only [Layout.shellBlocks,Layout.tagBlocks,gone_add] at hgone
    have hleft : Gone state (owned leftShell g.shells + (owned leftTag g.tags + r)) := by
      simp only [gone_add]
      exact ⟨hgone.1.1.2.mono (leftShell_le g.shells),hgone.1.2.2.mono (leftTag_le g.tags),hgone.2⟩
    have hnone := hu'.gone.mp hleft
    simp [hnone] at hstate

lemma handler_safe (hs : ∃ u, Owns m u ∧ Safe state u) :
    ∃ m', (handler state m).result = .ok ((),m') := by
  obtain ⟨_,hu,g,r,hg,rfl⟩ := hs
  obtain ⟨-,_,m',_,hok,-⟩ := triple_handler hg m hu
  exact ⟨m',hok⟩

end Points

/-- After any run, and at any point of the next call, the handler takes the lists down without following
a pointer to a block that is not in use and without freeing one twice, exactly if the call does not
expose its blocks. -/
theorem signal_harmless_iff (cacheDir : CStr) (validPath : CStr → Bool) (nodeMalloc dataMalloc : ℕ → Bool)
    (file : Option (List Byte)) (cs : List Call) (c : Call) {s s' : State} {os : List Outcome} {o : Outcome}
    (hr : runCalls (startState cacheDir validPath (fun i => nodeMalloc i && dataMalloc i) file) cs =
      .ok (s,os)) (hc : handle s c = .ok (s',o)) (proposals : ℕ → ℕ) :
    ∃ state es m,
      (daemon cacheDir validPath nodeMalloc dataMalloc file cs (Blocks.empty proposals)).result =
        .ok ((state,es),m) ∧
      ((∀ m' ∈ m::(dispatchCommand c.env state c.cmdStr c.pid c.args m).trace,
        ∃ m'', (handler state m').result = .ok ((),m'')) ↔ ¬ Exposes s c) := by
  obtain ⟨state,es,m,g,v,hm,hu,hg,-⟩ := daemon_owns hr proposals
  have hw := run_wellFormed (startState_wellFormed _ _ _ _) hr
  refine ⟨state,es,m,hm,fun h hexp => ?_,fun hexp m' hm' => ?_⟩
  · obtain ⟨m',hm',u,hu',hfails⟩ := hits_exposed hg hw hexp m hu
    obtain ⟨m'',hok⟩ := h m' (List.mem_cons_of_mem m hm')
    obtain ⟨e,herror⟩ := hfails m' hu'
    rw [hok] at herror
    cases herror
  · exact handler_safe (safe_points hg hw hc hexp hu m' hm')

theorem signal_harmless_iff_pop : ∃ state es m,
    (daemon (CStr.ofLit "/c") (fun _ => true) (fun _ => true) (fun _ => true) none
      [⟨openEnv fun _ => true,CStr.ofLit "register",1,none⟩,
       ⟨openEnv fun _ => true,CStr.ofLit "push",1,some (CStr.ofLit "/a")⟩] (Blocks.empty id)).result =
      .ok ((state,es),m) ∧
    ¬ ∀ m' ∈ m::(dispatchCommand (openEnv fun _ => true) state (CStr.ofLit "pop") 1 none m).trace,
      ∃ m'', (handler state m').result = .ok ((),m'') := by
  obtain ⟨state,es,m,hm,hiff⟩ := signal_harmless_iff (CStr.ofLit "/c") (fun _ => true) (fun _ => true)
    (fun _ => true) none
    [⟨openEnv fun _ => true,CStr.ofLit "register",1,none⟩,
     ⟨openEnv fun _ => true,CStr.ofLit "push",1,some (CStr.ofLit "/a")⟩]
    ⟨openEnv fun _ => true,CStr.ofLit "pop",1,none⟩ rfl rfl id
  exact ⟨state,es,m,hm,fun h => hiff.mp h ⟨_,rfl,List.cons_ne_nil _ _⟩⟩

/-- A signal comes while `deinit_state` runs, before it has freed the state. -/
def Interrupts (state : ℕ) (m m' : Blocks Block) : Prop :=
  m' ∈ (deinitState state m).trace ∧ (m'.cells state).isSome

/-- Signals on top of each other, from any point of a call that exposes nothing: whichever of them comes
before the state is freed gets through, and none does afterwards. -/
theorem signals_nested (cacheDir : CStr) (validPath : CStr → Bool) (nodeMalloc dataMalloc : ℕ → Bool)
    (file : Option (List Byte)) (cs : List Call) (c : Call) {s s' : State} {os : List Outcome} {o : Outcome}
    (hr : runCalls (startState cacheDir validPath (fun i => nodeMalloc i && dataMalloc i) file) cs =
      .ok (s,os)) (hc : handle s c = .ok (s',o)) (hexp : ¬ Exposes s c) (proposals : ℕ → ℕ) :
    ∃ state es m,
      (daemon cacheDir validPath nodeMalloc dataMalloc file cs (Blocks.empty proposals)).result =
        .ok ((state,es),m) ∧
      ∀ m₀ ∈ m::(dispatchCommand c.env state c.cmdStr c.pid c.args m).trace,
        ∀ m₁, Relation.ReflTransGen (Interrupts state) m₀ m₁ →
          ∀ m₂ ∈ m₁::(deinitState state m₁).trace,
            (∃ m', (handler state m₂).result = .ok ((),m')) ↔ (m₂.cells state).isSome := by
  obtain ⟨state,es,m,g,v,hm,hu,hg,-⟩ := daemon_owns hr proposals
  have hw := run_wellFormed (startState_wellFormed _ _ _ _) hr
  refine ⟨state,es,m,hm,fun m₀ hm₀ m₁ hrun => ?_⟩
  have hsafe : ∃ u, Owns m₁ u ∧ Safe state u := by
    induction hrun with
    | refl => exact safe_points hg hw hc hexp hu m₀ hm₀
    | tail _ hstep ih => exact safe_deinitState ih hstep.1 hstep.2
  intro m₂ hm₂
  constructor
  · rintro ⟨m',hok⟩
    by_contra hfreed
    have hnone : m₂.cells state = none := by simpa using hfreed
    have hread : (Code.read state m₂).result = .error .dangling := by simp [Code.read,hnone]
    rw [handler,bind_error hread] at hok
    cases hok
  · intro hstate
    rcases List.mem_cons.mp hm₂ with rfl | hm₂
    · exact handler_safe hsafe
    · exact handler_safe (safe_deinitState hsafe hm₂ hstate)

theorem signals_nested_show : ∃ state es m,
    (daemon (CStr.ofLit "/c") (fun _ => true) (fun _ => true) (fun _ => true) none
      [⟨openEnv fun _ => true,CStr.ofLit "register",1,none⟩,
       ⟨openEnv fun _ => true,CStr.ofLit "push",1,some (CStr.ofLit "/a")⟩] (Blocks.empty id)).result =
      .ok ((state,es),m) ∧
    ∀ m₁ ∈ (deinitState state m).trace, (m₁.cells state).isSome → ∀ m₂ ∈ (deinitState state m₁).trace,
      (∃ m', (handler state m₂).result = .ok ((),m')) ↔ (m₂.cells state).isSome := by
  obtain ⟨state,es,m,hm,h⟩ := signals_nested (CStr.ofLit "/c") (fun _ => true) (fun _ => true)
    (fun _ => true) none
    [⟨openEnv fun _ => true,CStr.ofLit "register",1,none⟩,
     ⟨openEnv fun _ => true,CStr.ofLit "push",1,some (CStr.ofLit "/a")⟩]
    ⟨openEnv fun _ => true,CStr.ofLit "show",1,none⟩ rfl rfl (by rintro ⟨_,_,h⟩; exact h) id
  refine ⟨state,es,m,hm,fun m₁ hm₁ hstate m₂ hm₂ => ?_⟩
  exact h m (by simp) m₁ (.single ⟨hm₁,hstate⟩) m₂ (List.mem_cons_of_mem m₁ hm₂)

end Alloc
end Nav.Daemon
