import Nav.Daemon.Layout

/-! The blocks of the daemon: shells with their actions, and tags. What `cleanup_shell`, `cleanup_tag`
and `cleanup_action` free, and what the handler of SIGINT and SIGTERM finds. -/
namespace Nav.Daemon
open Nav.C Nav.Lib Nav.Lib.Blocks

namespace Alloc

/-- An action, and where its string is. -/
structure ActionItem where
  path : ℕ
  action : Action

/-- A tag, and where its strings are. -/
structure TagItem where
  tagAt : ℕ
  pathAt : ℕ
  tag : Tag

/-- A shell with its stack. -/
structure ShellItem where
  pid : ℤ
  sunPath : List Byte
  nItems : ℤ
  actions : List (Entry ActionItem)

def ownAction (x : Entry ActionItem) : Multiset (ℕ × Block) :=
  {(x.data,.action x.item.path)} + {(x.item.path,.str x.item.action.path)}

def leftTag (x : Entry TagItem) : Multiset (ℕ × Block) := {(x.data,.tag x.item.tagAt x.item.pathAt)}

def ownTag (x : Entry TagItem) : Multiset (ℕ × Block) :=
  leftTag x + ({(x.item.tagAt,.str x.item.tag.tag)} + {(x.item.pathAt,.str x.item.tag.path)})

def shellBlock (i : ShellItem) : Block := .shell ⟨i.pid,i.sunPath,⟨linkTo none i.actions,i.nItems⟩⟩

def stackBlocks (xs : List (Entry ActionItem)) : Multiset (ℕ × Block) :=
  nodesTo none xs + owned ownAction xs

def ownShell (x : Entry ShellItem) : Multiset (ℕ × Block) :=
  {(x.data,shellBlock x.item)} + stackBlocks x.item.actions

/-- The actions that the counter does not count. -/
def leftShell (x : Entry ShellItem) : Multiset (ℕ × Block) :=
  stackBlocks (x.item.actions.drop x.item.nItems.toNat)

/-- Where a shell counts what it has, no action stays behind. -/
lemma leftShell_exact {x : Entry ShellItem} (h : x.item.nItems = x.item.actions.length) :
    leftShell x = 0 := by
  rw [leftShell,h,Int.toNat_natCast,List.drop_length]
  rfl

section Cleaning
variable {s r : Multiset (ℕ × Block)}

lemma reads_compareShellPid {x : Entry ShellItem} (key : ℤ) (h : (x.data,shellBlock x.item) ∈ s) :
    Reads s (compareShellPid key (some x.data)) (x.item.pid = key) :=
  Reads.bind .deref (Reads.bind (reads_readShell h) .pure)

lemma reads_compareActionPath {x : Entry ActionItem} {key : ℕ} {path : CStr} (hx : ownAction x ≤ s)
    (hkey : (key,Block.str path) ∈ s) :
    Reads s (compareActionPath key (some x.data)) (x.item.action.path = path) := by
  refine Reads.bind .deref (Reads.bind (reads_readAction (p:=x.item.path) ?_)
    (Reads.bind (reads_readStr (c:=x.item.action.path) ?_) (Reads.bind (reads_readStr hkey) .pure)))
  · exact Multiset.mem_of_le hx (by simp [ownAction])
  · exact Multiset.mem_of_le hx (by simp [ownAction])

lemma reads_compareTagTag {x : Entry TagItem} {key : ℕ} {tag : CStr} (hx : ownTag x ≤ s)
    (hkey : (key,Block.str tag) ∈ s) :
    Reads s (compareTagTag key (some x.data)) (x.item.tag.tag = tag) := by
  refine Reads.bind .deref (Reads.bind (reads_readTag (t:=x.item.tagAt) (p:=x.item.pathAt) ?_)
    (Reads.bind (reads_readStr (c:=x.item.tag.tag) ?_) (Reads.bind (reads_readStr hkey) .pure)))
  · exact Multiset.mem_of_le hx (by simp [ownTag,leftTag])
  · exact Multiset.mem_of_le hx (by simp [ownTag])

theorem cleans_action (x : Entry ActionItem) : Cleans cleanupAction ownAction (fun _ => 0) x := by
  intro r
  refine Reads.andThen .deref (Reads.andThen (reads_readAction (p:=x.item.path) (by simp [ownAction])) ?_)
  have hown : ownAction x + r = {(x.item.path,.str x.item.action.path)} +
      ({(x.data,.action x.item.path)} + r) := by
    rw [ownAction]
    abel
  refine Triple.freeThen hown ⟨_,rfl⟩ ?_
  exact Triple.free rfl ⟨0,(zero_add r).symm⟩ (zero_add r).symm

theorem cleans_tag (x : Entry TagItem) : Cleans cleanupTag ownTag leftTag x := by
  intro r
  refine Reads.andThen .deref (Reads.andThen (reads_readTag (t:=x.item.tagAt) (p:=x.item.pathAt)
    (by simp [ownTag,leftTag])) ?_)
  have hown : ownTag x + r = {(x.item.tagAt,.str x.item.tag.tag)} +
      ({(x.item.pathAt,.str x.item.tag.path)} + (leftTag x + r)) := by
    rw [ownTag]
    abel
  refine Triple.freeThen hown ⟨{(x.item.pathAt,.str x.item.tag.path)} + leftTag x,?_⟩ ?_
  · abel
  exact Triple.free rfl ⟨_,rfl⟩ rfl

/-- A round of `cleanup_shell` on a stack that is not empty. -/
lemma triple_cleanupRound {d : ℕ} {pid : ℤ} {sunPath : List Byte} {x : Entry ActionItem}
    {xs : List (Entry ActionItem)} {n : ℤ}
    (hs : s = {(d,shellBlock ⟨pid,sunPath,n,x::xs⟩)} + (stackBlocks (x::xs) + r)) :
    Triple (fun u => ∃ v, u = v + r) s (cleanupRound d (some x.node))
      fun _ u => u = {(d,shellBlock ⟨pid,sunPath,n-1,xs⟩)} + (stackBlocks xs + r) := by
  have hsplit : s = {(d,.shell ⟨pid,sunPath,⟨linkTo none (x::xs),n⟩⟩)} + nodesTo none (x::xs) +
      (ownAction x + (owned ownAction xs + r)) := by
    rw [hs,shellBlock,stackBlocks,owned_cons]
    abel
  have hx : ownAction x ≤ s := hsplit ▸ (Multiset.le_add_right _ _).trans (Multiset.le_add_left _ _)
  have hnode : (x.node,Block.node (some x.data) (linkTo none xs)) ∈ s := by simp [hsplit]
  refine Reads.andThen .deref (Reads.andThen (reads_readNode hnode) (Reads.andThen .deref
    (Reads.andThen (reads_readAction (p:=x.item.path) (Multiset.mem_of_le hx (by simp [ownAction]))) ?_)))
  have hkey : (x.item.path,Block.str x.item.action.path) ∈ s :=
    Multiset.mem_of_le hx (by simp [ownAction])
  have hc : Reads s (compareActionPath x.item.path (some x.data)) true := by
    simpa using reads_compareActionPath hx hkey
  refine Triple.bind ((triple_deleteHead (l:=.actions d) (holds_actions d pid sunPath) hsplit hc
    (cleans_action x)).mono ?_ fun _ _ h => h) ?_
  · rintro _ ⟨v,rfl⟩
    exact ⟨v + owned ownAction xs,(add_assoc _ _ _).symm⟩
  rintro _ _ ⟨-,rfl⟩
  refine Triple.pure ?_
  rw [shellBlock,stackBlocks]
  simp only [ListAt.addr,zero_add,add_assoc]

/-- The loop of `cleanup_shell`, as long as no more is counted than is there. -/
lemma triple_cleanupLoop {d : ℕ} {pid : ℤ} {sunPath : List Byte} {xs : List (Entry ActionItem)} {n : ℤ}
    (fuel : ℕ) (hs : s = {(d,shellBlock ⟨pid,sunPath,n,xs⟩)} + (stackBlocks xs + r))
    (hn : n ≤ xs.length) (hf : n.toNat < fuel) :
    Triple (fun u => ∃ v, u = v + r) s (cleanupLoop d fuel)
      fun _ u => ∃ k, u = {(d,shellBlock ⟨pid,sunPath,k,xs.drop n.toNat⟩)} +
        (stackBlocks (xs.drop n.toNat) + r) := by
  induction fuel generalizing s n xs with
  | zero => simp at hf
  | succ fuel ih =>
    refine Reads.andThen (reads_readShell (i:=⟨pid,sunPath,⟨linkTo none xs,n⟩⟩)
      (by simp [hs,shellBlock])) ?_
    by_cases hpos : 0 < n
    · rw [if_pos hpos]
      cases xs with
      | nil =>
        simp only [List.length_nil,Nat.cast_zero] at hn
        omega
      | cons x xs =>
        refine (triple_cleanupRound hs).seq fun _ => ?_
        have htoNat : n.toNat = (n-1).toNat+1 := by omega
        rw [htoNat,List.drop_succ_cons]
        exact ih rfl (by simp only [List.length_cons,Nat.cast_add,Nat.cast_one] at hn; omega) (by omega)
    · rw [if_neg hpos]
      have hzero : n.toNat = 0 := by omega
      rw [hzero,List.drop_zero]
      exact Triple.pure ⟨n,hs⟩

theorem cleans_shell {x : Entry ShellItem} (hn : x.item.nItems ≤ x.item.actions.length) :
    Cleans cleanupShell ownShell leftShell x := by
  intro r
  refine Reads.andThen .deref ?_
  refine Triple.bind (Triple.sized fun fuel hfuel => triple_cleanupLoop (d:=x.data) fuel
    (add_assoc _ _ _) hn ?_) ?_
  · have hle : nodesTo none x.item.actions ≤ ownShell x + r :=
      (Multiset.le_add_right _ _).trans ((Multiset.le_add_left _ _).trans (Multiset.le_add_right _ _))
    have hlen := length_lt hle hfuel
    change x.item.nItems.toNat < fuel
    omega
  rintro _ _ ⟨k,rfl⟩
  exact Triple.free rfl ⟨_,rfl⟩ rfl

end Cleaning

/-- What the global state leads to: both lists with their counters. -/
structure Layout where
  cacheDir : CStr
  shells : List (Entry ShellItem)
  shellItems : ℤ
  tags : List (Entry TagItem)
  tagItems : ℤ

namespace Layout

def stateBlock (g : Layout) : Block :=
  .state g.cacheDir ⟨linkTo none g.shells,g.shellItems⟩ ⟨linkTo none g.tags,g.tagItems⟩

def shellBlocks (g : Layout) : Multiset (ℕ × Block) := nodesTo none g.shells + owned ownShell g.shells

def tagBlocks (g : Layout) : Multiset (ℕ × Block) := nodesTo none g.tags + owned ownTag g.tags

/-- All blocks of the lists, with the state itself. -/
def blocks (g : Layout) (state : ℕ) : Multiset (ℕ × Block) :=
  {(state,g.stateBlock)} + g.shellBlocks + g.tagBlocks

/-- No shell counts more actions than it has. -/
def Sweepable (g : Layout) : Prop := ∀ x ∈ g.shells, x.item.nItems ≤ x.item.actions.length

end Layout

section Sweeping
variable {g : Layout} {state : ℕ} {r : Multiset (ℕ × Block)}

/-- Whatever else is in use, the handler can take the lists down. -/
def Safe (state : ℕ) (u : Multiset (ℕ × Block)) : Prop :=
  ∃ g r, Layout.Sweepable g ∧ u = g.blocks state + r

/-- `deinit_state` takes the lists down, and may be interrupted until it frees the state. -/
theorem triple_deinitState (hg : g.Sweepable) :
    Triple (fun u => Safe state u ∨ u = owned leftShell g.shells + (owned leftTag g.tags + r))
      (g.blocks state + r) (deinitState state)
      fun _ u => u = owned leftShell g.shells + (owned leftTag g.tags + r) := by
  have hshells : g.blocks state + r =
      {((ListAt.shells state).addr,.state g.cacheDir ⟨linkTo none g.shells,g.shellItems⟩
        ⟨linkTo none g.tags,g.tagItems⟩)} + nodesTo none g.shells +
      (owned ownShell g.shells + (g.tagBlocks + r)) := by
    rw [Layout.blocks,Layout.shellBlocks]
    simp only [ListAt.addr,Layout.stateBlock]
    abel
  refine Triple.bind ((triple_listDeleteAll (holds_shells state g.cacheDir ⟨linkTo none g.tags,g.tagItems⟩)
    hshells fun x hx => cleans_shell (hg x hx)).mono ?_ fun _ _ h => h) ?_
  · rintro _ ⟨ys,k,v,hys,rfl⟩
    refine Or.inl ⟨⟨g.cacheDir,ys,k,g.tags,g.tagItems⟩,v + r,fun x hx => hg x (hys.subset hx),?_⟩
    simp only [ListAt.addr,Layout.blocks,Layout.shellBlocks,Layout.tagBlocks,Layout.stateBlock]
    abel
  rintro _ _ rfl
  have htags : {((ListAt.shells state).addr,.state g.cacheDir ⟨none,g.shellItems-g.shells.length⟩
        ⟨linkTo none g.tags,g.tagItems⟩)} + (owned leftShell g.shells + (g.tagBlocks + r)) =
      {((ListAt.tags state).addr,.state g.cacheDir ⟨none,g.shellItems-g.shells.length⟩
        ⟨linkTo none g.tags,g.tagItems⟩)} + nodesTo none g.tags +
      (owned ownTag g.tags + (owned leftShell g.shells + r)) := by
    rw [Layout.tagBlocks]
    simp only [ListAt.addr]
    abel
  refine Triple.bind ((triple_listDeleteAll (holds_tags state g.cacheDir
    ⟨none,g.shellItems-g.shells.length⟩) htags fun x _ => cleans_tag x).mono ?_ fun _ _ h => h) ?_
  · rintro _ ⟨ys,k,v,-,rfl⟩
    refine Or.inl ⟨⟨g.cacheDir,[],g.shellItems-g.shells.length,ys,k⟩,v + (owned leftShell g.shells + r),
      fun x hx => absurd hx List.not_mem_nil,?_⟩
    simp only [ListAt.addr,Layout.blocks,Layout.shellBlocks,Layout.tagBlocks,Layout.stateBlock,nodesTo_nil,
      owned_nil,linkTo_nil]
    abel
  rintro _ _ rfl
  refine Triple.free rfl (Or.inr ?_) ?_
  · abel
  · abel

/-- The handler of SIGINT and SIGTERM on a safe memory. -/
theorem triple_handler (hg : g.Sweepable) :
    Triple (fun u => Safe state u ∨ u = owned leftShell g.shells + (owned leftTag g.tags + r))
      (g.blocks state + r) (handler state)
      fun _ u => u = owned leftShell g.shells + (owned leftTag g.tags + r) :=
  Reads.andThen (.read (b:=g.stateBlock) (by simp [Layout.blocks])) (triple_deinitState hg)

end Sweeping
end Alloc
end Nav.Daemon
