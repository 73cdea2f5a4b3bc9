import Nav.Daemon.Owned
import Nav.Daemon.Invariant

/-! The blocks of the daemon beside its state. Every handler leaves the blocks of the lists that the
state says, with what was lost before and what it loses itself. -/
namespace Nav.Daemon
open Nav.C Nav.Lib Nav.Lib.Blocks

namespace Alloc

def toAction (x : Entry ActionItem) : Action := x.item.action
def toTag (x : Entry TagItem) : Tag := x.item.tag

def toShell (x : Entry ShellItem) : Shell :=
  ⟨x.item.pid,x.item.sunPath,⟨x.item.actions.map toAction,x.item.nItems⟩⟩

/-- The blocks are those of the state. -/
structure Layout.Represents (g : Layout) (s : State) : Prop where
  cacheDir : g.cacheDir = s.cacheDir
  shells : s.shells = ⟨g.shells.map toShell,g.shellItems⟩
  tags : s.tags = ⟨g.tags.map toTag,g.tagItems⟩

section Reading
variable {g : Layout} {state : ℕ} {r : Multiset (ℕ × Block)} {s : State}

lemma own_le {ι : Type} {own : Entry ι → Multiset (ℕ × Block)} {x : Entry ι} {xs : List (Entry ι)}
    (hx : x ∈ xs) : own x ≤ owned own xs := by
  obtain ⟨pre,post,rfl⟩ := List.append_of_mem hx
  rw [owned_append,owned_cons]
  exact (Multiset.le_add_right _ _).trans (Multiset.le_add_left _ _)

lemma state_mem : (state,g.stateBlock) ∈ g.blocks state + r := by simp [Layout.blocks]

lemma shellBlocks_le : g.shellBlocks ≤ g.blocks state + r :=
  (Multiset.le_add_left _ _).trans ((Multiset.le_add_right _ _).trans (Multiset.le_add_right _ _))

lemma tagBlocks_le : g.tagBlocks ≤ g.blocks state + r :=
  (Multiset.le_add_left _ _).trans (Multiset.le_add_right _ _)

lemma shells_le : nodesTo none g.shells ≤ g.blocks state + r :=
  (Multiset.le_add_right _ _).trans shellBlocks_le

lemma tags_le : nodesTo none g.tags ≤ g.blocks state + r :=
  (Multiset.le_add_right _ _).trans tagBlocks_le

lemma ownShell_le {x : Entry ShellItem} (hx : x ∈ g.shells) : ownShell x ≤ g.blocks state + r :=
  (own_le hx).trans ((Multiset.le_add_left _ _).trans shellBlocks_le)

lemma ownTag_le {x : Entry TagItem} (hx : x ∈ g.tags) : ownTag x ≤ g.blocks state + r :=
  (own_le hx).trans ((Multiset.le_add_left _ _).trans tagBlocks_le)

lemma shellBlock_mem {x : Entry ShellItem} (hx : x ∈ g.shells) :
    (x.data,shellBlock x.item) ∈ g.blocks state + r :=
  Multiset.mem_of_le (ownShell_le hx) (by simp [ownShell])

lemma node_mem {ι : Type} {q : Option ℕ} (pre : List (Entry ι)) (x : Entry ι) (post : List (Entry ι)) :
    (x.node,Block.node (some x.data) (linkTo q post)) ∈ nodesTo q (pre ++ x::post) := by simp

/-- `list_get_node` on the shells. -/
lemma reads_shell (state : ℕ) (pid : ℤ) : Reads (g.blocks state + r)
    (listGetNode (compareShellPid pid) (.shells state))
    ((g.shells.find? fun x => x.item.pid = pid).map Entry.node) :=
  reads_listGetNode (holds_shells state g.cacheDir ⟨linkTo none g.tags,g.tagItems⟩) state_mem shells_le
    fun _ hx => reads_compareShellPid pid (shellBlock_mem hx)

/-- `list_get_node` on the tags; the key is a string. -/
lemma reads_tag {key : ℕ} {tag : CStr} (hkey : (key,Block.str tag) ∈ g.blocks state + r) :
    Reads (g.blocks state + r) (listGetNode (compareTagTag key) (.tags state))
    ((g.tags.find? fun x => x.item.tag.tag = tag).map Entry.node) :=
  reads_listGetNode (holds_tags state g.cacheDir ⟨linkTo none g.shells,g.shellItems⟩) state_mem tags_le
    fun _ hx => reads_compareTagTag (ownTag_le hx) hkey

lemma reads_tagsLoop {s : Multiset (ℕ × Block)} {xs : List (Entry TagItem)} (fuel : ℕ)
    (hs : nodesTo none xs ≤ s) (hx : ∀ x ∈ xs, ownTag x ≤ s) (hf : xs.length < fuel) :
    Reads s (tagsLoop fuel (linkTo none xs)) (xs.map toTag) := by
  induction xs generalizing fuel with
  | nil =>
    cases fuel with
    | zero => simp at hf
    | succ fuel => exact .pure
  | cons x xs ih =>
    cases fuel with
    | zero => simp at hf
    | succ fuel =>
      have hown := hx x (by simp)
      refine Reads.bind (reads_readNode (nodesTo_head hs)) (Reads.bind .deref (Reads.bind
        (reads_readTag (t:=x.item.tagAt) (p:=x.item.pathAt) ?_) (Reads.bind
          (reads_readStr (c:=x.item.tag.tag) ?_) (Reads.bind (reads_readStr (c:=x.item.tag.path) ?_)
            (Reads.bind (ih fuel (nodesTo_tail hs) (fun y hy => hx y (by simp [hy]))
              (by simpa using hf)) .pure)))))
      · exact Multiset.mem_of_le hown (by simp [ownTag,leftTag])
      · exact Multiset.mem_of_le hown (by simp [ownTag])
      · exact Multiset.mem_of_le hown (by simp [ownTag])

lemma reads_readTags (hg : g.Represents s) :
    Reads (g.blocks state + r) (readTags state) s.tags := by
  rw [hg.tags]
  refine Reads.bind (reads_readList (holds_tags state g.cacheDir ⟨linkTo none g.shells,g.shellItems⟩)
    state_mem) (Reads.bind (Reads.sized fun fuel hfuel => ?_) .pure)
  exact reads_tagsLoop fuel tags_le (fun x hx => ownTag_le hx) (length_lt tags_le hfuel)

/-- What `write_tag_file` writes. -/
lemma reads_writeTagFile (hg : g.Represents s) (fopen : Bool) :
    Reads (g.blocks state + r) (writeTagFile fopen state)
      (if fopen then some (tagFileText s.tags) else none) := by
  cases fopen with
  | true => exact Reads.bind (reads_readTags hg) .pure
  | false => exact .pure

lemma reads_sendTo {x : Entry ShellItem} (hx : x ∈ g.shells) (payload : List Byte) :
    Reads (g.blocks state + r) (sendTo x.data payload) [⟨x.item.sunPath,payload⟩] :=
  Reads.bind (reads_readShell (shellBlock_mem hx)) .pure

lemma reads_reply {x : Entry ShellItem} (hx : x ∈ g.shells) (payload : List Byte) :
    Reads (g.blocks state + r) (reply x.data payload) ⟨[⟨x.item.sunPath,payload⟩],none⟩ :=
  Reads.bind (reads_sendTo hx payload) .pure

lemma reads_added (hg : g.Represents s) (env : Env) {x : Entry ShellItem} (hx : x ∈ g.shells) :
    Reads (g.blocks state + r) (added env state x.data)
      ⟨[⟨x.item.sunPath,ok⟩],if env.fopen then some (tagFileText s.tags) else none⟩ :=
  Reads.bind (reads_writeTagFile hg env.fopen) (Reads.bind (reads_sendTo hx ok) .pure)

end Reading

section Finding
variable {g : Layout} {state : ℕ} {r : Multiset (ℕ × Block)} {s : State} {pid : ℤ}

/-- An entry that is looked up, and those around it. -/
structure Found {ι : Type} (p : Entry ι → Bool) (xs pre : List (Entry ι)) (x : Entry ι)
    (post : List (Entry ι)) : Prop where
  split : xs = pre ++ x::post
  here : p x = true
  before : ∀ y ∈ pre, p y = false

lemma Found.find? {ι : Type} {p : Entry ι → Bool} {xs pre post : List (Entry ι)} {x : Entry ι}
    (h : Found p xs pre x post) : xs.find? p = some x :=
  List.find?_eq_some_iff_append.mpr ⟨h.here,pre,post,h.split,fun y hy => by simp [h.before y hy]⟩

lemma found_of_find? {ι : Type} {p : Entry ι → Bool} {xs : List (Entry ι)} {x : Entry ι}
    (h : xs.find? p = some x) : ∃ pre post, Found p xs pre x post := by
  obtain ⟨hx,pre,post,hsplit,hpre⟩ := List.find?_eq_some_iff_append.mp h
  exact ⟨pre,post,hsplit,hx,fun y hy => by simpa using hpre y hy⟩

lemma Layout.Represents.shell? (hg : g.Represents s) (pid : ℤ) :
    s.shell? pid = (g.shells.find? fun x => x.item.pid = pid).map toShell := by
  rw [State.shell?,hg.shells,List.find?_map]
  rfl

lemma Layout.Represents.tag? (hg : g.Represents s) (tag : CStr) :
    s.tag? tag = (g.tags.find? fun x => x.item.tag.tag = tag).map toTag := by
  rw [State.tag?,hg.tags,List.find?_map]
  rfl

lemma Layout.Represents.found_shell (hg : g.Represents s) {sh : Shell} (hs : s.shell? pid = some sh) :
    ∃ pre x post, Found (fun x => x.item.pid = pid) g.shells pre x post ∧ toShell x = sh := by
  rw [hg.shell?,Option.map_eq_some_iff] at hs
  obtain ⟨x,hx,rfl⟩ := hs
  obtain ⟨pre,post,hf⟩ := found_of_find? hx
  exact ⟨pre,x,post,hf,rfl⟩

lemma Layout.Represents.found_tag (hg : g.Represents s) {tag : CStr} {t : Tag}
    (ht : s.tag? tag = some t) :
    ∃ pre x post, Found (fun x => x.item.tag.tag = tag) g.tags pre x post ∧ toTag x = t := by
  rw [hg.tag?,Option.map_eq_some_iff] at ht
  obtain ⟨x,hx,rfl⟩ := ht
  obtain ⟨pre,post,hf⟩ := found_of_find? hx
  exact ⟨pre,x,post,hf,rfl⟩

lemma Found.mem {ι : Type} {p : Entry ι → Bool} {xs pre post : List (Entry ι)} {x : Entry ι}
    (h : Found p xs pre x post) : x ∈ xs := by simp [h.split]

/-- The comparison says so of the entry that is looked up. -/
lemma Found.reads_here {ι : Type} {p : Entry ι → Bool} {xs pre post : List (Entry ι)} {x : Entry ι}
    {u : Multiset (ℕ × Block)} {compareFunc : Option ℕ → Code Block Bool} (h : Found p xs pre x post)
    (hc : ∀ y ∈ xs, Reads u (compareFunc (some y.data)) (p y)) :
    Reads u (compareFunc (some x.data)) true := by
  rw [← h.here]
  exact hc x h.mem

lemma Found.reads_before {ι : Type} {p : Entry ι → Bool} {xs pre post : List (Entry ι)} {x : Entry ι}
    {u : Multiset (ℕ × Block)} {compareFunc : Option ℕ → Code Block Bool} (h : Found p xs pre x post)
    (hc : ∀ y ∈ xs, Reads u (compareFunc (some y.data)) (p y)) :
    ∀ y ∈ pre, Reads u (compareFunc (some y.data)) false := by
  intro y hy
  rw [← h.before y hy]
  exact hc y (by rw [h.split]; exact List.mem_append_left _ hy)

section WithShell
variable {f : ℕ → Code Block Effect} {pre post : List (Entry ShellItem)} {x : Entry ShellItem}

lemma reads_noShell (hg : g.Represents s) (hs : s.shell? pid = none) :
    Reads (g.blocks state + r) (listGetNode (compareShellPid pid) (.shells state)) none := by
  have hread := reads_shell (g:=g) (r:=r) state pid
  rw [hg.shell?,Option.map_eq_none_iff] at hs
  rwa [hs] at hread

lemma reads_withShell_none (hg : g.Represents s) (hs : s.shell? pid = none) :
    Reads (g.blocks state + r) (withShell state pid f) ⟨[],none⟩ :=
  Reads.bind (reads_noShell hg hs) .pure

lemma reads_found (hx : Found (fun x => x.item.pid = pid) g.shells pre x post) :
    Reads (g.blocks state + r) (listGetNode (compareShellPid pid) (.shells state)) (some x.node) := by
  have hread := reads_shell (g:=g) (r:=r) state pid
  rwa [hx.find?] at hread

lemma reads_foundData (hx : Found (fun x => x.item.pid = pid) g.shells pre x post) :
    Reads (g.blocks state + r) (dataOf x.node) x.data :=
  reads_dataOf (Multiset.mem_of_le shells_le (hx.split ▸ node_mem pre x post))

lemma triple_withShell {C : Multiset (ℕ × Block) → Prop} {Q : Effect → Multiset (ℕ × Block) → Prop}
    (hx : Found (fun x => x.item.pid = pid) g.shells pre x post)
    (h : Triple C (g.blocks state + r) (f x.data) Q) :
    Triple C (g.blocks state + r) (withShell state pid f) Q :=
  Reads.andThen (reads_found hx) (Reads.andThen (reads_foundData hx) h)

lemma hits_withShell {P : Multiset (ℕ × Block) → Prop}
    (hx : Found (fun x => x.item.pid = pid) g.shells pre x post)
    (h : Hits (g.blocks state + r) (f x.data) P) :
    Hits (g.blocks state + r) (withShell state pid f) P :=
  Hits.andThen (reads_found hx) (Hits.andThen (reads_foundData hx) h)

end WithShell
end Finding

/-! The lists of the state grow and shrink. -/

namespace Layout

def addShell (g : Layout) (e : Entry ShellItem) : Layout :=
  {g with shells := g.shells ++ [e], shellItems := g.shellItems+1}

def addTag (g : Layout) (e : Entry TagItem) : Layout :=
  {g with tags := g.tags ++ [e], tagItems := g.tagItems+1}

def dropShell (g : Layout) (shells : List (Entry ShellItem)) : Layout :=
  {g with shells, shellItems := g.shellItems-1}

def dropTag (g : Layout) (tags : List (Entry TagItem)) : Layout :=
  {g with tags, tagItems := g.tagItems-1}

/-- The shell `x` with other contents. -/
def setItem (g : Layout) (pre post : List (Entry ShellItem)) (x : Entry ShellItem) (i : ShellItem) :
    Layout := {g with shells := pre ++ ⟨x.node,x.data,i⟩::post}

/-- All but what hangs on the shell `x`. -/
def around (g : Layout) (state : ℕ) (pre post : List (Entry ShellItem)) : Multiset (ℕ × Block) :=
  {(state,g.stateBlock)} + nodesTo none g.shells + (owned ownShell pre + owned ownShell post) + g.tagBlocks

variable {g : Layout} {state : ℕ} {pre post : List (Entry ShellItem)} {x : Entry ShellItem}

lemma setItem_self (h : g.shells = pre ++ x::post) : g.setItem pre post x x.item = g := by
  rw [setItem,← h]

lemma setItem_blocks (h : g.shells = pre ++ x::post) (i : ShellItem) :
    (g.setItem pre post x i).blocks state = ownShell ⟨x.node,x.data,i⟩ + g.around state pre post := by
  simp only [setItem,blocks,around,shellBlocks,stateBlock,tagBlocks,h,linkTo_append,linkTo_cons,
    nodesTo_append,nodesTo_cons,owned_append,owned_cons]
  abel

end Layout

section Listing
variable {g : Layout} {r : Multiset (ℕ × Block)} {pre post : List (Entry ShellItem)} {x : Entry ShellItem}

/-- The list of shells, with what hangs on the shell `x` in front of the rest. -/
lemma blocks_shells (state : ℕ) (hx : g.shells = pre ++ x::post) (r : Multiset (ℕ × Block)) :
    g.blocks state + r = {((ListAt.shells state).addr,.state g.cacheDir
      ⟨linkTo none (pre ++ x::post),g.shellItems⟩ ⟨linkTo none g.tags,g.tagItems⟩)} +
      nodesTo none (pre ++ x::post) + (ownShell x +
        (owned ownShell pre + owned ownShell post + g.tagBlocks + r)) := by
  rw [Layout.blocks,Layout.shellBlocks]
  simp only [ListAt.addr,Layout.stateBlock,hx,owned_append,owned_cons]
  abel

/-- The list of tags, likewise. -/
lemma blocks_tags (state : ℕ) {pre post : List (Entry TagItem)} {x : Entry TagItem}
    (hx : g.tags = pre ++ x::post) (r : Multiset (ℕ × Block)) :
    g.blocks state + r = {((ListAt.tags state).addr,.state g.cacheDir
      ⟨linkTo none g.shells,g.shellItems⟩ ⟨linkTo none (pre ++ x::post),g.tagItems⟩)} +
      nodesTo none (pre ++ x::post) + (ownTag x +
        (owned ownTag pre + owned ownTag post + g.shellBlocks + r)) := by
  rw [Layout.blocks,Layout.tagBlocks]
  simp only [ListAt.addr,Layout.stateBlock,hx,owned_append,owned_cons]
  abel

/-- The stack of the shell `x` as a list of `list.c`. -/
lemma blocks_actions (state : ℕ) (hx : g.shells = pre ++ x::post) (r : Multiset (ℕ × Block)) :
    g.blocks state + r = {((ListAt.actions x.data).addr,.shell ⟨x.item.pid,x.item.sunPath,
      ⟨linkTo none x.item.actions,x.item.nItems⟩⟩)} + nodesTo none x.item.actions +
      (owned ownAction x.item.actions + (g.around state pre post + r)) := by
  have hitem : g.blocks state = ownShell x + g.around state pre post := by
    rw [← Layout.setItem_blocks hx x.item,Layout.setItem_self hx]
  rw [hitem,ownShell,shellBlock,stackBlocks]
  simp only [ListAt.addr]
  abel

lemma setItem_actions (state : ℕ) (hx : g.shells = pre ++ x::post) (k : ℤ) (xs : List (Entry ActionItem)) :
    {((ListAt.actions x.data).addr,Block.shell ⟨x.item.pid,x.item.sunPath,⟨linkTo none xs,k⟩⟩)} +
      nodesTo none xs + (owned ownAction xs + (g.around state pre post + r)) =
    (g.setItem pre post x {x.item with nItems := k, actions := xs}).blocks state + r := by
  rw [Layout.setItem_blocks hx,ownShell,shellBlock,stackBlocks]
  simp only [ListAt.addr]
  abel

end Listing

section Changing
variable {g : Layout} {state : ℕ} {s r : Multiset (ℕ × Block)} {C : Multiset (ℕ × Block) → Prop}
  {pre post : List (Entry ShellItem)} {x : Entry ShellItem}
  (hC : ∀ g r, Layout.Sweepable g → C (g.blocks state + r))
include hC

lemma triple_appendShell (hg : g.Sweepable) (e : Entry ShellItem)
    (he : e.item.nItems ≤ e.item.actions.length)
    (hs : s = g.blocks state + ({(e.node,.node (some e.data) none)} + (ownShell e + r))) :
    Triple C s (listAppendNode (.shells state) e.node) fun _ u => u = (g.addShell e).blocks state + r := by
  have hsplit : s = {((ListAt.shells state).addr,.state g.cacheDir ⟨linkTo none g.shells,g.shellItems⟩
      ⟨linkTo none g.tags,g.tagItems⟩)} + nodesTo none g.shells + ({(e.node,.node (some e.data) none)} +
        (owned ownShell g.shells + g.tagBlocks + ownShell e + r)) := by
    rw [hs,Layout.blocks,Layout.shellBlocks]
    simp only [ListAt.addr,Layout.stateBlock]
    abel
  have hgrown : ∀ k, {((ListAt.shells state).addr,Block.state g.cacheDir
      ⟨linkTo none (g.shells ++ [e]),k⟩ ⟨linkTo none g.tags,g.tagItems⟩)} +
      nodesTo none (g.shells ++ [e]) + (owned ownShell g.shells + g.tagBlocks + ownShell e + r) =
      Layout.blocks {g with shells := g.shells ++ [e], shellItems := k} state + r := by
    intro k
    rw [Layout.blocks,Layout.shellBlocks,owned_append,owned_cons,owned_nil]
    simp only [ListAt.addr,Layout.stateBlock,Layout.tagBlocks]
    abel
  refine (triple_listAppendNode (holds_shells state g.cacheDir _) e hsplit).mono ?_ ?_
  · rintro _ ⟨k,rfl⟩
    rw [hgrown]
    refine hC _ _ fun y hy => ?_
    rcases List.mem_append.mp hy with hy | hy
    · exact hg y hy
    · rwa [List.mem_singleton.mp hy]
  · rintro _ _ rfl
    exact hgrown _

lemma triple_appendTag (hg : g.Sweepable) (e : Entry TagItem)
    (hs : s = g.blocks state + ({(e.node,.node (some e.data) none)} + (ownTag e + r))) :
    Triple C s (listAppendNode (.tags state) e.node) fun _ u => u = (g.addTag e).blocks state + r := by
  have hsplit : s = {((ListAt.tags state).addr,.state g.cacheDir ⟨linkTo none g.shells,g.shellItems⟩
      ⟨linkTo none g.tags,g.tagItems⟩)} + nodesTo none g.tags + ({(e.node,.node (some e.data) none)} +
        (owned ownTag g.tags + g.shellBlocks + ownTag e + r)) := by
    rw [hs,Layout.blocks,Layout.tagBlocks]
    simp only [ListAt.addr,Layout.stateBlock]
    abel
  have hgrown : ∀ k, {((ListAt.tags state).addr,Block.state g.cacheDir
      ⟨linkTo none g.shells,g.shellItems⟩ ⟨linkTo none (g.tags ++ [e]),k⟩)} +
      nodesTo none (g.tags ++ [e]) + (owned ownTag g.tags + g.shellBlocks + ownTag e + r) =
      Layout.blocks {g with tags := g.tags ++ [e], tagItems := k} state + r := by
    intro k
    rw [Layout.blocks,Layout.tagBlocks,owned_append,owned_cons,owned_nil]
    simp only [ListAt.addr,Layout.stateBlock,Layout.shellBlocks]
    abel
  refine (triple_listAppendNode (holds_tags state g.cacheDir _) e hsplit).mono ?_ ?_
  · rintro _ ⟨k,rfl⟩
    rw [hgrown]
    exact hC _ _ hg
  · rintro _ _ rfl
    exact hgrown _

lemma triple_prependAction (hg : g.Sweepable) (hx : g.shells = pre ++ x::post) (e : Entry ActionItem)
    (hs : s = g.blocks state + ({(e.node,.node (some e.data) none)} + (ownAction e + r))) :
    Triple C s (listPrependNode (.actions x.data) e.node) fun _ u =>
      u = (g.setItem pre post x {x.item with
        nItems := x.item.nItems+1, actions := e::x.item.actions}).blocks state + r := by
  have hsplit : s = {((ListAt.actions x.data).addr,.shell ⟨x.item.pid,x.item.sunPath,
      ⟨linkTo none x.item.actions,x.item.nItems⟩⟩)} + nodesTo none x.item.actions +
      ({(e.node,.node (some e.data) none)} +
        (owned ownAction x.item.actions + ownAction e + (g.around state pre post + r))) := by
    rw [hs,blocks_actions state hx]
    abel
  have hgrown : ∀ k, {((ListAt.actions x.data).addr,Block.shell ⟨x.item.pid,x.item.sunPath,
      ⟨linkTo none (e::x.item.actions),k⟩⟩)} + nodesTo none (e::x.item.actions) +
      (owned ownAction x.item.actions + ownAction e + (g.around state pre post + r)) =
      (g.setItem pre post x {x.item with nItems := k, actions := e::x.item.actions}).blocks state + r := by
    intro k
    rw [← setItem_actions state hx,owned_cons,add_comm (ownAction e)]
  refine (triple_listPrependNode (holds_actions x.data x.item.pid x.item.sunPath) e hsplit).mono ?_ ?_
  · rintro _ (⟨v,rfl⟩ | ⟨k,hk,rfl⟩)
    · have hold : {((ListAt.actions x.data).addr,Block.shell ⟨x.item.pid,x.item.sunPath,
          ⟨linkTo none x.item.actions,x.item.nItems⟩⟩)} + nodesTo none x.item.actions +
          (v + (owned ownAction x.item.actions + ownAction e + (g.around state pre post + r))) =
          g.blocks state + (v + ownAction e + r) := by
        rw [blocks_actions state hx]
        abel
      rw [hold]
      exact hC _ _ hg
    · rw [hgrown]
      refine hC _ _ fun y hy => ?_
      have hxle := hg x (by simp [hx])
      simp only [Layout.setItem,List.mem_append,List.mem_cons] at hy
      rcases hy with hy | rfl | hy
      · exact hg y (by simp [hx,hy])
      · simp only [List.length_cons,Nat.cast_add,Nat.cast_one]
        omega
      · exact hg y (by simp [hx,hy])
  · rintro _ _ rfl
    exact hgrown _

lemma triple_dropShell {pid : ℤ} (hg : g.Sweepable)
    (hx : Found (fun x => x.item.pid = pid) g.shells pre x post)
    (hleft : x.item.nItems = x.item.actions.length) (hhead : pre = [] → ∀ u, C u) :
    Triple C (g.blocks state + r) (listDeleteNode (compareShellPid pid) cleanupShell (.shells state))
      fun code u => code = 0 ∧ u = (g.dropShell (pre ++ post)).blocks state + r := by
  have hcompare : ∀ y ∈ g.shells, Reads (g.blocks state + r) (compareShellPid pid (some y.data))
      (y.item.pid = pid) := fun y hy => reads_compareShellPid pid (shellBlock_mem hy)
  have hshrunk : ∀ k v, {((ListAt.shells state).addr,Block.state g.cacheDir
      ⟨linkTo none (pre ++ post),k⟩ ⟨linkTo none g.tags,g.tagItems⟩)} + nodesTo none (pre ++ post) +
      (v + (owned ownShell pre + owned ownShell post + g.tagBlocks + r)) =
      Layout.blocks {g with shells := pre ++ post, shellItems := k} state + (v + r) := by
    intro k v
    rw [Layout.blocks,Layout.shellBlocks,owned_append]
    simp only [ListAt.addr,Layout.stateBlock,Layout.tagBlocks]
    abel
  refine (triple_listDeleteNode (holds_shells state g.cacheDir _) pre post (blocks_shells state hx.split r)
    (hx.reads_before hcompare) (hx.reads_here hcompare) (cleans_shell hleft.le)).mono ?_ ?_
  · rintro u (hpre | ⟨k,v,rfl⟩)
    · exact hhead hpre u
    · rw [hshrunk]
      refine hC _ _ fun y hy => hg y ?_
      rw [hx.split]
      rcases List.mem_append.mp hy with hy | hy
      · exact List.mem_append_left _ hy
      · exact List.mem_append_right _ (List.mem_cons_of_mem x hy)
  · rintro _ _ ⟨rfl,rfl⟩
    rw [leftShell_exact hleft,hshrunk,zero_add]
    exact ⟨rfl,rfl⟩

lemma triple_dropTag {key : ℕ} {tag : CStr} {pre post : List (Entry TagItem)} {x : Entry TagItem}
    (hg : g.Sweepable) (hx : Found (fun x => x.item.tag.tag = tag) g.tags pre x post)
    (hkey : (key,Block.str tag) ∈ g.blocks state + r) (hhead : pre = [] → ∀ u, C u) :
    Triple C (g.blocks state + r) (listDeleteNode (compareTagTag key) cleanupTag (.tags state))
      fun _ u => u = (g.dropTag (pre ++ post)).blocks state + (leftTag x + r) := by
  have hcompare : ∀ y ∈ g.tags, Reads (g.blocks state + r) (compareTagTag key (some y.data))
      (y.item.tag.tag = tag) := fun y hy => reads_compareTagTag (ownTag_le hy) hkey
  have hshrunk : ∀ k v, {((ListAt.tags state).addr,Block.state g.cacheDir
      ⟨linkTo none g.shells,g.shellItems⟩ ⟨linkTo none (pre ++ post),k⟩)} + nodesTo none (pre ++ post) +
      (v + (owned ownTag pre + owned ownTag post + g.shellBlocks + r)) =
      Layout.blocks {g with tags := pre ++ post, tagItems := k} state + (v + r) := by
    intro k v
    rw [Layout.blocks,Layout.tagBlocks,owned_append]
    simp only [ListAt.addr,Layout.stateBlock,Layout.shellBlocks]
    abel
  refine (triple_listDeleteNode (holds_tags state g.cacheDir _) pre post (blocks_tags state hx.split r)
    (hx.reads_before hcompare) (hx.reads_here hcompare) (cleans_tag x)).mono ?_ ?_
  · rintro u (hpre | ⟨k,v,rfl⟩)
    · exact hhead hpre u
    · rw [hshrunk]
      exact hC _ _ hg
  · rintro _ _ ⟨-,rfl⟩
    exact hshrunk _ _

omit hC in
lemma triple_popAction (hx : g.shells = pre ++ x::post) {a : Entry ActionItem}
    {as : List (Entry ActionItem)} (ha : x.item.actions = a::as) :
    Triple (fun _ => True) (g.blocks state + r)
      (listDeleteNode (compareActionPath a.item.path) cleanupAction (.actions x.data))
      fun _ u => u = (g.setItem pre post x {x.item with
        nItems := x.item.nItems-1, actions := as}).blocks state + r := by
  have hown : ownAction a ≤ g.blocks state + r := by
    have hshell : ownShell x ≤ g.blocks state + r := ownShell_le (by simp [hx])
    refine le_trans ?_ hshell
    rw [ownShell,stackBlocks,ha,owned_cons]
    exact (Multiset.le_add_right _ _).trans ((Multiset.le_add_left _ _).trans (Multiset.le_add_left _ _))
  have hc : Reads (g.blocks state + r) (compareActionPath a.item.path (some a.data)) true := by
    have hkey : (a.item.path,Block.str a.item.action.path) ∈ g.blocks state + r :=
      Multiset.mem_of_le hown (by simp [ownAction])
    simpa using reads_compareActionPath hown hkey
  have hsplit := blocks_actions state hx r
  rw [ha,owned_cons,add_assoc (ownAction a)] at hsplit
  refine (triple_deleteHead (holds_actions x.data x.item.pid x.item.sunPath) hsplit hc
    (cleans_action a)).mono (fun _ _ => trivial) ?_
  rintro _ _ ⟨-,rfl⟩
  rw [zero_add]
  exact setItem_actions state hx _ _

omit hC in
variable (state) in
lemma triple_resetActions (hx : g.shells = pre ++ x::post) :
    Triple (fun _ => True) (g.blocks state + r) (listDeleteAll cleanupAction (.actions x.data))
      fun _ u => u = (g.setItem pre post x {x.item with
        nItems := x.item.nItems-x.item.actions.length, actions := []}).blocks state + r := by
  refine (triple_listDeleteAll (holds_actions x.data x.item.pid x.item.sunPath)
    (blocks_actions state hx r) fun a _ => cleans_action a).mono (fun _ _ => trivial) ?_
  rintro _ _ rfl
  have hnone : owned (fun _ : Entry ActionItem => (0 : Multiset (ℕ × Block))) x.item.actions = 0 := by
    simp [owned]
  rw [hnone,← setItem_actions state hx,nodesTo_nil,owned_nil,linkTo_nil]
  abel

end Changing

section Representing
variable {g : Layout} {s : State} {pid : ℤ} {ι β : Type} {p : Entry ι → Bool}

lemma Found.modifyFirst {xs pre post : List (Entry ι)} {x : Entry ι} (h : Found p xs pre x post)
    (view : Entry ι → β) {same : β → Bool} (hs : ∀ y, same (view y) = p y) (f : β → β) :
    Lib.modifyFirst same f (xs.map view) = pre.map view ++ f (view x)::post.map view := by
  obtain ⟨rfl,hx,hpre⟩ := h
  induction pre with
  | nil => simp [Lib.modifyFirst,hs,hx]
  | cons y ys ih =>
    have hy : same (view y) = false := (hs y).trans (hpre y (by simp))
    have hrest := ih fun z hz => hpre z (by simp [hz])
    simp [Lib.modifyFirst,hy,← hrest]

lemma Found.eraseP {xs pre post : List (Entry ι)} {x : Entry ι} (h : Found p xs pre x post)
    (view : Entry ι → β) {same : β → Bool} (hs : ∀ y, same (view y) = p y) :
    (xs.map view).eraseP same = (pre ++ post).map view := by
  obtain ⟨rfl,hx,hpre⟩ := h
  induction pre with
  | nil => simp [hs,hx]
  | cons y ys ih =>
    have hy : same (view y) = false := (hs y).trans (hpre y (by simp))
    have hrest := ih fun z hz => hpre z (by simp [hz])
    simpa [List.eraseP_cons,hy] using hrest

/-- Every shell counts what it has. -/
def Layout.Exact (g : Layout) : Prop := ∀ x ∈ g.shells, x.item.nItems = x.item.actions.length

lemma Layout.Exact.sweepable (h : g.Exact) : g.Sweepable := fun x hx => (h x hx).le

lemma Layout.Represents.exact (hg : g.Represents s) (hw : s.WellFormed) : g.Exact := by
  intro x hx
  have hsh : toShell x ∈ s.shells.nodes := by
    rw [hg.shells]
    exact List.mem_map_of_mem hx
  simpa [NodeList.Counted,toShell] using hw.actionsCounted _ hsh

lemma represents_addShell (hg : g.Represents s) (e : Entry ShellItem) :
    (g.addShell e).Represents {s with shells := Daemon.listAppendNode s.shells (toShell e)} where
  cacheDir := hg.cacheDir
  shells := by simp [hg.shells,Daemon.listAppendNode,Layout.addShell]
  tags := hg.tags

lemma represents_addTag (hg : g.Represents s) (e : Entry TagItem) :
    (g.addTag e).Represents {s with tags := Daemon.listAppendNode s.tags (toTag e)} where
  cacheDir := hg.cacheDir
  shells := hg.shells
  tags := by simp [hg.tags,Daemon.listAppendNode,Layout.addTag]

lemma represents_dropShell (hg : g.Represents s) {pre post : List (Entry ShellItem)}
    {x : Entry ShellItem} (hx : Found (fun x => x.item.pid = pid) g.shells pre x post) :
    (g.dropShell (pre ++ post)).Represents
      {s with shells := (Daemon.listDeleteNode Daemon.compareShellPid s.shells pid).list} := by
  have hs : s.shell? pid = some (toShell x) := by rw [hg.shell?,hx.find?]; rfl
  refine ⟨hg.cacheDir,?_,hg.tags⟩
  rw [deleteShell hs,hg.shells]
  exact congrArg₂ NodeList.mk (hx.eraseP toShell fun _ => rfl) rfl

lemma represents_dropTag (hg : g.Represents s) {tag : CStr} {pre post : List (Entry TagItem)}
    {x : Entry TagItem} (hx : Found (fun x => x.item.tag.tag = tag) g.tags pre x post) :
    (g.dropTag (pre ++ post)).Represents
      {s with tags := (Daemon.listDeleteNode Daemon.compareTagTag s.tags tag).list} := by
  have ht : s.tag? tag = some (toTag x) := by rw [hg.tag?,hx.find?]; rfl
  refine ⟨hg.cacheDir,hg.shells,?_⟩
  rw [deleteTag ht,hg.tags]
  exact congrArg₂ NodeList.mk (hx.eraseP toTag fun _ => rfl) rfl

lemma represents_setItem (hg : g.Represents s) {pre post : List (Entry ShellItem)}
    {x : Entry ShellItem} (hx : Found (fun x => x.item.pid = pid) g.shells pre x post) (n : ℤ)
    (xs : List (Entry ActionItem)) :
    (g.setItem pre post x {x.item with nItems := n, actions := xs}).Represents
      (setActions s pid ⟨xs.map toAction,n⟩) := by
  refine ⟨hg.cacheDir,?_,hg.tags⟩
  simp only [setActions,updateNode,hg.shells]
  rw [hx.modifyFirst toShell (fun y => by simp [toShell])]
  simp [Layout.setItem,toShell]

/-- The tag `x` with another path. -/
def Layout.rebind (g : Layout) (pre post : List (Entry TagItem)) (x : Entry TagItem) (pathAt : ℕ)
    (path : CStr) : Layout :=
  {g with tags := pre ++ ⟨x.node,x.data,⟨x.item.tagAt,pathAt,⟨x.item.tag.tag,path⟩⟩⟩::post}

/-- All but what hangs on the tag `x`. -/
def Layout.beside (g : Layout) (state : ℕ) (pre post : List (Entry TagItem)) : Multiset (ℕ × Block) :=
  {(state,g.stateBlock)} + g.shellBlocks + nodesTo none g.tags + (owned ownTag pre + owned ownTag post)

lemma Layout.rebind_blocks {pre post : List (Entry TagItem)} {x : Entry TagItem}
    (h : g.tags = pre ++ x::post) (state pathAt : ℕ) (path : CStr) :
    (g.rebind pre post x pathAt path).blocks state =
      {(x.data,.tag x.item.tagAt pathAt)} + ({(x.item.tagAt,.str x.item.tag.tag)} +
        {(pathAt,.str path)}) + g.beside state pre post := by
  simp only [rebind,blocks,beside,tagBlocks,stateBlock,shellBlocks,ownTag,leftTag,h,linkTo_append,
    linkTo_cons,nodesTo_append,nodesTo_cons,owned_append,owned_cons]
  abel

lemma Layout.tag_blocks {pre post : List (Entry TagItem)} {x : Entry TagItem}
    (h : g.tags = pre ++ x::post) (state : ℕ) :
    g.blocks state = {(x.data,.tag x.item.tagAt x.item.pathAt)} + ({(x.item.tagAt,.str x.item.tag.tag)} +
      {(x.item.pathAt,.str x.item.tag.path)}) + g.beside state pre post := by
  have hself : g.rebind pre post x x.item.pathAt x.item.tag.path = g := by rw [rebind,← h]
  rw [← rebind_blocks h,hself]

lemma represents_rebind (hg : g.Represents s) {tag : CStr} {pre post : List (Entry TagItem)}
    {x : Entry TagItem} (hx : Found (fun x => x.item.tag.tag = tag) g.tags pre x post) (pathAt : ℕ)
    (path : CStr) : (g.rebind pre post x pathAt path).Represents
      {s with tags := updateNode Daemon.compareTagTag s.tags tag fun t => {t with path}} := by
  refine ⟨hg.cacheDir,hg.shells,?_⟩
  simp only [updateNode,hg.tags]
  rw [hx.modifyFirst toTag (fun y => by simp [toTag])]
  simp [Layout.rebind,toTag]

end Representing
end Alloc
end Nav.Daemon
