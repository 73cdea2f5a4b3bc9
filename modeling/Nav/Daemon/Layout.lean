import Nav.Daemon.Alloc
import Mathlib.Algebra.BigOperators.Group.Multiset.Basic
import Mathlib.Tactic.Abel

/-! Which blocks the lists are made of, and what `list.c` does to them between any two steps. An entry
is a node with what hangs on it. -/
namespace Nav.Daemon
open Nav.C Nav.Lib Nav.Lib.Blocks

namespace Alloc

/-- A node of a list, and the struct it leads to. -/
structure Entry (ι : Type) where
  node : ℕ
  data : ℕ
  item : ι

variable {ι α : Type}

/-- The pointer to the entries, with `q` behind them. -/
def linkTo (q : Option ℕ) : List (Entry ι) → Option ℕ
  | [] => q
  | x::_ => some x.node

/-- The nodes of the entries, the last one leading to `q`. -/
def nodesTo (q : Option ℕ) : List (Entry ι) → Multiset (ℕ × Block)
  | [] => 0
  | x::xs => {(x.node,.node (some x.data) (linkTo q xs))} + nodesTo q xs

/-- The blocks that hang on the nodes. -/
def owned (own : Entry ι → Multiset (ℕ × Block)) (xs : List (Entry ι)) : Multiset (ℕ × Block) :=
  (xs.map own).sum

section Chains
variable {q : Option ℕ} {x : Entry ι} {xs ys : List (Entry ι)} {own : Entry ι → Multiset (ℕ × Block)}

@[simp] theorem linkTo_nil : linkTo q ([] : List (Entry ι)) = q := rfl
@[simp] theorem linkTo_cons : linkTo q (x::xs) = some x.node := rfl
@[simp] theorem nodesTo_nil : nodesTo q ([] : List (Entry ι)) = 0 := rfl
@[simp] theorem nodesTo_cons : nodesTo q (x::xs) =
    {(x.node,.node (some x.data) (linkTo q xs))} + nodesTo q xs := rfl

@[simp] theorem linkTo_append : linkTo q (xs ++ ys) = linkTo (linkTo q ys) xs := by
  cases xs <;> rfl

@[simp] theorem nodesTo_append : nodesTo q (xs ++ ys) = nodesTo (linkTo q ys) xs + nodesTo q ys := by
  induction xs with
  | nil => simp
  | cons x xs ih => rw [List.cons_append,nodesTo_cons,ih,linkTo_append,nodesTo_cons,add_assoc]

@[simp] theorem owned_nil : owned own [] = 0 := rfl
@[simp] theorem owned_cons : owned own (x::xs) = own x + owned own xs := by simp [owned]
@[simp] theorem owned_append : owned own (xs ++ ys) = owned own xs + owned own ys := by
  simp [owned]

lemma card_nodesTo : (nodesTo q xs).card = xs.length := by
  induction xs with
  | nil => rfl
  | cons x xs ih => simp [ih,add_comm]

/-- A chain that is there fits into the fuel of a loop. -/
lemma length_lt {s : Multiset (ℕ × Block)} {fuel : ℕ} (hs : nodesTo q xs ≤ s) (hf : s.card < fuel) :
    xs.length < fuel := by
  have hle := Multiset.card_le_card hs
  rw [card_nodesTo] at hle
  omega

end Chains

section Readers
variable {s : Multiset (ℕ × Block)} {a : ℕ}

lemma reads_readNode {d q : Option ℕ} (h : (a,Block.node d q) ∈ s) :
    Reads s (readNode a) (d,q) := Reads.bind (.read h) .pure

lemma reads_readShell {i : ShellNode} (h : (a,Block.shell i) ∈ s) : Reads s (readShell a) i :=
  Reads.bind (.read h) .pure

lemma reads_readAction {p : ℕ} (h : (a,Block.action p) ∈ s) : Reads s (readAction a) p :=
  Reads.bind (.read h) .pure

lemma reads_readTag {t p : ℕ} (h : (a,Block.tag t p) ∈ s) :
    Reads s (readTag a) (t,p) := Reads.bind (.read h) .pure

lemma reads_readStr {c : CStr} (h : (a,Block.str c) ∈ s) : Reads s (readStr a) c :=
  Reads.bind (.read h) .pure

lemma reads_dataOf {d : ℕ} {q : Option ℕ} (h : (a,Block.node (some d) q) ∈ s) :
    Reads s (dataOf a) d := Reads.bind (reads_readNode h) .deref

end Readers

/-- `blk` is the block with the list at `l`, as a function of the list. -/
structure Holds (l : ListAt) (blk : LinkedList → Block) : Prop where
  here : ∀ list, listIn l (blk list) = some list
  set : ∀ list list', withList l (blk list) list' = blk list'

lemma holds_shells (state : ℕ) (cacheDir : CStr) (tags : LinkedList) :
    Holds (.shells state) fun list => .state cacheDir list tags := ⟨fun _ => rfl,fun _ _ => rfl⟩

lemma holds_tags (state : ℕ) (cacheDir : CStr) (shells : LinkedList) :
    Holds (.tags state) fun list => .state cacheDir shells list := ⟨fun _ => rfl,fun _ _ => rfl⟩

lemma holds_actions (shell : ℕ) (pid : ℤ) (sunPath : List Byte) :
    Holds (.actions shell) fun list => .shell ⟨pid,sunPath,list⟩ := ⟨fun _ => rfl,fun _ _ => rfl⟩

section Places
variable {C : Multiset (ℕ × Block) → Prop} {s r : Multiset (ℕ × Block)} {l : ListAt}
  {blk : LinkedList → Block} {L : LinkedList} {Q : Unit → Multiset (ℕ × Block) → Prop}

lemma reads_readList (hl : Holds l blk) (h : (l.addr,blk L) ∈ s) : Reads s (readList l) L := by
  refine Reads.bind (.read h) ?_
  rw [hl.here]
  exact .pure

lemma triple_writeList (hl : Holds l blk) (f : LinkedList → LinkedList) (hs : s = {(l.addr,blk L)} + r)
    (hC : C ({(l.addr,blk (f L))} + r)) (hQ : Q () ({(l.addr,blk (f L))} + r)) :
    Triple C s (writeList l f) Q := by
  refine Reads.andThen (.read (b:=blk L) (by simp [hs])) ?_
  rw [hl.here]
  change Triple C s (Code.write l.addr (withList l (blk L) (f L))) Q
  rw [hl.set]
  exact .write hs hC hQ

lemma triple_writeListThen {α : Type} {p : Unit → Code Block α} {R : α → Multiset (ℕ × Block) → Prop}
    (hl : Holds l blk) (f : LinkedList → LinkedList) (hs : s = {(l.addr,blk L)} + r)
    (hC : C ({(l.addr,blk (f L))} + r)) (hp : Triple C ({(l.addr,blk (f L))} + r) (p ()) R) :
    Triple C s (writeList l f >>= p) R :=
  (triple_writeList hl f hs hC rfl).seq fun _ => hp

lemma hits_writeList {P : Multiset (ℕ × Block) → Prop} (hl : Holds l blk) (f : LinkedList → LinkedList)
    (hs : s = {(l.addr,blk L)} + r) (hP : P ({(l.addr,blk (f L))} + r)) :
    Hits s (writeList l f) P := by
  refine Hits.andThen (.read (b:=blk L) (by simp [hs])) ?_
  rw [hl.here]
  change Hits s (Code.write l.addr (withList l (blk L) (f L))) P
  rw [hl.set]
  exact .write hs hP

end Places

section Lists
variable {s r : Multiset (ℕ × Block)} {l : ListAt} {blk : LinkedList → Block} {n : ℤ} {q : Option ℕ}
  {xs : List (Entry ι)} {compareFunc : Option ℕ → Code Block Bool} {same : Entry ι → Bool}

lemma nodesTo_head {x : Entry ι} (hs : nodesTo q (x::xs) ≤ s) :
    (x.node,Block.node (some x.data) (linkTo q xs)) ∈ s :=
  Multiset.mem_of_le hs (by simp)

lemma nodesTo_tail {x : Entry ι} (hs : nodesTo q (x::xs) ≤ s) : nodesTo q xs ≤ s :=
  (Multiset.le_add_left _ _).trans hs

lemma reads_getLoop (fuel : ℕ) (hs : nodesTo none xs ≤ s)
    (hc : ∀ x ∈ xs, Reads s (compareFunc (some x.data)) (same x)) (hf : xs.length < fuel) :
    Reads s (getLoop compareFunc fuel (linkTo none xs)) ((xs.find? same).map Entry.node) := by
  induction xs generalizing fuel with
  | nil =>
    cases fuel with
    | zero => simp at hf
    | succ fuel => exact .pure
  | cons x xs ih =>
    cases fuel with
    | zero => simp at hf
    | succ fuel =>
      refine Reads.bind (reads_readNode (nodesTo_head hs)) (Reads.bind (hc x (by simp)) ?_)
      rw [List.find?_cons]
      cases hx : same x with
      | true => exact .pure
      | false => exact ih fuel (nodesTo_tail hs) (fun y hy => hc y (by simp [hy])) (by simpa using hf)

/-- `list_get_node` finds the first match. -/
theorem reads_listGetNode (hl : Holds l blk) (hlist : (l.addr,blk ⟨linkTo none xs,n⟩) ∈ s)
    (hs : nodesTo none xs ≤ s) (hc : ∀ x ∈ xs, Reads s (compareFunc (some x.data)) (same x)) :
    Reads s (listGetNode compareFunc l) ((xs.find? same).map Entry.node) := by
  refine Reads.bind (reads_readList hl hlist) ?_
  cases xs with
  | nil => exact .pure
  | cons x xs =>
    refine Reads.bind (reads_readNode (nodesTo_head hs)) (Reads.bind (hc x (by simp)) ?_)
    cases hx : same x with
    | true =>
      rw [List.find?_cons,hx]
      exact .pure
    | false => exact Reads.sized fun fuel hf => reads_getLoop fuel hs hc (length_lt hs hf)

/-- The loop of `list_append_node`, before and after the counter is set. -/
lemma triple_appendLoop (hl : Holds l blk) {L : LinkedList} {a : ℕ} (x : Entry ι) (fuel : ℕ)
    (hs : s = {(l.addr,blk L)} + nodesTo none (x::xs) + r) (hf : (x::xs).length < fuel)
    {fin : Multiset (ℕ × Block)}
    (hfin : fin = {(l.addr,blk {L with nItems := L.nItems+1})} + nodesTo (some a) (x::xs) + r) :
    Triple (fun u => u = {(l.addr,blk L)} + nodesTo (some a) (x::xs) + r ∨ u = fin) s
      (appendLoop l a fuel (some x.node)) fun _ u => u = fin := by
  induction xs generalizing x r fuel with
  | nil =>
    cases fuel with
    | zero => simp at hf
    | succ fuel =>
      have hnode : (x.node,Block.node (some x.data) none) ∈ s := by simp [hs]
      refine Reads.andThen (reads_readNode hnode) ?_
      · have hsplit : s = {(x.node,.node (some x.data) none)} + ({(l.addr,blk L)} + r) := by
          rw [hs,nodesTo_cons,nodesTo_nil,linkTo_nil]
          abel
        have hmid : {(x.node,Block.node (some x.data) (some a))} + ({(l.addr,blk L)} + r) =
            {(l.addr,blk L)} + nodesTo (some a) [x] + r := by
          rw [nodesTo_cons,nodesTo_nil,linkTo_nil]
          abel
        refine Triple.writeThen hsplit (Or.inl hmid) ?_
        have hlist : {(x.node,Block.node (some x.data) (some a))} + ({(l.addr,blk L)} + r) =
            {(l.addr,blk L)} + ({(x.node,.node (some x.data) (some a))} + r) := by abel
        have hend : {(l.addr,blk {L with nItems := L.nItems+1})} +
            ({(x.node,.node (some x.data) (some a))} + r) = fin := by
          rw [hfin,nodesTo_cons,nodesTo_nil,linkTo_nil]
          abel
        exact triple_writeList hl _ hlist (Or.inr hend) hend
  | cons y ys ih =>
    cases fuel with
    | zero => simp at hf
    | succ fuel =>
      have hnode : (x.node,Block.node (some x.data) (some y.node)) ∈ s := by simp [hs]
      refine Reads.andThen (reads_readNode hnode) ?_
      · have hsplit : s = {(l.addr,blk L)} + nodesTo none (y::ys) +
            ({(x.node,.node (some x.data) (some y.node))} + r) := by
          rw [hs,nodesTo_cons (x:=x),linkTo_cons]
          abel
        have hmid : {(l.addr,blk L)} + nodesTo (some a) (y::ys) +
            ({(x.node,.node (some x.data) (some y.node))} + r) =
            {(l.addr,blk L)} + nodesTo (some a) (x::y::ys) + r := by
          rw [nodesTo_cons (x:=x),linkTo_cons]
          abel
        have hend : fin = {(l.addr,blk {L with nItems := L.nItems+1})} + nodesTo (some a) (y::ys) +
            ({(x.node,.node (some x.data) (some y.node))} + r) := by
          rw [hfin,nodesTo_cons (x:=x),linkTo_cons]
          abel
        rw [← hmid]
        exact ih y fuel hsplit (by simpa using hf) hend

/-- `list_append_node`: the new entry is on the chain before it is counted. -/
theorem triple_listAppendNode (hl : Holds l blk) (e : Entry ι)
    (hs : s = {(l.addr,blk ⟨linkTo none xs,n⟩)} + nodesTo none xs +
      ({(e.node,.node (some e.data) none)} + r)) :
    Triple (fun u => ∃ k, u = {(l.addr,blk ⟨linkTo none (xs ++ [e]),k⟩)} + nodesTo none (xs ++ [e]) + r) s
      (listAppendNode l e.node)
      fun _ u => u = {(l.addr,blk ⟨linkTo none (xs ++ [e]),n+1⟩)} + nodesTo none (xs ++ [e]) + r := by
  refine Reads.andThen (reads_readList hl (L:=⟨linkTo none xs,n⟩) (by simp [hs])) ?_
  cases xs with
  | nil =>
    rw [nodesTo_nil] at hs
    have hput : ∀ k, {(l.addr,blk ⟨some e.node,k⟩)} + (0 + ({(e.node,.node (some e.data) none)} + r)) =
        {(l.addr,blk ⟨linkTo none [e],k⟩)} + nodesTo none [e] + r := by
      intro k
      rw [nodesTo_cons,nodesTo_nil,linkTo_cons,linkTo_nil]
      abel
    refine triple_writeListThen hl _ (hs.trans (add_assoc _ _ _)) ⟨n,hput n⟩ ?_
    exact triple_writeList hl _ rfl ⟨n+1,hput (n+1)⟩ (hput (n+1))
  | cons x xs =>
    refine Triple.sized fun fuel hfuel => ?_
    have hchain : nodesTo none (x::xs) ≤ s :=
      hs ▸ (Multiset.le_add_left _ _).trans (Multiset.le_add_right _ _)
    have hput : ∀ k, {(l.addr,blk ⟨some x.node,k⟩)} + nodesTo (some e.node) (x::xs) +
        ({(e.node,.node (some e.data) none)} + r) =
        {(l.addr,blk ⟨linkTo none (x::xs ++ [e]),k⟩)} + nodesTo none (x::xs ++ [e]) + r := by
      intro k
      rw [nodesTo_append,List.cons_append,linkTo_cons,nodesTo_cons (x:=e),nodesTo_nil,linkTo_cons,
        linkTo_nil]
      abel
    refine (triple_appendLoop hl (L:=⟨some x.node,n⟩) (a:=e.node) x fuel hs
      (length_lt hchain hfuel) rfl).mono ?_ ?_
    · rintro _ (rfl | rfl)
      · exact ⟨n,hput n⟩
      · exact ⟨n+1,hput (n+1)⟩
    · rintro _ _ rfl
      exact hput (n+1)

/-- `list_prepend_node`: the new entry leads to the chain before the head leads to it, and is counted
last. -/
theorem triple_listPrependNode (hl : Holds l blk) (e : Entry ι)
    (hs : s = {(l.addr,blk ⟨linkTo none xs,n⟩)} + nodesTo none xs +
      ({(e.node,.node (some e.data) none)} + r)) :
    Triple (fun u => (∃ v, u = {(l.addr,blk ⟨linkTo none xs,n⟩)} + nodesTo none xs + (v + r)) ∨
        ∃ k, (k = n ∨ k = n+1) ∧
          u = {(l.addr,blk ⟨linkTo none (e::xs),k⟩)} + nodesTo none (e::xs) + r) s
      (listPrependNode l e.node)
      fun _ u => u = {(l.addr,blk ⟨linkTo none (e::xs),n+1⟩)} + nodesTo none (e::xs) + r := by
  refine Reads.andThen (reads_readList hl (L:=⟨linkTo none xs,n⟩) (by simp [hs])) ?_
  have hput : ∀ k, {(l.addr,blk ⟨some e.node,k⟩)} +
      ({(e.node,.node (some e.data) (linkTo none xs))} + (nodesTo none xs + r)) =
      {(l.addr,blk ⟨linkTo none (e::xs),k⟩)} + nodesTo none (e::xs) + r := by
    intro k
    rw [nodesTo_cons,linkTo_cons]
    abel
  have hlast : Triple (fun u => (∃ v, u = {(l.addr,blk ⟨linkTo none xs,n⟩)} + nodesTo none xs + (v + r)) ∨
        ∃ k, (k = n ∨ k = n+1) ∧
          u = {(l.addr,blk ⟨linkTo none (e::xs),k⟩)} + nodesTo none (e::xs) + r)
      ({(l.addr,blk ⟨linkTo none xs,n⟩)} +
        ({(e.node,.node (some e.data) (linkTo none xs))} + (nodesTo none xs + r)))
      (do setHead l (some e.node); addItems l 1)
      fun _ u => u = {(l.addr,blk ⟨linkTo none (e::xs),n+1⟩)} + nodesTo none (e::xs) + r := by
    refine triple_writeListThen hl _ rfl (Or.inr ⟨n,Or.inl rfl,hput n⟩) ?_
    exact triple_writeList hl _ rfl (Or.inr ⟨n+1,Or.inr rfl,hput (n+1)⟩) (hput (n+1))
  cases xs with
  | nil =>
    have hsplit : s = {(l.addr,blk ⟨linkTo none ([] : List (Entry ι)),n⟩)} +
        ({(e.node,.node (some e.data) (linkTo none ([] : List (Entry ι))))} +
          (nodesTo none ([] : List (Entry ι)) + r)) := by
      rw [hs,nodesTo_nil,linkTo_nil]
      abel
    rw [hsplit]
    exact hlast
  | cons x xs =>
    refine Reads.andThen (reads_readNode (d:=some e.data) (q:=none) (by simp [hs])) ?_
    have hsplit : s = {(e.node,.node (some e.data) none)} +
        ({(l.addr,blk ⟨linkTo none (x::xs),n⟩)} + (nodesTo none (x::xs) + r)) := by
      rw [hs]
      abel
    have hmid : {(e.node,Block.node (some e.data) (linkTo none (x::xs)))} +
        ({(l.addr,blk ⟨linkTo none (x::xs),n⟩)} + (nodesTo none (x::xs) + r)) =
        {(l.addr,blk ⟨linkTo none (x::xs),n⟩)} + nodesTo none (x::xs) +
          ({(e.node,.node (some e.data) (linkTo none (x::xs)))} + r) := by abel
    refine Triple.writeThen hsplit (Or.inl ⟨_,hmid⟩) ?_
    rw [add_left_comm]
    exact hlast

end Lists

/-- `cleanup_func` frees the blocks that hang on an entry, but for what is left, and touches no
others. -/
def Cleans (cleanupFunc : Option ℕ → Code Block Unit) (own left : Entry ι → Multiset (ℕ × Block))
    (x : Entry ι) : Prop :=
  ∀ r, Triple (fun u => ∃ v, u = v + r) (own x + r) (cleanupFunc (some x.data)) fun _ u => u = left x + r

section Deleting
variable {s r : Multiset (ℕ × Block)} {l : ListAt} {blk : LinkedList → Block} {n : ℤ}
  {xs : List (Entry ι)} {x : Entry ι} {compareFunc : Option ℕ → Code Block Bool}
  {cleanupFunc : Option ℕ → Code Block Unit} {own left : Entry ι → Multiset (ℕ × Block)}

/-- `list_delete_node` on the first entry: it is cleaned up while it is still on the chain. -/
theorem triple_deleteHead (hl : Holds l blk)
    (hs : s = {(l.addr,blk ⟨linkTo none (x::xs),n⟩)} + nodesTo none (x::xs) + (own x + r))
    (hc : Reads s (compareFunc (some x.data)) true) (hx : Cleans cleanupFunc own left x) :
    Triple (fun u => ∃ v, u = v + r) s (listDeleteNode compareFunc cleanupFunc l) fun code u => code = 0 ∧
      u = {(l.addr,blk ⟨linkTo none xs,n-1⟩)} + nodesTo none xs + (left x + r) := by
  have hnode : (x.node,Block.node (some x.data) (linkTo none xs)) ∈ s := by simp [hs]
  refine Reads.andThen (reads_readList hl (L:=⟨linkTo none (x::xs),n⟩) (by simp [hs])) ?_
  refine Reads.andThen (reads_readNode hnode) (Reads.andThen hc ?_)
  have hsplit : s = own x + ({(l.addr,blk ⟨some x.node,n⟩)} +
      ({(x.node,.node (some x.data) (linkTo none xs))} + (nodesTo none xs + r))) := by
    rw [hs,nodesTo_cons,linkTo_cons]
    abel
  rw [hsplit]
  refine Triple.seq ((hx _).mono ?_ fun _ _ h => h) fun _ => ?_
  · rintro _ ⟨v,rfl⟩
    refine ⟨v + ({(l.addr,blk ⟨some x.node,n⟩)} +
      ({(x.node,.node (some x.data) (linkTo none xs))} + nodesTo none xs)),?_⟩
    abel
  refine Reads.andThen (reads_readNode (d:=some x.data) (q:=linkTo none xs) (by simp)) ?_
  have hlist : left x + ({(l.addr,blk ⟨some x.node,n⟩)} +
      ({(x.node,.node (some x.data) (linkTo none xs))} + (nodesTo none xs + r))) =
      {(l.addr,blk ⟨some x.node,n⟩)} +
      ({(x.node,.node (some x.data) (linkTo none xs))} + (nodesTo none xs + (left x + r))) := by abel
  refine triple_writeListThen hl _ hlist ⟨{(l.addr,blk ⟨linkTo none xs,n⟩)} +
    ({(x.node,.node (some x.data) (linkTo none xs))} + (nodesTo none xs + left x)),?_⟩ ?_
  · abel
  refine Triple.freeThen (add_left_comm _ _ _)
    ⟨{(l.addr,blk ⟨linkTo none xs,n⟩)} + (nodesTo none xs + left x),?_⟩ ?_
  · abel
  refine triple_writeListThen hl _ rfl
    ⟨{(l.addr,blk ⟨linkTo none xs,n+-1⟩)} + (nodesTo none xs + left x),?_⟩ ?_
  · abel
  exact Triple.pure ⟨rfl,by rw [add_assoc,sub_eq_add_neg]⟩

/-- What the cleaning up of the first entry goes through, `list_delete_node` does. -/
theorem hits_deleteHead {P : Multiset (ℕ × Block) → Prop} (hl : Holds l blk)
    (hs : s = {(l.addr,blk ⟨linkTo none (x::xs),n⟩)} + nodesTo none (x::xs) + r)
    (hc : Reads s (compareFunc (some x.data)) true) (hx : Hits s (cleanupFunc (some x.data)) P) :
    Hits s (listDeleteNode compareFunc cleanupFunc l) P := by
  have hnode : (x.node,Block.node (some x.data) (linkTo none xs)) ∈ s := by simp [hs]
  refine Hits.andThen (reads_readList hl (L:=⟨linkTo none (x::xs),n⟩) (by simp [hs])) ?_
  exact Hits.andThen (reads_readNode hnode) (Hits.andThen hc hx.bind)

/-- The loop of `list_delete_node` takes the entry off the chain before it is cleaned up. -/
lemma triple_deleteLoop (hl : Holds l blk) {L : LinkedList} (p : Entry ι) (pre post : List (Entry ι))
    (fuel : ℕ)
    (hs : s = {(l.addr,blk L)} + nodesTo none (p::pre ++ x::post) + (own x + r))
    (hpre : ∀ y ∈ pre, Reads s (compareFunc (some y.data)) false)
    (hc : Reads s (compareFunc (some x.data)) true) (hx : Cleans cleanupFunc own left x)
    (hf : (pre ++ x::post).length < fuel) :
    Triple (fun u => ∃ k v, u = {(l.addr,blk {L with nItems := k})} + nodesTo none (p::pre ++ post) +
        (v + r)) s
      (deleteLoop compareFunc cleanupFunc l fuel (some p.node) (linkTo none (pre ++ x::post)))
      fun _ u => u = {(l.addr,blk {L with nItems := L.nItems-1})} + nodesTo none (p::pre ++ post) +
        (left x + r) := by
  induction pre generalizing p r fuel with
  | nil =>
    cases fuel with
    | zero => simp at hf
    | succ fuel =>
      simp only [List.cons_append,List.nil_append,nodesTo_cons,linkTo_cons] at hs hf ⊢
      refine Reads.andThen (reads_readNode (a:=x.node) (d:=some x.data) (q:=linkTo none post)
        (by simp [hs])) (Reads.andThen hc ?_)
      -- the node in front of `x` is linked to the one behind it
      have hrelink : Triple (fun u => ∃ k v, u = {(l.addr,blk {L with nItems := k})} +
          ({(p.node,.node (some p.data) (linkTo none post))} + nodesTo none post) + (v + r)) s
          (relink (some p.node) (linkTo none post)) fun _ u => u = own x + ({(l.addr,blk L)} +
          ({(p.node,.node (some p.data) (linkTo none post))} +
            ({(x.node,.node (some x.data) (linkTo none post))} + (nodesTo none post + r)))) := by
        refine Reads.andThen (reads_readNode (d:=some p.data) (q:=some x.node) (by simp [hs])) ?_
        have hsplit : s = {(p.node,.node (some p.data) (some x.node))} + (own x + ({(l.addr,blk L)} +
            ({(x.node,.node (some x.data) (linkTo none post))} + (nodesTo none post + r)))) := by
          rw [hs]
          abel
        refine Triple.write hsplit ⟨L.nItems,{(x.node,.node (some x.data) (linkTo none post))} + own x,?_⟩ ?_
        · abel
        · abel
      refine hrelink.seq fun _ => ?_
      refine Triple.seq ((hx _).mono ?_ fun _ _ h => h) fun _ => ?_
      · rintro _ ⟨v,rfl⟩
        refine ⟨L.nItems,{(x.node,.node (some x.data) (linkTo none post))} + v,?_⟩
        abel
      have hsplit : left x + ({(l.addr,blk L)} + ({(p.node,.node (some p.data) (linkTo none post))} +
          ({(x.node,.node (some x.data) (linkTo none post))} + (nodesTo none post + r)))) =
          {(x.node,.node (some x.data) (linkTo none post))} + ({(l.addr,blk L)} +
            ({(p.node,.node (some p.data) (linkTo none post))} + (nodesTo none post + (left x + r)))) := by
        abel
      refine Triple.freeThen hsplit ⟨L.nItems,left x,?_⟩ ?_
      · abel
      have hend : {(l.addr,blk {L with nItems := L.nItems+-1})} +
          ({(p.node,.node (some p.data) (linkTo none post))} + (nodesTo none post + (left x + r))) =
          {(l.addr,blk {L with nItems := L.nItems-1})} +
            ({(p.node,.node (some p.data) (linkTo none post))} + nodesTo none post) + (left x + r) := by
        rw [sub_eq_add_neg]
        abel
      exact triple_writeList hl _ rfl ⟨_,_,hend⟩ hend
  | cons y ys ih =>
    cases fuel with
    | zero => simp at hf
    | succ fuel =>
      have hy : (y.node,Block.node (some y.data) (linkTo none (ys ++ x::post))) ∈ s := by simp [hs]
      refine Reads.andThen (reads_readNode hy) (Reads.andThen (hpre y (by simp)) ?_)
      have hsplit : s = {(l.addr,blk L)} + nodesTo none (y::ys ++ x::post) +
          (own x + ({(p.node,.node (some p.data) (some y.node))} + r)) := by
        rw [hs,List.cons_append,List.cons_append,nodesTo_cons (x:=p),linkTo_cons]
        abel
      have hput : ∀ k v, {(l.addr,blk {L with nItems := k})} + nodesTo none (y::ys ++ post) +
          (v + ({(p.node,.node (some p.data) (some y.node))} + r)) =
          {(l.addr,blk {L with nItems := k})} + nodesTo none (p::y::ys ++ post) + (v + r) := by
        intro k v
        rw [List.cons_append (a:=p),List.cons_append,nodesTo_cons (x:=p),linkTo_cons]
        abel
      refine (ih y fuel hsplit (fun z hz => hpre z (by simp [hz])) (by simpa using hf)).mono ?_ ?_
      · rintro _ ⟨k,v,rfl⟩
        exact ⟨k,v,hput k v⟩
      · rintro _ _ rfl
        exact hput _ _

/-- `list_delete_node` on a later entry. -/
theorem triple_deleteLater (hl : Holds l blk) (p : Entry ι) (pre post : List (Entry ι))
    (hs : s = {(l.addr,blk ⟨linkTo none (p::pre ++ x::post),n⟩)} + nodesTo none (p::pre ++ x::post) +
      (own x + r))
    (hpre : ∀ y ∈ p::pre, Reads s (compareFunc (some y.data)) false)
    (hc : Reads s (compareFunc (some x.data)) true) (hx : Cleans cleanupFunc own left x) :
    Triple (fun u => ∃ k v, u = {(l.addr,blk ⟨linkTo none (p::pre ++ post),k⟩)} +
        nodesTo none (p::pre ++ post) + (v + r)) s
      (listDeleteNode compareFunc cleanupFunc l)
      fun code u => code = 0 ∧ u = {(l.addr,blk ⟨linkTo none (p::pre ++ post),n-1⟩)} +
        nodesTo none (p::pre ++ post) + (left x + r) := by
  have hchain : nodesTo none (p::pre ++ x::post) ≤ s :=
    hs ▸ (Multiset.le_add_left _ _).trans (Multiset.le_add_right _ _)
  have hp : Reads s (readNode p.node) (some p.data,linkTo none (pre ++ x::post)) :=
    reads_readNode (nodesTo_head hchain)
  refine Reads.andThen (reads_readList hl (L:=⟨some p.node,n⟩) (by simp [hs])) ?_
  refine Reads.andThen hp (Reads.andThen (hpre p (by simp)) ?_)
  refine Triple.bind (Triple.sized fun fuel hfuel => ?_) fun _ _ h => Triple.pure ⟨rfl,h⟩
  have hlen := length_lt hchain hfuel
  cases fuel with
  | zero => simp at hlen
  | succ fuel =>
    refine Reads.andThen hp (Reads.andThen (hpre p (by simp)) ?_)
    exact triple_deleteLoop hl (L:=⟨some p.node,n⟩) p pre post fuel hs
      (fun y hy => hpre y (by simp [hy])) hc hx (by simpa using hlen)

/-- `list_delete_node` on any entry: only while the first one is cleaned up is the chain not in order. -/
theorem triple_listDeleteNode (hl : Holds l blk) (pre post : List (Entry ι))
    (hs : s = {(l.addr,blk ⟨linkTo none (pre ++ x::post),n⟩)} + nodesTo none (pre ++ x::post) + (own x + r))
    (hpre : ∀ y ∈ pre, Reads s (compareFunc (some y.data)) false)
    (hc : Reads s (compareFunc (some x.data)) true) (hx : Cleans cleanupFunc own left x) :
    Triple (fun u => pre = [] ∨ ∃ k v, u = {(l.addr,blk ⟨linkTo none (pre ++ post),k⟩)} +
        nodesTo none (pre ++ post) + (v + r)) s
      (listDeleteNode compareFunc cleanupFunc l)
      fun code u => code = 0 ∧ u = {(l.addr,blk ⟨linkTo none (pre ++ post),n-1⟩)} +
        nodesTo none (pre ++ post) + (left x + r) := by
  cases pre with
  | nil => exact (triple_deleteHead hl hs hc hx).mono (fun _ _ => Or.inl rfl) fun _ _ h => h
  | cons p pre =>
    exact (triple_deleteLater hl p pre post hs hpre hc hx).mono (fun _ h => Or.inr h) fun _ _ h => h

/-- A round of `list_delete_all`: the entry is off the chain before it is cleaned up. -/
lemma triple_deleteAllRound (hl : Holds l blk)
    (hs : s = {(l.addr,blk ⟨linkTo none (x::xs),n⟩)} + nodesTo none (x::xs) + (own x + r))
    (hx : Cleans cleanupFunc own left x) :
    Triple (fun u => ∃ k v, u = {(l.addr,blk ⟨linkTo none xs,k⟩)} + nodesTo none xs + (v + r)) s
      (deleteAllRound cleanupFunc l x.node) fun next u => next = linkTo none xs ∧
        u = {(l.addr,blk ⟨linkTo none xs,n-1⟩)} + nodesTo none xs + (left x + r) := by
  simp only [nodesTo_cons,linkTo_cons] at hs
  refine Reads.andThen (reads_readNode (d:=some x.data) (q:=linkTo none xs) (by simp [hs])) ?_
  refine triple_writeListThen hl (L:=⟨some x.node,n⟩) _ (hs.trans (add_assoc _ _ _))
    ⟨n,{(x.node,.node (some x.data) (linkTo none xs))} + own x,?_⟩ ?_
  · abel
  have hown : {(l.addr,blk ⟨linkTo none xs,n⟩)} +
      ({(x.node,.node (some x.data) (linkTo none xs))} + nodesTo none xs + (own x + r)) =
      own x + ({(l.addr,blk ⟨linkTo none xs,n⟩)} +
        ({(x.node,.node (some x.data) (linkTo none xs))} + (nodesTo none xs + r))) := by abel
  rw [hown]
  refine Triple.seq ((hx _).mono ?_ fun _ _ h => h) fun _ => ?_
  · rintro _ ⟨v,rfl⟩
    refine ⟨n,{(x.node,.node (some x.data) (linkTo none xs))} + v,?_⟩
    abel
  have hsplit : left x + ({(l.addr,blk ⟨linkTo none xs,n⟩)} +
      ({(x.node,.node (some x.data) (linkTo none xs))} + (nodesTo none xs + r))) =
      {(x.node,.node (some x.data) (linkTo none xs))} + ({(l.addr,blk ⟨linkTo none xs,n⟩)} +
        (nodesTo none xs + (left x + r))) := by abel
  refine Triple.freeThen hsplit ⟨n,left x,?_⟩ ?_
  · abel
  refine triple_writeListThen hl _ rfl ⟨n+-1,left x,?_⟩ ?_
  · abel
  refine Reads.andThen (reads_readList hl (L:=⟨linkTo none xs,n+-1⟩) (by simp)) ?_
  exact Triple.pure ⟨rfl,by rw [add_assoc,sub_eq_add_neg]⟩

lemma triple_deleteAllLoop (hl : Holds l blk) (fuel : ℕ)
    (hs : s = {(l.addr,blk ⟨linkTo none xs,n⟩)} + nodesTo none xs + (owned own xs + r))
    (hxs : ∀ x ∈ xs, Cleans cleanupFunc own left x) (hf : xs.length < fuel) :
    Triple (fun u => ∃ ys k v, ys <:+ xs ∧
        u = {(l.addr,blk ⟨linkTo none ys,k⟩)} + nodesTo none ys + (owned own ys + (v + r))) s
      (deleteAllLoop cleanupFunc l fuel (linkTo none xs))
      fun _ u => u = {(l.addr,blk ⟨none,n-xs.length⟩)} + (owned left xs + r) := by
  induction xs generalizing s r n fuel with
  | nil =>
    cases fuel with
    | zero => simp at hf
    | succ fuel => exact Triple.pure (by simpa using hs)
  | cons x xs ih =>
    cases fuel with
    | zero => simp at hf
    | succ fuel =>
      have htail : xs <:+ x::xs := List.suffix_cons x xs
      rw [owned_cons,add_assoc (own x)] at hs
      refine Triple.bind ((triple_deleteAllRound hl hs (hxs x (by simp))).mono ?_ fun _ _ h => h) ?_
      · rintro _ ⟨k,v,rfl⟩
        refine ⟨xs,k,v,htail,?_⟩
        abel
      rintro _ _ ⟨rfl,rfl⟩
      refine (ih (r:=left x + r) fuel (by abel) (fun y hy => hxs y (by simp [hy]))
        (by simpa using hf)).mono ?_ ?_
      · rintro _ ⟨ys,k,v,hys,rfl⟩
        refine ⟨ys,k,v + left x,hys.trans htail,?_⟩
        abel
      · rintro _ _ rfl
        have hcount : n-1-(xs.length : ℤ) = n-((x::xs).length : ℤ) := by
          rw [List.length_cons]
          push_cast
          ring
        rw [hcount,owned_cons]
        abel

theorem triple_listDeleteAll (hl : Holds l blk)
    (hs : s = {(l.addr,blk ⟨linkTo none xs,n⟩)} + nodesTo none xs + (owned own xs + r))
    (hxs : ∀ x ∈ xs, Cleans cleanupFunc own left x) :
    Triple (fun u => ∃ ys k v, ys <:+ xs ∧
        u = {(l.addr,blk ⟨linkTo none ys,k⟩)} + nodesTo none ys + (owned own ys + (v + r))) s
      (listDeleteAll cleanupFunc l)
      fun _ u => u = {(l.addr,blk ⟨none,n-xs.length⟩)} + (owned left xs + r) := by
  refine Reads.andThen (reads_readList hl (L:=⟨linkTo none xs,n⟩) (by simp [hs])) ?_
  cases xs with
  | nil => exact Triple.pure (by simpa using hs)
  | cons x xs =>
    have hchain : nodesTo none (x::xs) ≤ s :=
      hs ▸ (Multiset.le_add_left _ _).trans (Multiset.le_add_right _ _)
    exact Triple.sized fun fuel hfuel => triple_deleteAllLoop hl fuel hs hxs (length_lt hchain hfuel)

end Deleting
end Alloc
end Nav.Daemon
