import Nav.Lib.Keyed
import Mathlib.Tactic.Ring

/-! The singly-linked list of `list.c`, seen along its chain: the data of the nodes from `head`
to the terminating NULL, and the separate item counter. -/
namespace Nav.Daemon
open Nav.Lib
variable {α κ : Type*}

/-- `struct list`. The two functions it carries are arguments of the operations. -/
@[ext] structure NodeList (α : Type*) where
  nodes : List α
  nItems : ℤ
  deriving DecidableEq, Repr

/-- What `list_delete_node` returns, leaves behind and hands to `cleanup_func`. -/
structure Deleted (α : Type*) where
  code : ℕ
  list : NodeList α
  removed : Option α

namespace NodeList

def empty : NodeList α := ⟨[],0⟩

/-- The counter agrees with the chain. -/
def Counted (l : NodeList α) : Prop := l.nItems = l.nodes.length

end NodeList

def listAppendNode (l : NodeList α) (n : α) : NodeList α := ⟨l.nodes ++ [n],l.nItems+1⟩

def listPrependNode (l : NodeList α) (n : α) : NodeList α := ⟨n::l.nodes,l.nItems+1⟩

/-- The walk with a trailing `prev`: the first match is unlinked, nothing else moves. -/
def unlink (same : α → Bool) : List α → Option α × List α
  | [] => (none,[])
  | a::as => if same a then (some a,as) else ((unlink same as).1,a::(unlink same as).2)

def listDeleteNode (compareFunc : α → κ → ℕ) (l : NodeList α) (key : κ) : Deleted α :=
  match l.nodes with
  | [] => ⟨1,l,none⟩
  | a::as =>
    if compareFunc a key = 0 then ⟨0,⟨as,l.nItems-1⟩,some a⟩
    else
      match unlink (fun d => compareFunc d key = 0) (a::as) with
      | (some b,rest) => ⟨0,⟨rest,l.nItems-1⟩,some b⟩
      | (none,_) => ⟨0,l,none⟩

/-- The loop of `list_delete_all`: what it leaves behind and what it cleaned up, in order. -/
def drain : List α → ℤ → NodeList α × List α
  | [], n => (⟨[],n⟩,[])
  | a::as, n => ((drain as (n-1)).1,a::(drain as (n-1)).2)

def listDeleteAll (l : NodeList α) : NodeList α × List α := drain l.nodes l.nItems

def listGetNode (compareFunc : α → κ → ℕ) (l : NodeList α) (key : κ) : Option α :=
  match l.nodes with
  | [] => none
  | a::as => if compareFunc a key = 0 then some a else (a::as).find? (compareFunc · key = 0)

/-- A write through the node that `list_get_node` returns for `key`. -/
def updateNode (compareFunc : α → κ → ℕ) (l : NodeList α) (key : κ) (f : α → α) : NodeList α :=
  ⟨modifyFirst (compareFunc · key = 0) f l.nodes,l.nItems⟩

section Lemmas
variable (compareFunc : α → κ → ℕ) (l : NodeList α) (key : κ) (n : α)

@[simp] theorem listAppendNode_nodes : (listAppendNode l n).nodes = l.nodes ++ [n] := rfl
@[simp] theorem listPrependNode_nodes : (listPrependNode l n).nodes = n::l.nodes := rfl
@[simp] theorem updateNode_nodes (f : α → α) : (updateNode compareFunc l key f).nodes =
    modifyFirst (compareFunc · key = 0) f l.nodes := rfl

@[simp] theorem unlink_fst (same : α → Bool) (as : List α) : (unlink same as).1 = as.find? same := by
  induction as with
  | nil => rfl
  | cons a as ih =>
    simp only [unlink,List.find?_cons]
    split_ifs with h <;> simp [h,ih]

@[simp] theorem unlink_snd (same : α → Bool) (as : List α) : (unlink same as).2 = as.eraseP same := by
  induction as with
  | nil => rfl
  | cons a as ih =>
    simp only [unlink,List.eraseP_cons]
    split_ifs with h <;> simp [h,ih]

lemma listGetNode_eq : listGetNode compareFunc l key = l.nodes.find? (compareFunc · key = 0) := by
  unfold listGetNode
  cases l.nodes with
  | nil => rfl
  | cons a as =>
    simp only
    split_ifs with h
    · simp [h]
    · rfl

lemma listDeleteNode_empty (hl : l.nodes = []) : (listDeleteNode compareFunc l key).list = l := by
  unfold listDeleteNode
  rw [hl]

/-- `list_delete_node` fails on the empty list only. Elsewhere it takes out the first match and
counts it. -/
theorem listDeleteNode_eq (hl : l.nodes ≠ []) : listDeleteNode compareFunc l key =
    ⟨0,⟨l.nodes.eraseP (compareFunc · key = 0),
      if (l.nodes.find? (compareFunc · key = 0)).isSome then l.nItems-1 else l.nItems⟩,
      l.nodes.find? (compareFunc · key = 0)⟩ := by
  obtain ⟨nodes,items⟩ := l
  cases nodes with
  | nil => exact absurd rfl hl
  | cons a as =>
    by_cases h : compareFunc a key = 0
    · simp [listDeleteNode,h]
    · have hu : unlink (fun d => decide (compareFunc d key = 0)) (a::as) =
          ((a::as).find? (compareFunc · key = 0),(a::as).eraseP (compareFunc · key = 0)) :=
        Prod.ext (unlink_fst _ _) (unlink_snd _ _)
      simp only [listDeleteNode,h,if_false,hu]
      cases hf : (a::as).find? (compareFunc · key = 0) with
      | some b => simp
      | none =>
        have herase : (a::as).eraseP (compareFunc · key = 0) = a::as :=
          List.eraseP_of_forall_not (List.find?_eq_none.mp hf)
        simp [herase]

/-- Deleting the head by its own key takes out exactly the head. -/
theorem listDeleteNode_head (a : α) (as : List α) (items : ℤ) (h : compareFunc a key = 0) :
    listDeleteNode compareFunc ⟨a::as,items⟩ key = ⟨0,⟨as,items-1⟩,some a⟩ := by
  simp [listDeleteNode,h]

/-- Deleting keeps whatever holds of every element. -/
theorem forall_listDeleteNode {p : α → Prop} (h : ∀ a ∈ l.nodes, p a) :
    ∀ a ∈ (listDeleteNode compareFunc l key).list.nodes, p a := by
  by_cases hl : l.nodes = []
  · rwa [listDeleteNode_empty compareFunc l key hl]
  · rw [listDeleteNode_eq compareFunc l key hl]
    exact fun a ha => h a (List.mem_of_mem_eraseP ha)

variable {n} in
theorem forall_listAppendNode {p : α → Prop} (h : ∀ a ∈ l.nodes, p a) (hn : p n) :
    ∀ a ∈ (listAppendNode l n).nodes, p a :=
  List.forall_mem_append.mpr ⟨h,List.forall_mem_singleton.mpr hn⟩

/-- Erasing the first match shortens a list by one if there is a match. -/
theorem length_eraseP (p : α → Bool) (as : List α) : ((as.eraseP p).length : ℤ) =
    if (as.find? p).isSome then (as.length : ℤ)-1 else as.length := by
  induction as with
  | nil => rfl
  | cons a as ih =>
    cases ha : p a with
    | true => simp [ha]
    | false =>
      simp only [List.eraseP_cons,List.find?_cons,ha,cond_false,List.length_cons]
      push_cast
      rw [ih]
      split_ifs
      · ring
      · rfl

lemma drain_eq (as : List α) (items : ℤ) : drain as items = (⟨[],items-as.length⟩,as) := by
  induction as generalizing items with
  | nil => simp [drain]
  | cons a as ih =>
    simp only [drain,ih,List.length_cons]
    congr 2
    push_cast
    ring

lemma listDeleteAll_eq : listDeleteAll l = (⟨[],l.nItems-l.nodes.length⟩,l.nodes) :=
  drain_eq l.nodes l.nItems

end Lemmas

namespace NodeList.Counted
variable {l : NodeList α} (h : l.Counted)
include h

lemma append (n : α) : (listAppendNode l n).Counted := by
  simp only [NodeList.Counted,listAppendNode,List.length_append] at *
  simp [h]

lemma prepend (n : α) : (listPrependNode l n).Counted := by
  simp only [NodeList.Counted,listPrependNode,List.length_cons] at *
  simp [h]

lemma update (compareFunc : α → κ → ℕ) (key : κ) (f : α → α) :
    (updateNode compareFunc l key f).Counted := by
  simpa [NodeList.Counted,updateNode] using h

lemma deleteAll : (listDeleteAll l).1 = NodeList.empty := by
  simp only [NodeList.Counted] at h
  simp [listDeleteAll_eq,h,NodeList.empty]

lemma deleteNode (compareFunc : α → κ → ℕ) (key : κ) :
    (listDeleteNode compareFunc l key).list.Counted := by
  by_cases hl : l.nodes = []
  · rwa [listDeleteNode_empty compareFunc l key hl]
  rw [listDeleteNode_eq compareFunc l key hl]
  simp only [NodeList.Counted] at *
  rw [length_eraseP,h]

end NodeList.Counted
end Nav.Daemon
