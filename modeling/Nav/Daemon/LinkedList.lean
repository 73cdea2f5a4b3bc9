import Nav.Daemon.List
import Nav.Lib.Linked

/-! `list.c` on the heap. Every operation does to the chain what the operation of the same name does
to the list of its nodes, and touches no cell off the chain. -/
namespace Nav.Daemon
open Nav.Lib

/-- What ends an operation on a heap: a pointer that leads to no cell, or a loop that does not
end. -/
inductive HeapFault
  | dangling
  | endless
  deriving DecidableEq, Repr

/-- `struct list`, without the two functions it carries. -/
structure LinkedList where
  head : Option ℕ
  nItems : ℤ
  deriving DecidableEq, Repr

namespace LinkedList
variable {δ κ : Type*}

/-- A list that `cmd_register` or the start of the program has initialised. -/
def empty : LinkedList := ⟨none,0⟩

/-- What `list_delete_node` returns and leaves behind, and what it hands to `cleanup_func`. -/
structure Deleted (δ : Type*) where
  code : ℕ
  heap : Heap δ
  list : LinkedList
  removed : Option δ

/-- The loop of `list_append_node` over `curr`. -/
def appendLoop (h : Heap δ) (l : LinkedList) (n : ℕ) :
    ℕ → Option ℕ → Except HeapFault (Heap δ × LinkedList)
  | 0, _ => .error .endless
  | _+1, none => .ok (h,l)
  | fuel+1, some curr =>
    match h.cells curr with
    | none => .error .dangling
    | some cell =>
      match cell.next with
      | none => .ok (h.store curr ⟨cell.data,some n⟩,⟨l.head,l.nItems+1⟩)
      | some next => appendLoop h l n fuel (some next)

def listAppendNode (h : Heap δ) (l : LinkedList) (n : ℕ) :
    Except HeapFault (Heap δ × LinkedList) :=
  match l.head with
  | none => .ok (h,⟨some n,l.nItems+1⟩)
  | some _ => appendLoop h l n (h.bound+1) l.head

def listPrependNode (h : Heap δ) (l : LinkedList) (n : ℕ) :
    Except HeapFault (Heap δ × LinkedList) :=
  match l.head with
  | none => .ok (h,⟨some n,l.nItems+1⟩)
  | some head =>
    match h.cells n with
    | none => .error .dangling
    | some cell => .ok (h.store n ⟨cell.data,some head⟩,⟨some n,l.nItems+1⟩)

/-- `if (prev) prev->next = next`. -/
def relink (h : Heap δ) (prev next : Option ℕ) : Except HeapFault (Heap δ) :=
  match prev with
  | none => .ok h
  | some prev =>
    match h.cells prev with
    | none => .error .dangling
    | some cell => .ok (h.store prev ⟨cell.data,next⟩)

/-- The loop of `list_delete_node` over `curr`, with `prev` behind it. -/
def deleteLoop (compareFunc : δ → κ → ℕ) (h : Heap δ) (l : LinkedList) (key : κ) :
    ℕ → Option ℕ → Option ℕ → Except HeapFault (Deleted δ)
  | 0, _, _ => .error .endless
  | _+1, _, none => .ok ⟨0,h,l,none⟩
  | fuel+1, prev, some curr =>
    match h.cells curr with
    | none => .error .dangling
    | some cell =>
      if compareFunc cell.data key = 0 then
        (relink h prev cell.next).map fun h' =>
          ⟨0,h'.free curr,⟨l.head,l.nItems-1⟩,some cell.data⟩
      else deleteLoop compareFunc h l key fuel (some curr) cell.next

def listDeleteNode (compareFunc : δ → κ → ℕ) (h : Heap δ) (l : LinkedList) (key : κ) :
    Except HeapFault (Deleted δ) :=
  match l.head with
  | none => .ok ⟨1,h,l,none⟩
  | some head =>
    match h.cells head with
    | none => .error .dangling
    | some cell =>
      if compareFunc cell.data key = 0 then
        .ok ⟨0,h.free head,⟨cell.next,l.nItems-1⟩,some cell.data⟩
      else deleteLoop compareFunc h l key (h.bound+1) none l.head

/-- The loop of `list_delete_all`: what it leaves behind and what it cleans up, in order. -/
def deleteAllLoop : ℕ → Heap δ → LinkedList → Option ℕ →
    Except HeapFault (Heap δ × LinkedList × List δ)
  | 0, _, _, _ => .error .endless
  | _+1, h, l, none => .ok (h,l,[])
  | fuel+1, h, l, some curr =>
    match h.cells curr with
    | none => .error .dangling
    | some cell =>
      (deleteAllLoop fuel (h.free curr) ⟨cell.next,l.nItems-1⟩ cell.next).map fun r =>
        (r.1,r.2.1,cell.data::r.2.2)

def listDeleteAll (h : Heap δ) (l : LinkedList) :
    Except HeapFault (Heap δ × LinkedList × List δ) :=
  match l.head with
  | none => .ok (h,l,[])
  | some _ => deleteAllLoop (h.bound+1) h l l.head

/-- The loop of `list_get_node`. -/
def getLoop (compareFunc : δ → κ → ℕ) (h : Heap δ) (key : κ) :
    ℕ → Option ℕ → Except HeapFault (Option ℕ)
  | 0, _ => .error .endless
  | _+1, none => .ok none
  | fuel+1, some curr =>
    match h.cells curr with
    | none => .error .dangling
    | some cell =>
      if compareFunc cell.data key = 0 then .ok (some curr)
      else getLoop compareFunc h key fuel cell.next

/-- `list_get_node`: the address of the node, or NULL. -/
def listGetNode (compareFunc : δ → κ → ℕ) (h : Heap δ) (l : LinkedList) (key : κ) :
    Except HeapFault (Option ℕ) :=
  match l.head with
  | none => .ok none
  | some head =>
    match h.cells head with
    | none => .error .dangling
    | some cell =>
      if compareFunc cell.data key = 0 then .ok (some head)
      else getLoop compareFunc h key (h.bound+1) l.head

/-- A write to the data of a node. -/
def setData (h : Heap δ) (n : ℕ) (f : δ → δ) : Except HeapFault (Heap δ) :=
  match h.cells n with
  | none => .error .dangling
  | some cell => .ok (h.store n ⟨f cell.data,cell.next⟩)

/-- The chain of a list runs through these nodes and ends in NULL, without repeats, and the counter
has their number. -/
structure Holds (h : Heap δ) (l : LinkedList) (xs : List (ℕ × δ)) : Prop where
  chain : h.Seg l.head xs none
  nodup : (addrs xs).Nodup
  counted : l.nItems = xs.length

/-- The test of the walks. -/
def same (compareFunc : δ → κ → ℕ) (key : κ) (x : ℕ × δ) : Bool := compareFunc x.2 key = 0

section Loops
variable {h : Heap δ} {l : LinkedList} {xs : List (ℕ × δ)} {p : Option ℕ}

/-- The loop finds the last node and links the new one behind it. -/
theorem appendLoop_spec {x : ℕ × δ} (l : LinkedList) (n fuel : ℕ) (hs : h.Seg p (xs ++ [x]) none)
    (hfuel : xs.length < fuel) :
    appendLoop h l n fuel p = .ok (h.store x.1 ⟨x.2,some n⟩,⟨l.head,l.nItems+1⟩) := by
  induction xs generalizing p fuel with
  | nil =>
    obtain ⟨rfl,next,hx,rfl⟩ := hs
    cases fuel with
    | zero => simp at hfuel
    | succ fuel => simp [appendLoop,hx]
  | cons y xs ih =>
    obtain ⟨rfl,next,hy,hrest⟩ := hs
    cases fuel with
    | zero => simp at hfuel
    | succ fuel =>
      obtain ⟨q,h1,h2⟩ := Heap.seg_append.mp hrest
      have hnext : ∃ b, next = some b := by
        cases xs with
        | nil => exact ⟨x.1,h1.trans h2.1⟩
        | cons z zs => exact ⟨z.1,h1.1⟩
      obtain ⟨b,rfl⟩ := hnext
      simp only [appendLoop,hy]
      exact ih fuel hrest (by simpa using hfuel)

variable (compareFunc : δ → κ → ℕ) (key : κ)

/-- The loop finds the first match. -/
theorem getLoop_spec (fuel : ℕ) (hs : h.Seg p xs none) (hfuel : xs.length < fuel) :
    getLoop compareFunc h key fuel p =
      .ok ((xs.find? (same compareFunc key)).map Prod.fst) := by
  induction xs generalizing p fuel with
  | nil =>
    obtain rfl : p = none := hs
    cases fuel with
    | zero => simp at hfuel
    | succ fuel => rfl
  | cons x xs ih =>
    obtain ⟨rfl,next,hx,hrest⟩ := hs
    cases fuel with
    | zero => simp at hfuel
    | succ fuel =>
      simp only [getLoop,hx]
      split_ifs with hc
      · rw [List.find?_cons_of_pos (by simpa [same] using hc)]
        rfl
      · rw [List.find?_cons_of_neg (by simpa [same] using hc)]
        exact ih fuel hrest (by simpa using hfuel)

/-- Freeing the head leaves the rest of the chain, with the counter one lower. -/
theorem Holds.free_head {x : ℕ × δ} (hl : Holds h l (x::xs)) :
    ∃ next, l.head = some x.1 ∧ h.cells x.1 = some ⟨x.2,next⟩ ∧
      Holds (h.free x.1) ⟨next,l.nItems-1⟩ xs := by
  obtain ⟨hp,next,hx,hrest⟩ := hl.chain
  obtain ⟨hxn,hxs⟩ := List.nodup_cons.mp hl.nodup
  exact ⟨next,hp,hx,hrest.free hxn,hxs,by simp [hl.counted]⟩

lemma Holds.eq_empty (hl : Holds h l []) : l = empty := by
  have hhead : l.head = none := hl.chain
  have hcount : l.nItems = 0 := hl.counted
  cases l
  simp_all [empty]

/-- The loop frees the chain from the front. -/
theorem deleteAllLoop_spec (fuel : ℕ) (hl : Holds h l xs) (hfuel : xs.length < fuel) :
    deleteAllLoop fuel h l l.head = .ok (h.freeAll (addrs xs),empty,xs.map Prod.snd) := by
  induction xs generalizing h l fuel with
  | nil =>
    cases fuel with
    | zero => simp at hfuel
    | succ fuel =>
      rw [hl.eq_empty]
      rfl
  | cons x xs ih =>
    cases fuel with
    | zero => simp at hfuel
    | succ fuel =>
      obtain ⟨next,hp,hx,hrest⟩ := hl.free_head
      have hloop := ih fuel hrest (by simpa using hfuel)
      simp only [hp,deleteAllLoop,hx,hloop]
      rfl

/-- The loop, with the node `z` behind `curr`, unlinks the first match. -/
theorem deleteLoop_spec (l : LinkedList) (ys : List (ℕ × δ)) {z : ℕ × δ} (fuel : ℕ)
    (hdone : h.Seg l.head (ys ++ [z]) p) (hs : h.Seg p xs none)
    (hn : (addrs (ys ++ [z] ++ xs)).Nodup) (hfuel : xs.length < fuel) :
    ∃ h', deleteLoop compareFunc h l key fuel (some z.1) p =
        .ok ⟨0,h',⟨l.head,if (xs.find? (same compareFunc key)).isSome then l.nItems-1 else l.nItems⟩,
          (xs.find? (same compareFunc key)).map Prod.snd⟩ ∧
      h'.Seg l.head (ys ++ [z] ++ xs.eraseP (same compareFunc key)) none ∧
      h.SameOff h' (addrs (ys ++ [z] ++ xs)) := by
  induction xs generalizing ys z p fuel with
  | nil =>
    obtain rfl : p = none := hs
    cases fuel with
    | zero => simp at hfuel
    | succ fuel => exact ⟨h,rfl,by simpa using hdone,fun _ _ => rfl⟩
  | cons x xs ih =>
    obtain ⟨rfl,next,hx,hrest⟩ := hs
    cases fuel with
    | zero => simp at hfuel
    | succ fuel =>
      simp only [deleteLoop,hx]
      by_cases hc : compareFunc x.2 key = 0
      · have hc' : same compareFunc key x = true := by simpa [same] using hc
        -- `z` is linked to the cell behind `x`, and `x` is freed
        obtain ⟨q,_,rfl,_,hz,rfl⟩ := Heap.seg_append.mp hdone
        rw [addrs_append,addrs_cons,List.nodup_append] at hn
        obtain ⟨hdoneN,hxsN,hdisj⟩ := hn
        obtain ⟨hxn,_⟩ := List.nodup_cons.mp hxsN
        have hxdone : x.1 ∉ addrs (ys ++ [z]) := fun hm => hdisj _ hm _ (by simp) rfl
        have hzxs : z.1 ∉ addrs xs := fun hm => hdisj z.1 (by simp) z.1 (by simp [hm]) rfl
        refine ⟨(h.store z.1 ⟨z.2,next⟩).free x.1,?_,?_,fun a ha => ?_⟩
        · rw [if_pos hc,List.find?_cons_of_pos hc']
          simp [relink,hz,Except.map]
        · have hlinked := (Heap.Seg.relink hdone hdoneN next).free hxdone
          have htail := (hrest.store hzxs ⟨z.2,next⟩).free hxn
          rw [List.eraseP_cons_of_pos hc']
          exact Heap.seg_append.mpr ⟨next,hlinked,htail⟩
        · simp only [addrs_append,addrs_cons,addrs_nil,List.mem_append,List.mem_cons,not_or] at ha
          rw [Heap.free_ne _ ha.2.1,Heap.store_ne _ ha.1.2.1]
      · have hsplit : ys ++ [z] ++ x::xs = (ys ++ [z]) ++ [x] ++ xs := by simp
        rw [hsplit] at hn ⊢
        obtain ⟨h',hloop,hchain,hoff⟩ := ih (ys ++ [z]) (z:=x) (p:=next) fuel
          (Heap.seg_append.mpr ⟨some x.1,hdone,rfl,next,hx,rfl⟩) hrest hn (by simpa using hfuel)
        have hc' : ¬ same compareFunc key x = true := by simpa [same] using hc
        refine ⟨h',?_,?_,hoff⟩
        · rw [if_neg hc,List.find?_cons_of_neg hc']
          exact hloop
        · rw [List.eraseP_cons_of_neg hc']
          simpa using hchain

end Loops

/-- The list of `list.c` that a chain stands for. -/
def nodeList (xs : List (ℕ × δ)) : NodeList δ := ⟨xs.map Prod.snd,xs.length⟩

section Refinement
variable {h : Heap δ} {l : LinkedList} {n : ℕ} {xs : List (ℕ × δ)} {d : δ}

lemma Holds.fuel (hl : Holds h l xs) : xs.length < h.bound+1 :=
  Nat.lt_succ_of_le (hl.chain.length_le hl.nodup)

lemma holds_empty (h : Heap δ) : Holds h empty [] := ⟨rfl,List.nodup_nil,rfl⟩

/-- The cells of a list have to stay as they are for it to stay the same. -/
theorem Holds.sameOff {h' : Heap δ} {as : List ℕ} (hl : Holds h l xs) (hoff : h.SameOff h' as)
    (hd : ∀ a ∈ addrs xs, a ∉ as) : Holds h' l xs :=
  ⟨hl.chain.sameOff hoff hd,hl.nodup,hl.counted⟩

/-- `list_append_node` on a new node. -/
theorem listAppendNode_spec (hl : Holds h l xs) (hn : h.cells n = some ⟨d,none⟩)
    (hfresh : n ∉ addrs xs) :
    ∃ h' l', listAppendNode h l n = .ok (h',l') ∧ Holds h' l' (xs ++ [(n,d)]) ∧
      h.SameOff h' (addrs xs) := by
  have hnodup : (addrs (xs ++ [(n,d)])).Nodup := by
    rw [addrs_append,List.nodup_append]
    refine ⟨hl.nodup,by simp,fun a ha b hb => ?_⟩
    rw [addrs_cons,addrs_nil,List.mem_singleton] at hb
    rintro rfl
    exact hfresh ((show a = n from hb) ▸ ha)
  rcases List.eq_nil_or_concat xs with rfl | ⟨ys,y,rfl⟩
  · have hhead : l.head = none := hl.chain
    refine ⟨h,⟨some n,l.nItems+1⟩,?_,⟨⟨rfl,none,hn,rfl⟩,hnodup,?_⟩,fun _ _ => rfl⟩
    · rw [listAppendNode,hhead]
    · simp [hl.counted]
  · rw [List.concat_eq_append] at hl hfresh hnodup ⊢
    have hloop := appendLoop_spec l n (h.bound+1) hl.chain
      (Nat.lt_of_succ_lt (by simpa using hl.fuel))
    have hhead : l.head ≠ none := by
      intro he
      have hs := hl.chain
      rw [he] at hs
      cases ys <;> simp [Heap.seg_cons] at hs
    obtain ⟨a,ha⟩ := Option.ne_none_iff_exists'.mp hhead
    refine ⟨h.store y.1 ⟨y.2,some n⟩,⟨l.head,l.nItems+1⟩,?_,⟨?_,hnodup,?_⟩,fun b hb => ?_⟩
    · simp only [listAppendNode,ha] at hloop ⊢
      exact hloop
    · have hne : n ≠ y.1 := by rintro rfl; exact hfresh (by simp)
      refine Heap.seg_append.mpr ⟨some n,hl.chain.relink hl.nodup (some n),rfl,none,?_,rfl⟩
      rw [h.store_ne hne,hn]
    · simp [hl.counted]
      ring
    · exact h.store_ne (by rintro rfl; exact hb (by simp))

/-- `list_prepend_node` on a new node, the one cell it writes to. -/
theorem listPrependNode_spec (hl : Holds h l xs) (hn : h.cells n = some ⟨d,none⟩)
    (hfresh : n ∉ addrs xs) :
    ∃ h' l', listPrependNode h l n = .ok (h',l') ∧ Holds h' l' ((n,d)::xs) ∧ h.SameOff h' [n] := by
  have hnodup : (addrs ((n,d)::xs)).Nodup := List.nodup_cons.mpr ⟨hfresh,hl.nodup⟩
  have hcount : l.nItems+1 = ((n,d)::xs).length := by simp [hl.counted]
  unfold listPrependNode
  cases hp : l.head with
  | none =>
    have hs : h.Seg none xs none := hp ▸ hl.chain
    exact ⟨h,⟨some n,l.nItems+1⟩,rfl,⟨⟨rfl,none,hn,hs⟩,hnodup,hcount⟩,fun _ _ => rfl⟩
  | some head =>
    have hs : h.Seg (some head) xs none := hp ▸ hl.chain
    refine ⟨h.store n ⟨d,some head⟩,⟨some n,l.nItems+1⟩,?_,
      ⟨⟨rfl,some head,h.store_self,hs.store hfresh _⟩,hnodup,hcount⟩,fun a ha => ?_⟩
    · simp [hn]
    · exact h.store_ne (by simpa using ha)

/-- A new node is stored off the list. -/
lemma Holds.store (hl : Holds h l xs) (hfresh : h.cells n = none) (c : Cell δ) :
    Holds (h.store n c) l xs :=
  ⟨hl.chain.store (hl.chain.fresh hfresh) c,hl.nodup,hl.counted⟩

/-- A new node is stored and appended. What is free stays so. -/
theorem listAppendNode_fresh (d : δ) (hl : Holds h l xs) (hfresh : h.cells n = none) :
    ∃ h' l', listAppendNode (h.store n ⟨d,none⟩) l n = .ok (h',l') ∧ Holds h' l' (xs ++ [(n,d)]) ∧
      ∀ a, a ≠ n → h.cells a = none → h'.cells a = none := by
  obtain ⟨h',l',happ,hH,hoff⟩ :=
    listAppendNode_spec (hl.store hfresh ⟨d,none⟩) h.store_self (hl.chain.fresh hfresh)
  refine ⟨h',l',happ,hH,fun a hne ha => ?_⟩
  rw [hoff a (hl.chain.fresh ha),h.store_ne hne,ha]

/-- A new node is stored and put in front. -/
theorem listPrependNode_fresh (d : δ) (hl : Holds h l xs) (hfresh : h.cells n = none) :
    ∃ h' l', listPrependNode (h.store n ⟨d,none⟩) l n = .ok (h',l') ∧ Holds h' l' ((n,d)::xs) ∧
      ∀ a, a ≠ n → h'.cells a = h.cells a := by
  obtain ⟨h',l',hpre,hH,hoff⟩ :=
    listPrependNode_spec (hl.store hfresh ⟨d,none⟩) h.store_self (hl.chain.fresh hfresh)
  refine ⟨h',l',hpre,hH,fun a hne => ?_⟩
  rw [hoff a (by simpa using hne),h.store_ne hne]

/-- `list_delete_all` ends, with nothing left and every node cleaned up once, from the front. -/
theorem listDeleteAll_spec (hl : Holds h l xs) :
    listDeleteAll h l = .ok (h.freeAll (addrs xs),empty,xs.map Prod.snd) := by
  have hloop := deleteAllLoop_spec (h.bound+1) hl hl.fuel
  unfold listDeleteAll
  cases hp : l.head with
  | none =>
    -- the loop would have ended at once
    rwa [hp] at hloop
  | some head => rwa [hp] at hloop

variable {κ : Type*} (compareFunc : δ → κ → ℕ) (key : κ)

/-- `list_get_node` finds the first match. -/
theorem listGetNode_spec (hl : Holds h l xs) : listGetNode compareFunc h l key =
    .ok ((xs.find? (same compareFunc key)).map Prod.fst) := by
  have hloop := getLoop_spec compareFunc key (h.bound+1) hl.chain hl.fuel
  unfold listGetNode
  cases xs with
  | nil =>
    have hp : l.head = none := hl.chain
    simp [hp]
  | cons x xs =>
    obtain ⟨hp,next,hx,_⟩ := hl.chain
    rw [hp] at hloop ⊢
    simp only [hx]
    split_ifs with hc
    · rw [List.find?_cons_of_pos (by simpa [same] using hc)]
      rfl
    · exact hloop

/-- A write to the data of the first match. -/
theorem setData_spec {x : ℕ × δ} (f : δ → δ) (hl : Holds h l xs)
    (hx : xs.find? (same compareFunc key) = some x) :
    ∃ h', setData h x.1 f = .ok h' ∧
      Holds h' l (modifyFirst (same compareFunc key) (fun y => (y.1,f y.2)) xs) ∧
      h.SameOff h' (addrs xs) := by
  obtain ⟨pre,post,rfl⟩ := List.append_of_mem (List.mem_of_find?_eq_some hx)
  obtain ⟨_,_,_,next,hc,_⟩ := Heap.seg_append.mp hl.chain
  refine ⟨h.store x.1 ⟨f x.2,next⟩,by simp [setData,hc],?_,fun a ha => ?_⟩
  · exact ⟨hl.chain.setData f hl.nodup hx hc,by simpa using hl.nodup,by simpa using hl.counted⟩
  · exact h.store_ne (by rintro rfl; exact ha (by simp))

/-- `list_delete_node` fails on the empty list only. Elsewhere the first match is taken out, counted
and cleaned up. -/
theorem listDeleteNode_spec (hl : Holds h l xs) :
    ∃ r, listDeleteNode compareFunc h l key = .ok r ∧ r.code = (if xs = [] then 1 else 0) ∧
      r.removed = (xs.find? (same compareFunc key)).map Prod.snd ∧
      Holds r.heap r.list (xs.eraseP (same compareFunc key)) ∧ h.SameOff r.heap (addrs xs) := by
  have hnodup : (addrs (xs.eraseP (same compareFunc key))).Nodup :=
    hl.nodup.sublist (List.eraseP_sublist.map _)
  unfold listDeleteNode
  cases xs with
  | nil =>
    have hp : l.head = none := hl.chain
    rw [hp]
    exact ⟨⟨1,h,l,none⟩,rfl,rfl,rfl,hl,fun _ _ => rfl⟩
  | cons x xs =>
    obtain ⟨hp,next,hx,hrest⟩ := hl.chain
    obtain ⟨hxn,hxs⟩ := List.nodup_cons.mp hl.nodup
    have hcount := hl.counted
    rw [hp]
    simp only [hx]
    by_cases hc : compareFunc x.2 key = 0
    · have hc' : same compareFunc key x = true := by simpa [same] using hc
      rw [List.eraseP_cons_of_pos hc'] at hnodup ⊢
      rw [if_pos hc,List.find?_cons_of_pos hc']
      refine ⟨_,rfl,rfl,rfl,⟨hrest.free hxn,hnodup,?_⟩,fun a ha => ?_⟩
      · simp [hcount]
      · exact h.free_ne (by rintro rfl; exact ha (by simp))
    · have hc' : ¬ same compareFunc key x = true := by simpa [same] using hc
      rw [if_neg hc]
      have hfuel := hl.fuel
      obtain ⟨h',hloop,hchain,hoff⟩ := deleteLoop_spec (z:=x) (p:=next) compareFunc key l []
        h.bound ⟨hp,next,hx,rfl⟩ hrest hl.nodup (by simpa using hfuel)
      have hstep : deleteLoop compareFunc h l key (h.bound+1) none (some x.1) =
          deleteLoop compareFunc h l key h.bound (some x.1) next := by
        simp [deleteLoop,hx,hc]
      rw [hstep,hloop,List.find?_cons_of_neg hc']
      rw [List.eraseP_cons_of_neg hc'] at hnodup ⊢
      refine ⟨_,rfl,rfl,rfl,⟨hchain,hnodup,?_⟩,hoff⟩
      rw [List.length_cons,Nat.cast_add,length_eraseP,hcount]
      split_ifs
      · simp
      · simp

end Refinement

/-! What the operations do to the chain is what the operations on lists do to the list it stands
for. -/
section NodeLists
variable (compareFunc : δ → κ → ℕ) (key : κ) (xs : List (ℕ × δ)) (n : ℕ) (d : δ)

lemma nodeList_nodes : (nodeList xs).nodes = xs.map Prod.snd := rfl

lemma nodeList_append : Daemon.listAppendNode (nodeList xs) d = nodeList (xs ++ [(n,d)]) := by
  ext1
  · simp [nodeList,Daemon.listAppendNode]
  · simp [nodeList,Daemon.listAppendNode]

lemma nodeList_prepend : Daemon.listPrependNode (nodeList xs) d = nodeList ((n,d)::xs) := by
  ext1
  · rfl
  · simp [nodeList,Daemon.listPrependNode]

lemma nodeList_get :
    Daemon.listGetNode compareFunc (nodeList xs) key = (xs.find? (same compareFunc key)).map Prod.snd := by
  rw [listGetNode_eq,nodeList_nodes,List.find?_map]
  rfl

lemma nodeList_delete : (Daemon.listDeleteNode compareFunc (nodeList xs) key).list =
    nodeList (xs.eraseP (same compareFunc key)) := by
  by_cases hx : (nodeList xs).nodes = []
  · obtain rfl : xs = [] := by simpa [nodeList] using hx
    exact listDeleteNode_empty _ _ _ hx
  · rw [listDeleteNode_eq _ _ _ hx,nodeList_nodes,List.eraseP_map,List.find?_map,Option.isSome_map]
    ext1
    · rfl
    · exact (length_eraseP _ _).symm

lemma nodeList_deleteAll : (Daemon.listDeleteAll (nodeList xs)).1 = nodeList [] := by
  have hc : (nodeList xs).Counted := by simp [NodeList.Counted,nodeList]
  exact hc.deleteAll

lemma nodeList_update (f : δ → δ) : updateNode compareFunc (nodeList xs) key f =
    nodeList (modifyFirst (same compareFunc key) (fun y => (y.1,f y.2)) xs) := by
  ext1
  · simp only [updateNode_nodes,nodeList_nodes]
    induction xs with
    | nil => rfl
    | cons x xs ih =>
      simp only [List.map_cons,modifyFirst,same,decide_eq_true_eq]
      split_ifs
      · rfl
      · rw [List.map_cons,ih]
  · simp [updateNode,nodeList]

end NodeLists
end LinkedList
end Nav.Daemon
