import Nav.Daemon.LinkedList

/-! A list of `list.c` stands for the sequence of the nodes on its chain, and every operation on the
list is one on the sequence. -/
namespace Nav.Daemon
open Nav.Lib

namespace LinkedList
variable {δ κ : Type*}

/-- `list_node_create`: the return code, and the node with its pointer cleared. `malloc` gives the
address, `none` for NULL, and the data is what the memory held. -/
def listNodeCreate (h : Heap δ) (malloc : Option ℕ) (data : δ) : ℕ × Heap δ × Option ℕ :=
  match malloc with
  | none => (1,h,none)
  | some n => (0,h.store n ⟨data,none⟩,some n)

/-- On `h` the node `n` has just come from `list_node_create`, called on `h₀`, and its caller has
set the data. -/
def Created (h₀ h : Heap δ) (n : ℕ) (d : δ) : Prop :=
  h₀.cells n = none ∧
    ∃ data h₁, listNodeCreate h₀ (some n) data = (0,h₁,some n) ∧ setData h₁ n (fun _ => d) = .ok h

/-- Every operation does to the nodes of the list what is done here to the sequence `xs`, with the
calls of `cleanup_func` and without a change to other nodes. -/
structure RefinesSequence (compareFunc : δ → κ → ℕ) (h : Heap δ) (l : LinkedList)
    (xs : List (ℕ × δ)) : Prop where
  append : ∀ n d h₁, Created h h₁ n d →
    ∃ h' l', listAppendNode h₁ l n = .ok (h',l') ∧ Holds h' l' (xs ++ [(n,d)]) ∧
      h₁.SameOff h' (addrs xs)
  prepend : ∀ n d h₁, Created h h₁ n d →
    ∃ h' l', listPrependNode h₁ l n = .ok (h',l') ∧ Holds h' l' ((n,d)::xs) ∧ h₁.SameOff h' [n]
  delete : ∀ key, ∃ r, listDeleteNode compareFunc h l key = .ok r ∧
    Holds r.heap r.list (xs.eraseP (same compareFunc key)) ∧
    r.removed = (xs.find? (same compareFunc key)).map Prod.snd ∧ h.SameOff r.heap (addrs xs)
  deleteAll : ∃ h' l', listDeleteAll h l = .ok (h',l',xs.map Prod.snd) ∧ Holds h' l' [] ∧
    h.SameOff h' (addrs xs)
  get : ∀ key, listGetNode compareFunc h l key =
    .ok ((xs.find? (same compareFunc key)).map Prod.fst)

section Refinement
variable {h h₁ : Heap δ} {l : LinkedList} {n : ℕ} {xs : List (ℕ × δ)} {d : δ}

/-- A created node has its pointer cleared, and is none of the list, which is as before. -/
theorem Created.spec (hc : Created h h₁ n d) (hl : Holds h l xs) :
    Holds h₁ l xs ∧ h₁.cells n = some ⟨d,none⟩ ∧ n ∉ addrs xs := by
  obtain ⟨hfree,data,h₂,hcreate,hset⟩ := hc
  obtain ⟨-,rfl,-⟩ : 0 = 0 ∧ h.store n ⟨data,none⟩ = h₂ ∧ some n = some n := by
    simpa [listNodeCreate] using hcreate
  obtain rfl : (h.store n ⟨data,none⟩).store n ⟨d,none⟩ = h₁ := by
    simpa [setData] using hset
  have hfresh : n ∉ addrs xs := hl.chain.fresh hfree
  refine ⟨⟨?_,hl.nodup,hl.counted⟩,Heap.store_self _,hfresh⟩
  exact (hl.chain.store hfresh ⟨data,none⟩).store hfresh ⟨d,none⟩

end Refinement

/-- A list with a finite chain that ends in NULL, without repeats and with a right counter, stands
for its nodes under every operation, whatever the data and the comparison. -/
theorem refinesSequence {h : Heap δ} {l : LinkedList} {xs : List (ℕ × δ)} (hl : Holds h l xs)
    (compareFunc : δ → κ → ℕ) : RefinesSequence compareFunc h l xs := by
  refine ⟨fun n d h₁ hc => ?_,fun n d h₁ hc => ?_,fun key => ?_,?_,fun key => ?_⟩
  · obtain ⟨hl₁,hn,hfresh⟩ := hc.spec hl
    exact listAppendNode_spec hl₁ hn hfresh
  · obtain ⟨hl₁,hn,hfresh⟩ := hc.spec hl
    exact listPrependNode_spec hl₁ hn hfresh
  · obtain ⟨r,hr,_,hremoved,hrest,hoff⟩ := listDeleteNode_spec compareFunc key hl
    exact ⟨r,hr,hrest,hremoved,hoff⟩
  · exact ⟨_,empty,listDeleteAll_spec hl,holds_empty _,h.freeAll_sameOff (addrs xs)⟩
  · exact listGetNode_spec compareFunc key hl

/-- A list of two nodes, and a third one created and appended. -/
theorem refinesSequence_two : ∃ h h₁ h' : Heap ℕ, ∃ l' : LinkedList,
    RefinesSequence (fun a key => if a = key then 0 else 1) h ⟨some 5,2⟩ [(5,10),(3,20)] ∧
    Created h h₁ 7 30 ∧ listAppendNode h₁ ⟨some 5,2⟩ 7 = .ok (h',l') ∧
    Holds h' l' [(5,10),(3,20),(7,30)] := by
  let h : Heap ℕ := (Heap.empty.store 5 ⟨10,some 3⟩).store 3 ⟨20,none⟩
  have h5 : h.cells 5 = some ⟨10,some 3⟩ :=
    (Heap.store_ne _ (by decide)).trans (Heap.store_self _)
  have h3 : h.cells 3 = some ⟨20,none⟩ := Heap.store_self _
  have h7 : h.cells 7 = none :=
    (Heap.store_ne _ (by decide)).trans (Heap.store_ne _ (by decide))
  have hl : Holds h ⟨some 5,2⟩ [(5,10),(3,20)] :=
    ⟨⟨rfl,some 3,h5,rfl,none,h3,rfl⟩,by decide,rfl⟩
  have hrefines := refinesSequence hl fun a key => if a = key then 0 else 1
  -- `malloc` gives address 7, where it finds a 0
  have hcreated : Created h ((h.store 7 ⟨0,none⟩).store 7 ⟨30,none⟩) 7 30 :=
    ⟨h7,0,h.store 7 ⟨0,none⟩,rfl,by simp [setData]⟩
  obtain ⟨h',l',happend,hholds,_⟩ := hrefines.append 7 30 _ hcreated
  exact ⟨h,_,h',l',hrefines,hcreated,happend,hholds⟩

end LinkedList
end Nav.Daemon
