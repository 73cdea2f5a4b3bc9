import Nav.Lib.Keyed
import Mathlib.Data.List.Perm.Subperm
import Mathlib.Logic.Function.Basic

/-! Singly linked cells on a heap. A segment is what lies on a chain between two pointers, with the
address and the data of every cell; a pointer is `none` when it is NULL. -/
namespace Nav.Lib
variable {δ : Type*}

structure Cell (δ : Type*) where
  data : δ
  next : Option ℕ

/-- The cells in use. Their addresses have a bound, which no operation lowers, so that a walk that
takes more steps than that comes back to a cell it has seen. -/
structure Heap (δ : Type*) where
  cells : ℕ → Option (Cell δ)
  bound : ℕ
  bounded : ∀ a, bound ≤ a → cells a = none

namespace Heap

def empty : Heap δ := ⟨fun _ => none,0,fun _ _ => rfl⟩

def store (h : Heap δ) (a : ℕ) (c : Cell δ) : Heap δ where
  cells := Function.update h.cells a (some c)
  bound := max h.bound (a+1)
  bounded b hb := by
    rw [Function.update_of_ne (by omega)]
    exact h.bounded b (by omega)

def free (h : Heap δ) (a : ℕ) : Heap δ where
  cells := Function.update h.cells a none
  bound := h.bound
  bounded b hb := by
    by_cases hba : b = a
    · rw [hba,Function.update_self]
    · rw [Function.update_of_ne hba]
      exact h.bounded b hb

/-- Cells freed one after the other. -/
def freeAll (h : Heap δ) (as : List ℕ) : Heap δ := as.foldl free h

variable (h h' : Heap δ) {a b : ℕ} {c : Cell δ}

@[simp] theorem store_self : (h.store a c).cells a = some c := Function.update_self ..

@[simp] theorem store_ne (hb : b ≠ a) : (h.store a c).cells b = h.cells b :=
  Function.update_of_ne hb ..

@[simp] theorem free_ne (hb : b ≠ a) : (h.free a).cells b = h.cells b :=
  Function.update_of_ne hb ..

lemma lt_bound (ha : h.cells a = some c) : a < h.bound := by
  by_contra hlt
  simp [h.bounded a (by omega)] at ha

/-- The heaps agree but for the cells at these addresses. -/
def SameOff (as : List ℕ) : Prop := ∀ a, a ∉ as → h'.cells a = h.cells a

/-- Freeing cells touches no others. -/
theorem freeAll_sameOff (as : List ℕ) : h.SameOff (h.freeAll as) as := by
  induction as generalizing h with
  | nil => exact fun _ _ => rfl
  | cons b as ih =>
    intro a ha
    rw [List.mem_cons,not_or] at ha
    exact (ih (h.free b) a ha.2).trans (h.free_ne ha.1)

/-- The cells from the pointer `p` on, up to the pointer `q`. -/
def Seg (h : Heap δ) : Option ℕ → List (ℕ × δ) → Option ℕ → Prop
  | p, [], q => p = q
  | p, x::xs, q => p = some x.1 ∧ ∃ next, h.cells x.1 = some ⟨x.2,next⟩ ∧ h.Seg next xs q

end Heap

/-- The addresses of a segment. -/
def addrs (xs : List (ℕ × δ)) : List ℕ := xs.map Prod.fst

@[simp] theorem addrs_nil : addrs ([] : List (ℕ × δ)) = [] := rfl
@[simp] theorem addrs_cons (x : ℕ × δ) (xs : List (ℕ × δ)) : addrs (x::xs) = x.1::addrs xs := rfl
@[simp] theorem addrs_append (xs ys : List (ℕ × δ)) : addrs (xs ++ ys) = addrs xs ++ addrs ys :=
  List.map_append

namespace Heap
variable {h h' : Heap δ} {p q r : Option ℕ} {xs ys : List (ℕ × δ)} {a : ℕ} {d : δ}

@[simp] theorem seg_nil : h.Seg p [] q ↔ p = q := Iff.rfl

lemma seg_cons {x : ℕ × δ} : h.Seg p (x::xs) q ↔
    p = some x.1 ∧ ∃ next, h.cells x.1 = some ⟨x.2,next⟩ ∧ h.Seg next xs q := Iff.rfl

theorem seg_append : h.Seg p (xs ++ ys) r ↔ ∃ q, h.Seg p xs q ∧ h.Seg q ys r := by
  induction xs generalizing p with
  | nil => simp
  | cons x xs ih =>
    rw [List.cons_append,seg_cons]
    constructor
    · rintro ⟨hp,next,hx,hs⟩
      obtain ⟨q,h1,h2⟩ := ih.mp hs
      exact ⟨q,⟨hp,next,hx,h1⟩,h2⟩
    · rintro ⟨q,⟨hp,next,hx,h1⟩,h2⟩
      exact ⟨hp,next,hx,ih.mpr ⟨q,h1,h2⟩⟩

/-- A segment depends on its own cells only. -/
theorem Seg.congr (hs : h.Seg p xs q) (hc : ∀ a ∈ addrs xs, h'.cells a = h.cells a) :
    h'.Seg p xs q := by
  induction xs generalizing p with
  | nil => exact hs
  | cons x xs ih =>
    obtain ⟨hp,next,hx,hrest⟩ := hs
    refine ⟨hp,next,?_,ih hrest fun a ha => hc a (by simp [ha])⟩
    rw [hc x.1 (by simp),hx]

/-- Every cell of a segment is in use. -/
theorem Seg.used (hs : h.Seg p xs q) (ha : a ∈ addrs xs) : ∃ c, h.cells a = some c := by
  induction xs generalizing p with
  | nil => simp at ha
  | cons x xs ih =>
    obtain ⟨_,next,hx,hrest⟩ := hs
    rcases List.mem_cons.mp ha with rfl | ha
    · exact ⟨_,hx⟩
    · exact ih hrest ha

lemma Seg.fresh (hs : h.Seg p xs q) (ha : h.cells a = none) : a ∉ addrs xs := by
  intro hm
  obtain ⟨c,hc⟩ := hs.used hm
  simp [ha] at hc

/-- Without repeats a segment is no longer than the heap has room for. -/
theorem Seg.length_le (hs : h.Seg p xs q) (hn : (addrs xs).Nodup) : xs.length ≤ h.bound := by
  have hsub : addrs xs ⊆ List.range h.bound := by
    intro a ha
    obtain ⟨c,hc⟩ := hs.used ha
    exact List.mem_range.mpr (h.lt_bound hc)
  simpa [addrs] using (hn.subperm hsub).length_le

/-- A pointer leads to one chain that ends in NULL at most. -/
theorem Seg.unique (hs : h.Seg p xs none) (ht : h.Seg p ys none) : xs = ys := by
  induction xs generalizing p ys with
  | nil =>
    obtain rfl : p = none := hs
    cases ys with
    | nil => rfl
    | cons y ys => cases ht.1
  | cons x xs ih =>
    obtain ⟨rfl,next,hx,hrest⟩ := hs
    cases ys with
    | nil => cases (show some x.1 = none from ht)
    | cons y ys =>
      obtain ⟨hp,next',hy,hrest'⟩ := ht
      obtain ⟨rfl,hxy⟩ : next = next' ∧ x = y := by
        have haddr : x.1 = y.1 := Option.some.inj hp
        rw [← haddr,hx,Option.some.injEq,Cell.mk.injEq] at hy
        exact ⟨hy.2,Prod.ext haddr hy.1⟩
      rw [hxy,ih hrest hrest']

/-- A chain that ends in NULL comes to no cell twice: it would go on from there as before. -/
theorem Seg.nodup (hs : h.Seg p xs none) : (addrs xs).Nodup := by
  induction xs generalizing p with
  | nil => exact List.nodup_nil
  | cons x xs ih =>
    obtain ⟨_,next,hx,hrest⟩ := hs
    refine List.nodup_cons.mpr ⟨fun hm => ?_,ih hrest⟩
    obtain ⟨y,hy,hyx⟩ := List.mem_map.mp hm
    obtain ⟨pre,post,rfl⟩ := List.append_of_mem hy
    obtain ⟨q,_,hq⟩ := seg_append.mp hrest
    have hcycle : h.Seg (some x.1) (y::post) none := hyx ▸ hq.1 ▸ hq
    have hfirst : h.Seg (some x.1) (x::(pre ++ y::post)) none := ⟨rfl,next,hx,hrest⟩
    have hlen := congrArg List.length (hcycle.unique hfirst)
    simp only [List.length_cons,List.length_append] at hlen
    omega

/-- Writing the pointer of the last cell moves the end of the segment. -/
theorem Seg.relink (hs : h.Seg p (xs ++ [(a,d)]) q) (hn : (addrs (xs ++ [(a,d)])).Nodup)
    (r : Option ℕ) : (h.store a ⟨d,r⟩).Seg p (xs ++ [(a,d)]) r := by
  obtain ⟨q',h1,h2⟩ := seg_append.mp hs
  obtain ⟨rfl,_⟩ := seg_cons.mp h2
  rw [addrs_append,List.nodup_append] at hn
  refine seg_append.mpr ⟨some a,h1.congr fun b hb => ?_,seg_cons.mpr ⟨rfl,r,by simp,rfl⟩⟩
  exact h.store_ne (hn.2.2 b hb a (by simp))

/-- What is stored or freed off a segment leaves it as it is. -/
theorem Seg.store (hs : h.Seg p xs q) (ha : a ∉ addrs xs) (c : Cell δ) :
    (h.store a c).Seg p xs q :=
  hs.congr fun b hb => h.store_ne (by rintro rfl; exact ha hb)

theorem Seg.free (hs : h.Seg p xs q) (ha : a ∉ addrs xs) : (h.free a).Seg p xs q :=
  hs.congr fun b hb => h.free_ne (by rintro rfl; exact ha hb)

theorem Seg.sameOff {as : List ℕ} (hs : h.Seg p xs q) (hoff : h.SameOff h' as)
    (hd : ∀ a ∈ addrs xs, a ∉ as) : h'.Seg p xs q :=
  hs.congr fun a ha => hoff a (hd a ha)

/-- Writing the data of the first cell that passes a test. -/
theorem Seg.setData {test : ℕ × δ → Bool} {x : ℕ × δ} {next : Option ℕ} (f : δ → δ)
    (hs : h.Seg p xs q) (hn : (addrs xs).Nodup) (hx : xs.find? test = some x)
    (hc : h.cells x.1 = some ⟨x.2,next⟩) :
    (h.store x.1 ⟨f x.2,next⟩).Seg p (modifyFirst test (fun y => (y.1,f y.2)) xs) q := by
  induction xs generalizing p with
  | nil => simp at hx
  | cons y ys ih =>
    obtain ⟨rfl,next',hy,hrest⟩ := hs
    obtain ⟨hyn,hys⟩ := List.nodup_cons.mp hn
    rw [List.find?_cons] at hx
    rw [modifyFirst]
    split_ifs with ht
    · rw [ht,Option.some.injEq] at hx
      subst hx
      rw [hy,Option.some.injEq,Cell.mk.injEq] at hc
      obtain ⟨_,rfl⟩ := hc
      exact ⟨rfl,next',h.store_self,hrest.store hyn _⟩
    · rw [Bool.not_eq_true] at ht
      rw [ht] at hx
      have hne : y.1 ≠ x.1 := by
        intro he
        exact hyn (he ▸ List.mem_map_of_mem (List.mem_of_find?_eq_some hx))
      exact ⟨rfl,next',by rw [h.store_ne hne,hy],ih hrest hys hx⟩

end Heap

@[simp] theorem addrs_setData (test : ℕ × δ → Bool) (f : δ → δ) (xs : List (ℕ × δ)) :
    addrs (modifyFirst test (fun y => (y.1,f y.2)) xs) = addrs xs :=
  modifyFirst_map_eq test _ xs Prod.fst fun _ => rfl

end Nav.Lib
