import Mathlib.Algebra.Order.Group.Multiset
import Mathlib.Data.Finset.Card
import Mathlib.Logic.Function.Basic

/-! Code that takes blocks of memory from an allocator, reads and writes them and gives them back. It
leaves a trace of the memories between its steps, for other code may come in there. What is known of a
memory is the multiset of the blocks in use. -/
namespace Nav.Lib

/-- What ends a piece of code: a block that is not in use, or not what it should be, or a loop that
does not end. -/
inductive MemoryFault
  | dangling
  | endless
  deriving DecidableEq, Repr

/-- The blocks in use, below a bound, and the addresses that the allocator has in mind for the next
ones. -/
structure Blocks (β : Type) where
  cells : ℕ → Option β
  bound : ℕ
  bounded : ∀ a, bound ≤ a → cells a = none
  proposals : ℕ → ℕ

namespace Blocks
variable {β : Type}

def empty (proposals : ℕ → ℕ) : Blocks β := ⟨fun _ => none,0,fun _ _ => rfl,proposals⟩

def store (m : Blocks β) (a : ℕ) (b : β) : Blocks β where
  cells := Function.update m.cells a (some b)
  bound := max m.bound (a+1)
  bounded c hc := by
    rw [Function.update_of_ne (by omega)]
    exact m.bounded c (by omega)
  proposals := m.proposals

def release (m : Blocks β) (a : ℕ) : Blocks β where
  cells := Function.update m.cells a none
  bound := m.bound
  bounded c hc := by
    by_cases hca : c = a
    · rw [hca,Function.update_self]
    · rw [Function.update_of_ne hca]
      exact m.bounded c hc
  proposals := m.proposals

/-- The address of the next block: the one proposed, unless it is in use. -/
def fresh (m : Blocks β) : ℕ := if (m.cells (m.proposals 0)).isNone then m.proposals 0 else m.bound

def alloc (m : Blocks β) (b : β) : Blocks β := {m with proposals := fun i => m.proposals (i+1)}.store m.fresh b

/-- How many blocks are in use. -/
def inUse (m : Blocks β) : ℕ := ((List.range m.bound).filter fun a => (m.cells a).isSome).length

lemma fresh_free (m : Blocks β) : m.cells m.fresh = none := by
  unfold fresh
  split_ifs with h
  · simpa using h
  · exact m.bounded _ le_rfl

/-- The blocks in use are these. -/
structure Owns (m : Blocks β) (s : Multiset (ℕ × β)) : Prop where
  nodup : (s.map Prod.fst).Nodup
  cells : ∀ a b, m.cells a = some b ↔ (a,b) ∈ s

/-- No block is at this address. -/
def Gone (a : ℕ) (s : Multiset (ℕ × β)) : Prop := ∀ b, (a,b) ∉ s

section Owned
variable {m : Blocks β} {s : Multiset (ℕ × β)} {a : ℕ} {b : β}

lemma Owns.gone (h : Owns m s) : Gone a s ↔ m.cells a = none := by
  constructor
  · intro hg
    cases hc : m.cells a with
    | none => rfl
    | some b => exact absurd ((h.cells a b).mp hc) (hg b)
  · intro hc b hb
    simp [(h.cells a b).mpr hb] at hc

@[simp] theorem gone_add {t : Multiset (ℕ × β)} : Gone a (s + t) ↔ Gone a s ∧ Gone a t := by
  simp only [Gone,Multiset.mem_add,not_or,forall_and]

@[simp] theorem gone_singleton {c : ℕ} : Gone a {(c,b)} ↔ a ≠ c := by
  simp only [Gone,Multiset.mem_singleton,Prod.mk.injEq,not_and]
  exact ⟨fun h hac => h b hac rfl,fun h _ hac => absurd hac h⟩

lemma Gone.mono {t : Multiset (ℕ × β)} (h : Gone a t) (hst : s ≤ t) : Gone a s :=
  fun b hb => h b (Multiset.mem_of_le hst hb)

lemma Gone.notMem (h : Gone a s) : a ∉ s.map Prod.fst := by
  rw [Multiset.mem_map]
  rintro ⟨⟨_,b⟩,hb,rfl⟩
  exact h b hb

/-- One block at an address. -/
lemma Owns.once (h : Owns m ({(a,b)} + s)) : Gone a s ∧ (s.map Prod.fst).Nodup := by
  have hn := h.nodup
  rw [Multiset.singleton_add,Multiset.map_cons,Multiset.nodup_cons] at hn
  refine ⟨fun c hc => ?_,hn.2⟩
  have hm := Multiset.mem_map_of_mem Prod.fst hc
  exact hn.1 hm

theorem owns_empty (proposals : ℕ → ℕ) : Owns (empty proposals : Blocks β) 0 :=
  ⟨Multiset.nodup_zero,fun a b => by simp [empty]⟩

lemma Owns.proposals (h : Owns m s) (proposals : ℕ → ℕ) : Owns {m with proposals} s := ⟨h.nodup,h.cells⟩

lemma store_cells (m : Blocks β) (a : ℕ) (b : β) : (m.store a b).cells = Function.update m.cells a (some b) := rfl

lemma release_cells (m : Blocks β) (a : ℕ) : (m.release a).cells = Function.update m.cells a none := rfl

theorem Owns.store (h : Owns m s) (ha : m.cells a = none) (b : β) : Owns (m.store a b) ({(a,b)} + s) := by
  have hg := h.gone.mpr ha
  constructor
  · rw [Multiset.singleton_add,Multiset.map_cons,Multiset.nodup_cons]
    exact ⟨hg.notMem,h.nodup⟩
  · intro c d
    rw [store_cells,Multiset.mem_add,Multiset.mem_singleton,Prod.mk.injEq]
    by_cases hc : c = a
    · subst hc
      simp [Function.update_self,hg d,eq_comm]
    · simp [hc,h.cells]

theorem Owns.write (h : Owns m ({(a,b)} + s)) (b' : β) : Owns (m.store a b') ({(a,b')} + s) := by
  obtain ⟨hg,hn⟩ := h.once
  constructor
  · rw [Multiset.singleton_add,Multiset.map_cons,Multiset.nodup_cons]
    exact ⟨hg.notMem,hn⟩
  · intro c d
    rw [store_cells,Multiset.mem_add,Multiset.mem_singleton,Prod.mk.injEq]
    by_cases hc : c = a
    · subst hc
      simp [Function.update_self,hg d,eq_comm]
    · simp [hc,h.cells]

theorem Owns.release (h : Owns m ({(a,b)} + s)) : Owns (m.release a) s := by
  obtain ⟨hg,hn⟩ := h.once
  refine ⟨hn,fun c d => ?_⟩
  rw [release_cells]
  by_cases hc : c = a
  · subst hc
    simp [Function.update_self,hg d]
  · simp [hc,h.cells]

theorem Owns.alloc (h : Owns m s) (b : β) : Owns (m.alloc b) ({(m.fresh,b)} + s) :=
  Owns.store (h.proposals fun i => m.proposals (i+1)) m.fresh_free b

/-- The number of blocks, by counting or as it is known. -/
theorem Owns.inUse (h : Owns m s) : m.inUse = s.card := by
  have hset : (((List.range m.bound).filter fun a => (m.cells a).isSome : List ℕ) : Multiset ℕ) =
      s.map Prod.fst := by
    have hn : (((List.range m.bound).filter fun a => (m.cells a).isSome : List ℕ) : Multiset ℕ).Nodup :=
      List.nodup_range.filter _
    refine (Multiset.Nodup.ext hn h.nodup).mpr fun a => ?_
    rw [Multiset.mem_coe,List.mem_filter,List.mem_range,Option.isSome_iff_exists,Multiset.mem_map]
    constructor
    · rintro ⟨_,b,hb⟩
      exact ⟨(a,b),(h.cells a b).mp hb,rfl⟩
    · rintro ⟨⟨a,b⟩,hb,rfl⟩
      have hcell := (h.cells a b).mpr hb
      refine ⟨?_,b,hcell⟩
      by_contra hlt
      simp [m.bounded a (not_lt.mp hlt)] at hcell
  rw [Blocks.inUse,← Multiset.coe_card,hset,Multiset.card_map]

lemma Owns.card_le (h : Owns m s) : s.card ≤ m.bound := by
  rw [← h.inUse,Blocks.inUse]
  simpa using List.length_filter_le (fun a => (m.cells a).isSome) (List.range m.bound)

end Owned
end Blocks

/-- The memories that a piece of code has gone through, and how it has ended. -/
structure Course (β α : Type) where
  trace : List (Blocks β)
  result : Except MemoryFault (α × Blocks β)

def Code (β α : Type) := Blocks β → Course β α

namespace Code
variable {β α γ : Type}

def fail (e : MemoryFault) : Code β α := fun _ => ⟨[],.error e⟩

def bind (p : Code β α) (f : α → Code β γ) : Code β γ := fun m =>
  match (p m).result with
  | .error e => ⟨(p m).trace,.error e⟩
  | .ok (r,m') => ⟨(p m).trace ++ (f r m').trace,(f r m').result⟩

instance : Monad (Code β) where
  pure r := fun m => ⟨[],.ok (r,m)⟩
  bind := bind

def malloc (b : β) : Code β ℕ := fun m => ⟨[m.alloc b],.ok (m.fresh,m.alloc b)⟩

def read (a : ℕ) : Code β β := fun m =>
  match m.cells a with
  | none => ⟨[],.error .dangling⟩
  | some b => ⟨[],.ok (b,m)⟩

def write (a : ℕ) (b : β) : Code β Unit := fun m =>
  match m.cells a with
  | none => ⟨[],.error .dangling⟩
  | some _ => ⟨[m.store a b],.ok ((),m.store a b)⟩

def free (a : ℕ) : Code β Unit := fun m =>
  match m.cells a with
  | none => ⟨[],.error .dangling⟩
  | some _ => ⟨[m.release a],.ok ((),m.release a)⟩

/-- A pointer that is followed. -/
def deref : Option ℕ → Code β ℕ
  | none => fail .dangling
  | some a => pure a

/-- A loop over blocks has fuel for more rounds than there are blocks. -/
def sized (f : ℕ → Code β α) : Code β α := fun m => f (m.bound+1) m

end Code

section Triples
variable {β α γ : Type} {C : Multiset (ℕ × β) → Prop} {s s' : Multiset (ℕ × β)}
  {p : Code β α} {Q R : α → Multiset (ℕ × β) → Prop}
open Blocks

/-- Started on the blocks `s`, the code ends with `Q`, and between any two steps the blocks are as
`C` says. -/
def Triple (C : Multiset (ℕ × β) → Prop) (s : Multiset (ℕ × β)) (p : Code β α)
    (Q : α → Multiset (ℕ × β) → Prop) : Prop :=
  ∀ m, Owns m s → (∀ m' ∈ (p m).trace, ∃ u, Owns m' u ∧ C u) ∧
    ∃ r m' u, (p m).result = .ok (r,m') ∧ Owns m' u ∧ Q r u

/-- Between two steps of the code the blocks are as `P` says. -/
def Hits (s : Multiset (ℕ × β)) (p : Code β α) (P : Multiset (ℕ × β) → Prop) : Prop :=
  ∀ m, Owns m s → ∃ m' ∈ (p m).trace, ∃ u, Owns m' u ∧ P u

/-- The code does not come to its end. -/
def Fails (s : Multiset (ℕ × β)) (p : Code β α) : Prop :=
  ∀ m, Owns m s → ∃ e, (p m).result = .error e

lemma bind_ok {f : α → Code β γ} {m m' : Blocks β} {r : α} (h : (p m).result = .ok (r,m')) :
    (p >>= f) m = ⟨(p m).trace ++ (f r m').trace,(f r m').result⟩ := by
  change Code.bind p f m = _
  simp [Code.bind,h]

lemma bind_error {f : α → Code β γ} {m : Blocks β} {e : MemoryFault} (h : (p m).result = .error e) :
    (p >>= f) m = ⟨(p m).trace,.error e⟩ := by
  change Code.bind p f m = _
  simp [Code.bind,h]

lemma mem_trace_bind {f : α → Code β γ} {m m' : Blocks β} (h : m' ∈ (p m).trace) :
    m' ∈ ((p >>= f) m).trace := by
  cases hr : (p m).result with
  | error e => simpa [bind_error hr] using h
  | ok r => simp [bind_ok hr,h]

namespace Triple

theorem pure {r : α} (h : Q r s) : Triple C s (Pure.pure r) Q :=
  fun m hm => ⟨fun _ hm' => absurd hm' List.not_mem_nil,r,m,s,rfl,hm,h⟩

theorem bind {f : α → Code β γ} {S : γ → Multiset (ℕ × β) → Prop} (hp : Triple C s p R)
    (hf : ∀ r u, R r u → Triple C u (f r) S) : Triple C s (p >>= f) S := by
  intro m hm
  obtain ⟨htrace,r,m',u,hr,hu,hR⟩ := hp m hm
  obtain ⟨htrace',r',m'',u',hr',hu',hS⟩ := hf r u hR m' hu
  rw [bind_ok hr]
  refine ⟨fun m₁ hm₁ => ?_,r',m'',u',hr',hu',hS⟩
  rcases List.mem_append.mp hm₁ with h | h
  · exact htrace m₁ h
  · exact htrace' m₁ h

theorem mono {D : Multiset (ℕ × β) → Prop} (h : Triple C s p Q) (hC : ∀ u, C u → D u)
    (hQ : ∀ r u, Q r u → R r u) : Triple D s p R := by
  intro m hm
  obtain ⟨htrace,r,m',u,hr,hu,h⟩ := h m hm
  refine ⟨fun m₁ hm₁ => ?_,r,m',u,hr,hu,hQ r u h⟩
  obtain ⟨v,hv,hc⟩ := htrace m₁ hm₁
  exact ⟨v,hv,hC v hc⟩

theorem malloc {b : β} {Q : ℕ → Multiset (ℕ × β) → Prop}
    (h : ∀ a, Gone a s → C ({(a,b)} + s) ∧ Q a ({(a,b)} + s)) : Triple C s (Code.malloc b) Q := by
  intro m hm
  obtain ⟨hC,hQ⟩ := h m.fresh (hm.gone.mpr m.fresh_free)
  refine ⟨fun m' hm' => ?_,m.fresh,m.alloc b,_,rfl,hm.alloc b,hQ⟩
  obtain rfl : m' = m.alloc b := by simpa [Code.malloc] using hm'
  exact ⟨_,hm.alloc b,hC⟩

theorem write {a : ℕ} {b b' : β} {Q : Unit → Multiset (ℕ × β) → Prop} (hs : s = {(a,b)} + s')
    (hC : C ({(a,b')} + s')) (hQ : Q () ({(a,b')} + s')) : Triple C s (Code.write a b') Q := by
  subst hs
  intro m hm
  have hcell := (hm.cells a b).mpr (by simp)
  simp only [Code.write,hcell,List.mem_singleton]
  refine ⟨?_,(),_,_,rfl,hm.write b',hQ⟩
  rintro m' rfl
  exact ⟨_,hm.write b',hC⟩

theorem free {a : ℕ} {b : β} {Q : Unit → Multiset (ℕ × β) → Prop} (hs : s = {(a,b)} + s')
    (hC : C s') (hQ : Q () s') : Triple C s (Code.free a) Q := by
  subst hs
  intro m hm
  have hcell := (hm.cells a b).mpr (by simp)
  simp only [Code.free,hcell,List.mem_singleton]
  refine ⟨?_,(),_,_,rfl,hm.release,hQ⟩
  rintro m' rfl
  exact ⟨_,hm.release,hC⟩

/-- One step after the other, with the blocks in between. -/
theorem seq {f : α → Code β γ} {S : γ → Multiset (ℕ × β) → Prop}
    (hp : Triple C s p fun _ u => u = s') (hf : ∀ r, Triple C s' (f r) S) : Triple C s (p >>= f) S :=
  hp.bind fun r _ hu => hu ▸ hf r

theorem mallocThen {b : β} {f : ℕ → Code β γ} {S : γ → Multiset (ℕ × β) → Prop}
    (h : ∀ a, C ({(a,b)} + s) ∧ Triple C ({(a,b)} + s) (f a) S) : Triple C s (Code.malloc b >>= f) S :=
  (malloc (Q:=fun a u => u = {(a,b)} + s) fun a _ => ⟨(h a).1,rfl⟩).bind fun a _ hu => hu ▸ (h a).2

theorem writeThen {a : ℕ} {b b' : β} {f : Unit → Code β γ} {S : γ → Multiset (ℕ × β) → Prop}
    (hs : s = {(a,b)} + s') (hC : C ({(a,b')} + s')) (hf : Triple C ({(a,b')} + s') (f ()) S) :
    Triple C s (Code.write a b' >>= f) S :=
  (write hs hC rfl).seq fun _ => hf

theorem freeThen {a : ℕ} {b : β} {f : Unit → Code β γ} {S : γ → Multiset (ℕ × β) → Prop}
    (hs : s = {(a,b)} + s') (hC : C s') (hf : Triple C s' (f ()) S) : Triple C s (Code.free a >>= f) S :=
  (free hs hC rfl).seq fun _ => hf

theorem sized {f : ℕ → Code β α} (h : ∀ fuel, s.card < fuel → Triple C s (f fuel) Q) :
    Triple C s (Code.sized f) Q :=
  fun m hm => h (m.bound+1) (Nat.lt_succ_of_le hm.card_le) m hm

end Triple

/-- The code only reads, and this is what it finds. -/
def Reads (s : Multiset (ℕ × β)) (p : Code β α) (r : α) : Prop :=
  ∀ m, Owns m s → p m = ⟨[],.ok (r,m)⟩

namespace Reads
variable {r : α} {f : α → Code β γ}

theorem pure : Reads s (Pure.pure r : Code β α) r := fun _ _ => rfl

theorem read {a : ℕ} {b : β} (hb : (a,b) ∈ s) : Reads s (Code.read a) b := fun m hm => by
  simp [Code.read,(hm.cells a b).mpr hb]

theorem deref {a : ℕ} : Reads s (Code.deref (some a)) a := fun _ _ => rfl

theorem bind {r' : γ} (hp : Reads s p r) (hf : Reads s (f r) r') : Reads s (p >>= f) r' := by
  intro m hm
  have hr : (p m).result = .ok (r,m) := by rw [hp m hm]
  rw [bind_ok hr,hp m hm,hf m hm]
  rfl

theorem sized {f : ℕ → Code β α} (h : ∀ fuel, s.card < fuel → Reads s (f fuel) r) :
    Reads s (Code.sized f) r :=
  fun m hm => h (m.bound+1) (Nat.lt_succ_of_le hm.card_le) m hm

theorem triple (hp : Reads s p r) (h : Q r s) : Triple C s p Q := by
  intro m hm
  rw [hp m hm]
  exact ⟨fun _ hm' => absurd hm' List.not_mem_nil,r,m,s,rfl,hm,h⟩

theorem andThen {S : γ → Multiset (ℕ × β) → Prop} (hp : Reads s p r) (hf : Triple C s (f r) S) :
    Triple C s (p >>= f) S :=
  (hp.triple (Q := fun r' u => r' = r ∧ u = s) ⟨rfl,rfl⟩).bind fun _ _ ⟨hr,hu⟩ => hr ▸ hu ▸ hf

end Reads

namespace Hits
variable {P : Multiset (ℕ × β) → Prop} {f : α → Code β γ}

theorem mono {P' : Multiset (ℕ × β) → Prop} (h : Hits s p P) (hP : ∀ u, P u → P' u) : Hits s p P' := by
  intro m hm
  obtain ⟨m',hm',u,hu,h⟩ := h m hm
  exact ⟨m',hm',u,hu,hP u h⟩

theorem bind (h : Hits s p P) : Hits s (p >>= f) P := by
  intro m hm
  obtain ⟨m',hm',hP⟩ := h m hm
  exact ⟨m',mem_trace_bind hm',hP⟩

theorem next (hp : Triple (fun _ => True) s p R) (hf : ∀ r u, R r u → Hits u (f r) P) :
    Hits s (p >>= f) P := by
  intro m hm
  obtain ⟨_,r,m',u,hr,hu,hR⟩ := hp m hm
  obtain ⟨m₁,hm₁,hP⟩ := hf r u hR m' hu
  exact ⟨m₁,by rw [bind_ok hr]; exact List.mem_append_right _ hm₁,hP⟩

theorem andThen {r : α} (hp : Reads s p r) (hf : Hits s (f r) P) : Hits s (p >>= f) P :=
  next (hp.triple (Q := fun r' u => r' = r ∧ u = s) ⟨rfl,rfl⟩) fun _ _ ⟨hr,hu⟩ => hr ▸ hu ▸ hf

theorem free {a : ℕ} {b : β} (hs : s = {(a,b)} + s') (hP : Gone a s' → P s') : Hits s (Code.free a) P := by
  subst hs
  intro m hm
  have hcell := (hm.cells a b).mpr (by simp)
  refine ⟨m.release a,by simp [Code.free,hcell],s',hm.release,hP hm.once.1⟩

theorem write {a : ℕ} {b b' : β} (hs : s = {(a,b)} + s') (hP : P ({(a,b')} + s')) :
    Hits s (Code.write a b') P := by
  subst hs
  intro m hm
  have hcell := (hm.cells a b).mpr (by simp)
  exact ⟨m.store a b',by simp [Code.write,hcell],_,hm.write b',hP⟩

theorem sized {f : ℕ → Code β α} (h : ∀ fuel, s.card < fuel → Hits s (f fuel) P) :
    Hits s (Code.sized f) P :=
  fun m hm => h (m.bound+1) (Nat.lt_succ_of_le hm.card_le) m hm

end Hits

namespace Fails
variable {f : α → Code β γ}

theorem bind (h : Fails s p) : Fails s (p >>= f) := by
  intro m hm
  obtain ⟨e,he⟩ := h m hm
  exact ⟨e,by rw [bind_error he]⟩

theorem next (hp : Triple (fun _ => True) s p R) (hf : ∀ r u, R r u → Fails u (f r)) :
    Fails s (p >>= f) := by
  intro m hm
  obtain ⟨_,r,m',u,hr,hu,hR⟩ := hp m hm
  obtain ⟨e,he⟩ := hf r u hR m' hu
  exact ⟨e,by rw [bind_ok hr,he]⟩

theorem andThen {r : α} (hp : Reads s p r) (hf : Fails s (f r)) : Fails s (p >>= f) :=
  next (hp.triple (Q := fun r' u => r' = r ∧ u = s) ⟨rfl,rfl⟩) fun _ _ ⟨hr,hu⟩ => hr ▸ hu ▸ hf

theorem read {a : ℕ} (h : Gone a s) : Fails s (Code.read a) := fun m hm =>
  ⟨.dangling,by simp [Code.read,hm.gone.mp h]⟩

theorem free {a : ℕ} (h : Gone a s) : Fails s (Code.free a) := fun m hm =>
  ⟨.dangling,by simp [Code.free,hm.gone.mp h]⟩

theorem fail {e : MemoryFault} : Fails s (Code.fail e : Code β α) := fun _ _ => ⟨e,rfl⟩

theorem sized {f : ℕ → Code β α} (h : ∀ fuel, s.card < fuel → Fails s (f fuel)) :
    Fails s (Code.sized f) :=
  fun m hm => h (m.bound+1) (Nat.lt_succ_of_le hm.card_le) m hm

end Fails
end Triples
end Nav.Lib
