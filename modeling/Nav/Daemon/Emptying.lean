import Nav.Daemon.Intact

/-! The two ways to empty an action stack: the loop of `cleanup_shell`, which deletes the head by its
own path while the counter is positive, and `list_delete_all`. -/
namespace Nav.Daemon
open Nav.Lib

namespace Memory

/-- One round of the loop of `cleanup_shell`. -/
def cleanupRound (h : Heap Action) (l : LinkedList) :
    Except HeapFault (LinkedList.Deleted Action) :=
  match l.head with
  | none => .error .dangling
  | some head =>
    match h.cells head with
    | none => .error .dangling
    | some cell => LinkedList.listDeleteNode compareActionPath h l cell.data.path

/-- The list after some rounds. -/
def afterRounds : ℕ → Heap Action → LinkedList → Except HeapFault (Heap Action × LinkedList)
  | 0, h, l => .ok (h,l)
  | k+1, h, l =>
    match cleanupRound h l with
    | .error e => .error e
    | .ok r => afterRounds k r.heap r.list

/-- The loop with the actions that it hands to `cleanup_action`, in order. -/
def cleanedLoop : ℕ → Heap Action → LinkedList →
    Except HeapFault (Heap Action × LinkedList × List Action)
  | 0, _, _ => .error .endless
  | fuel+1, h, l =>
    if 0 < l.nItems then
      match cleanupRound h l with
      | .error e => .error e
      | .ok r => (cleanedLoop fuel r.heap r.list).map fun c =>
          (c.1,c.2.1,r.removed.toList ++ c.2.2)
    else .ok (h,l,[])

/-- `cleanup_shell` with the actions that it cleans up. -/
def cleanedShell (h : Heap Action) (s : ShellNode) :
    Except HeapFault (Heap Action × LinkedList × List Action) :=
  cleanedLoop (s.actions.nItems.toNat+1) h s.actions

/-- Without the actions the loop is that of `cleanup_shell`. -/
theorem cleanedLoop_dropped (fuel : ℕ) (h : Heap Action) (l : LinkedList) :
    (cleanedLoop fuel h l).map (fun c => (c.1,c.2.1)) = cleanupLoop fuel h l := by
  induction fuel generalizing h l with
  | zero => rfl
  | succ fuel ih =>
    unfold cleanedLoop cleanupLoop cleanupRound
    split_ifs
    · cases l.head with
      | none => rfl
      | some head =>
        cases hc : h.cells head with
        | none => simp only [hc]; rfl
        | some cell =>
          simp only [hc]
          cases LinkedList.listDeleteNode compareActionPath h l cell.data.path with
          | error e => rfl
          | ok r =>
            simp only [← ih]
            cases cleanedLoop fuel r.heap r.list <;> rfl
    · rfl

section Rounds
variable {h : Heap Action} {l : LinkedList} {x : ℕ × Action} {xs : List (ℕ × Action)}

/-- The head is the first match of its own path, so a round removes the head. -/
theorem cleanupRound_head (hl : LinkedList.Holds h l (x::xs)) :
    ∃ next, cleanupRound h l = .ok ⟨0,h.free x.1,⟨next,l.nItems-1⟩,some x.2⟩ ∧
      LinkedList.Holds (h.free x.1) ⟨next,l.nItems-1⟩ xs := by
  obtain ⟨next,hp,hx,hrest⟩ := hl.free_head
  exact ⟨next,by simp [cleanupRound,LinkedList.listDeleteNode,hp,hx],hrest⟩

/-- After as many rounds the front of the stack is gone. -/
theorem afterRounds_spec (pre post : List (ℕ × Action))
    (hl : LinkedList.Holds h l (pre ++ post)) :
    ∃ h' l', afterRounds pre.length h l = .ok (h',l') ∧ LinkedList.Holds h' l' post := by
  induction pre generalizing h l with
  | nil => exact ⟨h,l,rfl,hl⟩
  | cons x pre ih =>
    obtain ⟨next,hround,hrest⟩ := cleanupRound_head hl
    obtain ⟨h',l',hrun,hpost⟩ := ih hrest
    refine ⟨h',l',?_,hpost⟩
    simp only [List.length_cons,afterRounds,hround]
    exact hrun

/-- The loop frees the nodes from the front and cleans up their actions in this order. -/
theorem cleanedLoop_spec (fuel : ℕ) (hl : LinkedList.Holds h l xs) (hfuel : xs.length < fuel) :
    cleanedLoop fuel h l = .ok (h.freeAll (addrs xs),LinkedList.empty,xs.map Prod.snd) := by
  induction xs generalizing h l fuel with
  | nil =>
    cases fuel with
    | zero => simp at hfuel
    | succ fuel =>
      rw [hl.eq_empty]
      rfl
  | cons x xs ih =>
    cases fuel with
    | zero => simp at hfuel
    | succ fuel =>
      obtain ⟨next,hround,hrest⟩ := cleanupRound_head hl
      have hpos : 0 < l.nItems := by
        rw [hl.counted,List.length_cons]
        omega
      simp only [cleanedLoop,hpos,if_true,hround,ih fuel hrest (by simpa using hfuel)]
      rfl

end Rounds

/-- On a shell with any actions, the counter being their number, `cleanup_shell` takes away the head
in every round, and leaves and cleans up what `list_delete_all` does. -/
theorem cleanupShell_as_deleteAll {h : Heap Action} (s : ShellNode) {xs : List (ℕ × Action)}
    (hchain : h.Seg s.actions.head xs none) (hcount : s.actions.nItems = xs.length) :
    (∀ pre x post, xs = pre ++ x::post →
      ∃ h₁ l₁ next, afterRounds pre.length h s.actions = .ok (h₁,l₁) ∧
        0 < l₁.nItems ∧ l₁.head = some x.1 ∧
        cleanupRound h₁ l₁ = .ok ⟨0,h₁.free x.1,⟨next,l₁.nItems-1⟩,some x.2⟩ ∧
        (h₁.free x.1).Seg next post none) ∧
    ∃ h', cleanedShell h s = .ok (h',⟨none,0⟩,xs.map Prod.snd) ∧
      cleanupShell h s = .ok (h',⟨none,0⟩) ∧
      LinkedList.listDeleteAll h s.actions = .ok (h',⟨none,0⟩,xs.map Prod.snd) := by
  have hl : LinkedList.Holds h s.actions xs := ⟨hchain,hchain.nodup,hcount⟩
  constructor
  · rintro pre x post rfl
    obtain ⟨h₁,l₁,hrun,hl₁⟩ := afterRounds_spec pre (x::post) hl
    obtain ⟨next,hround,hrest⟩ := cleanupRound_head hl₁
    refine ⟨h₁,l₁,next,hrun,?_,hl₁.chain.1,hround,hrest.chain⟩
    rw [hl₁.counted,List.length_cons]
    omega
  · have hloop := cleanedLoop_spec (s.actions.nItems.toNat+1) hl
      (by rw [hcount,Int.toNat_natCast]; exact Nat.lt_succ_self _)
    refine ⟨h.freeAll (addrs xs),hloop,?_,LinkedList.listDeleteAll_spec hl⟩
    rw [cleanupShell,← cleanedLoop_dropped,hloop]
    rfl

theorem cleanupShell_as_deleteAll_repeated : ∃ h h' : Heap Action, ∃ a b : Action,
    a.path = b.path ∧ h.Seg (some 5) [(5,a),(3,b)] none ∧
    cleanedShell h ⟨7,[],⟨some 5,2⟩⟩ = .ok (h',⟨none,0⟩,[a,b]) ∧
    LinkedList.listDeleteAll h ⟨some 5,2⟩ = .ok (h',⟨none,0⟩,[a,b]) := by
  let a : Action := ⟨C.CStr.empty⟩
  let h : Heap Action := (Heap.empty.store 5 ⟨a,some 3⟩).store 3 ⟨a,none⟩
  have h5 : h.cells 5 = some ⟨a,some 3⟩ :=
    (Heap.store_ne _ (by decide)).trans (Heap.store_self _)
  have h3 : h.cells 3 = some ⟨a,none⟩ := Heap.store_self _
  have hchain : h.Seg (some 5) [(5,a),(3,a)] none := ⟨rfl,some 3,h5,rfl,none,h3,rfl⟩
  obtain ⟨-,h',hcleaned,-,hall⟩ := cleanupShell_as_deleteAll ⟨7,[],⟨some 5,2⟩⟩ hchain rfl
  exact ⟨h,h',a,a,rfl,hchain,hcleaned,hall⟩

end Memory
end Nav.Daemon
