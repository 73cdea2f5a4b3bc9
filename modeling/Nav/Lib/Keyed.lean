import Mathlib.Data.List.Nodup

/-! Lists searched, changed and shortened at their first match, and what that comes to when
the keys are distinct. -/
namespace Nav.Lib
variable {α κ : Type*}

/-- Change the first element that `same` accepts. -/
def modifyFirst (same : α → Bool) (f : α → α) : List α → List α
  | [] => []
  | a::as => if same a then f a::as else a::modifyFirst same f as

section First
variable (same : α → Bool) (f : α → α) (l : List α)

lemma modifyFirst_map_eq {β : Type*} (g : α → β) (hg : ∀ a, g (f a) = g a) :
    (modifyFirst same f l).map g = l.map g := by
  induction l with
  | nil => rfl
  | cons a as ih =>
    simp only [modifyFirst]
    split_ifs <;> simp [hg,ih]

/-- A map that respects test and change goes through. -/
theorem map_modifyFirst {β : Type*} (g : α → β) (same' : β → Bool) (f' : β → β)
    (hs : ∀ a, same' (g a) = same a) (hf : ∀ a, g (f a) = f' (g a)) :
    (modifyFirst same f l).map g = modifyFirst same' f' (l.map g) := by
  induction l with
  | nil => rfl
  | cons a as ih =>
    simp only [modifyFirst,List.map_cons,hs]
    split_ifs
    · rw [List.map_cons,hf]
    · rw [List.map_cons,ih]

@[simp] theorem length_modifyFirst : (modifyFirst same f l).length = l.length := by
  induction l with
  | nil => rfl
  | cons a as ih =>
    simp only [modifyFirst]
    split_ifs <;> simp [ih]

/-- What holds of all elements still does if it holds of the changed one. -/
theorem forall_mem_modifyFirst {p : α → Prop} (h : ∀ a ∈ l, p a)
    (hf : ∀ a ∈ l, same a = true → p (f a)) : ∀ a ∈ modifyFirst same f l, p a := by
  induction l with
  | nil => exact h
  | cons a as ih =>
    obtain ⟨ha,has⟩ := List.forall_mem_cons.mp h
    obtain ⟨hfa,hfas⟩ := List.forall_mem_cons.mp hf
    simp only [modifyFirst]
    split_ifs with hs
    · exact List.forall_mem_cons.mpr ⟨hfa hs,has⟩
    · exact List.forall_mem_cons.mpr ⟨ha,ih has hfas⟩

end First

section Key
variable [DecidableEq κ] (key : α → κ) (f : α → α) (l : List α) (k k' : κ)

/-- Changing the element at `k` changes the lookup at `k` and no other. -/
theorem find?_modifyFirst (hf : ∀ a, key (f a) = key a) :
    (modifyFirst (key · = k) f l).find? (key · = k') =
      if k' = k then (l.find? (key · = k)).map f else l.find? (key · = k') := by
  induction l with
  | nil => simp [modifyFirst]
  | cons a as ih =>
    by_cases ha : key a = k
    · by_cases hk : k' = k
      · simp [modifyFirst,ha,hf,hk]
      · simp [modifyFirst,ha,hf,hk,Ne.symm hk]
    · by_cases ha' : key a = k'
      · have hk : k' ≠ k := fun h => ha (ha'.trans h)
        simp [modifyFirst,ha',hk]
      · simp [modifyFirst,ha,ha',ih]

lemma find?_key_none : l.find? (key · = k) = none ↔ k ∉ l.map key := by
  simp [List.find?_eq_none]

lemma key_of_find? {a : α} (h : l.find? (key · = k) = some a) : key a = k := by
  simpa using List.find?_some h

/-- With distinct keys, every element is the one its key finds. -/
theorem find?_of_mem (hl : (l.map key).Nodup) {a : α} (h : a ∈ l) :
    l.find? (key · = key a) = some a := by
  induction l with
  | nil => simp at h
  | cons b bs ih =>
    obtain ⟨hb,hbs⟩ := List.nodup_cons.mp hl
    rcases List.mem_cons.mp h with rfl | h
    · simp
    · have hne : key b ≠ key a := fun he => hb (he ▸ List.mem_map_of_mem h)
      simpa [List.find?_cons,hne] using ih hbs h

/-- With distinct keys, removing the first match at `k` removes `k` altogether. -/
theorem find?_eraseP (hl : (l.map key).Nodup) :
    (l.eraseP (key · = k)).find? (key · = k') =
      if k' = k then none else l.find? (key · = k') := by
  induction l with
  | nil => simp
  | cons a as ih =>
    obtain ⟨ha,has⟩ := List.nodup_cons.mp hl
    by_cases hak : key a = k
    · subst hak
      rw [List.eraseP_cons_of_pos (by simp)]
      split_ifs with hk
      · subst hk
        exact (find?_key_none key as (key a)).mpr ha
      · simp [Ne.symm hk]
    · rw [List.eraseP_cons_of_neg (by simpa using hak)]
      by_cases hak' : key a = k'
      · have hk : k' ≠ k := fun h => hak (hak'.trans h)
        simp [hak',hk]
      · simpa [List.find?_cons,hak'] using ih has

/-- With distinct keys, removing the first match at `k` filters `k` out. -/
theorem eraseP_eq_filter (hl : (l.map key).Nodup) :
    l.eraseP (key · = k) = l.filter (key · ≠ k) := by
  induction l with
  | nil => rfl
  | cons a as ih =>
    obtain ⟨ha,has⟩ := List.nodup_cons.mp hl
    by_cases hak : key a = k
    · subst hak
      rw [List.eraseP_cons_of_pos (by simp),List.filter_cons_of_neg (by simp)]
      refine (List.filter_eq_self.mpr fun b hb => ?_).symm
      have hne : key b ≠ key a := fun h => ha (h ▸ List.mem_map_of_mem hb)
      simpa using hne
    · rw [List.eraseP_cons_of_neg (by simpa using hak),List.filter_cons_of_pos (by simpa using hak),
        ih has]

omit [DecidableEq κ] in
/-- A new key may be appended. -/
theorem nodup_append_singleton (hl : (l.map key).Nodup) (a : α) (ha : key a ∉ l.map key) :
    ((l ++ [a]).map key).Nodup := by
  rw [List.map_append,List.nodup_append]
  refine ⟨hl,List.nodup_singleton _,fun b hb c hc hbc => ha ?_⟩
  rwa [← List.mem_singleton.mp hc,← hbc]

lemma nodup_eraseP (hl : (l.map key).Nodup) : ((l.eraseP (key · = k)).map key).Nodup :=
  hl.sublist (List.eraseP_sublist.map key)

/-- With distinct keys, changing the first match at `k` maps the change over `k`. -/
theorem modifyFirst_eq_map (hl : (l.map key).Nodup) :
    modifyFirst (key · = k) f l = l.map fun a => if key a = k then f a else a := by
  induction l with
  | nil => rfl
  | cons a as ih =>
    obtain ⟨ha,has⟩ := List.nodup_cons.mp hl
    by_cases hak : key a = k
    · have hrest : as.map (fun b => if key b = k then f b else b) = as := by
        refine (List.map_congr_left fun b hb => ?_).trans (List.map_id as)
        have hne : key b ≠ k := fun h => ha ((hak.trans h.symm) ▸ List.mem_map_of_mem hb)
        simp [hne]
      simp [modifyFirst,hak,hrest]
    · simp [modifyFirst,hak,ih has]

end Key
end Nav.Lib
