import Nav.Lib.Keyed
import Mathlib.Data.List.Induction

/-! Tables that are only written to. A write to a key of the table replaces its value; a new key
comes in if the write is accepted. What is in the table is what the last writes say. -/
namespace Nav.Lib
variable {α β κ ν μ : Type*}

/-- The element is the last one of the list with its key. -/
def LastAt (key : α → κ) (l : List α) (a : α) : Prop :=
  ∃ pre post, l = pre ++ a::post ∧ ∀ b ∈ post, key b ≠ key a

section Last
variable {key : α → κ} {l : List α} {a b : α} {k : κ}

lemma LastAt.mem (h : LastAt key l a) : a ∈ l := by
  obtain ⟨pre,post,rfl,_⟩ := h
  simp

/-- One more element is the last one with its key, and leaves the others. -/
theorem lastAt_snoc : LastAt key (l ++ [b]) a ↔ a = b ∨ key b ≠ key a ∧ LastAt key l a := by
  constructor
  · rintro ⟨pre,post,h,hpost⟩
    rcases List.eq_nil_or_concat post with rfl | ⟨post,last,rfl⟩
    · exact Or.inl (List.singleton_inj.mp (List.append_inj' h rfl).2).symm
    · right
      rw [List.concat_eq_append] at h hpost
      rw [← List.cons_append,← List.append_assoc] at h
      obtain ⟨h1,h2⟩ := List.append_inj' h rfl
      obtain rfl := List.singleton_inj.mp h2
      exact ⟨hpost b (by simp),pre,post,h1,fun c hc => hpost c (by simp [hc])⟩
  · rintro (rfl | ⟨hk,pre,post,rfl,hpost⟩)
    · exact ⟨l,[],rfl,by simp⟩
    · refine ⟨pre,post ++ [b],by simp,fun c hc => ?_⟩
      rcases List.mem_append.mp hc with hc | hc
      · exact hpost c hc
      · rwa [List.mem_singleton.mp hc]

/-- A key that occurs has a last element. -/
theorem exists_lastAt (key : α → κ) (h : ∃ b ∈ l, key b = k) : ∃ a, LastAt key l a ∧ key a = k := by
  induction l using List.reverseRecOn with
  | nil => simp at h
  | append_singleton l x ih =>
    by_cases hx : key x = k
    · exact ⟨x,lastAt_snoc.mpr (Or.inl rfl),hx⟩
    · obtain ⟨b,hb,hbk⟩ := h
      have hmem : b ∈ l := by
        rcases List.mem_append.mp hb with hb | hb
        · exact hb
        · exact absurd (List.mem_singleton.mp hb ▸ hbk) hx
      obtain ⟨a,ha,hak⟩ := ih ⟨b,hmem,hbk⟩
      exact ⟨a,lastAt_snoc.mpr (Or.inr ⟨hak ▸ hx,ha⟩),hak⟩

/-- There is one last element of a key. -/
theorem LastAt.unique (ha : LastAt key l a) (hb : LastAt key l b) (hk : key a = key b) : a = b := by
  induction l using List.reverseRecOn with
  | nil => simpa using ha.mem
  | append_singleton l x ih =>
    rcases lastAt_snoc.mp ha with rfl | ⟨hxa,ha⟩
    · rcases lastAt_snoc.mp hb with rfl | ⟨hxb,_⟩
      · rfl
      · exact absurd hk hxb
    · rcases lastAt_snoc.mp hb with rfl | ⟨_,hb⟩
      · exact absurd hk.symm hxa
      · exact ih ha hb

/-- Fewer elements leave a last one the last. -/
theorem LastAt.filter {p : α → Bool} (h : LastAt key l a) (hp : p a = true) :
    LastAt key (l.filter p) a := by
  obtain ⟨pre,post,rfl,hpost⟩ := h
  refine ⟨pre.filter p,post.filter p,?_,fun b hb => hpost b (List.mem_of_mem_filter hb)⟩
  rw [List.filter_append,List.filter_cons_of_pos hp]

/-- A map that keeps the keys keeps the last elements. -/
theorem lastAt_map (key : α → κ) {key' : β → κ} (f : α → β) (hf : ∀ a, key' (f a) = key a) {b : β} :
    LastAt key' (l.map f) b ↔ ∃ a, LastAt key l a ∧ f a = b := by
  constructor
  · rintro ⟨pre,post,h,hpost⟩
    obtain ⟨pre,rest,rfl,rfl,hrest⟩ := List.map_eq_append_iff.mp h
    obtain ⟨a,post,rfl,rfl,rfl⟩ := List.map_eq_cons_iff.mp hrest
    refine ⟨a,⟨pre,post,rfl,fun c hc => ?_⟩,rfl⟩
    rw [← hf,← hf]
    exact hpost (f c) (List.mem_map_of_mem hc)
  · rintro ⟨a,⟨pre,post,rfl,hpost⟩,rfl⟩
    refine ⟨pre.map f,post.map f,by simp,fun b hb => ?_⟩
    obtain ⟨c,hc,rfl⟩ := List.mem_map.mp hb
    rw [hf,hf]
    exact hpost c hc

/-- The last of the elements with a key is the last one with it. -/
theorem getLast?_filter_key [DecidableEq κ] (key : α → κ) :
    (l.filter (key · = k)).getLast? = some a ↔ LastAt key l a ∧ key a = k := by
  induction l using List.reverseRecOn with
  | nil => simpa using fun h : LastAt key [] a => absurd h.mem List.not_mem_nil
  | append_singleton l x ih =>
    rw [List.filter_append,lastAt_snoc]
    by_cases hx : key x = k
    · subst hx
      have hself : [x].filter (key · = key x) = [x] := by simp
      rw [hself,List.getLast?_append,List.getLast?_singleton,Option.some_or,Option.some.injEq,eq_comm]
      constructor
      · rintro rfl
        exact ⟨Or.inl rfl,rfl⟩
      · rintro ⟨rfl | ⟨hne,_⟩,hk⟩
        · rfl
        · exact absurd hk.symm hne
    · have hnil : [x].filter (key · = k) = [] := by simp [hx]
      rw [hnil,List.append_nil,ih]
      constructor
      · rintro ⟨ha,hk⟩
        exact ⟨Or.inr ⟨hk ▸ hx,ha⟩,hk⟩
      · rintro ⟨rfl | ⟨_,ha⟩,hk⟩
        · exact absurd hk hx
        · exact ⟨ha,hk⟩

end Last

/-- A write of a value under a key. -/
structure Write (κ ν : Type*) where
  key : κ
  value : ν
  accepted : Bool

section Put
variable [DecidableEq κ]

/-- The table after one write. -/
def put (l : List (κ × ν)) (w : Write κ ν) : List (κ × ν) :=
  if w.key ∈ l.map Prod.fst then modifyFirst (·.1 = w.key) (fun e => (e.1,w.value)) l
  else if w.accepted then l ++ [(w.key,w.value)] else l

variable {l : List (κ × ν)} {ws : List (Write κ ν)} {w : Write κ ν} {k : κ} {v : ν}

lemma put_nodup (hl : (l.map Prod.fst).Nodup) : ((put l w).map Prod.fst).Nodup := by
  unfold put
  split_ifs with hk ha
  · rwa [modifyFirst_map_eq _ (fun e => (e.1,w.value)) _ Prod.fst fun _ => rfl]
  · exact nodup_append_singleton Prod.fst l hl _ hk
  · exact hl

/-- A write counts for its own key, if it is accepted or the key is there already. -/
theorem mem_put (hl : (l.map Prod.fst).Nodup) : (k,v) ∈ put l w ↔
    if w.key = k then (w.accepted = true ∨ k ∈ l.map Prod.fst) ∧ w.value = v else (k,v) ∈ l := by
  unfold put
  by_cases hk : w.key ∈ l.map Prod.fst
  · rw [if_pos hk,modifyFirst_eq_map Prod.fst _ l w.key hl,List.mem_map]
    constructor
    · rintro ⟨e,he,heq⟩
      by_cases hew : e.1 = w.key
      · obtain ⟨rfl,rfl⟩ : e.1 = k ∧ w.value = v := by simpa [hew] using heq
        rw [if_pos hew.symm]
        exact ⟨Or.inr (List.mem_map_of_mem he),rfl⟩
      · rw [if_neg hew] at heq
        subst heq
        rwa [if_neg (Ne.symm hew)]
    · intro h
      split_ifs at h with hwk
      · obtain ⟨e,he,hek⟩ := List.mem_map.mp hk
        exact ⟨e,he,by rw [if_pos hek,h.2,hek,hwk]⟩
      · exact ⟨(k,v),h,by rw [if_neg (Ne.symm hwk)]⟩
  · rw [if_neg hk]
    by_cases hwk : w.key = k
    · subst hwk
      have hv : (w.key,v) ∉ l := fun hm => hk (List.mem_map_of_mem hm)
      rw [if_pos rfl]
      cases w.accepted with
      | true => simp [hv,eq_comm]
      | false => simp [hv,hk]
    · rw [if_neg hwk]
      split_ifs
      · simp [Ne.symm hwk]
      · rfl

lemma foldl_put_nodup (ws : List (Write κ ν)) : ((ws.foldl put []).map Prod.fst).Nodup := by
  induction ws using List.reverseRecOn with
  | nil => exact List.nodup_nil
  | append_singleton ws x ih =>
    rw [List.foldl_append]
    exact put_nodup ih

/-- A key with an accepted write is in the table, with the value of its last write. -/
theorem mem_foldl_put : (k,v) ∈ ws.foldl put [] ↔
    (∃ y ∈ ws, y.key = k ∧ y.accepted = true) ∧ ∃ w, LastAt Write.key ws w ∧ w.key = k ∧ w.value = v := by
  induction ws using List.reverseRecOn generalizing v with
  | nil => simp
  | append_singleton ws x ih =>
    have hkeys : k ∈ (ws.foldl put []).map Prod.fst ↔ ∃ y ∈ ws, y.key = k ∧ y.accepted = true := by
      constructor
      · intro hk
        obtain ⟨e,he,rfl⟩ := List.mem_map.mp hk
        exact (ih.mp he).1
      · rintro ⟨y,hy,hyk,ha⟩
        obtain ⟨w,hw,hwk⟩ := exists_lastAt Write.key ⟨y,hy,hyk⟩
        exact List.mem_map_of_mem (ih.mpr ⟨⟨y,hy,hyk,ha⟩,w,hw,hwk,rfl⟩)
    rw [List.foldl_append,List.foldl_cons,List.foldl_nil,mem_put (foldl_put_nodup ws),hkeys]
    simp only [lastAt_snoc,List.mem_append,List.mem_singleton]
    split_ifs with hx
    · subst hx
      constructor
      · rintro ⟨ha | ⟨y,hy,hyk,ha⟩,hv⟩
        · exact ⟨⟨x,Or.inr rfl,rfl,ha⟩,x,Or.inl rfl,rfl,hv⟩
        · exact ⟨⟨y,Or.inl hy,hyk,ha⟩,x,Or.inl rfl,rfl,hv⟩
      · rintro ⟨⟨y,hy | rfl,hyk,ha⟩,w,rfl | ⟨hne,_⟩,hwk,hv⟩
        · exact ⟨Or.inr ⟨y,hy,hyk,ha⟩,hv⟩
        · exact absurd hwk.symm hne
        · exact ⟨Or.inl ha,hv⟩
        · exact absurd hwk.symm hne
    · rw [ih]
      constructor
      · rintro ⟨⟨y,hy,hyk,ha⟩,w,hw,hwk,hv⟩
        exact ⟨⟨y,Or.inl hy,hyk,ha⟩,w,Or.inr ⟨hwk ▸ hx,hw⟩,hwk,hv⟩
      · rintro ⟨⟨y,hy | rfl,hyk,ha⟩,w,rfl | ⟨_,hw⟩,hwk,hv⟩
        · exact absurd hwk hx
        · exact ⟨⟨y,hy,hyk,ha⟩,w,hw,hwk,hv⟩
        · exact absurd hyk hx
        · exact absurd hyk hx

/-- The write is the first one of its key that is accepted. -/
def FirstAccepted (ws : List (Write κ ν)) (w : Write κ ν) : Prop :=
  w.accepted = true ∧ ∃ pre post, ws = pre ++ w::post ∧ ∀ y ∈ pre, y.key = w.key → y.accepted = false

omit [DecidableEq κ] in
lemma FirstAccepted.mem (h : FirstAccepted ws w) : w ∈ ws := by
  obtain ⟨_,pre,post,rfl,_⟩ := h
  simp

/-- The write of what `f` keeps of the value. -/
def Write.map (f : ν → μ) (w : Write κ ν) : Write κ μ := ⟨w.key,f w.value,w.accepted⟩

end Put
end Nav.Lib
