import Mathlib.Data.List.Nodup
import Mathlib.Data.List.Induction

/-! Insertion-ordered maps and their history. A map is rebuilt by replaying the log of the
operations that were carried out; the log alone says which value a key has and in which order
the keys stand. -/
namespace Nav.Lib
variable {κ ν : Type*}

/-- One change of a map. -/
inductive MapOp (κ ν : Type*)
  | put (key : κ) (value : ν)
  | del (key : κ)
  deriving DecidableEq

def MapOp.key : MapOp κ ν → κ
  | .put k _ => k
  | .del k => k

/-- The last operation of the log on `k` binds it to `v`. -/
def Binds (log : List (MapOp κ ν)) (k : κ) (v : ν) : Prop :=
  ∃ pre post, log = pre ++ .put k v::post ∧ ∀ op ∈ post, op.key ≠ k

/-- `k` came in right behind `pre`: it was absent there, was then bound, and has not been
deleted since. -/
def Born (log : List (MapOp κ ν)) (k : κ) (pre : List (MapOp κ ν)) : Prop :=
  ∃ v post, log = pre ++ .put k v::post ∧ .del k ∉ post ∧ ∀ w, ¬ Binds pre k w

section History
variable (log : List (MapOp κ ν)) (op : MapOp κ ν) (k : κ) (v : ν)

lemma not_binds_nil : ¬ Binds ([] : List (MapOp κ ν)) k v := by
  rintro ⟨pre,post,h,_⟩
  simp at h

/-- The last operation decides about its own key and says nothing about the others. -/
theorem binds_snoc : Binds (log ++ [op]) k v ↔ op = .put k v ∨ op.key ≠ k ∧ Binds log k v := by
  constructor
  · rintro ⟨pre,post,h,hp⟩
    rcases List.eq_nil_or_concat post with rfl | ⟨post,last,rfl⟩
    · left
      exact (List.append_inj' h rfl).2 |> List.singleton_inj.mp
    · right
      rw [List.concat_eq_append] at h hp
      rw [← List.cons_append,← List.append_assoc] at h
      obtain ⟨h1,h2⟩ := List.append_inj' h rfl
      obtain rfl := List.singleton_inj.mp h2
      exact ⟨hp op (by simp),pre,post,h1,fun o ho => hp o (by simp [ho])⟩
  · rintro (rfl | ⟨hk,pre,post,rfl,hp⟩)
    · exact ⟨log,[],rfl,by simp⟩
    · refine ⟨pre,post ++ [op],by simp,?_⟩
      intro o ho
      rcases List.mem_append.mp ho with ho | ho
      · exact hp o ho
      · rwa [List.mem_singleton.mp ho]

variable {log op k}

/-- A birth is remembered until the key is deleted. -/
theorem Born.snoc {pre : List (MapOp κ ν)} (h : Born log k pre) (hop : op ≠ .del k) :
    Born (log ++ [op]) k pre := by
  obtain ⟨v,post,rfl,hp,hb⟩ := h
  refine ⟨v,post ++ [op],by simp,?_,hb⟩
  simpa using ⟨hp,Ne.symm hop⟩

lemma Born.length_lt {pre : List (MapOp κ ν)} (h : Born log k pre) : pre.length < log.length := by
  obtain ⟨v,post,rfl,_,_⟩ := h
  simp

/-- While a key is not deleted it stays bound. -/
theorem binds_of_put (pre post : List (MapOp κ ν)) (h : .del k ∉ post) :
    ∃ w, Binds (pre ++ .put k v::post) k w := by
  induction post using List.reverseRecOn with
  | nil => exact ⟨v,pre,[],rfl,by simp⟩
  | append_singleton post op ih =>
    obtain ⟨w,hw⟩ := ih fun hm => h (by simp [hm])
    have hop : op ≠ .del k := fun he => h (by simp [he])
    rw [← List.cons_append,← List.append_assoc]
    by_cases hk : op.key = k
    · cases op with
      | put k' w' => exact ⟨w',(binds_snoc _ _ _ _).mpr (Or.inl (by rw [show k' = k from hk]))⟩
      | del k' => exact absurd (by rw [show k' = k from hk]) hop
    · exact ⟨w,(binds_snoc _ _ _ _).mpr (Or.inr ⟨hk,hw⟩)⟩

/-- The point at which a present key came in is unique. -/
theorem Born.unique {p q : List (MapOp κ ν)} (hp : Born log k p) (hq : Born log k q) : p = q := by
  have key : ∀ {p q : List (MapOp κ ν)}, Born log k p → Born log k q → ¬ p.length < q.length := by
    rintro p q ⟨v,post,rfl,hd,_⟩ ⟨w,post',h,_,habs⟩ hlt
    -- `q` extends `p` beyond the first binding, and that binding is still there at `q`
    obtain ⟨mid,rfl⟩ : ∃ mid, q = p ++ .put k v::mid := by
      have hpre : (p ++ [.put k v]) <+: q := by
        have hfirst : (p ++ [.put k v]) <+: p ++ .put k v::post := ⟨post,by simp⟩
        exact List.prefix_of_prefix_length_le hfirst ⟨_,h.symm⟩ (by simpa using Nat.succ_le_of_lt hlt)
      obtain ⟨mid,rfl⟩ := hpre
      exact ⟨mid,by simp⟩
    have hmid : .del k ∉ mid := by
      intro hm
      apply hd
      simp only [List.append_assoc,List.cons_append,List.append_cancel_left_eq,
        List.cons.injEq,true_and] at h
      rw [h]
      simp [hm]
    obtain ⟨u,hu⟩ := binds_of_put v p mid hmid
    exact habs u hu
  have hlen : p.length = q.length := by
    have h1 := key hp hq
    have h2 := key hq hp
    omega
  obtain ⟨v,post,rfl,_,_⟩ := hp
  obtain ⟨w,post',h,_,_⟩ := hq
  exact (List.append_inj h hlen).1

end History

/-- Bindings in the order in which their keys came in, each key once. -/
@[ext] structure OrderedMap (κ ν : Type*) where
  entries : List (κ × ν)
  nodup : (entries.map Prod.fst).Nodup

section Map
variable [DecidableEq κ]

namespace OrderedMap

def keys (m : OrderedMap κ ν) : List κ := m.entries.map Prod.fst

def empty : OrderedMap κ ν := ⟨[],List.nodup_nil⟩

def lookup (m : OrderedMap κ ν) (k : κ) : Option ν :=
  (m.entries.find? (·.1 = k)).map Prod.snd

/-- A present key keeps its place and takes the new value. -/
def rebind (es : List (κ × ν)) (k : κ) (v : ν) : List (κ × ν) :=
  es.map fun e => if e.1 = k then (k,v) else e

lemma keys_rebind (es : List (κ × ν)) (k : κ) (v : ν) :
    (rebind es k v).map Prod.fst = es.map Prod.fst := by
  simp only [rebind,List.map_map]
  apply List.map_congr_left
  intro e _
  by_cases h : e.1 = k <;> simp [h]

/-- Bind a key: in place if it is present, at the end otherwise. -/
def put (m : OrderedMap κ ν) (k : κ) (v : ν) : OrderedMap κ ν :=
  if h : k ∈ m.keys then ⟨rebind m.entries k v,by rw [keys_rebind]; exact m.nodup⟩
  else ⟨m.entries ++ [(k,v)],by
    rw [List.map_append,List.nodup_append]
    refine ⟨m.nodup,by simp,?_⟩
    intro a ha b hb hab
    obtain rfl : b = k := by simpa using hb
    exact h (hab ▸ ha)⟩

def del (m : OrderedMap κ ν) (k : κ) : OrderedMap κ ν :=
  ⟨m.entries.filter (·.1 ≠ k),m.nodup.sublist (List.filter_sublist.map _)⟩

def apply (m : OrderedMap κ ν) : MapOp κ ν → OrderedMap κ ν
  | .put k v => m.put k v
  | .del k => m.del k

def replay (log : List (MapOp κ ν)) : OrderedMap κ ν := log.foldl apply empty

@[simp] theorem replay_nil : replay ([] : List (MapOp κ ν)) = empty := rfl

@[simp] theorem replay_snoc (log : List (MapOp κ ν)) (op : MapOp κ ν) :
    replay (log ++ [op]) = (replay log).apply op := by
  simp [replay]

variable (m : OrderedMap κ ν) (k k' : κ) (v : ν)

lemma put_entries : (m.put k v).entries =
    if k ∈ m.keys then rebind m.entries k v else m.entries ++ [(k,v)] := by
  unfold put
  split_ifs <;> rfl

lemma keys_put : (m.put k v).keys = if k ∈ m.keys then m.keys else m.keys ++ [k] := by
  rw [keys,put_entries]
  split_ifs
  · exact keys_rebind m.entries k v
  · simp [keys]

lemma keys_del : (m.del k).keys = m.keys.filter (· ≠ k) := by
  simp only [keys,del,List.filter_map]
  rfl

lemma mem_keys_iff : k ∈ m.keys ↔ m.lookup k ≠ none := by
  simp [keys,lookup,List.find?_eq_none]

/-- Rebinding `k` changes what `k` finds and nothing else. -/
theorem find?_rebind (es : List (κ × ν)) : (rebind es k v).find? (·.1 = k') =
    if k' = k then (es.find? (·.1 = k)).map fun _ => (k,v) else es.find? (·.1 = k') := by
  induction es with
  | nil => simp [rebind]
  | cons e es ih =>
    simp only [rebind] at ih
    by_cases he : e.1 = k
    · by_cases hk : k' = k
      · simp [rebind,he,hk]
      · simp [rebind,he,hk,Ne.symm hk,ih]
    · by_cases he' : e.1 = k'
      · have hk : k' ≠ k := fun h => he (he'.trans h)
        simp [rebind,he',hk]
      · simp [rebind,he,he',ih]

lemma lookup_put : (m.put k v).lookup k' = if k' = k then some v else m.lookup k' := by
  have hfind : m.lookup k = none ↔ m.entries.find? (·.1 = k) = none := Option.map_eq_none_iff
  rw [lookup,put_entries]
  by_cases hk : k ∈ m.keys
  · rw [if_pos hk,find?_rebind]
    split_ifs
    · obtain ⟨e,he⟩ := Option.ne_none_iff_exists'.mp (mt hfind.mpr ((mem_keys_iff m k).mp hk))
      rw [he]
      rfl
    · rfl
  · have hnone := hfind.mp (not_not.mp (mt (mem_keys_iff m k).mpr hk))
    rw [if_neg hk,List.find?_append]
    split_ifs with he
    · rw [he,hnone]
      simp
    · simp [lookup,Ne.symm he]

lemma lookup_del : (m.del k).lookup k' = if k' = k then none else m.lookup k' := by
  simp only [lookup,del,List.find?_filter]
  split_ifs with he
  · subst he
    simp
  · congr 2
    funext e
    by_cases h : e.1 = k'
    · simp [h,he]
    · simp [h]

end OrderedMap

variable (log : List (MapOp κ ν)) (k : κ) (v : ν)

/-- Replaying the log gives every key the value of the last operation on it. -/
theorem lookup_replay : (OrderedMap.replay log).lookup k = some v ↔ Binds log k v := by
  induction log using List.reverseRecOn with
  | nil => simpa [OrderedMap.lookup,OrderedMap.empty] using not_binds_nil k v
  | append_singleton log op ih =>
    rw [OrderedMap.replay_snoc,binds_snoc]
    cases op with
    | put k' w =>
      simp only [OrderedMap.apply,OrderedMap.lookup_put,MapOp.key,MapOp.put.injEq]
      split_ifs with h
      · subst h; simp
      · simp [ih,Ne.symm h]
    | del k' =>
      simp only [OrderedMap.apply,OrderedMap.lookup_del,MapOp.key]
      split_ifs with h
      · subst h; simp
      · simp [ih,Ne.symm h]

lemma mem_keys_replay : k ∈ (OrderedMap.replay log).keys ↔ ∃ v, Binds log k v := by
  rw [OrderedMap.mem_keys_iff,Option.ne_none_iff_exists']
  exact exists_congr fun v => lookup_replay log k v

/-- The keys of the replayed map stand in the order in which they came in. -/
theorem keys_replay_sorted (log : List (MapOp κ ν)) :
    (OrderedMap.replay log).keys.Pairwise fun a b =>
      ∃ p q, Born log a p ∧ Born log b q ∧ p.length < q.length := by
  have hborn : ∀ log : List (MapOp κ ν), (∀ k ∈ (OrderedMap.replay log).keys, ∃ p, Born log k p) ∧
      (OrderedMap.replay log).keys.Pairwise fun a b =>
        ∃ p q, Born log a p ∧ Born log b q ∧ p.length < q.length := by
    intro log
    induction log using List.reverseRecOn with
    | nil => simp [OrderedMap.keys,OrderedMap.empty]
    | append_singleton log op ih =>
      obtain ⟨hex,hpw⟩ := ih
      have hmono : ∀ {ks : List κ}, (∀ a ∈ ks, op ≠ .del a) → ks.Pairwise (fun a b =>
          ∃ p q, Born log a p ∧ Born log b q ∧ p.length < q.length) → ks.Pairwise (fun a b =>
          ∃ p q, Born (log ++ [op]) a p ∧ Born (log ++ [op]) b q ∧ p.length < q.length) := by
        intro ks hks h
        refine h.imp_of_mem ?_
        rintro a b ha hb ⟨p,q,hp,hq,hlt⟩
        exact ⟨p,q,hp.snoc (hks a ha),hq.snoc (hks b hb),hlt⟩
      rw [OrderedMap.replay_snoc]
      cases op with
      | put k v =>
        simp only [OrderedMap.apply,OrderedMap.keys_put]
        split_ifs with hk
        · exact ⟨fun a ha => (hex a ha).imp fun p hp => hp.snoc (by simp),hmono (by simp) hpw⟩
        · have hnew : Born (log ++ [.put k v]) k log := by
            refine ⟨v,[],rfl,by simp,fun w hw => hk ?_⟩
            exact (mem_keys_replay log k).mpr ⟨w,hw⟩
          constructor
          · intro a ha
            rcases List.mem_append.mp ha with ha | ha
            · exact (hex a ha).imp fun p hp => hp.snoc (by simp)
            · rw [List.mem_singleton.mp ha]; exact ⟨log,hnew⟩
          · rw [List.pairwise_append]
            refine ⟨hmono (by simp) hpw,List.pairwise_singleton _ _,?_⟩
            intro a ha b hb
            rw [List.mem_singleton.mp hb]
            obtain ⟨p,hp⟩ := hex a ha
            exact ⟨p,log,hp.snoc (by simp),hnew,hp.length_lt⟩
      | del k =>
        simp only [OrderedMap.apply,OrderedMap.keys_del]
        have hne : ∀ a ∈ (OrderedMap.replay log).keys.filter (· ≠ k), (MapOp.del k : MapOp κ ν) ≠ .del a := by
          intro a ha he
          simp only [List.mem_filter,decide_eq_true_eq] at ha
          exact ha.2 (MapOp.del.inj he).symm
        constructor
        · intro a ha
          exact (hex a (List.mem_of_mem_filter ha)).imp fun p hp => hp.snoc (hne a ha)
        · exact hmono hne (hpw.sublist List.filter_sublist)
  exact (hborn log).2

end Map
end Nav.Lib
