import Nav.Daemon.Arguments
import Nav.Daemon.Codec
import Nav.Daemon.Invariant

/-! Restarting the daemon: whether reading the tag file back gives the tags in memory. -/
namespace Nav.Daemon
open Nav.C Nav.Lib

/-- A start on the tag file as it stands rebuilds the tag list. -/
def RestartLaw (validPath : CStr → Bool) (s : State) : Prop :=
  (readTagFile validPath (fun _ => true) s.tagFile NodeList.empty).2 = s.tags

instance (validPath : CStr → Bool) (s : State) : Decidable (RestartLaw validPath s) :=
  inferInstanceAs (Decidable (_ = _))

/-- Path existence does not change, the tag file can be written, and arguments have the length
that the receive buffer leaves them. -/
structure Steady (validPath : CStr → Bool) (c : Call) : Prop where
  paths : c.env.fstatat = validPath
  fopen : c.env.fopen = true
  short : ∀ line, c.args = some line → line.length ≤ 93

/-- Between two commands the file holds the list, or nothing has been saved yet. -/
structure Saved (validPath : CStr → Bool) (s : State) : Prop where
  wellFormed : s.WellFormed
  entries : ∀ t ∈ s.tags.nodes, Storable validPath t
  file : s.tagFile = some (tagFileText s.tags) ∨ s.tagFile = none ∧ s.tags = NodeList.empty

section Law
variable {validPath : CStr → Bool} {s s' : State} {c : Call}

lemma Saved.law_iff (h : Saved validPath s) :
    RestartLaw validPath s ↔ ∀ t ∈ s.tags.nodes, Loadable t.tag := by
  unfold RestartLaw
  rcases h.file with hf | ⟨hf,he⟩
  · rw [hf]
    exact readTagFile_tagFileText validPath s.tags h.entries h.wellFormed.tags h.wellFormed.tagsCounted
  · simp [hf,he,readTagFile,NodeList.empty]

lemma saveTags_file (env : Env) (s : State) (h : env.fopen = true) :
    (saveTags env s).tagFile = some (tagFileText s.tags) := by
  simp [saveTags,writeTagFile,h]

/-- What is stored can be written on one line and read back from it, but for its tag. -/
theorem Stores.storable {tag path : CStr} (h : Stores s c tag path) (hc : Steady validPath c) :
    Storable validPath ⟨tag,path⟩ := by
  obtain ⟨line,hargs,hadd⟩ := h.args
  have hlen := addArgs_length line hadd
  have hshort := hc.short line hargs
  have hvalid : validPath path = true := by rw [← hc.paths]; exact h.valid
  obtain ⟨w₁,w₂,_,rfl,rfl⟩ := (addArgs_eq_some line).mp hadd
  exact ⟨trimmed_unbroken w₁,trimmed_unbroken w₂,hvalid,by simp only; omega⟩

/-- Every change keeps file and list together. -/
theorem Saved.change (h : Saved validPath s) (hc : Steady validPath c) (hch : Change c s s') :
    Saved validPath s' := by
  refine ⟨h.wellFormed.change hch,hch.forall_tags h.entries fun _ _ hst => hst.storable hc,?_⟩
  cases hch with
  | rebound => exact Or.inl (saveTags_file _ _ hc.fopen)
  | added => exact Or.inl (saveTags_file _ _ hc.fopen)
  | deleted => exact Or.inl (saveTags_file _ _ hc.fopen)
  | _ => exact h.file

lemma startState_saved (cacheDir : CStr) (malloc : ℕ → Bool) :
    Saved validPath (startState cacheDir validPath malloc none) :=
  ⟨startState_wellFormed cacheDir validPath malloc none,by rintro _ ⟨⟩,Or.inr ⟨rfl,rfl⟩⟩

lemma run_saved {cs : List Call} {os : List Outcome} (h : Saved validPath s)
    (hcs : ∀ c ∈ cs, Steady validPath c) (hr : runCalls s cs = .ok (s',os)) :
    Saved validPath s' :=
  Machine.run_invariant handle (Saved validPath) (Steady validPath)
    (fun _ _ _ _ hs hc hh => hs.change hc (handle_change hh)) h hcs hr

/-- A storing `add` is carried out, and the tag is in the list afterwards. -/
theorem Stores.handled {tag path : CStr} (h : Stores s c tag path) :
    ∃ s' o, handle s c = .ok (s',o) ∧ tag ∈ s'.tags.nodes.map Tag.tag := by
  obtain ⟨hc,⟨sh,hs⟩,⟨line,hargs,hadd⟩,hv,hroom⟩ := h
  suffices hd : ∃ o, cmdAdd c.env s c.pid c.args = .ok o ∧ tag ∈ o.state.tags.nodes.map Tag.tag by
    obtain ⟨o,ho,hm⟩ := hd
    exact ⟨o.state,o,handle_ok.mpr ⟨by simp only [dispatchCommand,hc,cmdFunc,ho],rfl⟩,hm⟩
  rw [cmdAdd,withShell_some hs]
  simp only [hargs,hadd,getTag,hv,Bool.not_true,Bool.false_eq_true,if_false]
  cases ht : s.tag? tag with
  | some t =>
    refine ⟨_,rfl,?_⟩
    have hm : tag ∈ s.tags.nodes.map Tag.tag := by
      rw [← tag?_tag ht]
      exact List.mem_map_of_mem (List.mem_of_find?_eq_some ht)
    simp only [reply,saveTags]
    rwa [tags_update_keys]
  | none =>
    obtain ⟨hn,hd⟩ := hroom.resolve_left (fun hne => hne ht)
    simp only [hn,hd,Bool.not_true,Bool.false_eq_true,if_false]
    exact ⟨_,rfl,by simp [reply,saveTags]⟩

/-- The restart law holds after every command of a run exactly when no command stores a tag that
is empty or has a separator in it. -/
theorem restartLaw_iff (validPath : CStr → Bool) (cacheDir : CStr) (malloc : ℕ → Bool)
    (cs : List Call) (hcs : ∀ c ∈ cs, Steady validPath c) :
    (∀ pre s os, pre <+: cs →
      runCalls (startState cacheDir validPath malloc none) pre = .ok (s,os) →
      RestartLaw validPath s) ↔
    (∀ pre c s os, pre ++ [c] <+: cs →
      runCalls (startState cacheDir validPath malloc none) pre = .ok (s,os) →
      ∀ tag path, Stores s c tag path → Loadable tag) := by
  have hsaved : ∀ pre s os, pre <+: cs →
      runCalls (startState cacheDir validPath malloc none) pre = .ok (s,os) → Saved validPath s :=
    fun pre s os hp hr => run_saved (startState_saved cacheDir malloc)
      (fun c hc => hcs c (hp.subset hc)) hr
  constructor
  · intro hlaw pre c s os hp hr tag path hst
    obtain ⟨s',o,hh,hm⟩ := hst.handled
    have hr' : runCalls (startState cacheDir validPath malloc none) (pre ++ [c]) = .ok (s',os ++ [o]) :=
      (Machine.run_snoc handle).mpr ⟨s,os,o,hr,hh,rfl⟩
    obtain ⟨u,hu,rfl⟩ := List.mem_map.mp hm
    exact (hsaved _ _ _ hp hr').law_iff.mp (hlaw _ _ _ hp hr') u hu
  · intro hst pre s os hp hr
    refine (hsaved pre s os hp hr).law_iff.mpr ?_
    -- every tag of the list has been stored by some command of the run
    induction pre using List.reverseRecOn generalizing s os with
    | nil =>
      obtain ⟨rfl,_⟩ : _ = s ∧ [] = os := by simpa using hr
      rintro t ⟨⟩
    | append_singleton pre c ih =>
      obtain ⟨t,os',o,hr',hh,_⟩ := (Machine.run_snoc handle).mp hr
      have hp' : pre <+: cs := (List.prefix_append pre [c]).trans hp
      exact (handle_change hh).forall_tags (ih t os' hp' hr') (hst pre c t os' hp hr')

/-- A tag with a separator in it is stored under another name by the next start. -/
theorem restartLaw_fails : ¬ ∀ (validPath : CStr → Bool) (cacheDir : CStr) (malloc : ℕ → Bool)
    (cs : List Call), (∀ c ∈ cs, Steady validPath c) → ∀ pre s os, pre <+: cs →
      runCalls (startState cacheDir validPath malloc none) pre = .ok (s,os) →
      RestartLaw validPath s := by
  intro h
  have hlaw := h (· = CStr.ofLit "/tmp") (CStr.ofLit "/c") (fun _ => true)
    [⟨openEnv (· = CStr.ofLit "/tmp"),CStr.ofLit "register",1,none⟩,
     ⟨openEnv (· = CStr.ofLit "/tmp"),CStr.ofLit "add",1,some (CStr.ofLit "a=b /tmp")⟩]
    (by simp [openEnv]; constructor <;> constructor <;> simp; decide) _ _ _ (List.prefix_refl _) rfl
  revert hlaw
  decide

theorem restartLaw_register_add : ∃ s os,
    runCalls (startState (CStr.ofLit "/c") (· = CStr.ofLit "/tmp") (fun _ => true) none)
      [⟨openEnv (· = CStr.ofLit "/tmp"),CStr.ofLit "register",1,none⟩,
       ⟨openEnv (· = CStr.ofLit "/tmp"),CStr.ofLit "add",1,some (CStr.ofLit "test /tmp")⟩] =
      .ok (s,os) ∧ RestartLaw (· = CStr.ofLit "/tmp") s := by
  refine ⟨_,_,rfl,(restartLaw_iff (· = CStr.ofLit "/tmp") (CStr.ofLit "/c") (fun _ => true)
    [⟨openEnv (· = CStr.ofLit "/tmp"),CStr.ofLit "register",1,none⟩,
     ⟨openEnv (· = CStr.ofLit "/tmp"),CStr.ofLit "add",1,some (CStr.ofLit "test /tmp")⟩]
    ?_).mpr ?_ _ _ _ (List.prefix_refl _) rfl⟩
  · simp only [List.mem_cons,List.not_mem_nil,or_false,forall_eq_or_imp,forall_eq]
    exact ⟨⟨rfl,rfl,by simp⟩,⟨rfl,rfl,by rintro _ ⟨⟩; decide⟩⟩
  · intro pre c s os hp _ tag path hst
    have hc := hp.subset (by simp : c ∈ pre ++ [c])
    obtain ⟨line,hargs,hadd⟩ := hst.args
    simp only [List.mem_cons,List.not_mem_nil,or_false] at hc
    rcases hc with rfl | rfl
    · simp at hargs
    · obtain rfl : CStr.ofLit "test /tmp" = line := by simpa using hargs
      have hwords : (addArgs (CStr.ofLit "test /tmp")).1 =
          some (CStr.ofLit "test",CStr.ofLit "/tmp") := by decide
      obtain ⟨rfl,_⟩ : CStr.ofLit "test" = tag ∧ CStr.ofLit "/tmp" = path := by
        simpa [hwords] using hadd
      decide

end Law
end Nav.Daemon
