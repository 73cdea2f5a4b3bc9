import Nav.Lib.Run

/-! Noninterference by purging. Inputs that an observer must not notice are taken out of a run, and
the observer sees the same in the run of what is left. Which inputs these are may depend on the
state that the full run has reached. -/
namespace Nav.Machine
variable {σ ι ο ε β : Type*} (step : σ → ι → Except ε (σ × ο)) (removed : σ → ι → Bool)

/-- The inputs that stay, each judged in the state in which the full run takes it. -/
def purge : σ → List ι → List ι
  | _, [] => []
  | s, i::is =>
    match step s i with
    | .error _ => []
    | .ok (s',_) => if removed s i then purge s' is else i::purge s' is

/-- What is seen of a run. -/
def observed (view : ι → ο → List β) (is : List ι) (os : List ο) : List β :=
  (is.zip os).flatMap fun x => view x.1 x.2

@[simp] theorem observed_nil (view : ι → ο → List β) (os : List ο) : observed view [] os = [] := rfl

@[simp] theorem observed_cons (view : ι → ο → List β) (i : ι) (o : ο) (is : List ι) (os : List ο) :
    observed view (i::is) (o::os) = view i o ++ observed view is os := rfl

/-- If removed steps show nothing and keep the relation to the purged run, and the others are taken
there alike, both runs of allowed inputs end related and show the same. -/
theorem run_purge (Sim : σ → σ → Prop) (Allowed : ι → Prop) (view : ι → ο → List β)
    (hskip : ∀ s t i s' o, Sim s t → Allowed i → removed s i = true → step s i = .ok (s',o) →
      Sim s' t ∧ view i o = [])
    (hkeep : ∀ s t i s' o, Sim s t → Allowed i → removed s i = false → step s i = .ok (s',o) →
      ∃ t' o', step t i = .ok (t',o') ∧ Sim s' t' ∧ view i o' = view i o)
    {s t s' : σ} {is : List ι} {os : List ο} (hs : Sim s t) (his : ∀ i ∈ is, Allowed i)
    (h : run step s is = .ok (s',os)) :
    ∃ t' os', run step t (purge step removed s is) = .ok (t',os') ∧ Sim s' t' ∧
      observed view (purge step removed s is) os' = observed view is os := by
  induction is generalizing s t os with
  | nil =>
    obtain ⟨rfl,rfl⟩ := (run_nil step).mp h
    exact ⟨t,[],rfl,hs,rfl⟩
  | cons i is ih =>
    obtain ⟨s₁,o,os₁,h₁,hr,rfl⟩ := (run_cons step).mp h
    have ha : Allowed i := his i (by simp)
    have hrest : ∀ j ∈ is, Allowed j := fun j hj => his j (by simp [hj])
    simp only [purge,h₁]
    cases hi : removed s i with
    | true =>
      obtain ⟨hs₁,hv⟩ := hskip s t i s₁ o hs ha hi h₁
      obtain ⟨t',os',hr',hs',ho⟩ := ih hs₁ hrest hr
      exact ⟨t',os',hr',hs',by rw [observed_cons,hv,List.nil_append]; exact ho⟩
    | false =>
      obtain ⟨t₁,o₁,ht₁,hs₁,hv⟩ := hkeep s t i s₁ o hs ha hi h₁
      obtain ⟨t',os',hr',hs',ho⟩ := ih hs₁ hrest hr
      refine ⟨t',o₁::os',(run_cons step).mpr ⟨t₁,o₁,os',ht₁,hr',rfl⟩,hs',?_⟩
      simp only [Bool.false_eq_true,if_false,observed_cons,hv]
      rw [← ho]

end Nav.Machine
