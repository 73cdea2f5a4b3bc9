import Mathlib.Data.List.Basic

/-! Runs of a machine whose steps may fail. A run over a list of inputs collects the outputs;
a failing step ends it. The rules below turn facts about one step into facts about all runs. -/
namespace Nav.Machine
variable {σ ι ο ε α : Type*}

def run (step : σ → ι → Except ε (σ × ο)) : σ → List ι → Except ε (σ × List ο)
  | s, [] => .ok (s,[])
  | s, i::is =>
    match step s i with
    | .error e => .error e
    | .ok (s',o) =>
      match run step s' is with
      | .error e => .error e
      | .ok (t,os) => .ok (t,o::os)

variable (step : σ → ι → Except ε (σ × ο))

@[simp] theorem run_nil {s t : σ} {os : List ο} :
    run step s [] = .ok (t,os) ↔ s = t ∧ [] = os := by
  simp [run]

lemma run_cons {s t : σ} {i : ι} {is : List ι} {os : List ο} :
    run step s (i::is) = .ok (t,os) ↔
      ∃ s' o os', step s i = .ok (s',o) ∧ run step s' is = .ok (t,os') ∧ os = o::os' := by
  constructor
  · intro h
    cases hs : step s i with
    | error e => simp [run,hs] at h
    | ok p =>
      obtain ⟨s',o⟩ := p
      cases hr : run step s' is with
      | error e => simp [run,hs,hr] at h
      | ok q =>
        obtain ⟨t',os'⟩ := q
        obtain ⟨rfl,rfl⟩ : t' = t ∧ o::os' = os := by simpa [run,hs,hr] using h
        exact ⟨s',o,os',rfl,hr,rfl⟩
  · rintro ⟨s',o,os',h1,h2,rfl⟩
    simp [run,h1,h2]

lemma run_append {s u : σ} {is js : List ι} {os : List ο} :
    run step s (is ++ js) = .ok (u,os) ↔
      ∃ t os₁ os₂, run step s is = .ok (t,os₁) ∧ run step t js = .ok (u,os₂) ∧ os = os₁ ++ os₂ := by
  induction is generalizing s os with
  | nil => simp
  | cons i is ih =>
    rw [List.cons_append,run_cons]
    constructor
    · rintro ⟨s',o,os',hs,hr,rfl⟩
      obtain ⟨t,os₁,os₂,h1,h2,rfl⟩ := ih.mp hr
      exact ⟨t,o::os₁,os₂,(run_cons step).mpr ⟨s',o,os₁,hs,h1,rfl⟩,h2,rfl⟩
    · rintro ⟨t,os₁,os₂,h1,h2,rfl⟩
      obtain ⟨s',o,os',hs,hr,rfl⟩ := (run_cons step).mp h1
      exact ⟨s',o,os' ++ os₂,hs,ih.mpr ⟨t,os',os₂,hr,h2,rfl⟩,rfl⟩

lemma run_snoc {s u : σ} {is : List ι} {i : ι} {os : List ο} :
    run step s (is ++ [i]) = .ok (u,os) ↔
      ∃ t os' o, run step s is = .ok (t,os') ∧ step t i = .ok (u,o) ∧ os = os' ++ [o] := by
  rw [run_append]
  constructor
  · rintro ⟨t,os₁,os₂,h1,h2,rfl⟩
    obtain ⟨s',o,os',hs,hr,rfl⟩ := (run_cons step).mp h2
    obtain ⟨rfl,rfl⟩ := (run_nil step).mp hr
    exact ⟨t,os₁,o,h1,hs,rfl⟩
  · rintro ⟨t,os',o,h1,h2,rfl⟩
    exact ⟨t,os',[o],h1,(run_cons step).mpr ⟨u,o,[],h2,rfl,rfl⟩,rfl⟩

lemma run_length {s t : σ} {is : List ι} {os : List ο} (h : run step s is = .ok (t,os)) :
    os.length = is.length := by
  induction is generalizing s os with
  | nil =>
    obtain ⟨rfl,rfl⟩ := (run_nil step).mp h
    rfl
  | cons i is ih =>
    obtain ⟨s',o,os',_,hr,rfl⟩ := (run_cons step).mp h
    simp [ih hr]

lemma run_of_toOption {s t : σ} {is : List ι}
    (h : (run step s is).toOption.map Prod.fst = some t) : ∃ os, run step s is = .ok (t,os) := by
  cases hr : run step s is with
  | error e => simp [hr,Except.toOption] at h
  | ok p =>
    obtain rfl : p.1 = t := by simpa [hr,Except.toOption] using h
    exact ⟨p.2,rfl⟩

/-- Inputs that are read through a function. -/
lemma run_comap {κ : Type*} (f : κ → ι) {s : σ} {ks : List κ} :
    run (fun s k => step s (f k)) s ks = run step s (ks.map f) := by
  induction ks generalizing s with
  | nil => rfl
  | cons k ks ih => simp only [run,List.map_cons,ih]

/-- What every allowed step preserves holds at the end of every run of allowed inputs. -/
theorem run_invariant (Inv : σ → Prop) (Allowed : ι → Prop)
    (hstep : ∀ s i s' o, Inv s → Allowed i → step s i = .ok (s',o) → Inv s')
    {s t : σ} {is : List ι} {os : List ο} (hs : Inv s) (his : ∀ i ∈ is, Allowed i)
    (h : run step s is = .ok (t,os)) : Inv t := by
  induction is generalizing s os with
  | nil =>
    obtain ⟨rfl,_⟩ := (run_nil step).mp h
    exact hs
  | cons i is ih =>
    obtain ⟨s',o,os',h1,hr,rfl⟩ := (run_cons step).mp h
    exact ih (hstep s i s' o hs (his i (by simp)) h1) (fun j hj => his j (by simp [hj])) hr

/-- If no allowed step fails from a state that keeps the invariant, no run fails. -/
theorem run_total (Inv : σ → Prop) (Allowed : ι → Prop)
    (hstep : ∀ s i, Inv s → Allowed i → ∃ s' o, step s i = .ok (s',o) ∧ Inv s')
    {s : σ} {is : List ι} (hs : Inv s) (his : ∀ i ∈ is, Allowed i) :
    ∃ t os, run step s is = .ok (t,os) ∧ Inv t := by
  induction is generalizing s with
  | nil => exact ⟨s,[],rfl,hs⟩
  | cons i is ih =>
    obtain ⟨s',o,h1,hi⟩ := hstep s i hs (his i (by simp))
    obtain ⟨t,os,hr,ht⟩ := ih hi (fun j hj => his j (by simp [hj]))
    exact ⟨t,o::os,(run_cons step).mpr ⟨s',o,os,h1,hr,rfl⟩,ht⟩

/-- Every input of a run meets `P` in the state in which it is taken. -/
def Along (P : σ → ι → Prop) : σ → List ι → Prop
  | _, [] => True
  | s, i::is => P s i ∧ ∀ s' o, step s i = .ok (s',o) → Along P s' is

lemma along_of_mem {P : σ → ι → Prop} {is : List ι} (h : ∀ i ∈ is, ∀ s, P s i) (s : σ) :
    Along step P s is := by
  induction is generalizing s with
  | nil => trivial
  | cons i is ih => exact ⟨h i (by simp) s,fun s' _ _ => ih (fun j hj => h j (by simp [hj])) s'⟩

lemma along_cons {P : σ → ι → Prop} {s s' : σ} {i : ι} {is : List ι} {o : ο} (hp : P s i)
    (hs : step s i = .ok (s',o)) (h : Along step P s' is) : Along step P s (i::is) := by
  refine ⟨hp,fun t o' ht => ?_⟩
  obtain ⟨rfl,_⟩ := Prod.mk.inj (Except.ok.inj (hs.symm.trans ht))
  exact h

lemma along_cons_of_toOption {P : σ → ι → Prop} {s : σ} {i : ι} {is : List ι} (s' : σ) (hp : P s i)
    (hs : (step s i).toOption.map Prod.fst = some s') (h : Along step P s' is) :
    Along step P s (i::is) := by
  cases hi : step s i with
  | error e => simp [hi,Except.toOption] at hs
  | ok p =>
    obtain rfl : p.1 = s' := by simpa [hi,Except.toOption] using hs
    exact along_cons step hp hi h

/-- A run fails with `e` only where a step does. -/
theorem run_ne_error (e : ε) {s : σ} {is : List ι} :
    run step s is ≠ .error e ↔ Along step (fun s i => step s i ≠ .error e) s is := by
  induction is generalizing s with
  | nil => simp [run,Along]
  | cons i is ih =>
    simp only [run,Along]
    cases hs : step s i with
    | error e' => simp
    | ok p =>
      obtain ⟨s',o⟩ := p
      simp only [ne_eq,reduceCtorEq,not_false_eq_true,true_and,Except.ok.injEq,Prod.mk.injEq]
      have hs' := ih (s:=s')
      constructor
      · rintro hr t o' ⟨rfl,rfl⟩
        refine hs'.mp fun he => hr ?_
        rw [he]
      · intro hr
        have hok := hs'.mpr (hr s' o ⟨rfl,rfl⟩)
        cases hrun : run step s' is with
        | error e' => simpa [hrun] using hok
        | ok q => simp

/-- A run ends in a state that is still up exactly if every step does, where what is down stays
down. -/
theorem run_up (Up : σ → Prop)
    (hdown : ∀ s i s' o, ¬ Up s → step s i = .ok (s',o) → ¬ Up s')
    {s : σ} {is : List ι} (hs : Up s) :
    (∃ t os, run step s is = .ok (t,os) ∧ Up t) ↔
      Along step (fun s i => ∃ s' o, step s i = .ok (s',o) ∧ Up s') s is := by
  induction is generalizing s with
  | nil => simp [Along,hs]
  | cons i is ih =>
    constructor
    · rintro ⟨t,os,hr,ht⟩
      obtain ⟨s',o,os',h1,hr',rfl⟩ := (run_cons step).mp hr
      have hs' : Up s' := by
        by_contra hn
        exact run_invariant step (fun s => ¬ Up s) (fun _ => True)
          (fun s i s' o hs _ h => hdown s i s' o hs h) hn (fun _ _ => trivial) hr' ht
      refine ⟨⟨s',o,h1,hs'⟩,fun s'' o'' h2 => ?_⟩
      obtain ⟨rfl,rfl⟩ : s' = s'' ∧ o = o'' := by simpa using Except.ok.inj (h1.symm.trans h2)
      exact (ih hs').mp ⟨t,os',hr',ht⟩
    · rintro ⟨⟨s',o,h1,hs'⟩,hrest⟩
      obtain ⟨t,os,hr,ht⟩ := (ih hs').mpr (hrest s' o h1)
      exact ⟨t,o::os,(run_cons step).mpr ⟨s',o,os,h1,hr,rfl⟩,ht⟩

/-- Two conditions that agree where the invariant holds agree along a run, if a step that meets
them keeps the invariant. -/
theorem along_congr (Inv : σ → Prop) (Allowed : ι → Prop) {P Q : σ → ι → Prop}
    (hPQ : ∀ s i, Inv s → Allowed i → (P s i ↔ Q s i))
    (hstep : ∀ s i s' o, Inv s → Allowed i → P s i → step s i = .ok (s',o) → Inv s')
    {s : σ} {is : List ι} (hs : Inv s) (his : ∀ i ∈ is, Allowed i) :
    Along step P s is ↔ Along step Q s is := by
  induction is generalizing s with
  | nil => rfl
  | cons i is ih =>
    have hi := his i (by simp)
    have hrest := fun s' hs' => ih (s:=s') hs' fun j hj => his j (by simp [hj])
    constructor
    · rintro ⟨hp,h⟩
      exact ⟨(hPQ s i hs hi).mp hp,fun s' o h1 => (hrest s' (hstep s i s' o hs hi hp h1)).mp (h s' o h1)⟩
    · rintro ⟨hq,h⟩
      have hp := (hPQ s i hs hi).mpr hq
      exact ⟨hp,fun s' o h1 => (hrest s' (hstep s i s' o hs hi hp h1)).mpr (h s' o h1)⟩

lemma along_and {P Q : σ → ι → Prop} {s : σ} {is : List ι} :
    Along step (fun s i => P s i ∧ Q s i) s is ↔ Along step P s is ∧ Along step Q s is := by
  induction is generalizing s with
  | nil => simp [Along]
  | cons i is ih =>
    simp only [Along,ih]
    constructor
    · rintro ⟨⟨hp,hq⟩,h⟩
      exact ⟨⟨hp,fun s' o h1 => (h s' o h1).1⟩,hq,fun s' o h1 => (h s' o h1).2⟩
    · rintro ⟨⟨hp,h⟩,hq,h'⟩
      exact ⟨⟨hp,hq⟩,fun s' o h1 => ⟨h s' o h1,h' s' o h1⟩⟩

lemma run_along_total (Inv : σ → Prop) {P : σ → ι → Prop}
    (hstep : ∀ s i, Inv s → P s i → ∃ s' o, step s i = .ok (s',o) ∧ Inv s')
    {s : σ} {is : List ι} (hs : Inv s) (his : Along step P s is) :
    ∃ t os, run step s is = .ok (t,os) := by
  induction is generalizing s with
  | nil => exact ⟨s,[],rfl⟩
  | cons i is ih =>
    obtain ⟨s',o,h1,hi⟩ := hstep s i hs his.1
    obtain ⟨t,os,hr⟩ := ih hi (his.2 s' o h1)
    exact ⟨t,o::os,(run_cons step).mpr ⟨s',o,os,h1,hr,rfl⟩⟩

/-- What one step says about its output, a run says about all outputs. -/
theorem run_forall₂ (Inv : σ → Prop) {P : σ → ι → Prop} {Q : ι → ο → Prop}
    (hstep : ∀ s i s' o, Inv s → P s i → step s i = .ok (s',o) → Inv s' ∧ Q i o)
    {s t : σ} {is : List ι} {os : List ο} (hs : Inv s) (his : Along step P s is)
    (h : run step s is = .ok (t,os)) : List.Forall₂ Q is os := by
  induction is generalizing s os with
  | nil =>
    obtain ⟨_,rfl⟩ := (run_nil step).mp h
    exact .nil
  | cons i is ih =>
    obtain ⟨s',o,os',h1,hr,rfl⟩ := (run_cons step).mp h
    obtain ⟨hi,ho⟩ := hstep s i s' o hs his.1 h1
    exact .cons ho (ih hi (his.2 s' o h1) hr)

/-- What every step keeps whose input meets a condition in its state, a run keeps along which the
condition is met. -/
theorem run_invariant_along (Inv : σ → Prop) {P : σ → ι → Prop}
    (hstep : ∀ s i s' o, Inv s → P s i → step s i = .ok (s',o) → Inv s')
    {s t : σ} {is : List ι} {os : List ο} (hs : Inv s) (his : Along step P s is)
    (h : run step s is = .ok (t,os)) : Inv t := by
  induction is generalizing s os with
  | nil =>
    obtain ⟨rfl,_⟩ := (run_nil step).mp h
    exact hs
  | cons i is ih =>
    obtain ⟨s',o,os',h1,hr,rfl⟩ := (run_cons step).mp h
    exact ih (hstep s i s' o hs his.1 h1) (his.2 s' o h1) hr

/-- If every step is followed by a second machine, which takes an input of its own for each, so is
every run. -/
theorem run_follows {τ κ ω ε' : Type*} (step' : τ → κ → Except ε' (τ × ω)) (pick : κ → ι)
    (R : σ → τ → Prop) {P : τ → κ → Prop}
    (hstep : ∀ s t k s' o, R s t → P t k → step s (pick k) = .ok (s',o) →
      ∃ t' w, step' t k = .ok (t',w) ∧ R s' t')
    {s s' : σ} {t : τ} {ks : List κ} {os : List ο} (hst : R s t) (hks : Along step' P t ks)
    (h : run step s (ks.map pick) = .ok (s',os)) :
    ∃ t' ws, run step' t ks = .ok (t',ws) ∧ R s' t' := by
  induction ks generalizing s t os with
  | nil =>
    obtain ⟨rfl,_⟩ := (run_nil step).mp h
    exact ⟨t,[],rfl,hst⟩
  | cons k ks ih =>
    obtain ⟨s₁,o,os',h1,hr,rfl⟩ := (run_cons step).mp h
    obtain ⟨t₁,w,h1',hst'⟩ := hstep s t k s₁ o hst hks.1 h1
    obtain ⟨t',ws,hr',ht'⟩ := ih hst' (hks.2 t₁ w h1') hr
    exact ⟨t',w::ws,(run_cons step').mpr ⟨t₁,w,ws,h1',hr',rfl⟩,ht'⟩

/-- The outputs of a run are those an abstract machine allows: `Out` is asked at every step,
in the abstract state reached so far. -/
def Conforms (next : α → ι → α) (Out : α → ι → ο → Prop) : α → List ι → List ο → Prop
  | _, [], [] => True
  | a, i::is, o::os => Out a i o ∧ Conforms next Out (next a i) is os
  | _, _, _ => False

/-- Conformance of a run in two parts. -/
theorem Conforms.append {next : α → ι → α} {Out : α → ι → ο → Prop} {a : α} {is js : List ι}
    {os : List ο} (h : Conforms next Out a (is ++ js) os) :
    Conforms next Out a is (os.take is.length) ∧
      Conforms next Out (is.foldl next a) js (os.drop is.length) := by
  induction is generalizing a os with
  | nil => exact ⟨trivial,h⟩
  | cons i is ih =>
    cases os with
    | nil => exact h.elim
    | cons o os =>
      obtain ⟨ho,hr⟩ := h
      obtain ⟨h1,h2⟩ := ih hr
      exact ⟨⟨ho,h1⟩,h2⟩

/-- Simulation: if `abs` maps every concrete step to the abstract one, it maps every run to the
abstract run, and the outputs are the abstract machine's. -/
theorem run_simulates (abs : σ → α) (next : α → ι → α) (Out : α → ι → ο → Prop)
    (Inv : σ → Prop) (Allowed : ι → Prop)
    (hstep : ∀ s i s' o, Inv s → Allowed i → step s i = .ok (s',o) →
      Inv s' ∧ abs s' = next (abs s) i ∧ Out (abs s) i o)
    {s t : σ} {is : List ι} {os : List ο} (hs : Inv s) (his : ∀ i ∈ is, Allowed i)
    (h : run step s is = .ok (t,os)) :
    abs t = is.foldl next (abs s) ∧ Conforms next Out (abs s) is os := by
  induction is generalizing s os with
  | nil =>
    obtain ⟨rfl,rfl⟩ := (run_nil step).mp h
    exact ⟨rfl,trivial⟩
  | cons i is ih =>
    obtain ⟨s',o,os',h1,hr,rfl⟩ := (run_cons step).mp h
    obtain ⟨hi,ha,ho⟩ := hstep s i s' o hs (his i (by simp)) h1
    obtain ⟨ht,hc⟩ := ih hi (fun j hj => his j (by simp [hj])) hr
    rw [ha] at ht hc
    exact ⟨ht,ho,hc⟩

end Nav.Machine
