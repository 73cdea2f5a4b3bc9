import Nav.Lib.Run
import Mathlib.Logic.Function.Basic

/-! Programs that run side by side over a shared state. A program asks for one thing after the other;
between two of its requests any others may run. What a program does to its own part of the state is
proved request by request, for every state that has this part. -/
namespace Nav.Lib.Script
variable {σ κ ι τ υ δ ω ρ : Type*} {α : ρ → Type*}

/-- A program: it asks, goes on with the answer, and in the end puts something out. -/
inductive Prog (ρ : Type*) (α : ρ → Type*) (ω : Type*)
  | done (out : ω)
  | ask (request : ρ) (next : α request → Prog ρ α ω)

/-- How requests are answered, for the process that asks, in a shared and a local state. Nothing is
said of what follows if there is no answer. -/
structure Service (σ κ τ δ ρ : Type*) (α : ρ → Type*) where
  answer : κ → σ → τ → (request : ρ) → δ → Option (σ × τ × α request)

/-- A process, with the job it is at. -/
structure Process (ι τ ω ρ : Type*) (α : ρ → Type*) where
  here : τ
  job : Option (ι × Prog ρ α ω)

structure System (σ κ ι τ ω ρ : Type*) (α : ρ → Type*) where
  shared : σ
  processes : κ → Process ι τ ω ρ α

/-- The end of a job: what it puts out, and the states it leaves. -/
structure JobEnd (σ κ ι τ ω : Type*) where
  process : κ
  job : ι
  out : ω
  shared : σ
  here : τ

inductive Event (κ ι δ : Type*)
  | start (k : κ) (i : ι)
  | step (k : κ) (met : δ)

section Steps
variable [DecidableEq κ] (S : Service σ κ τ δ ρ α) (code : ι → Prog ρ α ω)

namespace System
variable (s : System σ κ ι τ ω ρ α)

def put (k : κ) (p : Process ι τ ω ρ α) : System σ κ ι τ ω ρ α :=
  {s with processes := Function.update s.processes k p}

/-- One step. A process that has ended its job puts it out, and can take the next one. -/
def next : Event κ ι δ → Except Unit (System σ κ ι τ ω ρ α × Option (JobEnd σ κ ι τ ω))
  | .start k i =>
    match (s.processes k).job with
    | none => .ok (s.put k ⟨(s.processes k).here,some (i,code i)⟩,none)
    | some _ => .ok (s,none)
  | .step k met =>
    match (s.processes k).job with
    | none => .ok (s,none)
    | some (i,.done out) => .ok (s.put k ⟨(s.processes k).here,none⟩,
        some ⟨k,i,out,s.shared,(s.processes k).here⟩)
    | some (i,.ask request rest) =>
      match S.answer k s.shared (s.processes k).here request met with
      | none => .error ()
      | some (shared,here,a) => .ok ({s with shared}.put k ⟨here,some (i,rest a)⟩,none)

end System

abbrev runSystem (s : System σ κ ι τ ω ρ α) (es : List (Event κ ι δ)) :=
  Machine.run (fun s e => s.next S code e) s es

end Steps

/-- The jobs that a process has ended, with what they put out and how it looked then. -/
def ended [DecidableEq κ] (view : κ → σ → τ → υ) (k : κ) (os : List (Option (JobEnd σ κ ι τ ω))) :
    List ((ι × ω) × υ) :=
  os.filterMap fun o => o.bind fun x =>
    if x.process = k then some ((x.job,x.out),view k x.shared x.here) else none

/-- One job after the other, each with what it put out and the view that it left. -/
def Trail (R : υ → ι → ω → υ → Prop) : υ → List ((ι × ω) × υ) → Prop
  | _, [] => True
  | v, x::xs => R v x.1.1 x.1.2 x.2 ∧ Trail R x.2 xs

/-- The view behind a trail. -/
def last (v : υ) (xs : List ((ι × ω) × υ)) : υ := xs.foldl (fun _ x => x.2) v

section Trail
variable {R : υ → ι → ω → υ → Prop} {v : υ} {xs ys : List ((ι × ω) × υ)}

lemma last_append : last v (xs ++ ys) = last (last v xs) ys := List.foldl_append

lemma trail_append : Trail R v (xs ++ ys) ↔ Trail R v xs ∧ Trail R (last v xs) ys := by
  induction xs generalizing v with
  | nil => simp [Trail,last]
  | cons x xs ih => simp only [List.cons_append,Trail,ih,and_assoc,last,List.foldl_cons]

/-- A trail seen through a function on the views. -/
lemma trail_map {ν : Type*} (f : υ → ν) {R' : ν → ι → ω → ν → Prop}
    (h : Trail (fun v i out v' => R' (f v) i out (f v')) v xs) :
    Trail R' (f v) (xs.map (Prod.map id f)) ∧ last (f v) (xs.map (Prod.map id f)) = f (last v xs) := by
  induction xs generalizing v with
  | nil => exact ⟨trivial,rfl⟩
  | cons x xs ih =>
    obtain ⟨h1,h2⟩ := ih h.2
    exact ⟨⟨h.1,h1⟩,h2⟩

/-- The views that the jobs of a trail begin with. -/
def starts : υ → List ((ι × ω) × υ) → List υ
  | _, [] => []
  | v, x::xs => v::starts x.2 xs

lemma ended_map {ν : Type*} [DecidableEq κ] (f : υ → ν) (view : κ → σ → τ → υ) (k : κ)
    (os : List (Option (JobEnd σ κ ι τ ω))) :
    (ended view k os).map (Prod.map id f) = ended (fun k s t => f (view k s t)) k os := by
  rw [ended,List.map_filterMap]
  refine List.filterMap_congr fun o _ => ?_
  cases o with
  | none => rfl
  | some x =>
    simp only [Option.bind_some]
    split_ifs <;> rfl

lemma starts_length : (starts v xs).length = xs.length := by
  induction xs generalizing v with
  | nil => rfl
  | cons x xs ih => simp [starts,ih]

end Trail

/-- Whatever the others do between two requests, as long as the invariant and this process's view stay,
the program ends with `Q`. -/
def Ensures (S : Service σ κ τ δ ρ α) (Inv : σ → Prop) (Met : δ → Prop) (view : κ → σ → τ → υ) (k : κ)
    (Q : ω → υ → Prop) : Prog ρ α ω → υ → Prop
  | .done out, v => Q out v
  | .ask request rest, v => ∀ s t met s' t' a, Inv s → Met met → view k s t = v →
      S.answer k s t request met = some (s',t',a) → Ensures S Inv Met view k Q (rest a) (view k s' t')

lemma ensures_mono {S : Service σ κ τ δ ρ α} {Inv : σ → Prop} {Met : δ → Prop} {view : κ → σ → τ → υ}
    {k : κ} {Q Q' : ω → υ → Prop} (hQ : ∀ out v, Q out v → Q' out v) {prog : Prog ρ α ω} {v : υ}
    (h : Ensures S Inv Met view k Q prog v) : Ensures S Inv Met view k Q' prog v := by
  induction prog generalizing v with
  | done out => exact hQ out v h
  | ask request rest ih =>
    intro s t met s' t' a hi hm hv ha
    exact ih a (h s t met s' t' a hi hm hv ha)

section Views
variable [DecidableEq κ] (S : Service σ κ τ δ ρ α) (code : ι → Prog ρ α ω)
  (Inv : σ → Prop) (Met : δ → Prop) (view : κ → σ → τ → υ) (Ok : υ → Prop)
  (R : υ → ι → ω → υ → Prop)

/-- Where a process is that had the view `v` when it took its last job. -/
def At (k : κ) (v : υ) (s : System σ κ ι τ ω ρ α) : Prop :=
  match (s.processes k).job with
  | none => view k s.shared (s.processes k).here = v ∧ Ok v
  | some (i,prog) => Ensures S Inv Met view k (fun out v' => R v i out v' ∧ Ok v') prog
      (view k s.shared (s.processes k).here)

/-- A step meets what it may. -/
def Event.Meets (Met : δ → Prop) : Event κ ι δ → Prop
  | .start _ _ => True
  | .step _ met => Met met

variable {S code Inv Met view Ok R} {k : κ} {v : υ}
  {s s' : System σ κ ι τ ω ρ α}

omit [DecidableEq κ] in
/-- Only the shared state as this process sees it matters to it. -/
lemma At.same (h : At S Inv Met view Ok R k v s) (hp : s'.processes k = s.processes k)
    (hview : ∀ t, view k s'.shared t = view k s.shared t) : At S Inv Met view Ok R k v s' := by
  unfold At at h ⊢
  rw [hp]
  cases hj : (s.processes k).job with
  | none =>
    simp only [hj] at h ⊢
    rwa [hview]
  | some x =>
    simp only [hj] at h ⊢
    rwa [hview]

variable
  (hanswer : ∀ k s t request met s' t' a, Inv s → Met met →
    S.answer k s t request met = some (s',t',a) →
    Inv s' ∧ ∀ j, j ≠ k → ∀ t, view j s' t = view j s t)
  (hcode : ∀ k i v, Ok v →
    Ensures S Inv Met view k (fun out v' => R v i out v' ∧ Ok v') (code i) v)
include hanswer hcode

/-- One step takes a process along its trail, or leaves it where it is. -/
theorem next_at {e : Event κ ι δ} {o : Option (JobEnd σ κ ι τ ω)} (he : e.Meets Met)
    (hi : Inv s.shared) (hat : At S Inv Met view Ok R k v s) (h : s.next S code e = .ok (s',o)) :
    Inv s'.shared ∧ Trail R v (ended view k [o]) ∧
      At S Inv Met view Ok R k (last v (ended view k [o])) s' := by
  have stay : ∀ {s'}, ended view k [o] = [] → Inv s'.shared → At S Inv Met view Ok R k v s' →
      Inv s'.shared ∧ Trail R v (ended view k [o]) ∧
        At S Inv Met view Ok R k (last v (ended view k [o])) s' :=
    fun ho hi' hat' => ⟨hi',ho ▸ trivial,ho ▸ hat'⟩
  cases e with
  | start j i =>
    simp only [System.next] at h
    cases hj : (s.processes j).job with
    | some x =>
      simp only [hj,Except.ok.injEq,Prod.mk.injEq] at h
      obtain ⟨rfl,rfl⟩ := h
      exact stay rfl hi hat
    | none =>
      simp only [hj,Except.ok.injEq,Prod.mk.injEq] at h
      obtain ⟨rfl,rfl⟩ := h
      refine stay rfl hi ?_
      by_cases hjk : k = j
      · subst hjk
        simp only [At,hj] at hat
        simp only [At,System.put,Function.update_self]
        rw [hat.1]
        exact hcode k i v hat.2
      · exact hat.same (by simp [System.put,hjk]) fun t => rfl
  | step j met =>
    simp only [System.next] at h
    cases hj : (s.processes j).job with
    | none =>
      simp only [hj,Except.ok.injEq,Prod.mk.injEq] at h
      obtain ⟨rfl,rfl⟩ := h
      exact stay rfl hi hat
    | some x =>
      obtain ⟨i,prog⟩ := x
      cases prog with
      | done out =>
        simp only [hj,Except.ok.injEq,Prod.mk.injEq] at h
        obtain ⟨rfl,rfl⟩ := h
        by_cases hjk : k = j
        · subst hjk
          simp only [At,hj,Ensures] at hat
          have hend : ended view k [some ⟨k,i,out,s.shared,(s.processes k).here⟩] =
              [((i,out),view k s.shared (s.processes k).here)] := by
            simp [ended]
          rw [hend]
          refine ⟨hi,⟨hat.1,trivial⟩,?_⟩
          simp only [At,System.put,Function.update_self,last,List.foldl_cons,List.foldl_nil,true_and]
          exact hat.2
        · refine stay (by simp [ended,Ne.symm hjk]) hi ?_
          exact hat.same (by simp [System.put,hjk]) fun t => rfl
      | ask request rest =>
        simp only [hj] at h
        cases ha : S.answer j s.shared (s.processes j).here request met with
        | none => simp [ha] at h
        | some x =>
          obtain ⟨shared,here,a⟩ := x
          simp only [ha,Except.ok.injEq,Prod.mk.injEq] at h
          obtain ⟨rfl,rfl⟩ := h
          obtain ⟨hi',hothers⟩ := hanswer j _ _ _ _ _ _ _ hi he ha
          refine stay rfl hi' ?_
          by_cases hjk : k = j
          · subst hjk
            simp only [At,hj,Ensures] at hat
            simp only [At,System.put,Function.update_self]
            exact hat _ _ _ _ _ _ hi he rfl ha
          · exact hat.same (by simp [System.put,hjk]) (hothers k hjk)

/-- Whatever order the processes take their steps in, each of them goes its own trail. -/
theorem run_trail {es : List (Event κ ι δ)} {os : List (Option (JobEnd σ κ ι τ ω))}
    (hes : ∀ e ∈ es, e.Meets Met) (hi : Inv s.shared) (hat : At S Inv Met view Ok R k v s)
    (h : runSystem S code s es = .ok (s',os)) :
    Trail R v (ended view k os) ∧ At S Inv Met view Ok R k (last v (ended view k os)) s' := by
  induction es generalizing s v os with
  | nil =>
    obtain ⟨rfl,rfl⟩ := (Machine.run_nil _).mp h
    exact ⟨trivial,hat⟩
  | cons e es ih =>
    obtain ⟨s₁,o,os',h1,hr,rfl⟩ := (Machine.run_cons _).mp h
    obtain ⟨hi₁,htrail,hat₁⟩ := next_at hanswer hcode (hes e (by simp)) hi hat h1
    obtain ⟨htrail',hat'⟩ := ih (fun e he => hes e (by simp [he])) hi₁ hat₁ hr
    have hsplit : ended view k (o::os') = ended view k [o] ++ ended view k os' := by
      rw [ended,ended,ended,← List.filterMap_append]
      rfl
    rw [hsplit,last_append]
    exact ⟨trail_append.mpr ⟨htrail,htrail'⟩,hat'⟩

end Views

section Alone
variable [DecidableEq κ] (S : Service σ κ τ δ ρ α)

/-- A program that no other gets in the way of, and what it meets at each request. -/
def exec (k : κ) (met : ρ → δ) : Prog ρ α ω → σ → τ → Option (σ × τ × ω)
  | .done out, s, t => some (s,t,out)
  | .ask request rest, s, t =>
    (S.answer k s t request (met request)).bind fun x => exec k met (rest x.2.2) x.1 x.2.1

variable {S} {code : ι → Prog ρ α ω} {k : κ} {met : ρ → δ} {s : System σ κ ι τ ω ρ α}

/-- This is one of the orders of steps. -/
theorem exec_run {Met : δ → Prop} (hidle : ∃ d, Met d) (hmet : ∀ request, Met (met request))
    {prog : Prog ρ α ω} {i : ι} {shared' : σ} {here' : τ} {out : ω}
    (hjob : (s.processes k).job = some (i,prog))
    (h : exec S k met prog s.shared (s.processes k).here = some (shared',here',out)) :
    ∃ es os, (∀ e ∈ es, ∃ d, e = .step k d ∧ Met d) ∧
      runSystem S code s es = .ok ({s with shared := shared'}.put k ⟨here',none⟩,os) ∧
      os.reduceOption = [⟨k,i,out,shared',here'⟩] := by
  induction prog generalizing s with
  | done out' =>
    simp only [exec,Option.some.injEq,Prod.mk.injEq] at h
    obtain ⟨rfl,rfl,rfl⟩ := h
    obtain ⟨d,hd⟩ := hidle
    have hstep : s.next S code (.step k d) =
        .ok (s.put k ⟨(s.processes k).here,none⟩,
          some ⟨k,i,out',s.shared,(s.processes k).here⟩) := by
      simp only [System.next,hjob]
    exact ⟨[.step k d],_,by simpa using hd,(Machine.run_cons _).mpr ⟨_,_,_,hstep,rfl,rfl⟩,rfl⟩
  | ask request rest ih =>
    obtain ⟨⟨shared,here,a⟩,ha,hrest⟩ := Option.bind_eq_some_iff.mp h
    have hstep : s.next S code (.step k (met request)) =
        .ok ({s with shared}.put k ⟨here,some (i,rest a)⟩,none) := by
      simp only [System.next,hjob,ha]
    obtain ⟨es,os,hes,hrun,hout⟩ := ih a (s:={s with shared}.put k ⟨here,some (i,rest a)⟩)
      (by simp [System.put]) (by simpa [System.put] using hrest)
    refine ⟨.step k (met request)::es,none::os,?_,?_,hout⟩
    · rintro e (_ | ⟨_,he⟩)
      · exact ⟨_,rfl,hmet request⟩
      · exact hes e he
    · refine (Machine.run_cons _).mpr ⟨_,_,_,hstep,?_,rfl⟩
      simpa [System.put] using hrun

end Alone

end Nav.Lib.Script
