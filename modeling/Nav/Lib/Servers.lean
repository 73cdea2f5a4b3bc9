import Nav.Lib.Run
import Mathlib.Logic.Function.Basic

/-! Servers that come one after the other behind one name, over one file. A server reads the file,
takes the name from whoever has it, and serves the clients that have found it there; a request may
write the file. A server that stops gives the name back, whoever has it by then, and one that is killed
leaves it. -/
namespace Nav.Lib.Servers
variable {φ σ δ κ ι ο χ ε α : Type*}

/-- A server, by how far it has come; `cleared` has taken the name away from its last owner. -/
inductive Server (σ : Type*)
  | off
  | loaded (s : σ)
  | cleared (s : σ)
  | bound (s : σ)
  | serving (s : σ)
  | ended

namespace Server

def memory : Server σ → Option σ
  | .off | .ended => none
  | .loaded s | .cleared s | .bound s | .serving s => some s

/-- Clients that are sent to this server get through. -/
def answers : Server σ → Bool
  | .bound _ | .serving _ => true
  | .off | .loaded _ | .cleared _ | .ended => false

/-- It will not take the name any more. -/
def settled : Server σ → Bool
  | .bound _ | .serving _ | .ended => true
  | .off | .loaded _ | .cleared _ => false

end Server

/-- What a server does with the file, and with a request; it is left by a request if it is not up
afterwards. -/
structure Service (φ σ ι ο χ ε : Type*) where
  load : χ → φ → σ
  step : σ → φ → ι → Except ε (σ × φ × ο)
  up : σ → Bool

/-- `peers` are the servers that clients are connected to, `newest` is the one that has read the file
last. -/
structure World (φ σ δ κ : Type*) where
  file : φ
  name : Option δ
  servers : δ → Server σ
  peers : κ → Option δ
  newest : Option δ

inductive Event (δ κ ι χ : Type*)
  | load (d : δ) (x : χ)
  | clear (d : δ)
  | bind (d : δ)
  | ready (d : δ)
  | connect (k : κ)
  | request (k : κ) (i : ι)
  | close (k : κ)
  | stop (d : δ)
  | kill (d : δ)

namespace World

def start (file : φ) : World φ σ δ κ := ⟨file,none,fun _ => .off,fun _ => none,none⟩

section Steps
variable [DecidableEq δ] [DecidableEq κ] (S : Service φ σ ι ο χ ε) (w : World φ σ δ κ)

def set (d : δ) (v : Server σ) : World φ σ δ κ := {w with servers := Function.update w.servers d v}

/-- The handlers of signals come with `ready`; before, a signal only ends the server. -/
def next : Event δ κ ι χ → Except ε (World φ σ δ κ × Option (ι × ο))
  | .load d x =>
    match w.servers d with
    | .off => .ok ({w with newest := some d}.set d (.loaded (S.load x w.file)),none)
    | _ => .ok (w,none)
  | .clear d =>
    match w.servers d with
    | .loaded s => .ok ({w with name := none}.set d (.cleared s),none)
    | _ => .ok (w,none)
  | .bind d =>
    match w.servers d with
    | .cleared s =>
      if w.name = none then .ok ({w with name := some d}.set d (.bound s),none)
      else .ok (w.set d .ended,none)
    | _ => .ok (w,none)
  | .ready d =>
    match w.servers d with
    | .bound s => .ok (w.set d (.serving s),none)
    | _ => .ok (w,none)
  | .connect k =>
    let peer := w.name.filter fun d => (w.servers d).answers
    .ok ({w with peers := Function.update w.peers k peer},none)
  | .request k i =>
    match w.peers k with
    | none => .ok (w,none)
    | some d =>
      match w.servers d with
      | .serving s =>
        match S.step s w.file i with
        | .error e => .error e
        | .ok (s',file,o) =>
          if S.up s' then .ok ({w with file}.set d (.serving s'),some (i,o))
          else .ok ({w with file, name := none}.set d .ended,some (i,o))
      | _ => .ok (w,none)
  | .close k => .ok ({w with peers := Function.update w.peers k none},none)
  | .stop d =>
    match w.servers d with
    | .serving _ => .ok ({w with name := none}.set d .ended,none)
    | .off => .ok (w,none)
    | _ => .ok (w.set d .ended,none)
  | .kill d =>
    match w.servers d with
    | .off => .ok (w,none)
    | _ => .ok (w.set d .ended,none)

end Steps
end World

abbrev runWorld [DecidableEq δ] [DecidableEq κ] (S : Service φ σ ι ο χ ε) (w : World φ σ δ κ)
    (es : List (Event δ κ ι χ)) :=
  Machine.run (fun w e => w.next S e) w es

namespace World

/-- With this step the server `d` takes the name away, whoever has it. -/
def Takes (S : Service φ σ ι ο χ ε) (w : World φ σ δ κ) (d : δ) : Event δ κ ι χ → Prop
  | .clear d' => d' = d ∧ ∃ s, w.servers d = .loaded s
  | .stop d' => d' = d ∧ ∃ s, w.servers d = .serving s
  | .request k i => w.peers k = some d ∧ ∃ s s' file o, w.servers d = .serving s ∧
      S.step s w.file i = .ok (s',file,o) ∧ S.up s' = false
  | _ => False

section Frame
variable [DecidableEq δ] (w : World φ σ δ κ) (d : δ) (v : Server σ)

@[simp] theorem set_file : (w.set d v).file = w.file := rfl
@[simp] theorem set_name : (w.set d v).name = w.name := rfl
@[simp] theorem set_peers : (w.set d v).peers = w.peers := rfl
@[simp] theorem set_newest : (w.set d v).newest = w.newest := rfl
@[simp] theorem set_self : (w.set d v).servers d = v := Function.update_self ..
@[simp] theorem set_of_ne {d' : δ} (h : d' ≠ d) : (w.set d v).servers d' = w.servers d' :=
  Function.update_of_ne h ..

end Frame

/-- Everything that a step can do. -/
inductive Move [DecidableEq δ] [DecidableEq κ] (S : Service φ σ ι ο χ ε) (w : World φ σ δ κ) :
    Event δ κ ι χ → World φ σ δ κ → Option (ι × ο) → Prop
  | nothing {e} (ht : ∀ d, ¬ Takes S w d e) : Move S w e w none
  | load {d x} (h : w.servers d = .off) :
      Move S w (.load d x) ({w with newest := some d}.set d (.loaded (S.load x w.file))) none
  | clear {d s} (h : w.servers d = .loaded s) :
      Move S w (.clear d) ({w with name := none}.set d (.cleared s)) none
  | bind {d s} (h : w.servers d = .cleared s) (hn : w.name = none) :
      Move S w (.bind d) ({w with name := some d}.set d (.bound s)) none
  | ready {d s} (h : w.servers d = .bound s) : Move S w (.ready d) (w.set d (.serving s)) none
  | connect {k} : Move S w (.connect k)
      {w with peers := Function.update w.peers k (w.name.filter fun d => (w.servers d).answers)} none
  | served {k i d s s' file o} (hk : w.peers k = some d) (h : w.servers d = .serving s)
      (hs : S.step s w.file i = .ok (s',file,o)) (hup : S.up s' = true) :
      Move S w (.request k i) ({w with file}.set d (.serving s')) (some (i,o))
  | left {k i d s s' file o} (hk : w.peers k = some d) (h : w.servers d = .serving s)
      (hs : S.step s w.file i = .ok (s',file,o)) (hup : S.up s' = false) :
      Move S w (.request k i) ({w with file, name := none}.set d .ended) (some (i,o))
  | close {k} : Move S w (.close k) {w with peers := Function.update w.peers k none} none
  | stop {d s} (h : w.servers d = .serving s) :
      Move S w (.stop d) ({w with name := none}.set d .ended) none
  | ended {e d} (h : w.servers d ≠ .off) (ht : ∀ d, ¬ Takes S w d e) : Move S w e (w.set d .ended) none

variable [DecidableEq δ] [DecidableEq κ] {S : Service φ σ ι ο χ ε} {w w' : World φ σ δ κ} {d : δ}
  {e : Event δ κ ι χ} {o : Option (ι × ο)}

theorem next_move (h : w.next S e = .ok (w',o)) : Move S w e w' o := by
  cases e with
  | load d x =>
    simp only [next] at h
    split at h
    · next hd =>
      obtain ⟨rfl,rfl⟩ := Prod.mk.inj (Except.ok.inj h)
      exact .load hd
    · obtain ⟨rfl,rfl⟩ := Prod.mk.inj (Except.ok.inj h)
      exact .nothing fun _ => id
  | clear d =>
    simp only [next] at h
    split at h
    · next s hd =>
      obtain ⟨rfl,rfl⟩ := Prod.mk.inj (Except.ok.inj h)
      exact .clear hd
    · next hd =>
      obtain ⟨rfl,rfl⟩ := Prod.mk.inj (Except.ok.inj h)
      refine .nothing ?_
      rintro _ ⟨rfl,s,hs⟩
      exact hd s hs
  | bind d =>
    simp only [next] at h
    split at h
    · next s hd =>
      split_ifs at h with hn
      · obtain ⟨rfl,rfl⟩ := Prod.mk.inj (Except.ok.inj h)
        exact .bind hd hn
      · obtain ⟨rfl,rfl⟩ := Prod.mk.inj (Except.ok.inj h)
        exact .ended (by simp [hd]) fun _ => id
    · obtain ⟨rfl,rfl⟩ := Prod.mk.inj (Except.ok.inj h)
      exact .nothing fun _ => id
  | ready d =>
    simp only [next] at h
    split at h
    · next s hd =>
      obtain ⟨rfl,rfl⟩ := Prod.mk.inj (Except.ok.inj h)
      exact .ready hd
    · obtain ⟨rfl,rfl⟩ := Prod.mk.inj (Except.ok.inj h)
      exact .nothing fun _ => id
  | connect k =>
    obtain ⟨rfl,rfl⟩ := Prod.mk.inj (Except.ok.inj h)
    exact .connect
  | request k i =>
    simp only [next] at h
    split at h
    · next hk =>
      obtain ⟨rfl,rfl⟩ := Prod.mk.inj (Except.ok.inj h)
      refine .nothing ?_
      rintro d ⟨hk',_⟩
      simp [hk] at hk'
    · next d hk =>
      split at h
      · next s hd =>
        split at h
        · cases h
        · next s' file o hs =>
          split_ifs at h with hup
          · obtain ⟨rfl,rfl⟩ := Prod.mk.inj (Except.ok.inj h)
            exact .served hk hd hs hup
          · obtain ⟨rfl,rfl⟩ := Prod.mk.inj (Except.ok.inj h)
            exact .left hk hd hs (by simpa using hup)
      · next hd =>
        obtain ⟨rfl,rfl⟩ := Prod.mk.inj (Except.ok.inj h)
        refine .nothing ?_
        rintro d' ⟨hk',s,_,_,_,hs,_⟩
        obtain rfl := Option.mem_unique hk hk'
        exact hd s hs
  | close k =>
    obtain ⟨rfl,rfl⟩ := Prod.mk.inj (Except.ok.inj h)
    exact .close
  | stop d =>
    simp only [next] at h
    split at h
    · next s hd =>
      obtain ⟨rfl,rfl⟩ := Prod.mk.inj (Except.ok.inj h)
      exact .stop hd
    · next hd =>
      obtain ⟨rfl,rfl⟩ := Prod.mk.inj (Except.ok.inj h)
      refine .nothing ?_
      rintro _ ⟨rfl,s,hs⟩
      simp [hd] at hs
    · next hserving hoff =>
      obtain ⟨rfl,rfl⟩ := Prod.mk.inj (Except.ok.inj h)
      refine .ended (fun hd => hoff hd) ?_
      rintro _ ⟨rfl,s,hs⟩
      exact hserving s hs
  | kill d =>
    simp only [next] at h
    split at h
    · obtain ⟨rfl,rfl⟩ := Prod.mk.inj (Except.ok.inj h)
      exact .nothing fun _ => id
    · next hoff =>
      obtain ⟨rfl,rfl⟩ := Prod.mk.inj (Except.ok.inj h)
      exact .ended (fun hd => hoff hd) fun _ => id

section Names

/-- What has settled stays so, and what does not answer by then will not answer again. -/
lemma Move.settled (h : Move S w e w' o) (hd : (w.servers d).settled = true) :
    (w'.servers d).settled = true ∧ ((w'.servers d).answers = true → (w.servers d).answers = true) := by
  have hset : ∀ (u : World φ σ δ κ) d' v, u.servers = w.servers → v.settled = true →
      (v.answers = true → (w.servers d').answers = true) →
      ((u.set d' v).servers d).settled = true ∧
        (((u.set d' v).servers d).answers = true → (w.servers d).answers = true) := by
    intro u d' v hu hv ha
    by_cases hdd : d = d'
    · subst hdd
      simpa using ⟨hv,ha⟩
    · simpa [hdd,hu] using hd
  have hother : ∀ (u : World φ σ δ κ) d' v, u.servers = w.servers →
      (w.servers d').settled = false →
      ((u.set d' v).servers d).settled = true ∧
        (((u.set d' v).servers d).answers = true → (w.servers d).answers = true) := by
    intro u d' v hu hd'
    have hdd : d ≠ d' := by
      rintro rfl
      simp [hd] at hd'
    simpa [hdd,hu] using hd
  cases h with
  | nothing | connect | close => exact ⟨hd,id⟩
  | load hs | clear hs | bind hs => exact hother _ _ _ rfl (by rw [hs]; rfl)
  | ready hs | served _ hs => exact hset _ _ _ rfl rfl fun _ => by rw [hs]; rfl
  | left | stop | ended => exact hset _ _ _ rfl rfl (by simp [Server.answers])

/-- A server that has settled and has not got the name will not get it again. -/
def Lost (d : δ) (w : World φ σ δ κ) : Prop := (w.servers d).settled = true ∧ w.name ≠ some d

theorem Move.lost (h : Move S w e w' o) (hl : Lost d w) : Lost d w' := by
  refine ⟨(h.settled hl.1).1,?_⟩
  cases h with
  | nothing | load | ready | connect | served | close | ended => exact hl.2
  | clear | left | stop => simp
  | bind hs =>
    rintro ⟨⟩
    have := hl.1
    simp [hs,Server.settled] at this

/-- A server keeps the name exactly as long as no other server takes it away. -/
theorem Move.keeps (h : Move S w e w' o) (hd' : (w'.servers d).answers = true) (hn : w.name = some d) :
    w'.name = some d ↔ ∀ d', d' ≠ d → ¬ Takes S w d' e := by
  have htaken : ∀ (u : World φ σ δ κ) (c : δ), u.name = none → Takes S w c e → (c ≠ d) →
      (u.name = some d ↔ ∀ d', d' ≠ d → ¬ Takes S w d' e) :=
    fun u c hu ht hc => iff_of_false (by simp [hu]) fun h => h c hc ht
  cases h with
  | nothing ht | ended _ ht => exact iff_of_true hn fun d' _ => ht d'
  | load | ready | connect | close => exact iff_of_true hn fun _ _ => id
  | bind _ hno => simp [hno] at hn
  | @clear c s hs =>
    refine htaken _ c rfl ⟨rfl,s,hs⟩ ?_
    rintro rfl
    simp [Server.answers] at hd'
  | @served k i c s s' file o hk hs hstep hup =>
    refine iff_of_true hn ?_
    rintro d' _ ⟨hk',t,t',_,_,ht,hstep',hup'⟩
    obtain rfl := Option.mem_unique hk hk'
    obtain rfl : s = t := by simpa [hs] using ht
    rw [hstep] at hstep'
    obtain ⟨rfl,_⟩ := Prod.mk.inj (Except.ok.inj hstep')
    simp [hup] at hup'
  | @left k i c s s' file o hk hs hstep hup =>
    refine htaken _ c rfl ⟨hk,s,s',file,o,hs,hstep,hup⟩ ?_
    rintro rfl
    simp [Server.answers] at hd'
  | @stop c s hs =>
    refine htaken _ c rfl ⟨rfl,s,hs⟩ ?_
    rintro rfl
    simp [Server.answers] at hd'

variable {es : List (Event δ κ ι χ)} {os : List (Option (ι × ο))}

theorem run_lost (hl : Lost d w) (h : runWorld S w es = .ok (w',os)) : Lost d w' :=
  Machine.run_invariant _ (Lost d) (fun _ => True) (fun _ _ _ _ hl _ h => (next_move h).lost hl) hl
    (fun _ _ => trivial) h

lemma Move.lost_peers (h : Move S w e w' o) (hl : Lost d w) {k : κ} (hk : w'.peers k = some d) :
    w.peers k = some d := by
  cases h with
  | @connect j =>
    by_cases hkj : k = j
    · subst hkj
      obtain ⟨hname,_⟩ : w.name = some d ∧ (w.servers d).answers = true := by
        simpa [Option.filter_eq_some_iff] using hk
      exact absurd hname hl.2
    · simpa [hkj] using hk
  | @close j =>
    by_cases hkj : k = j
    · simp [hkj] at hk
    · simpa [hkj] using hk
  | _ => exact hk

/-- From then on no client finds it. -/
theorem run_lost_peers (hl : Lost d w) (h : runWorld S w es = .ok (w',os)) {k : κ}
    (hk : w'.peers k = some d) : w.peers k = some d := by
  induction es generalizing w os with
  | nil =>
    obtain ⟨rfl,_⟩ := (Machine.run_nil _).mp h
    exact hk
  | cons e es ih =>
    obtain ⟨w₁,o,os',h1,hr,rfl⟩ := (Machine.run_cons _).mp h
    exact (next_move h1).lost_peers hl (ih ((next_move h1).lost hl) hr)

/-- A server that answers in the end has answered since it settled. -/
lemma run_answers (hd : (w.servers d).settled = true) (h : runWorld S w es = .ok (w',os))
    (hd' : (w'.servers d).answers = true) : (w.servers d).answers = true := by
  induction es generalizing w os with
  | nil =>
    obtain ⟨rfl,_⟩ := (Machine.run_nil _).mp h
    exact hd'
  | cons e es ih =>
    obtain ⟨w₁,o,os',h1,hr,rfl⟩ := (Machine.run_cons _).mp h
    obtain ⟨hd₁,hback⟩ := (next_move h1).settled hd
    exact hback (ih hd₁ hr)

/-- A server that has the name has it in the end, if it still answers then, exactly if no other server
has taken it away. -/
theorem run_keeps (hn : w.name = some d) (hd : (w.servers d).settled = true)
    (h : runWorld S w es = .ok (w',os)) (hd' : (w'.servers d).answers = true) :
    w'.name = some d ↔
      Machine.Along (fun w e => w.next S e) (fun w e => ∀ d', d' ≠ d → ¬ Takes S w d' e) w es := by
  induction es generalizing w os with
  | nil =>
    obtain ⟨rfl,_⟩ := (Machine.run_nil _).mp h
    exact iff_of_true hn trivial
  | cons e es ih =>
    obtain ⟨w₁,o,os',h1,hr,rfl⟩ := (Machine.run_cons _).mp h
    have hd₁ := ((next_move h1).settled hd).1
    have hkeeps := (next_move h1).keeps (run_answers hd₁ hr hd') hn
    by_cases hn₁ : w₁.name = some d
    · rw [ih hn₁ hd₁ hr]
      constructor
      · intro hrest
        refine ⟨hkeeps.mp hn₁,fun w₂ o₂ h2 => ?_⟩
        obtain ⟨rfl,_⟩ := Prod.mk.inj (Except.ok.inj (h1.symm.trans h2))
        exact hrest
      · exact fun hall => hall.2 _ _ h1
    · refine iff_of_false (run_lost ⟨hd₁,hn₁⟩ hr).2 fun hall => ?_
      exact hn₁ (hkeeps.mpr hall.1)

end Names

section Memory

/-- What a server has in memory it had before, or has just read, or comes from a request. -/
theorem Move.memory (h : Move S w e w' o) {s' : σ} (hs : (w'.servers d).memory = some s') :
    (w.servers d).memory = some s' ∨ (∃ x, e = .load d x ∧ S.load x w.file = s') ∨
    ∃ k i s file o', e = .request k i ∧ w.servers d = .serving s ∧
      S.step s w.file i = .ok (s',file,o') := by
  have hset : ∀ (u : World φ σ δ κ) c v, u.servers = w.servers →
      (∀ t, v.memory = some t → (w.servers c).memory = some t) →
      ((u.set c v).servers d).memory = some s' → (w.servers d).memory = some s' := by
    intro u c v hu hv hs
    by_cases hdc : d = c
    · subst hdc
      exact hv s' (by simpa using hs)
    · simpa [hdc,hu] using hs
  cases h with
  | nothing | connect | close => exact Or.inl hs
  | @load c x hc =>
    by_cases hdc : d = c
    · subst hdc
      exact Or.inr (Or.inl ⟨x,rfl,by simpa [Server.memory] using hs⟩)
    · exact Or.inl (by simpa [hdc] using hs)
  | clear hc | bind hc | ready hc =>
    exact Or.inl (hset _ _ _ rfl (fun t ht => by simpa [hc,Server.memory] using ht) hs)
  | @served k i c s t file o hk hc hstep =>
    by_cases hdc : d = c
    · subst hdc
      obtain rfl : t = s' := by simpa [Server.memory] using hs
      exact Or.inr (Or.inr ⟨k,i,s,file,o,rfl,hc,hstep⟩)
    · exact Or.inl (by simpa [hdc] using hs)
  | left | stop | ended =>
    exact Or.inl (hset _ _ _ rfl (fun t ht => by simp [Server.memory] at ht) hs)

/-- What every server has from its start and keeps. -/
theorem run_memory {P : σ → Prop} {Allowed : Event δ κ ι χ → Prop} (hload : ∀ x f, P (S.load x f))
    (hstep : ∀ k s f i s' f' o, P s → Allowed (.request k i) → S.step s f i = .ok (s',f',o) → P s')
    {es : List (Event δ κ ι χ)} {os : List (Option (ι × ο))} (hes : ∀ e ∈ es, Allowed e)
    (hw : ∀ d s, (w.servers d).memory = some s → P s) (h : runWorld S w es = .ok (w',os)) :
    ∀ d s, (w'.servers d).memory = some s → P s := by
  refine Machine.run_invariant _ (fun w : World φ σ δ κ => ∀ d s, (w.servers d).memory = some s → P s)
    Allowed (fun w e w' o hw he h d s hs => ?_) hw hes h
  rcases (next_move h).memory hs with hold | ⟨x,_,rfl⟩ | ⟨k,i,t,file,o',rfl,ht,hts⟩
  · exact hw d s hold
  · exact hload x w.file
  · exact hstep k t w.file i s file o' (hw d t (by rw [ht]; rfl)) he hts

end Memory

/-- The requests that a run has handled. -/
def written (op : ι → ο → List α) (os : List (Option (ι × ο))) : List α :=
  os.flatMap fun o => o.elim [] fun x => op x.1 x.2

section Files
variable (S) (op : ι → ο → List α) (Holds : σ → List α → Prop) (Keeps : φ → List α → Prop)
  (Sane : σ → Prop) (MayLoad : χ → Prop) (MayAsk : ι → Prop) (Good : ι → ο → Prop)

/-- A server reads the file as it may, and a request that writes is handled by the server that has read
the file last, with a good outcome. -/
def Fenced (w : World φ σ δ κ) : Event δ κ ι χ → Prop
  | .load _ x => MayLoad x
  | .request k i => MayAsk i ∧ ∀ d s s' file o, w.peers k = some d → w.servers d = .serving s →
      S.step s w.file i = .ok (s',file,o) → (w.newest = some d ∨ op i o = []) ∧ Good i o
  | _ => True

/-- The file has what was written, and so has the server that has read it last, while there is one. -/
structure Current (log : List α) (w : World φ σ δ κ) : Prop where
  file : Keeps w.file log
  newest : ∀ d s, w.newest = some d → (w.servers d).memory = some s → Holds s log
  sane : ∀ d s, (w.servers d).memory = some s → Sane s

variable {S op Holds Keeps Sane MayLoad MayAsk Good} {log : List α}

omit [DecidableEq δ] [DecidableEq κ] in
lemma fenced_request {k : κ} {i : ι} {s s' : σ} {file : φ} {o : ο} (hk : w.peers k = some d)
    (hd : w.servers d = .serving s) (hs : S.step s w.file i = .ok (s',file,o)) (hi : MayAsk i)
    (hn : w.newest = some d ∨ op i o = []) (hg : Good i o) :
    Fenced S op MayLoad MayAsk Good w (.request k i) := by
  refine ⟨hi,fun c t t' f o' hk' hc ht => ?_⟩
  obtain rfl := Option.mem_unique hk hk'
  obtain rfl : s = t := by simpa [hd] using hc
  obtain ⟨_,_,rfl⟩ : s' = t' ∧ file = f ∧ o = o' := by simpa using Except.ok.inj (hs.symm.trans ht)
  exact ⟨hn,hg⟩

omit [DecidableEq κ] in
lemma Current.set (h : Current Holds Keeps Sane log w) {v : Server σ}
    (hv : ∀ s, v.memory = some s → (w.servers d).memory = some s) :
    Current Holds Keeps Sane log (w.set d v) := by
  have hback : ∀ c s, ((w.set d v).servers c).memory = some s → (w.servers c).memory = some s := by
    intro c s hs
    by_cases hc : c = d
    · subst hc
      exact hv s (by simpa using hs)
    · simpa [hc] using hs
  exact ⟨h.file,fun c s hc hs => h.newest c s hc (hback c s hs),fun c s hs => h.sane c s (hback c s hs)⟩

variable
  (hload : ∀ x f, MayLoad x → Sane (S.load x f) ∧ ∀ log, Keeps f log → Holds (S.load x f) log)
  (hstep : ∀ s f i s' f' o, Sane s → MayAsk i → S.step s f i = .ok (s',f',o) → Sane s' ∧
    (op i o = [] → f' = f) ∧ ∀ log, Holds s log → Keeps f log → Good i o →
      Holds s' (log ++ op i o) ∧ Keeps f' (log ++ op i o))
include hstep

omit [DecidableEq κ] in
/-- A request that has been handled, and the server that it leaves. -/
theorem Current.handled (hw : Current Holds Keeps Sane log w) {i : ι} {s s' : σ} {file : φ} {o : ο}
    (hd : w.servers d = .serving s) (hs : S.step s w.file i = .ok (s',file,o)) (hi : MayAsk i)
    (hfence : w.newest = some d ∨ op i o = []) (hgood : Good i o) (name : Option δ) {v : Server σ}
    (hv : ∀ t, v.memory = some t → s' = t) :
    Current Holds Keeps Sane (log ++ op i o) ({w with file, name}.set d v) := by
  have hmem : (w.servers d).memory = some s := by rw [hd]; rfl
  obtain ⟨hsane,hsame,hboth⟩ := hstep s w.file i s' file o (hw.sane d s hmem) hi hs
  have hother : ∀ c t, c ≠ d → (({w with file, name}.set d v).servers c).memory = some t →
      (w.servers c).memory = some t := fun c t hc ht => by simpa [hc] using ht
  refine ⟨?_,fun c t hc ht => ?_,fun c t ht => ?_⟩
  · rcases hfence with hn | ho
    · exact (hboth log (hw.newest d s hn hmem) hw.file hgood).2
    · have hfile : Keeps file log := hsame ho ▸ hw.file
      simpa [ho] using hfile
  · by_cases hcd : c = d
    · subst hcd
      obtain rfl := hv t (by simpa using ht)
      exact (hboth log (hw.newest c s hc hmem) hw.file hgood).1
    · have hholds := hw.newest c t hc (hother c t hcd ht)
      have ho : op i o = [] := hfence.resolve_left fun hn => hcd (Option.some.inj (hc.symm.trans hn))
      simpa [ho] using hholds
  · by_cases hcd : c = d
    · subst hcd
      obtain rfl := hv t (by simpa using ht)
      exact hsane
    · exact hw.sane c t (hother c t hcd ht)

include hload

theorem Move.current (h : Move S w e w' o) (hw : Current Holds Keeps Sane log w)
    (he : Fenced S op MayLoad MayAsk Good w e) :
    Current Holds Keeps Sane (log ++ written op [o]) w' := by
  have hquiet : log ++ written op [none] = log := by simp [written]
  cases h with
  | nothing => rwa [hquiet]
  | connect | close =>
    rw [hquiet]
    exact ⟨hw.file,hw.newest,hw.sane⟩
  | @load d x hd =>
    rw [hquiet]
    obtain ⟨hsane,hholds⟩ := hload x w.file he
    refine ⟨hw.file,fun c s hc hs => ?_,fun c s hs => ?_⟩
    · obtain rfl : d = c := by simpa using hc
      obtain rfl : S.load x w.file = s := by simpa [Server.memory] using hs
      exact hholds log hw.file
    · by_cases hc : c = d
      · subst hc
        obtain rfl : S.load x w.file = s := by simpa [Server.memory] using hs
        exact hsane
      · exact hw.sane c s (by simpa [hc] using hs)
  | @clear d s hd =>
    rw [hquiet]
    have hw' : Current Holds Keeps Sane log {w with name := none} := ⟨hw.file,hw.newest,hw.sane⟩
    exact hw'.set fun t ht => by simpa [hd,Server.memory] using ht
  | @bind d s hd =>
    rw [hquiet]
    have hw' : Current Holds Keeps Sane log {w with name := some d} := ⟨hw.file,hw.newest,hw.sane⟩
    exact hw'.set fun t ht => by simpa [hd,Server.memory] using ht
  | @ready d s hd =>
    rw [hquiet]
    exact hw.set fun t ht => by simpa [hd,Server.memory] using ht
  | @stop d s hd =>
    rw [hquiet]
    have hw' : Current Holds Keeps Sane log {w with name := none} := ⟨hw.file,hw.newest,hw.sane⟩
    exact hw'.set fun t ht => by simp [Server.memory] at ht
  | ended =>
    rw [hquiet]
    exact hw.set fun t ht => by simp [Server.memory] at ht
  | @served k i d s s' file o hk hd hs =>
    obtain ⟨hfence,hgood⟩ := he.2 d s s' file o hk hd hs
    have hlog : written op [some (i,o)] = op i o := by simp [written]
    rw [hlog]
    exact hw.handled hstep hd hs he.1 hfence hgood w.name fun t ht => by simpa [Server.memory] using ht
  | @left k i d s s' file o hk hd hs =>
    obtain ⟨hfence,hgood⟩ := he.2 d s s' file o hk hd hs
    have hlog : written op [some (i,o)] = op i o := by simp [written]
    rw [hlog]
    exact hw.handled hstep hd hs he.1 hfence hgood none fun t ht => by simp [Server.memory] at ht

/-- What was written is there, whatever servers have come and gone. -/
theorem run_current {es : List (Event δ κ ι χ)} {os : List (Option (ι × ο))}
    (hw : Current Holds Keeps Sane log w)
    (hes : Machine.Along (fun w e => w.next S e) (Fenced S op MayLoad MayAsk Good) w es)
    (h : runWorld S w es = .ok (w',os)) :
    Current Holds Keeps Sane (log ++ written op os) w' := by
  induction es generalizing w log os with
  | nil =>
    obtain ⟨rfl,rfl⟩ := (Machine.run_nil _).mp h
    simpa [written] using hw
  | cons e es ih =>
    obtain ⟨w₁,o,os',h1,hr,rfl⟩ := (Machine.run_cons _).mp h
    have hw₁ := (next_move h1).current hload hstep hw hes.1
    have hcons : log ++ written op (o::os') = log ++ written op [o] ++ written op os' := by
      simp [written]
    rw [hcons]
    exact ih hw₁ (hes.2 _ _ h1) hr

end Files
end World
end Nav.Lib.Servers
