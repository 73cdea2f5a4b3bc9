import Nav.Lib.Mailbox
import Mathlib.Data.List.ReduceOption

/-! Who has a name. A name is held by one client at a time as long as nothing pulls it away, and then
every client that waits its turn out reads the answer to its own request. A client that is stopped
while it holds its name keeps all later ones from it. -/
namespace Nav.Lib.Mailbox
namespace World
variable {σ κ ν η ρ μ ο ε : Type*} {w : World σ κ ν η ρ μ ο} {k j : κ} {c : Client ρ μ} {name : ν}
  {holder : Option κ} [DecidableEq κ] [DecidableEq ν] (S : Service σ ν η ρ μ ο ε)

/-- No client of the name handles a signal while it does not hold the name: what is under the name is
then not its own. -/
def Steady (name : ν) (w : World σ κ ν η ρ μ ο) : Event κ η ρ → Prop
  | .client k op => ∀ c, w.clients k = some c → S.addr c.request = name →
      op = .interrupt → c.phase.holds = true
  | _ => True

/-- No client of the name is stopped while it holds the name. -/
def Spared (name : ν) (w : World σ κ ν η ρ μ ο) : Event κ η ρ → Prop
  | .client k op => ∀ c, w.clients k = some c → S.addr c.request = name →
      op = .kill → c.phase.holds = false
  | _ => True

def Tidy (name : ν) (w : World σ κ ν η ρ μ ο) (e : Event κ η ρ) : Prop :=
  Steady S name w e ∧ Spared S name w e

/-- No client of the name gives up. -/
def Patient (name : ν) (w : World σ κ ν η ρ μ ο) : Event κ η ρ → Prop
  | .client k op => ∀ c, w.clients k = some c → S.addr c.request = name →
      op ≠ .timeout ∧ op ≠ .interrupt ∧ op ≠ .kill
  | _ => True

/-- The clients of the name that have taken it and not given it back are those it leads to. -/
def Held (name : ν) (w : World σ κ ν η ρ μ ο) : Prop :=
  ∀ k c, w.clients k = some c → S.addr c.request = name →
    (c.phase.holds = true ↔ w.names name = some k)

section Held
variable {S} {s₀ : σ} {w' : World σ κ ν η ρ μ ο} {b : Client ρ μ}

omit [DecidableEq κ] [DecidableEq ν] in
lemma Patient.tidy {e : Event κ η ρ} (h : Patient S name w e) : Tidy S name w e := by
  cases e with
  | client k op => exact ⟨fun c hc hn he => absurd he (h c hc hn).2.1,
      fun c hc hn he => absurd he (h c hc hn).2.2⟩
  | _ => exact ⟨trivial,trivial⟩

omit [DecidableEq ν] in
lemma Held.put (h : Held S name w) (hc : w.clients k = some c) (hr : b.request = c.request)
    (hp : S.addr c.request = name → b.phase.holds = c.phase.holds) :
    Held S name (w.put k b) := by
  intro j d hd hname
  rcases put_cases hd with ⟨rfl,rfl⟩ | ⟨_,hd⟩
  · rw [hr] at hname
    rw [hp hname]
    exact h j c hc hname
  · exact h j d hd hname

/-- A client that gives its name back. -/
lemma Held.free (h : Held S name w) (hc : w.clients k = some c) (hr : b.request = c.request)
    (hp : S.addr c.request = name → c.phase.holds = true) (hp' : b.phase.holds = false) :
    Held S name ((w.setName (S.addr c.request) none).put k b) := by
  intro j d hd hname
  by_cases hn : S.addr c.request = name
  · have hk := (h k c hc hn).mp (hp hn)
    simp only [put_names,hn,setName_self,reduceCtorEq,iff_false]
    rcases put_cases hd with ⟨rfl,rfl⟩ | ⟨hj,hd⟩
    · simp [hp']
    · rw [setName_clients] at hd
      rw [h j d hd hname,hk]
      simpa using fun he => hj he.symm
  · rw [put_names,setName_of_ne (Ne.symm hn)]
    rcases put_cases hd with ⟨rfl,rfl⟩ | ⟨_,hd⟩
    · exact absurd (hr ▸ hname) hn
    · exact h j d hd hname

lemma Held.bind (h : Held S name w) (hc : w.clients k = some c) (hr : b.request = c.request)
    (hn : w.names (S.addr c.request) = none) (hp' : b.phase.holds = true) :
    Held S name ((w.setName (S.addr c.request) (some k)).put k b) := by
  intro j d hd hname
  by_cases he : S.addr c.request = name
  · simp only [put_names,he,setName_self,Option.some.injEq]
    rcases put_cases hd with ⟨rfl,rfl⟩ | ⟨hj,hd⟩
    · simp [hp']
    · rw [setName_clients] at hd
      rw [h j d hd hname,← he,hn]
      simpa using fun he => hj he.symm
  · rw [put_names,setName_of_ne (Ne.symm he)]
    rcases put_cases hd with ⟨rfl,rfl⟩ | ⟨_,hd⟩
    · exact absurd (hr ▸ hname) he
    · exact h j d hd hname

theorem Held.move (h : Held S name w) {op : Op} (ht : Tidy S name w (.client k op))
    (hc : w.clients k = some c) (hm : Move S w k c op w') : Held S name w' := by
  cases hm with
  | idle => exact h
  | bind hp hn => exact h.bind hc rfl hn rfl
  | refused hp | connect hp | unreachable hp | lost hp | recv hp | timeout hp | close hp | exit hp =>
    exact h.put hc rfl fun _ => by rw [hp]; rfl
  | send hp => exact h.put (b:={c with phase := .waiting}) hc rfl fun _ => by rw [hp]; rfl
  | unlink hp => exact h.free hc rfl (fun _ => by rw [hp]; rfl) rfl
  | interrupt hp => exact h.free hc rfl (fun hn => ht.1 c hc hn rfl) rfl
  | kill hp => exact h.put hc rfl fun hn => (ht.2 c hc hn rfl).symm

omit [DecidableEq ν] in
lemma Held.start (h : Held S name w) (hs : Sound S s₀ w) (hc : w.clients k = none)
    (hp : c.phase.holds = false) : Held S name (w.put k c) := by
  intro j d hd hname
  rcases put_cases hd with ⟨rfl,rfl⟩ | ⟨_,hd⟩
  · simp only [hp,Bool.false_eq_true,put_names,false_iff]
    intro hn
    obtain ⟨d,hd,_⟩ := hs.named name j hn
    simp [hc] at hd
  · exact h j d hd hname

omit [DecidableEq κ] [DecidableEq ν] in
lemma Held.grow (h : Held S name w) (more : κ → Client ρ μ → List μ) : Held S name (w.grow more) := by
  intro j d' hd' hname
  obtain ⟨d,hd,rfl⟩ := Option.map_eq_some_iff.mp hd'
  exact h j d hd hname

end Held

section Locked
variable {s₀ : σ} {w w' : World σ κ ν η ρ μ ο} {es : List (Event κ η ρ)} {os : List (Option (κ × ρ))}

/-- Where names are not pulled away, they are held by one client at a time. -/
theorem run_held (hs : Sound S s₀ w) (hh : Held S name w)
    (hes : Machine.Along (fun w e => w.next S e) (Tidy S name) w es)
    (h : runWorld S w es = .ok (w',os)) : Sound S s₀ w' ∧ Held S name w' := by
  refine run_invariant S (fun w => Sound S s₀ w ∧ Held S name w) ?_ ?_ ?_ ⟨hs,hh⟩ hes h
  · exact fun w k request hi _ hc => ⟨hi.1.start hc,hi.2.start hi.1 hc rfl⟩
  · exact fun w k c op w' hi ht hc hm => ⟨hi.1.move hc hm,hi.2.move ht hc hm⟩
  · exact fun w k request queue met server output hi hq hs =>
      ⟨hi.1.serve hq hs,Held.grow (w:=w.took server queue ⟨k,met,request,output⟩) hi.2 _⟩

omit [DecidableEq κ] [DecidableEq ν] in
lemma held_start : Held S name (start s₀ : World σ κ ν η ρ μ ο) := by simp [Held,start]

/-- The name is taken, and no client holds it. -/
def Locked (name : ν) (w : World σ κ ν η ρ μ ο) : Prop :=
  w.names name ≠ none ∧ ∀ k c, w.clients k = some c → S.addr c.request = name →
    c.phase.holds = false

omit [DecidableEq ν] in
lemma Locked.put (h : Locked S name w) {k : κ} {c : Client ρ μ}
    (hp : S.addr c.request = name → c.phase.holds = false) : Locked S name (w.put k c) := by
  refine ⟨h.1,fun j d hd hname => ?_⟩
  rcases put_cases hd with ⟨_,rfl⟩ | ⟨_,hd⟩
  · exact hp hname
  · exact h.2 j d hd hname

omit [DecidableEq κ] in
lemma Locked.setName (h : Locked S name w) {other : ν} {holder : Option κ} (hne : other ≠ name) :
    Locked S name (w.setName other holder) :=
  ⟨by rw [setName_of_ne (Ne.symm hne)]; exact h.1,h.2⟩

theorem Locked.move (h : Locked S name w) {k : κ} {c : Client ρ μ} {op : Op}
    (ht : Steady S name w (.client k op)) (hc : w.clients k = some c) (hm : Move S w k c op w') :
    Locked S name w' := by
  have hk := h.2 k c hc
  -- a client of the name has not taken it, or has given it back
  have hno : ∀ {p : Phase μ}, c.phase = p → p.holds = true → S.addr c.request ≠ name := by
    rintro p rfl hp hn
    simp [hk hn] at hp
  cases hm with
  | idle => exact h
  | bind hp hn =>
    have hne : S.addr c.request ≠ name := by rintro rfl; exact h.1 hn
    exact Locked.setName S (w:=w.put k {c with phase := .bound, since := w.served.length})
      (h.put S fun he => absurd he hne) hne
  | refused | exit | kill => exact h.put S fun _ => rfl
  | connect hp | unreachable hp | lost hp | recv hp | timeout hp | close hp =>
    exact h.put S fun he => absurd he (hno hp rfl)
  | send hp =>
    exact h.put S (c:={c with phase := .waiting}) fun he => absurd he (hno hp rfl)
  | unlink hp => exact Locked.setName S (w:=w.put k _) (h.put S fun _ => rfl) (hno hp rfl)
  | interrupt hp =>
    have hne : S.addr c.request ≠ name := fun he => hno rfl (ht c hc he rfl) he
    exact Locked.setName S (w:=w.put k _) (h.put S fun _ => rfl) hne

/-- A lock stays. -/
theorem run_locked (hl : Locked S name w)
    (hes : Machine.Along (fun w e => w.next S e) (Steady S name) w es)
    (h : runWorld S w es = .ok (w',os)) : Locked S name w' := by
  refine run_invariant S (Locked S name) ?_ ?_ ?_ hl hes h
  · exact fun w k request hi _ _ => hi.put S fun _ => rfl
  · exact fun w k c op w' hi ht hc hm => hi.move S ht hc hm
  · intro w k request queue met server output hi _ _
    refine ⟨hi.1,fun j d' hd' hname => ?_⟩
    obtain ⟨d,hd,rfl⟩ := Option.map_eq_some_iff.mp hd'
    exact hi.2 j d hd hname

/-- Only a client that is connected asks. -/
lemma next_asks {e : Event κ η ρ} {q : κ × ρ} (h : w.next S e = .ok (w',some q)) :
    ∃ c, w.clients q.1 = some c ∧ c.phase = .connected ∧ c.request = q.2 := by
  cases e with
  | start => simp [next] at h
  | serve met =>
    simp only [next] at h
    cases hs : w.serve S met <;> simp [hs,Except.map] at h
  | client k op =>
    simp only [next] at h
    cases hc : w.clients k with
    | none => simp [hc] at h
    | some c =>
      simp only [hc,Except.ok.injEq,Prod.mk.injEq] at h
      obtain ⟨_,h⟩ := h
      unfold asks at h
      split at h
      · split at h
        · next hp =>
          split_ifs at h
          cases h
          exact ⟨c,hc,hp,rfl⟩
        · simp at h
      · simp at h

lemma along_one {P : World σ κ ν η ρ μ ο → Event κ η ρ → Prop}
    {e : Event κ η ρ} (h : P w e) : Machine.Along (fun w e => w.next S e) P w [e] :=
  ⟨h,fun _ _ _ => trivial⟩

lemma run_one {e : Event κ η ρ} {o : Option (κ × ρ)} (h : w.next S e = .ok (w',o)) :
    runWorld S w [e] = .ok (w',[o]) :=
  (Machine.run_cons _).mpr ⟨w',o,[],h,rfl,rfl⟩

/-- From behind a lock nothing is asked. -/
theorem run_locked_asks (hl : Locked S name w)
    (hes : Machine.Along (fun w e => w.next S e) (Steady S name) w es)
    (h : runWorld S w es = .ok (w',os)) : ∀ q ∈ os.reduceOption, S.addr q.2 ≠ name := by
  induction es generalizing w os with
  | nil =>
    obtain ⟨_,rfl⟩ := (Machine.run_nil _).mp h
    simp
  | cons e es ih =>
    obtain ⟨s',o,os',h1,hr,rfl⟩ := (Machine.run_cons _).mp h
    have hrest := ih (run_locked S hl (along_one S hes.1) (run_one S h1)) (hes.2 s' o h1) hr
    intro q hq
    rw [List.reduceOption_mem_iff,List.mem_cons] at hq
    rcases hq with rfl | hq
    · intro hname
      obtain ⟨c,hc,hp,hreq⟩ := next_asks S h1
      have hno := hl.2 q.1 c hc (hreq ▸ hname)
      simp [hp,Phase.holds] at hno
    · exact hrest q (List.reduceOption_mem_iff.mpr hq)

/-- A client that is stopped while it holds its name locks it, and nothing else does. -/
theorem held_or_locked (hs : Sound S s₀ w) (hh : Held S name w)
    (hes : Machine.Along (fun w e => w.next S e) (Steady S name) w es)
    (h : runWorld S w es = .ok (w',os)) :
    Machine.Along (fun w e => w.next S e) (Spared S name) w es ∧ Held S name w' ∨
    ¬ Machine.Along (fun w e => w.next S e) (Spared S name) w es ∧ Locked S name w' := by
  induction es generalizing w os with
  | nil =>
    obtain ⟨rfl,_⟩ := (Machine.run_nil _).mp h
    exact Or.inl ⟨trivial,hh⟩
  | cons e es ih =>
    obtain ⟨s',o,os',h1,hr,rfl⟩ := (Machine.run_cons _).mp h
    by_cases hsp : Spared S name w e
    · obtain ⟨hs',hh'⟩ := run_held S hs hh (along_one S ⟨hes.1,hsp⟩) (run_one S h1)
      have hstep : Machine.Along (fun w e => w.next S e) (Spared S name) w (e::es) ↔
          Machine.Along (fun w e => w.next S e) (Spared S name) s' es := by
        refine ⟨fun ha => ha.2 s' o h1,fun ha => ⟨hsp,fun s'' o' h2 => ?_⟩⟩
        obtain ⟨rfl,_⟩ : s' = s'' ∧ o = o' := by simpa using Except.ok.inj (h1.symm.trans h2)
        exact ha
      rw [hstep]
      exact ih hs' hh' (hes.2 s' o h1) hr
    · refine Or.inr ⟨fun ha => hsp ha.1,run_locked S ?_ (hes.2 s' o h1) hr⟩
      cases e with
      | client k op =>
        simp only [Spared,not_forall] at hsp
        obtain ⟨c,hc,hname,rfl,hp⟩ := hsp
        have hheld := (hh k c hc hname).mp (by simpa using hp)
        have hstopped : s' = w.put k {c with phase := .gone none} := by
          simp only [next,hc,act,goto,Except.ok.injEq,Prod.mk.injEq] at h1
          rw [← h1.1]
          split
          · next hp' => simp [hp',Phase.holds] at hp
          · rfl
        subst hstopped
        refine ⟨by simp [hheld],fun j d hd hn => ?_⟩
        rcases put_cases hd with ⟨_,rfl⟩ | ⟨hj,hd⟩
        · rfl
        · have hjk := hh j d hd hn
          rw [hheld,Option.some.injEq] at hjk
          simpa using fun hp => hj (hjk.mp hp).symm
      | _ => exact absurd trivial hsp

end Locked

/-- Who asks at a name waits there, what is served while a client holds the name is its own, and what
it has read is the first message sent for its own request. -/
structure Own (name : ν) (w : World σ κ ν η ρ μ ο) : Prop where
  asked : ∀ q ∈ w.queue, S.addr q.2 = name → ∀ c, w.clients q.1 = some c → c.phase = .waiting
  since : ∀ k c, w.clients k = some c → S.addr c.request = name → c.phase.holds = true →
    ∀ x ∈ w.served.drop c.since, S.addr x.request = name → x.client = k
  before : ∀ k c, w.clients k = some c → S.addr c.request = name → c.phase.holds = true →
    ∀ x ∈ w.served.take c.since, x.client ≠ k
  read : ∀ k c m, w.clients k = some c → S.addr c.request = name → c.phase.read = some m →
    ∃ x ∈ w.served, x.client = k ∧ (mail S name x.output).head? = some m

section Own
variable {S} {s₀ : σ} {w' : World σ κ ν η ρ μ ο} {b : Client ρ μ}

/-- A client that goes on, and waits no longer for what it has in the queue. -/
lemma Own.put (h : Own S name w) (hs : Sound S s₀ w) (hc : w.clients k = some c)
    (hr : b.request = c.request)
    (hwait : S.addr c.request = name → c.phase ≠ .waiting ∨ k ∉ w.queue.map Prod.fst)
    (hsince : b.phase.holds = true → c.phase.holds = true ∧ b.since = c.since ∨
      b.since = w.served.length ∧ c.phase.early = true)
    (hread : ∀ m, S.addr c.request = name → b.phase.read = some m →
      ∃ x ∈ w.served, x.client = k ∧ (mail S name x.output).head? = some m) :
    Own S name (w.put k b) where
  asked q hq hname d hd := by
    by_cases hj : q.1 = k
    · obtain ⟨d',hd',hr',_⟩ := hs.queued q hq
      rw [hj] at hd'
      obtain rfl := Option.mem_unique hc hd'
      rcases hwait (hr' ▸ hname) with hne | hnot
      · exact absurd (h.asked q hq hname c (hj ▸ hc)) hne
      · exact absurd (List.mem_map.mpr ⟨q,hq,hj⟩) hnot
    · rw [put_of_ne hj] at hd
      exact h.asked q hq hname d hd
  since j d hd hname hp x hx hxn := by
    rcases put_cases hd with ⟨rfl,rfl⟩ | ⟨_,hd⟩
    · rcases hsince hp with ⟨hp',he⟩ | ⟨he,_⟩
      · rw [he] at hx
        exact h.since j c hc (hr ▸ hname) hp' x hx hxn
      · simp [he] at hx
    · exact h.since j d hd hname hp x hx hxn
  before j d hd hname hp x hx := by
    rcases put_cases hd with ⟨rfl,rfl⟩ | ⟨_,hd⟩
    · rcases hsince hp with ⟨hp',he⟩ | ⟨_,hearly⟩
      · rw [he] at hx
        exact h.before j c hc (hr ▸ hname) hp' x hx
      · rintro rfl
        exact hs.unasked hc hearly
          (List.mem_append_left _ (List.mem_map_of_mem (List.mem_of_mem_take hx)))
    · exact h.before j d hd hname hp x hx
  read j d m hd hname hm := by
    rcases put_cases hd with ⟨rfl,rfl⟩ | ⟨_,hd⟩
    · exact hread m (hr ▸ hname) hm
    · exact h.read j d m hd hname hm

lemma Own.start (h : Own S name w) (hs : Sound S s₀ w) (hc : w.clients k = none) {request : ρ} :
    Own S name (w.put k ⟨request,.fresh,[],0⟩) := by
  refine ⟨fun q hq hn d hd => ?_,fun j d hd hn hp => ?_,fun j d hd hn hp => ?_,
    fun j d m hd hn hm => ?_⟩
  · rcases put_cases hd with ⟨hj,_⟩ | ⟨_,hd⟩
    · obtain ⟨d',hd',_⟩ := hs.queued q hq
      simp [hj,hc] at hd'
    · exact h.asked q hq hn d hd
  · rcases put_cases hd with ⟨_,rfl⟩ | ⟨_,hd⟩
    · simp [Phase.holds] at hp
    · exact h.since j d hd hn hp
  · rcases put_cases hd with ⟨_,rfl⟩ | ⟨_,hd⟩
    · simp [Phase.holds] at hp
    · exact h.before j d hd hn hp
  · rcases put_cases hd with ⟨_,rfl⟩ | ⟨_,hd⟩
    · simp [Phase.read] at hm
    · exact h.read j d m hd hn hm

omit [DecidableEq κ] in
lemma Own.setName (h : Own S name w) {other : ν} : Own S name (w.setName other holder) :=
  ⟨h.asked,h.since,h.before,h.read⟩

omit [DecidableEq κ] in
/-- What a client with the name finds first was sent for its own request. -/
lemma Own.found (h : Own S name w) (hc : w.clients k = some c) (hname : S.addr c.request = name)
    (hm : Mailed S w k c) (hdirect : ∀ x ∈ w.served, ∀ m ∈ S.sends x.output, m.1 = S.addr x.request)
    (hp : c.phase = .waiting) {m : μ} {inbox : List μ} (hi : c.inbox = m::inbox) :
    ∃ x ∈ w.served, x.client = k ∧ (mail S name x.output).head? = some m := by
  obtain ⟨rest,hrest⟩ := (hm.unread (by simp [hp])).1
  have hhead : (arrived S w c).head? = some m := by
    rw [← hrest,hi]
    rfl
  rw [arrived,hname,List.head?_flatMap] at hhead
  obtain ⟨x,hx,hxm⟩ := List.exists_of_findSome?_eq_some hhead
  have hmem := List.mem_of_mem_drop hx
  obtain ⟨a,ha,_⟩ := List.mem_map.mp (List.mem_of_mem_head? hxm)
  obtain ⟨ha,han⟩ := List.mem_filter.mp ha
  have haddr : S.addr x.request = name := (hdirect x hmem a ha).symm.trans (by simpa using han)
  exact ⟨x,hmem,h.since k c hc hname (by rw [hp]; rfl) x hx haddr,hxm⟩

omit [DecidableEq κ] in
/-- What a client with the name that still waits has in its inbox once it is served. -/
lemma Own.inbox (h : Own S name w) (hs : Sound S s₀ w) (hm : Mailed S w k c) (hh : Held S name w)
    (hdirect : ∀ x ∈ w.served, ∀ m ∈ S.sends x.output, m.1 = S.addr x.request)
    (hc : w.clients k = some c) (hname : S.addr c.request = name) (hp : c.phase = .waiting)
    {x : Served κ η ρ ο} (hx : x ∈ w.served) (hk : x.client = k) :
    c.inbox = mail S name x.output := by
  have hholds : c.phase.holds = true := by rw [hp]; rfl
  have hheld := (hh k c hc hname).mp hholds
  rw [(hm.unread (by simp [hp])).2 (hname ▸ hheld),arrived,hname]
  have hsplit := List.take_append_drop c.since w.served
  have hdrop : x ∈ w.served.drop c.since := by
    rw [← hsplit,List.mem_append] at hx
    exact hx.resolve_left fun hx => h.before k c hc hname hholds x hx hk
  have honce : ((w.served.drop c.since).map Served.client).Nodup :=
    ((List.nodup_append.mp hs.once).1).sublist ((List.drop_sublist _ _).map _)
  have hnone : ∀ y ∈ w.served.drop c.since, y.client ≠ k → mail S name y.output = [] := by
    intro y hy hne
    rw [mail,List.map_eq_nil_iff,List.filter_eq_nil_iff]
    intro m hmem hmn
    have haddr : S.addr y.request = name :=
      (hdirect y (List.mem_of_mem_drop hy) m hmem).symm.trans (by simpa using hmn)
    exact hne (h.since k c hc hname hholds y hy haddr)
  obtain ⟨front,behind,hlist⟩ := List.append_of_mem hdrop
  rw [hlist] at honce hnone ⊢
  simp only [List.map_append,List.map_cons,List.nodup_append,List.nodup_cons] at honce
  have hfront : front.flatMap (fun y => mail S name y.output) = [] :=
    List.flatMap_eq_nil_iff.mpr fun y hy => hnone y (by simp [hy]) fun he =>
      honce.2.2 _ (List.mem_map_of_mem hy) _ (List.mem_cons_self ..) (he.trans hk.symm)
  have hbehind : behind.flatMap (fun y => mail S name y.output) = [] :=
    List.flatMap_eq_nil_iff.mpr fun y hy => hnone y (by simp [hy]) fun he =>
      honce.2.1.1 (List.mem_map.mpr ⟨y,hy,he.trans hk.symm⟩)
  simp [hfront,hbehind]

theorem Own.move (h : Own S name w) (hs : Sound S s₀ w) (hm : Mailed S w k c)
    (hdirect : ∀ x ∈ w.served, ∀ m ∈ S.sends x.output, m.1 = S.addr x.request)
    {op : Op} (ht : Patient S name w (.client k op)) (hc : w.clients k = some c)
    (hmove : Move S w k c op w') : Own S name w' := by
  have hkeep : ∀ m, S.addr c.request = name → c.phase.read = some m → _ :=
    fun m hn => h.read k c m hc hn
  cases hmove with
  | idle => exact h
  | bind hp =>
    exact Own.setName (w:=w.put k _) (h.put (b:={c with phase := .bound, since := w.served.length})
      hs hc rfl (by simp [hp]) (by simp [hp,Phase.early]) (by simp [Phase.read]))
  | refused hp | connect hp | unreachable hp | lost hp =>
    exact h.put hs hc rfl (by simp [hp]) (by simp [hp,Phase.holds]) (by simp [Phase.read])
  | close hp | exit hp =>
    exact h.put hs hc rfl (by simp [hp]) (by simp [hp,Phase.holds])
      (by simpa [hp,Phase.read] using hkeep)
  | @unlink read hp =>
    exact Own.setName (w:=w.put k _) (h.put (b:={c with phase := .leaving read}) hs hc rfl
      (by simp [hp]) (by simp [Phase.holds]) (by simpa [hp,Phase.read] using hkeep))
  | send hp =>
    have hput := h.put (b:={c with phase := .waiting}) hs hc rfl (by simp [hp])
      (by simp [hp,Phase.holds]) (by simp [Phase.read])
    refine ⟨fun q hq hname d hd => ?_,hput.since,hput.before,hput.read⟩
    rcases List.mem_append.mp hq with hq | hq
    · exact hput.asked q hq hname d hd
    · obtain rfl := List.mem_singleton.mp hq
      rw [show _ = some _ from put_self] at hd
      rw [← Option.some.inj hd]
  | recv hp hi =>
    refine h.put hs hc rfl (fun hn => Or.inr ?_) (by simp [hp,Phase.holds]) fun m hn hr => ?_
    · obtain ⟨x,hx,rfl,_⟩ := h.found hc hn hm hdirect hp hi
      exact fun hq => (List.nodup_append.mp hs.once).2.2 _ (List.mem_map_of_mem hx) _ hq rfl
    · obtain rfl := Option.some.inj hr
      exact h.found hc hn hm hdirect hp hi
  | timeout hp =>
    refine h.put hs hc rfl (fun hn => absurd rfl (ht c hc hn).1) (by simp [hp,Phase.holds])
      (by simp [Phase.read])
  | interrupt hp =>
    exact Own.setName (w:=w.put k _) (h.put (b:={c with phase := .gone none}) hs hc rfl
      (fun hn => absurd rfl (ht c hc hn).2.1) (by simp [Phase.holds]) (by simp [Phase.read]))
  | kill hp =>
    exact h.put hs hc rfl (fun hn => absurd rfl (ht c hc hn).2.2) (by simp [Phase.holds])
      (by simp [Phase.read])

omit [DecidableEq κ] in
theorem Own.serve (h : Own S name w) (hs : Sound S s₀ w) (hm : ∀ j d, w.clients j = some d → Mailed S w j d)
    (hheld : Held S name w) {request : ρ} {queue : List (κ × ρ)} {met : η} (server : σ) {output : ο}
    (hq : w.queue = (k,request)::queue) (more : κ → Client ρ μ → List μ) :
    Own S name ((w.took server queue ⟨k,met,request,output⟩).grow more) where
  asked q hmem hname d' hd' := by
    obtain ⟨d,hd,rfl⟩ := Option.map_eq_some_iff.mp hd'
    exact h.asked q (by rw [hq]; exact List.mem_cons_of_mem _ hmem) hname d hd
  since j d' hd' hname hp x hx hxn := by
    obtain ⟨d,hd,rfl⟩ := Option.map_eq_some_iff.mp hd'
    have hx' : x ∈ (w.served ++ [(⟨k,met,request,output⟩ : Served κ η ρ ο)]).drop d.since := hx
    rw [List.drop_append_of_le_length (hm j d hd).since_le] at hx'
    rcases List.mem_append.mp hx' with hx' | hx'
    · exact h.since j d hd hname hp x hx' hxn
    · obtain rfl := List.mem_singleton.mp hx'
      -- the client that asked still waits, so it is the one that has the name
      obtain ⟨c,hc,hr,_⟩ := hs.queued (k,request) (by simp [hq])
      have hwait := h.asked (k,request) (by simp [hq]) hxn c hc
      have hk := (hheld k c hc (by rw [hr]; exact hxn)).mp (by rw [hwait]; rfl)
      exact Option.some.inj (hk.symm.trans ((hheld j d hd hname).mp hp))
  before j d' hd' hname hp x hx := by
    obtain ⟨d,hd,rfl⟩ := Option.map_eq_some_iff.mp hd'
    have hx' : x ∈ (w.served ++ [(⟨k,met,request,output⟩ : Served κ η ρ ο)]).take d.since := hx
    rw [List.take_append_of_le_length (hm j d hd).since_le] at hx'
    exact h.before j d hd hname hp x hx'
  read j d' m hd' hname hr := by
    obtain ⟨d,hd,rfl⟩ := Option.map_eq_some_iff.mp hd'
    obtain ⟨x,hx,h'⟩ := h.read j d m hd hname hr
    exact ⟨x,List.mem_append_left _ hx,h'⟩

end Own

/-- Only requests of this kind are made. -/
def Asks (allowed : ρ → Prop) : Event κ η ρ → Prop
  | .start _ request => allowed request
  | _ => True

/-- What has been sent so far went to where it was waited for. -/
structure Direct (allowed : ρ → Prop) (good : σ → Prop) (w : World σ κ ν η ρ μ ο) : Prop where
  server : good w.server
  allowed : ∀ k c, w.clients k = some c → allowed c.request
  sent : ∀ x ∈ w.served, ∀ m ∈ S.sends x.output, m.1 = S.addr x.request

section Direct
variable {S} {s₀ : σ} {allowed : ρ → Prop} {good : σ → Prop}
  (hS : ∀ s i s' o, good s → allowed i.2 → S.step s i = .ok (s',o) →
    good s' ∧ ∀ m ∈ S.sends o, m.1 = S.addr i.2)

omit [DecidableEq ν] in
lemma Direct.put {w : World σ κ ν η ρ μ ο} (h : Direct S allowed good w) {k : κ} {c : Client ρ μ}
    (hc : allowed c.request) : Direct S allowed good (w.put k c) := by
  refine ⟨h.server,fun j d hd => ?_,h.sent⟩
  rcases put_cases hd with ⟨_,rfl⟩ | ⟨_,hd⟩
  · exact hc
  · exact h.allowed j d hd

theorem Direct.move {w w' : World σ κ ν η ρ μ ο} (h : Direct S allowed good w) {k : κ}
    {c : Client ρ μ} {op : Op} (hc : w.clients k = some c) (hm : Move S w k c op w') :
    Direct S allowed good w' := by
  obtain ⟨b,hclients,hr,hserver,hserved⟩ := hm.clients S hc
  have hput := h.put (k:=k) (c:=b) (hr ▸ h.allowed k c hc)
  exact ⟨hserver ▸ h.server,hclients ▸ hput.allowed,hserved ▸ h.sent⟩

include hS in
omit [DecidableEq κ] [DecidableEq ν] in
theorem Direct.serve {w : World σ κ ν η ρ μ ο} (h : Direct S allowed good w) (hs : Sound S s₀ w)
    {k : κ} {request : ρ} {queue : List (κ × ρ)} {met : η} {server : σ} {output : ο}
    (hq : w.queue = (k,request)::queue) (hstep : S.step w.server (met,request) = .ok (server,output))
    (more : κ → Client ρ μ → List μ) :
    Direct S allowed good ((w.took server queue ⟨k,met,request,output⟩).grow more) := by
  obtain ⟨c,hc,hr,_⟩ := hs.queued (k,request) (by simp [hq])
  obtain ⟨hgood,hsent⟩ := hS _ _ _ _ h.server (hr ▸ h.allowed k c hc) hstep
  refine ⟨hgood,fun j d' hd' => ?_,fun x hx => ?_⟩
  · obtain ⟨d,hd,rfl⟩ := Option.map_eq_some_iff.mp hd'
    exact h.allowed j d hd
  · rcases List.mem_append.mp hx with hx | hx
    · exact h.sent x hx
    · obtain rfl := List.mem_singleton.mp hx
      exact hsent

include hS in
theorem run_direct (h₀ : good s₀) {w : World σ κ ν η ρ μ ο} {es : List (Event κ η ρ)}
    {os : List (Option (κ × ρ))} (hes : ∀ e ∈ es, Asks allowed e)
    (h : runWorld S (start s₀) es = .ok (w,os)) : Direct S allowed good w := by
  refine (run_invariant S (fun w => Sound S s₀ w ∧ Direct S allowed good w)
    (P:=fun _ e => Asks allowed e) ?_ ?_ ?_ ?_ (Machine.along_of_mem _ (fun e he _ => hes e he) _) h).2
  · exact fun w k request hi ha hc => ⟨hi.1.start hc,hi.2.put ha⟩
  · exact fun w k c op w' hi _ hc hm => ⟨hi.1.move hc hm,hi.2.move hc hm⟩
  · exact fun w k request queue met server output hi hq hs =>
      ⟨hi.1.serve hq hs,hi.2.serve hS hi.1 hq hs _⟩
  · exact ⟨sound_start s₀,h₀,by simp [start],by simp [start]⟩

include hS in
theorem run_own (h₀ : good s₀) {name : ν} {w : World σ κ ν η ρ μ ο} {es : List (Event κ η ρ)}
    {os : List (Option (κ × ρ))} (hask : ∀ e ∈ es, Asks allowed e)
    (hes : Machine.Along (fun w e => w.next S e) (Patient S name) (start s₀) es)
    (h : runWorld S (start s₀) es = .ok (w,os)) :
    (Sound S s₀ w ∧ ∀ k c, w.clients k = some c → Mailed S w k c) ∧ Direct S allowed good w ∧
      Held S name w ∧ Own S name w := by
  refine run_invariant S (fun w => (Sound S s₀ w ∧ ∀ k c, w.clients k = some c → Mailed S w k c) ∧
      Direct S allowed good w ∧ Held S name w ∧ Own S name w)
    (P:=fun w e => Asks allowed e ∧ Patient S name w e) ?_ ?_ ?_ ?_
    ((Machine.along_and _).mpr ⟨Machine.along_of_mem _ (fun e he _ => hask e he) _,hes⟩) h
  · rintro w k request ⟨⟨hs,hm⟩,hd,hh,ho⟩ ⟨ha,_⟩ hc
    exact ⟨⟨hs.start hc,mailed_start hm⟩,hd.put ha,hh.start hs hc rfl,ho.start hs hc⟩
  · rintro w k c op w' ⟨⟨hs,hm⟩,hd,hh,ho⟩ ⟨_,hp⟩ hc hmove
    exact ⟨⟨hs.move hc hmove,mailed_move hm hc hmove⟩,hd.move hc hmove,hh.move hp.tidy hc hmove,
      ho.move hs (hm k c hc) hd.sent hp hc hmove⟩
  · rintro w k request queue met server output ⟨⟨hs,hm⟩,hd,hh,ho⟩ hq hstep
    exact ⟨⟨hs.serve hq hstep,hs.mailed_serve hm server queue _⟩,hd.serve hS hs hq hstep _,
      Held.grow (w:=w.took server queue ⟨k,met,request,output⟩) hh _,ho.serve hs hm hh server hq _⟩
  · exact ⟨⟨sound_start s₀,by simp [start]⟩,⟨h₀,by simp [start],by simp [start]⟩,
      by simp [Held,start],⟨by simp [start],by simp [start],by simp [start],by simp [start]⟩⟩

include hS in
/-- At a name whose clients do not give up, every client reads what is sent for its own request, and
one that waits finds just that. -/
theorem run_answers (h₀ : good s₀) {name : ν} {w : World σ κ ν η ρ μ ο} {es : List (Event κ η ρ)}
    {os : List (Option (κ × ρ))} (hask : ∀ e ∈ es, Asks allowed e)
    (hes : Machine.Along (fun w e => w.next S e) (Patient S name) (start s₀) es)
    (h : runWorld S (start s₀) es = .ok (w,os)) {k : κ} {c : Client ρ μ}
    (hc : w.clients k = some c) (hname : S.addr c.request = name) :
    (∀ m, c.phase.read = some m → ∃ x ∈ w.served, x.client = k ∧ x.request = c.request ∧
      (mail S name x.output).head? = some m) ∧
    (c.phase = .waiting → ∀ x ∈ w.served, x.client = k → c.inbox = mail S name x.output) := by
  obtain ⟨⟨hs,hm⟩,hd,hh,ho⟩ := run_own hS h₀ hask hes h
  constructor
  · intro m hr
    obtain ⟨x,hx,rfl,hhead⟩ := ho.read k c m hc hname hr
    obtain ⟨d,hd,hreq,_⟩ := hs.served x hx
    obtain rfl := Option.mem_unique hc hd
    exact ⟨x,hx,rfl,hreq.symm,hhead⟩
  · exact fun hp x hx hk => ho.inbox hs (hm k c hc) hh hd.sent hc hname hp hx hk

end Direct

end World
end Nav.Lib.Mailbox
