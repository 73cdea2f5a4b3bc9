import Nav.Lib.Run
import Mathlib.Logic.Function.Basic
import Mathlib.Data.List.ReduceOption

/-! Clients that wait at names. A client takes a name, sends one request to a server, reads the
first message that comes to the name and gives the name back. The server takes the requests in the
order in which they were sent, and it sends to names: a message goes to the client that has the name
when it comes. A client may give up or be stopped at every point. Queues have no bound. -/
namespace Nav.Lib.Mailbox
variable {σ κ ν η ρ μ ο ε : Type*}

/-- Where a client is. From `closing` on it has read a message, or will not. -/
inductive Phase (μ : Type*)
  | fresh
  | bound
  | connected
  | waiting
  | closing (read : Option μ)
  | closed (read : Option μ)
  | leaving (read : Option μ)
  | gone (read : Option μ)

namespace Phase

/-- The client has taken its name and not yet given it back. -/
def holds : Phase μ → Bool
  | .bound | .connected | .waiting | .closing _ | .closed _ => true
  | .fresh | .leaving _ | .gone _ => false

/-- The socket is bound and open. -/
def listens : Phase μ → Bool
  | .bound | .connected | .waiting | .closing _ => true
  | .fresh | .closed _ | .leaving _ | .gone _ => false

/-- The client has not come to its request. -/
def early : Phase μ → Bool
  | .fresh | .bound | .connected => true
  | .waiting | .closing _ | .closed _ | .leaving _ | .gone _ => false

def read : Phase μ → Option μ
  | .fresh | .bound | .connected | .waiting => none
  | .closing read | .closed read | .leaving read | .gone read => read

end Phase

/-- A client; `since` says how many requests had been served when it took its name. -/
structure Client (ρ μ : Type*) where
  request : ρ
  phase : Phase μ
  inbox : List μ
  since : ℕ

/-- A request that has been served, with what the server met meanwhile and what it put out. -/
structure Served (κ η ρ ο : Type*) where
  client : κ
  met : η
  request : ρ
  output : ο

def Served.input (x : Served κ η ρ ο) : η × ρ := (x.met,x.request)

@[ext] structure World (σ κ ν η ρ μ ο : Type*) where
  server : σ
  queue : List (κ × ρ)
  served : List (Served κ η ρ ο)
  names : ν → Option κ
  clients : κ → Option (Client ρ μ)

/-- Nothing has happened. -/
def World.start (server : σ) : World σ κ ν η ρ μ ο := ⟨server,[],[],fun _ => none,fun _ => none⟩

/-- The steps of a client. The last two come from outside: a signal that it handles, by giving back
whatever is under its name, and one that it does not. -/
inductive Op
  | bind | connect | send | recv | timeout | close | unlink | exit | interrupt | kill
  deriving DecidableEq

inductive Event (κ η ρ : Type*)
  | start (k : κ) (request : ρ)
  | client (k : κ) (op : Op)
  | serve (met : η)

/-- A server, and where it is asked from: its steps, whether it is still up, the messages in an
output with the names they go to, and the name at which an answer to a request is waited for. -/
structure Service (σ ν η ρ μ ο ε : Type*) where
  step : σ → η × ρ → Except ε (σ × ο)
  up : σ → Bool
  sends : ο → List (ν × μ)
  addr : ρ → ν

section Steps
variable [DecidableEq κ] [DecidableEq ν] (S : Service σ ν η ρ μ ο ε)

namespace World
variable (w : World σ κ ν η ρ μ ο)

def put (k : κ) (c : Client ρ μ) : World σ κ ν η ρ μ ο :=
  {w with clients := Function.update w.clients k (some c)}

def goto (k : κ) (c : Client ρ μ) (phase : Phase μ) : World σ κ ν η ρ μ ο := w.put k {c with phase}

def setName (name : ν) (holder : Option κ) : World σ κ ν η ρ μ ο :=
  {w with names := Function.update w.names name holder}

/-- A message goes to the client that its name leads to, if that one still listens. -/
def deliver (m : ν × μ) : World σ κ ν η ρ μ ο :=
  match w.names m.1 with
  | none => w
  | some k =>
    match w.clients k with
    | none => w
    | some c => if c.phase.listens then w.put k {c with inbox := c.inbox ++ [m.2]} else w

/-- A step of one client. What is not its turn changes nothing. -/
def act (k : κ) (c : Client ρ μ) : Op → World σ κ ν η ρ μ ο
  | .bind =>
    match c.phase with
    | .fresh =>
      if (w.names (S.addr c.request)).isNone then
        (w.setName (S.addr c.request) (some k)).put k
          {c with phase := .bound, since := w.served.length}
      else w.goto k c (.leaving none)
    | _ => w
  | .connect =>
    match c.phase with
    | .bound => w.goto k c (if S.up w.server then .connected else .closing none)
    | _ => w
  | .send =>
    match c.phase with
    | .connected =>
      {w.goto k c .waiting with
        queue := if S.up w.server then w.queue ++ [(k,c.request)] else w.queue}
    | _ => w
  | .recv =>
    match c.phase, c.inbox with
    | .waiting, m::inbox => w.put k {c with phase := .closing (some m), inbox}
    | _, _ => w
  | .timeout =>
    match c.phase, c.inbox with
    | .waiting, [] => w.goto k c (.closing none)
    | _, _ => w
  | .close =>
    match c.phase with
    | .closing read => w.goto k c (.closed read)
    | _ => w
  | .unlink =>
    match c.phase with
    | .closed read => (w.setName (S.addr c.request) none).goto k c (.leaving read)
    | _ => w
  | .exit =>
    match c.phase with
    | .leaving read => w.goto k c (.gone read)
    | _ => w
  | .interrupt =>
    match c.phase with
    | .gone _ => w
    | _ => (w.setName (S.addr c.request) none).goto k c (.gone none)
  | .kill =>
    match c.phase with
    | .gone _ => w
    | _ => w.goto k c (.gone none)

/-- The request that a step of a client puts into the queue. -/
def asks (k : κ) (c : Client ρ μ) : Op → Option (κ × ρ)
  | .send =>
    match c.phase with
    | .connected => if S.up w.server then some (k,c.request) else none
    | _ => none
  | _ => none

/-- A request is taken off the queue and has been served. -/
def took (server : σ) (queue : List (κ × ρ)) (x : Served κ η ρ ο) : World σ κ ν η ρ μ ο :=
  {w with server, queue, served := w.served ++ [x]}

/-- The server takes the next request, if it is up and there is one. -/
def serve (met : η) : Except ε (World σ κ ν η ρ μ ο) :=
  match S.up w.server, w.queue with
  | true, (k,request)::queue =>
    (S.step w.server (met,request)).map fun (server,output) =>
      (S.sends output).foldl deliver (w.took server queue ⟨k,met,request,output⟩)
  | _, _ => .ok w

/-- One step of the whole. Its output is the request that it sends. -/
def next : Event κ η ρ → Except ε (World σ κ ν η ρ μ ο × Option (κ × ρ))
  | .start k request =>
    .ok (if (w.clients k).isNone then w.put k ⟨request,.fresh,[],0⟩ else w,none)
  | .client k op =>
    match w.clients k with
    | none => .ok (w,none)
    | some c => .ok (w.act S k c op,w.asks S k c op)
  | .serve met => (w.serve S met).map fun w => (w,none)

end World

abbrev runWorld (w : World σ κ ν η ρ μ ο) (es : List (Event κ η ρ)) :=
  Machine.run (fun w e => w.next S e) w es

/-- The messages of an output that go to a name. -/
def mail (name : ν) (output : ο) : List μ := ((S.sends output).filter (·.1 = name)).map Prod.snd

end Steps

namespace World
variable {w : World σ κ ν η ρ μ ο} {k j : κ} {c : Client ρ μ} {name other : ν} {holder : Option κ}

section Frame
variable [DecidableEq κ]

@[simp] theorem put_server : (w.put k c).server = w.server := rfl
@[simp] theorem put_queue : (w.put k c).queue = w.queue := rfl
@[simp] theorem put_served : (w.put k c).served = w.served := rfl
@[simp] theorem put_names : (w.put k c).names = w.names := rfl
@[simp] theorem put_self : (w.put k c).clients k = some c := Function.update_self ..
@[simp] theorem put_of_ne (h : j ≠ k) : (w.put k c).clients j = w.clients j :=
  Function.update_of_ne h ..

lemma put_cases {d : Client ρ μ} (h : (w.put k c).clients j = some d) :
    j = k ∧ c = d ∨ j ≠ k ∧ w.clients j = some d := by
  by_cases hj : j = k
  · subst hj
    exact Or.inl ⟨rfl,Option.some.inj (put_self.symm.trans h)⟩
  · exact Or.inr ⟨hj,(put_of_ne hj).symm.trans h⟩

end Frame

section Frame
variable [DecidableEq ν]

@[simp] theorem setName_server : (w.setName name holder).server = w.server := rfl
@[simp] theorem setName_queue : (w.setName name holder).queue = w.queue := rfl
@[simp] theorem setName_served : (w.setName name holder).served = w.served := rfl
@[simp] theorem setName_clients : (w.setName name holder).clients = w.clients := rfl
@[simp] theorem setName_self : (w.setName name holder).names name = holder :=
  Function.update_self ..
@[simp] theorem setName_of_ne (h : other ≠ name) :
    (w.setName name holder).names other = w.names other := Function.update_of_ne h ..

end Frame

variable [DecidableEq κ] [DecidableEq ν] (S : Service σ ν η ρ μ ο ε)

/-- Everything that a step of a client can do. -/
inductive Move (w : World σ κ ν η ρ μ ο) (k : κ) (c : Client ρ μ) : Op → World σ κ ν η ρ μ ο → Prop
  | idle {op : Op} : Move w k c op w
  | bind (hp : c.phase = .fresh) (hn : w.names (S.addr c.request) = none) :
      Move w k c .bind ((w.setName (S.addr c.request) (some k)).put k
        {c with phase := .bound, since := w.served.length})
  | refused (hp : c.phase = .fresh) (hn : w.names (S.addr c.request) ≠ none) :
      Move w k c .bind (w.put k {c with phase := .leaving none})
  | connect (hp : c.phase = .bound) : Move w k c .connect (w.put k {c with phase := .connected})
  | unreachable (hp : c.phase = .bound) :
      Move w k c .connect (w.put k {c with phase := .closing none})
  | send (hp : c.phase = .connected) :
      Move w k c .send {w.put k {c with phase := .waiting} with queue := w.queue ++ [(k,c.request)]}
  | lost (hp : c.phase = .connected) : Move w k c .send (w.put k {c with phase := .waiting})
  | recv {m : μ} {inbox : List μ} (hp : c.phase = .waiting) (hi : c.inbox = m::inbox) :
      Move w k c .recv (w.put k {c with phase := .closing (some m), inbox})
  | timeout (hp : c.phase = .waiting) : Move w k c .timeout (w.put k {c with phase := .closing none})
  | close {read : Option μ} (hp : c.phase = .closing read) :
      Move w k c .close (w.put k {c with phase := .closed read})
  | unlink {read : Option μ} (hp : c.phase = .closed read) :
      Move w k c .unlink ((w.setName (S.addr c.request) none).put k {c with phase := .leaving read})
  | exit {read : Option μ} (hp : c.phase = .leaving read) :
      Move w k c .exit (w.put k {c with phase := .gone read})
  | interrupt (hp : ∀ read, c.phase ≠ .gone read) :
      Move w k c .interrupt ((w.setName (S.addr c.request) none).put k {c with phase := .gone none})
  | kill (hp : ∀ read, c.phase ≠ .gone read) : Move w k c .kill (w.put k {c with phase := .gone none})

theorem act_move (op : Op) : Move S w k c op (w.act S k c op) := by
  cases op <;> dsimp only [act,goto]
  case bind =>
    split
    · next hp =>
      split_ifs with hn
      · exact .bind hp (Option.isNone_iff_eq_none.mp hn)
      · exact .refused hp (by simpa using hn)
    · exact .idle
  case connect =>
    split
    · next hp =>
      split_ifs
      · exact .connect hp
      · exact .unreachable hp
    · exact .idle
  case send =>
    split
    · next hp =>
      split_ifs
      · exact .send hp
      · exact .lost hp
    · exact .idle
  case recv =>
    split
    · next m inbox hp hi => exact .recv hp hi
    · exact .idle
  case timeout =>
    split
    · next hp _ => exact .timeout hp
    · exact .idle
  case close =>
    split
    · next hp => exact .close hp
    · exact .idle
  case unlink =>
    split
    · next hp => exact .unlink hp
    · exact .idle
  case exit =>
    split
    · next hp => exact .exit hp
    · exact .idle
  case interrupt =>
    split
    · exact .idle
    · next hp => exact .interrupt hp
  case kill =>
    split
    · exact .idle
    · next hp => exact .kill hp

/-- A step of a client changes that client only, and neither the server nor what it has served. -/
lemma Move.clients {w w' : World σ κ ν η ρ μ ο} {op : Op} (hm : Move S w k c op w')
    (hc : w.clients k = some c) : ∃ b : Client ρ μ, w'.clients = (w.put k b).clients ∧
      b.request = c.request ∧ w'.server = w.server ∧ w'.served = w.served := by
  cases hm with
  | idle => exact ⟨c,by simp [World.put,← hc],rfl,rfl,rfl⟩
  | _ => exact ⟨_,rfl,rfl,rfl,rfl⟩

/-- Something is put behind the inbox of every client. -/
def grow (more : κ → Client ρ μ → List μ) (w : World σ κ ν η ρ μ ο) : World σ κ ν η ρ μ ο :=
  {w with clients := fun j => (w.clients j).map fun c => {c with inbox := c.inbox ++ more j c}}

/-- The messages that come to a client of those that are sent. -/
def arriving (names : ν → Option κ) (ms : List (ν × μ)) (j : κ) (c : Client ρ μ) : List μ :=
  if c.phase.listens then (ms.filter (names ·.1 = some j)).map Prod.snd else []

omit [DecidableEq κ] [DecidableEq ν] in
lemma grow_nothing {more : κ → Client ρ μ → List μ}
    (h : ∀ j c, w.clients j = some c → more j c = []) : w.grow more = w := by
  have hclients : (fun j => (w.clients j).map fun c => {c with inbox := c.inbox ++ more j c}) =
      w.clients := by
    funext j
    cases hc : w.clients j with
    | none => rfl
    | some c => simp [h j c hc]
  exact World.ext rfl rfl rfl rfl hclients

omit [DecidableEq ν] in
lemma deliver_eq (m : ν × μ) : w.deliver m = w.grow (arriving w.names [m]) := by
  unfold deliver
  cases hn : w.names m.1 with
  | none => exact (grow_nothing fun j c _ => by simp [arriving,hn]).symm
  | some k =>
    simp only
    cases hc : w.clients k with
    | none =>
      refine (grow_nothing fun j c hj => ?_).symm
      have hne : k ≠ j := by rintro rfl; simp [hc] at hj
      simp [arriving,hn,hne]
    | some c =>
      simp only
      split_ifs with hl
      · refine World.ext rfl rfl rfl rfl (funext fun j => ?_)
        by_cases hj : j = k
        · subst hj
          simp [grow,hc,arriving,hl,hn]
        · have hne : k ≠ j := fun h => hj h.symm
          rw [put_of_ne hj]
          cases hw : w.clients j <;> simp [grow,arriving,hn,hne,hw]
      · refine (grow_nothing fun j d hj => ?_).symm
        by_cases hj' : k = j
        · subst hj'
          obtain rfl := Option.mem_unique hc hj
          simp [arriving,hl]
        · simp [arriving,hn,hj']

omit [DecidableEq ν] in
/-- Delivering changes inboxes only. -/
theorem foldl_deliver (ms : List (ν × μ)) :
    ms.foldl deliver w = w.grow (arriving w.names ms) := by
  induction ms generalizing w with
  | nil => exact (grow_nothing fun j c _ => by simp [arriving]).symm
  | cons m ms ih =>
    rw [List.foldl_cons,ih,deliver_eq]
    have hclients : ((w.grow (arriving w.names [m])).grow (arriving w.names ms)).clients =
        (w.grow (arriving w.names (m::ms))).clients := by
      funext j
      simp only [grow]
      cases w.clients j with
      | none => rfl
      | some c =>
        simp only [Option.map_some,arriving,List.filter_cons,List.filter_nil]
        split_ifs <;> simp
    exact World.ext rfl rfl rfl rfl hclients

/-- An invariant of the steps of clients and of the server, on runs whose events meet a condition. -/
theorem run_invariant (Inv : World σ κ ν η ρ μ ο → Prop)
    {P : World σ κ ν η ρ μ ο → Event κ η ρ → Prop}
    (hstart : ∀ w k request, Inv w → P w (.start k request) → w.clients k = none →
      Inv (w.put k ⟨request,.fresh,[],0⟩))
    (hmove : ∀ w k c op w', Inv w → P w (.client k op) → w.clients k = some c → Move S w k c op w' →
      Inv w')
    (hserve : ∀ w k request queue met server output, Inv w → w.queue = (k,request)::queue →
      S.step w.server (met,request) = .ok (server,output) →
      Inv ((w.took server queue ⟨k,met,request,output⟩).grow
        (arriving w.names (S.sends output))))
    {w w' : World σ κ ν η ρ μ ο} {es : List (Event κ η ρ)} {os : List (Option (κ × ρ))}
    (hw : Inv w) (hes : Machine.Along (fun w e => w.next S e) P w es)
    (h : runWorld S w es = .ok (w',os)) : Inv w' := by
  refine Machine.run_invariant_along _ Inv (fun w e w' o hi hp hs => ?_) hw hes h
  cases e with
  | start k request =>
    simp only [next,Except.ok.injEq,Prod.mk.injEq] at hs
    obtain ⟨rfl,_⟩ := hs
    split_ifs with hn
    · exact hstart w k request hi hp (Option.isNone_iff_eq_none.mp hn)
    · exact hi
  | client k op =>
    simp only [next] at hs
    cases hc : w.clients k with
    | none =>
      simp only [hc,Except.ok.injEq,Prod.mk.injEq] at hs
      exact hs.1 ▸ hi
    | some c =>
      simp only [hc,Except.ok.injEq,Prod.mk.injEq] at hs
      exact hs.1 ▸ hmove w k c op _ hi hp hc (act_move S op)
  | serve met =>
    simp only [next,serve] at hs
    split at hs
    · next k request queue _ hq =>
      cases hstep : S.step w.server (met,request) with
      | error e => simp [hstep,Except.map] at hs
      | ok p =>
        obtain ⟨server,output⟩ := p
        simp only [hstep,Except.map,Except.ok.injEq,Prod.mk.injEq] at hs
        rw [← hs.1,foldl_deliver]
        exact hserve w k request queue met server output hi hq hstep
    · simp only [Except.map,Except.ok.injEq,Prod.mk.injEq] at hs
      exact hs.1 ▸ hi

/-- The clients are the same, and none is back before its request. -/
def Kept (w w' : World σ κ ν η ρ μ ο) : Prop :=
  ∀ k c, w.clients k = some c → ∃ b, w'.clients k = some b ∧ b.request = c.request ∧
    (c.phase.early = false → b.phase.early = false)

/-- Names lead to clients that wait there. Requests come from clients that have sent them, each of
them once, and the server has served them one after the other. -/
structure Sound (s₀ : σ) (w : World σ κ ν η ρ μ ο) : Prop where
  named : ∀ n k, w.names n = some k → ∃ c, w.clients k = some c ∧ S.addr c.request = n
  queued : ∀ q ∈ w.queue, ∃ c, w.clients q.1 = some c ∧ c.request = q.2 ∧ c.phase.early = false
  served : ∀ x ∈ w.served, ∃ c, w.clients x.client = some c ∧ c.request = x.request ∧
    c.phase.early = false
  once : (w.served.map Served.client ++ w.queue.map Prod.fst).Nodup
  ran : Machine.run S.step s₀ (w.served.map Served.input) =
    .ok (w.server,w.served.map Served.output)

section Sound
variable {S} {s₀ : σ} {w' : World σ κ ν η ρ μ ο} {b : Client ρ μ}

omit [DecidableEq ν] in
lemma kept_put (hc : w.clients k = some c) (hr : b.request = c.request)
    (hp : c.phase.early = false → b.phase.early = false) : Kept w (w.put k b) := by
  intro j d hd
  by_cases hj : j = k
  · subst hj
    obtain rfl := Option.mem_unique hc hd
    exact ⟨b,put_self,hr,hp⟩
  · exact ⟨d,by rw [put_of_ne hj,hd],rfl,id⟩

omit [DecidableEq κ] [DecidableEq ν] in
theorem Sound.kept (h : Sound S s₀ w) (hk : Kept w w') (hnames : w'.names = w.names)
    (hqueue : w'.queue = w.queue) (hserved : w'.served = w.served) (hserver : w'.server = w.server) :
    Sound S s₀ w' where
  named n k hn := by
    obtain ⟨c,hc,rfl⟩ := h.named n k (hnames ▸ hn)
    obtain ⟨b,hc',hr,_⟩ := hk k c hc
    exact ⟨b,hc',congrArg S.addr hr⟩
  queued q hq := by
    obtain ⟨c,hc,hr,hp⟩ := h.queued q (hqueue ▸ hq)
    obtain ⟨b,hc',hr',hp'⟩ := hk _ c hc
    exact ⟨b,hc',hr'.trans hr,hp' hp⟩
  served x hx := by
    obtain ⟨c,hc,hr,hp⟩ := h.served x (hserved ▸ hx)
    obtain ⟨b,hc',hr',hp'⟩ := hk _ c hc
    exact ⟨b,hc',hr'.trans hr,hp' hp⟩
  once := by
    rw [hserved,hqueue]
    exact h.once
  ran := by
    rw [hserved,hserver]
    exact h.ran

omit [DecidableEq κ] in
lemma Sound.setName (h : Sound S s₀ w) (hh : ∀ j, holder = some j →
    ∃ c, w.clients j = some c ∧ S.addr c.request = name) : Sound S s₀ (w.setName name holder) where
  named n k hn := by
    by_cases hne : n = name
    · subst hne
      rw [setName_self] at hn
      exact hh k hn
    · rw [setName_of_ne hne] at hn
      exact h.named n k hn
  queued := h.queued
  served := h.served
  once := h.once
  ran := h.ran

omit [DecidableEq κ] [DecidableEq ν] in
/-- A client that has not sent its request has none in the queue and none served. -/
lemma Sound.unasked (h : Sound S s₀ w) (hc : w.clients k = some c) (hp : c.phase.early = true) :
    k ∉ w.served.map Served.client ++ w.queue.map Prod.fst := by
  intro hk
  have hearly : ∃ d, w.clients k = some d ∧ d.phase.early = false := by
    rcases List.mem_append.mp hk with hk | hk
    · obtain ⟨x,hx,rfl⟩ := List.mem_map.mp hk
      obtain ⟨d,hd,_,hp'⟩ := h.served x hx
      exact ⟨d,hd,hp'⟩
    · obtain ⟨q,hq,rfl⟩ := List.mem_map.mp hk
      obtain ⟨d,hd,_,hp'⟩ := h.queued q hq
      exact ⟨d,hd,hp'⟩
  obtain ⟨d,hd,hp'⟩ := hearly
  obtain rfl := Option.mem_unique hc hd
  simp [hp] at hp'

omit [DecidableEq ν] in
theorem Sound.put (h : Sound S s₀ w) (hc : w.clients k = some c) (hr : b.request = c.request)
    (hp : c.phase.early = false → b.phase.early = false) : Sound S s₀ (w.put k b) :=
  h.kept (kept_put hc hr hp) rfl rfl rfl rfl

theorem Sound.move (h : Sound S s₀ w) {op : Op} (hc : w.clients k = some c)
    (hm : Move S w k c op w') : Sound S s₀ w' := by
  have free : ∀ (w : World σ κ ν η ρ μ ο) name, Sound S s₀ w → Sound S s₀ (w.setName name none) :=
    fun w name h => h.setName fun j hj => by simp at hj
  cases hm with
  | idle => exact h
  | bind hp hn =>
    exact Sound.setName (w:=w.put k _) (h.put hc rfl (by simp [hp,Phase.early])) fun j hj => by
      obtain rfl := Option.some.inj hj
      exact ⟨_,put_self,rfl⟩
  | refused hp | connect hp | unreachable hp | lost hp => exact h.put hc rfl (by simp [hp,Phase.early])
  | send hp =>
    have hput := h.put (b:={c with phase := .waiting}) hc rfl (by simp [Phase.early])
    have hun := h.unasked hc (by simp [hp,Phase.early])
    refine ⟨hput.named,fun q hq => ?_,hput.served,?_,hput.ran⟩
    · rcases List.mem_append.mp hq with hq | hq
      · exact hput.queued q hq
      · obtain rfl := List.mem_singleton.mp hq
        exact ⟨_,put_self,rfl,rfl⟩
    · have honce := h.once
      simp only [put_served,List.map_append,List.map_cons,List.map_nil]
      rw [← List.append_assoc]
      exact List.nodup_append.mpr ⟨honce,by simp,by
        intro a ha b hb
        obtain rfl := List.mem_singleton.mp hb
        rintro rfl
        exact hun ha⟩
  | recv hp | timeout hp | close hp | exit hp | kill hp => exact h.put hc rfl (by simp [Phase.early])
  | unlink hp | interrupt hp => exact free (w.put k _) _ (h.put hc rfl (by simp [Phase.early]))

omit [DecidableEq κ] [DecidableEq ν] in
lemma kept_grow (more : κ → Client ρ μ → List μ) : Kept w (w.grow more) := by
  intro k c hc
  exact ⟨{c with inbox := c.inbox ++ more k c},by simp [grow,hc],rfl,id⟩

omit [DecidableEq κ] [DecidableEq ν] in
lemma Sound.took (h : Sound S s₀ w) {request : ρ} {queue : List (κ × ρ)} {met : η} {server : σ}
    {output : ο} (hq : w.queue = (k,request)::queue)
    (hs : S.step w.server (met,request) = .ok (server,output)) :
    Sound S s₀ (w.took server queue ⟨k,met,request,output⟩) where
  named := h.named
  queued q hm := h.queued q (by simp [hq]; exact Or.inr hm)
  served x hx := by
    rcases List.mem_append.mp hx with hx | hx
    · exact h.served x hx
    · obtain rfl := List.mem_singleton.mp hx
      exact h.queued (k,request) (by simp [hq])
  once := by simpa [World.took,hq] using h.once
  ran := by
    simp only [World.took,List.map_append,List.map_cons,List.map_nil]
    exact (Machine.run_snoc S.step).mpr ⟨_,_,_,h.ran,hs,rfl⟩

omit [DecidableEq ν] in
lemma Sound.serve (h : Sound S s₀ w) {request : ρ} {queue : List (κ × ρ)} {met : η} {server : σ}
    {output : ο} (hq : w.queue = (k,request)::queue)
    (hs : S.step w.server (met,request) = .ok (server,output)) :
    Sound S s₀ ((w.took server queue ⟨k,met,request,output⟩).grow
      (arriving w.names (S.sends output))) :=
  (h.took hq hs).kept (kept_grow _) rfl rfl rfl rfl

omit [DecidableEq ν] in
lemma Sound.start (h : Sound S s₀ w) (hc : w.clients k = none) : Sound S s₀ (w.put k c) := by
  refine h.kept (fun j d hd => ⟨d,?_,rfl,id⟩) rfl rfl rfl rfl
  have hj : j ≠ k := by rintro rfl; simp [hc] at hd
  rw [put_of_ne hj,hd]

omit [DecidableEq κ] [DecidableEq ν] in
lemma sound_start (s₀ : σ) : Sound S s₀ (World.start s₀ : World σ κ ν η ρ μ ο) := by
  constructor <;> simp [World.start]

end Sound

/-- Every run is sound. -/
theorem run_sound {s₀ : σ} {w : World σ κ ν η ρ μ ο} {es : List (Event κ η ρ)}
    {os : List (Option (κ × ρ))} (h : runWorld S (start s₀) es = .ok (w,os)) : Sound S s₀ w := by
  refine run_invariant S (Sound S s₀) (P:=fun _ _ => True) ?_ ?_ ?_ ?_ ?_ h
  · exact fun w k request hi _ hc => hi.start hc
  · exact fun w k c op w' hi _ hc hm => hi.move hc hm
  · exact fun w k request queue met server output hi hq hs => hi.serve hq hs
  · exact sound_start s₀
  · exact Machine.along_of_mem _ (fun _ _ _ => trivial) _

variable {S} in
omit [DecidableEq κ] [DecidableEq ν] in
/-- A served request was served by one step, in the state that serving those before it leads to. -/
theorem Sound.step {s₀ : σ} {w : World σ κ ν η ρ μ ο} (h : Sound S s₀ w) {x : Served κ η ρ ο}
    (hx : x ∈ w.served) : ∃ pre post s s', w.served = pre ++ x::post ∧
      Machine.run S.step s₀ (pre.map Served.input) = .ok (s,pre.map Served.output) ∧
      S.step s x.input = .ok (s',x.output) ∧
      Machine.run S.step s' (post.map Served.input) = .ok (w.server,post.map Served.output) := by
  obtain ⟨pre,post,hsplit⟩ := List.append_of_mem hx
  have hran := h.ran
  rw [hsplit,List.map_append,List.map_append,List.map_cons,List.map_cons] at hran
  obtain ⟨s,os₁,os₂,hpre,hrest,hos⟩ := (Machine.run_append S.step).mp hran
  obtain ⟨s',o,os',hstep,hpost,rfl⟩ := (Machine.run_cons S.step).mp hrest
  have hlen : (pre.map Served.output).length = os₁.length := by
    rw [Machine.run_length S.step hpre,List.length_map,List.length_map]
  obtain ⟨rfl,hrest'⟩ := List.append_inj hos hlen
  obtain ⟨rfl,rfl⟩ := List.cons.inj hrest'
  exact ⟨pre,post,s,s',hsplit,hpre,hstep,hpost⟩

/-- What has come to the name of a client since it took it. -/
def arrived (w : World σ κ ν η ρ μ ο) (c : Client ρ μ) : List μ :=
  (w.served.drop c.since).flatMap fun x => mail S (S.addr c.request) x.output

/-- What a client finds in its inbox, and what it has read. A client that has lost its name finds a
front of what comes there. -/
structure Mailed (w : World σ κ ν η ρ μ ο) (k : κ) (c : Client ρ μ) : Prop where
  since_le : c.since ≤ w.served.length
  fresh : c.phase = .fresh → c.inbox = []
  unread : c.phase = .bound ∨ c.phase = .connected ∨ c.phase = .waiting →
    c.inbox <+: arrived S w c ∧ (w.names (S.addr c.request) = some k → c.inbox = arrived S w c)
  read : ∀ m, c.phase.read = some m → (arrived S w c).head? = some m

section Mailed
variable {S} {s₀ : σ} {w' : World σ κ ν η ρ μ ο} {b : Client ρ μ}

omit [DecidableEq κ] in
lemma Mailed.same (h : Mailed S w k c) (hserved : w'.served = w.served)
    (hnames : w'.names (S.addr c.request) = some k → w.names (S.addr c.request) = some k) :
    Mailed S w' k c := by
  have harr : arrived S w' c = arrived S w c := by rw [arrived,arrived,hserved]
  refine ⟨hserved ▸ h.since_le,h.fresh,fun hp => ?_,fun m hm => harr ▸ h.read m hm⟩
  rw [harr]
  exact ⟨(h.unread hp).1,fun hn => (h.unread hp).2 (hnames hn)⟩

omit [DecidableEq κ] in
/-- A client that goes on with the same inbox, and reads nothing. -/
lemma Mailed.on (h : Mailed S w k c) {phase : Phase μ} (hf : phase ≠ .fresh)
    (hu : phase = .bound ∨ phase = .connected ∨ phase = .waiting →
      c.phase = .bound ∨ c.phase = .connected ∨ c.phase = .waiting)
    (hr : ∀ m, phase.read = some m → c.phase.read = some m) : Mailed S w k {c with phase} :=
  ⟨h.since_le,fun hp => absurd hp hf,fun hp => h.unread (hu hp),fun m hm => h.read m (hr m hm)⟩

lemma mailed_start (h : ∀ j d, w.clients j = some d → Mailed S w j d) {request : ρ} :
    ∀ j d, (w.put k ⟨request,.fresh,[],0⟩).clients j = some d →
      Mailed S (w.put k ⟨request,.fresh,[],0⟩) j d := by
  intro j d hd
  rcases put_cases hd with ⟨rfl,rfl⟩ | ⟨_,hd⟩
  · exact ⟨by simp,fun _ => rfl,by simp,by simp [Phase.read]⟩
  · exact (h j d hd).same rfl id

theorem mailed_move (h : ∀ j d, w.clients j = some d → Mailed S w j d) {op : Op}
    (hc : w.clients k = some c) (hm : Move S w k c op w') :
    ∀ j d, w'.clients j = some d → Mailed S w' j d := by
  have hk := h k c hc
  -- the other clients have the served requests as before, and no new names
  have others : ∀ {w'' : World σ κ ν η ρ μ ο} {b : Client ρ μ}, w''.served = w.served →
      w''.clients = (w.put k b).clients →
      (∀ n j, j ≠ k → w''.names n = some j → w.names n = some j) → Mailed S w'' k b →
      ∀ j d, w''.clients j = some d → Mailed S w'' j d := by
    intro w'' b hserved hclients hnames hk' j d hd
    rw [hclients] at hd
    rcases put_cases hd with ⟨rfl,rfl⟩ | ⟨hj,hd⟩
    · exact hk'
    · exact (h j d hd).same hserved (hnames _ j hj)
  have keep : ∀ b, Mailed S w k b → ∀ j d, (w.put k b).clients j = some d →
      Mailed S (w.put k b) j d := fun b hk' =>
    others rfl rfl (fun _ _ _ => id) (hk'.same rfl id)
  have free : ∀ b name, Mailed S w k b → ∀ j d, ((w.setName name none).put k b).clients j = some d →
      Mailed S ((w.setName name none).put k b) j d := by
    intro b name hk'
    have hnames : ∀ n j, (w.setName name none).names n = some j → w.names n = some j := by
      intro n j hn
      by_cases hne : n = name
      · simp [hne] at hn
      · rwa [setName_of_ne hne] at hn
    exact others rfl rfl (fun n j _ => hnames n j) (hk'.same rfl (hnames _ _))
  cases hm with
  | idle => exact h
  | bind hp hn =>
    refine others rfl rfl (fun n j hj hnj => ?_) ?_
    · by_cases hne : n = S.addr c.request
      · simp only [put_names,hne,setName_self,Option.some.injEq] at hnj
        exact absurd hnj.symm hj
      · rwa [put_names,setName_of_ne hne] at hnj
    · have hnone : arrived S ((w.setName (S.addr c.request) (some k)).put k
          {c with phase := .bound, since := w.served.length})
          {c with phase := .bound, since := w.served.length} = [] := by
        simp [arrived]
      refine ⟨Nat.le_refl _,by simp,fun _ => ?_,by simp [Phase.read]⟩
      rw [hnone]
      exact ⟨by simp [hk.fresh hp],fun _ => hk.fresh hp⟩
  | refused hp | unreachable hp | lost hp | connect hp =>
    exact keep _ (hk.on (by simp) (by simp [hp]) (by simp [Phase.read]))
  | send hp =>
    exact others rfl rfl (fun _ _ _ => id)
      (Mailed.same (hk.on (by simp : (Phase.waiting : Phase _) ≠ .fresh) (by simp [hp])
        (by simp [Phase.read])) rfl id)
  | @recv m inbox hp hi =>
    refine keep _ ⟨hk.since_le,by simp,by simp,fun m' hm => ?_⟩
    obtain rfl : m = m' := by simpa [Phase.read] using hm
    obtain ⟨rest,hr⟩ := (hk.unread (by simp [hp])).1
    show (arrived S w c).head? = some m
    rw [← hr,hi]
    rfl
  | timeout hp | kill hp => exact keep _ (hk.on (by simp) (by simp) (by simp [Phase.read]))
  | close hp | exit hp => exact keep _ (hk.on (by simp) (by simp) (by simp [Phase.read,hp]))
  | unlink hp => exact free _ _ (hk.on (by simp) (by simp) (by simp [Phase.read,hp]))
  | interrupt hp => exact free _ _ (hk.on (by simp) (by simp) (by simp [Phase.read]))

/-- What comes to a client is what goes to its name while it has it and listens. -/
lemma Sound.arriving_eq (h : Sound S s₀ w) (hc : w.clients k = some c) (output : ο) :
    arriving w.names (S.sends output) k c =
      if c.phase.listens ∧ w.names (S.addr c.request) = some k then mail S (S.addr c.request) output
      else [] := by
  have hname : ∀ n, w.names n = some k → n = S.addr c.request := by
    intro n hn
    obtain ⟨d,hd,rfl⟩ := h.named n k hn
    rw [Option.mem_unique hc hd]
  unfold arriving mail
  by_cases hl : c.phase.listens = true
  · by_cases hn : w.names (S.addr c.request) = some k
    · rw [if_pos hl,if_pos ⟨hl,hn⟩]
      congr 1
      refine List.filter_congr fun m _ => decide_eq_decide.mpr ⟨hname _,fun he => he ▸ hn⟩
    · rw [if_pos hl,if_neg fun he => hn he.2,List.map_eq_nil_iff,List.filter_eq_nil_iff]
      intro m _ hm
      rw [decide_eq_true_eq] at hm
      exact hn (hname _ hm ▸ hm)
  · rw [if_neg hl,if_neg fun he => hl he.1]

theorem Sound.mailed_serve (h : Sound S s₀ w) (hm : ∀ j d, w.clients j = some d → Mailed S w j d)
    (server : σ) (queue : List (κ × ρ)) (x : Served κ η ρ ο) :
    ∀ j d, ((w.took server queue x).grow (arriving w.names (S.sends x.output))).clients j = some d →
      Mailed S ((w.took server queue x).grow (arriving w.names (S.sends x.output))) j d := by
  intro j d' hd'
  obtain ⟨d,hd,rfl⟩ := Option.map_eq_some_iff.mp hd'
  have hj := hm j d hd
  rw [h.arriving_eq hd]
  have harr : ∀ inbox, arrived S ((w.took server queue x).grow
      (arriving w.names (S.sends x.output))) {d with inbox} =
        arrived S w d ++ mail S (S.addr d.request) x.output := by
    intro inbox
    simp only [arrived,World.took,grow]
    rw [List.drop_append_of_le_length hj.since_le]
    simp
  refine ⟨?_,fun hp => ?_,fun hp => ?_,fun m hr => ?_⟩
  · have := hj.since_le
    simp only [World.took,grow,List.length_append]
    omega
  · have hp' : d.phase = .fresh := hp
    simp [hj.fresh hp',hp',Phase.listens]
  · have hp' : d.phase = .bound ∨ d.phase = .connected ∨ d.phase = .waiting := hp
    have hl : d.phase.listens = true := by rcases hp' with hp | hp | hp <;> rw [hp] <;> rfl
    obtain ⟨hfront,hall⟩ := hj.unread hp'
    rw [harr]
    by_cases hn : w.names (S.addr d.request) = some j
    · rw [if_pos ⟨hl,hn⟩,hall hn]
      exact ⟨List.prefix_refl _,fun _ => rfl⟩
    · rw [if_neg fun he => hn he.2,List.append_nil]
      exact ⟨hfront.trans (List.prefix_append _ _),fun hn' => absurd hn' hn⟩
  · rw [harr,List.head?_append,hj.read m hr]
    rfl

end Mailed

/-- In every run, whatever gives up, a client reads the first message that comes to its name after
it has taken it. -/
theorem run_mailed {s₀ : σ} {w : World σ κ ν η ρ μ ο} {es : List (Event κ η ρ)}
    {os : List (Option (κ × ρ))} (h : runWorld S (start s₀) es = .ok (w,os)) :
    ∀ k c, w.clients k = some c → Mailed S w k c := by
  refine (run_invariant S (fun w => Sound S s₀ w ∧ ∀ k c, w.clients k = some c → Mailed S w k c)
    (P:=fun _ _ => True) ?_ ?_ ?_ ?_ ?_ h).2
  · exact fun w k request hi _ hc => ⟨hi.1.start hc,mailed_start hi.2⟩
  · exact fun w k c op w' hi _ hc hm => ⟨hi.1.move hc hm,mailed_move hi.2 hc hm⟩
  · exact fun w k request queue met server output hi hq hs =>
      ⟨hi.1.serve hq hs,hi.1.mailed_serve hi.2 server queue _⟩
  · exact ⟨sound_start s₀,by simp [start]⟩
  · exact Machine.along_of_mem _ (fun _ _ _ => trivial) _

/-- What has been asked for, in order: the served requests, and behind them the queue. -/
def asked (w : World σ κ ν η ρ μ ο) : List (κ × ρ) :=
  w.served.map (fun x => (x.client,x.request)) ++ w.queue

theorem next_asked {w w' : World σ κ ν η ρ μ ο} {e : Event κ η ρ} {o : Option (κ × ρ)}
    (h : w.next S e = .ok (w',o)) : w'.asked = w.asked ++ o.toList := by
  cases e with
  | start k request =>
    simp only [next,Except.ok.injEq,Prod.mk.injEq] at h
    obtain ⟨rfl,rfl⟩ := h
    split_ifs <;> simp [asked]
  | client k op =>
    simp only [next] at h
    cases hc : w.clients k with
    | none =>
      simp only [hc,Except.ok.injEq,Prod.mk.injEq] at h
      obtain ⟨rfl,rfl⟩ := h
      simp
    | some c =>
      simp only [hc,Except.ok.injEq,Prod.mk.injEq] at h
      obtain ⟨rfl,rfl⟩ := h
      cases op <;> simp only [act,asks,goto] <;> split <;> first
        | (split_ifs <;> simp [asked])
        | simp [asked]
  | serve met =>
    simp only [next,serve] at h
    split at h
    · next k request queue _ hq =>
      cases hstep : S.step w.server (met,request) with
      | error e => simp [hstep,Except.map] at h
      | ok p =>
        obtain ⟨server,output⟩ := p
        simp only [hstep,Except.map,Except.ok.injEq,Prod.mk.injEq] at h
        obtain ⟨rfl,rfl⟩ := h
        simp [foldl_deliver,asked,grow,took,hq]
    · simp only [Except.map,Except.ok.injEq,Prod.mk.injEq] at h
      obtain ⟨rfl,rfl⟩ := h
      simp

/-- No request is lost, doubled or overtaken. -/
theorem run_asked {w w' : World σ κ ν η ρ μ ο} {es : List (Event κ η ρ)}
    {os : List (Option (κ × ρ))} (h : runWorld S w es = .ok (w',os)) :
    w'.asked = w.asked ++ os.reduceOption := by
  induction es generalizing w os with
  | nil =>
    obtain ⟨rfl,rfl⟩ := (Machine.run_nil _).mp h
    simp
  | cons e es ih =>
    obtain ⟨s',o,os',h1,hr,rfl⟩ := (Machine.run_cons _).mp h
    rw [ih hr,next_asked S h1]
    cases o <;> simp

end World
end Nav.Lib.Mailbox
