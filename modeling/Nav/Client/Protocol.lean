import Nav.Client.Addresses
import Nav.Lib.MailboxNames

/-! Any number of clients at the daemon at a time, each in its own place in `main`. The phases of a
client are the calls of `setup_socket` and `process_command`: it is fresh once `my_addr` is filled in,
and then `bind`, `connect`, `send` and `recv` take it on; `connect` and `recv` may fail, and then as
after an answer it goes through `close`, `unlink` and `exit`, where what it printed is flushed. If
`bind` fails it exits at once. The handler of SIGINT unlinks `my_addr.sun_path` whatever is there, and
prints nothing; no other signal is handled. -/
namespace Nav.Client
open Nav.C Nav.Daemon Nav.Lib Nav.Lib.Mailbox

/-- The loop as its clients see it. A client asks with its arguments, from the PID on. -/
def navService (cacheDir : CStr) :
    Service Loop (List Byte) Env (List CStr) (List Byte) Round Fault where
  step l i := loopRound l ⟨i.1,request i.2⟩
  up l := l.running
  sends r := r.sent.map fun d => (d.dest,d.payload)
  addr := myAddr cacheDir

abbrev NavWorld (κ : Type*) := World Loop κ (List Byte) Env (List CStr) (List Byte) Round

/-- A datagram that has been handled, as it came to the loop. -/
def arrival (x : Served κ Env (List CStr) Round) : Arrival := ⟨x.met,request x.request⟩

/-- What the wrapper calls the client with: a PID, and words that fit in the daemon's buffer. -/
def ShellRequest (argv : List CStr) : Prop :=
  ∃ n args, n ≤ 2^22 ∧ argv = pidArg n::args ∧ (request argv).length ≤ 99

/-- The loop is up, and still ends its buffer with a NUL. -/
structure Serving (cacheDir : CStr) (l : Loop) : Prop where
  wellFormed : l.state.WellFormed
  cacheDir : l.state.cacheDir = cacheDir
  ended : Ended l.buf
  running : l.running = true

section Rounds
variable {cacheDir : CStr} {l l' : Loop} {env : Env} {r : Round} {n : ℕ} {args argv : List CStr}

lemma heardLine_words (hn : n ≤ 2^22) (args : List CStr) (rest : CStr) :
    ∃ ws, (heardLine (pidArg n::args) rest).words isBlank = pidArg n::ws := by
  have hpid : (pidArg n).length ≤ 10 :=
    decimalNat_length (hn.trans_lt (by decide)) (by decide)
  let tail : CStr := ⟨(request args).take (99-(pidArg n).length) ++ rest.bytes,by
    simpa using ⟨fun h => request_nulFree args (List.mem_of_mem_take h),rest.nulFree⟩⟩
  have hline : (heardLine (pidArg n::args) rest).bytes =
      (pidArg n).bytes ++ space::tail.bytes := by
    have htake : (pidArg n).bytes.take 100 = (pidArg n).bytes :=
      List.take_of_length_le (by simp only [CStr.length] at hpid; omega)
    have hroom : 100-(pidArg n).bytes.length = (99-(pidArg n).length)+1 := by
      simp only [CStr.length] at hpid ⊢
      omega
    simp only [heardLine,request_cons,List.take_append,htake,hroom,List.take_succ_cons,
      List.append_assoc,List.cons_append,tail]
  exact ⟨_,words_token_cut isBlank _ (pidArg n) tail [] space (by simp) (pidArg_word n).blankFree
    (pidArg_word n).1 rfl hline⟩

lemma heard_words (hn : n ≤ 2^22) (hlen : (request (pidArg n::args)).length ≤ 99) :
    ∃ ws, (heard l ⟨env,request (pidArg n::args)⟩).words isBlank = pidArg n::ws := by
  have hheard : heard l ⟨env,request (pidArg n::args)⟩ =
      heardLine (pidArg n::args) (l.buf.leftover (request (pidArg n::args)).length) := by
    ext1
    rw [heardLine_short hlen]
    exact l.buf.write_str _ (request_nulFree _) (hlen.trans (by omega))
  rw [hheard]
  exact heardLine_words hn args _

/-- A round with a request of a shell keeps the loop up, and answers at the socket of that shell. -/
theorem shell_round (hl : Serving cacheDir l) (hargv : ShellRequest argv)
    (h : loopRound l ⟨env,request argv⟩ = .ok (l',r)) :
    Serving cacheDir l' ∧ ∀ d ∈ r.sent, d.dest = myAddr cacheDir argv := by
  obtain ⟨n,args,hn,rfl,hlen⟩ := hargv
  obtain ⟨ws,hwords⟩ := @heard_words l env _ _ hn hlen
  have hpid : strtol (pidArg n).bytes = ((n : ℤ),false) :=
    strtol_decimalNat (by simp only [longMax]; omega)
  have hw' := loopRound_wellFormed hl.wellFormed h
  have hb' := loopRound_ended hl.ended hlen h
  have hterm := Buffer.terminated_of_nul _
    (write_ended (a:=⟨env,request (pidArg n::args)⟩) hl.ended hlen)
  have hrun' : l'.running = true := by
    rw [loopRound_read hl.running (by simp [request_cons]) hterm] at h
    rcases reading_cases (heard l ⟨env,request (pidArg n::args)⟩) with
      ⟨_,_,_,hr⟩ | ⟨pidStr,_,hw,hv,_⟩ | ⟨_,_,_,_,_,hr⟩ | ⟨_,_,_,_,_,_,_,_,hr⟩
    · simp only [hr,readRound,Except.map,Except.ok.injEq,Prod.mk.injEq] at h
      rw [← h.1]
      rfl
    · rw [hw] at hwords
      obtain rfl := (List.cons.inj hwords).1
      simp [hpid] at hv
    · simp only [hr,readRound,Except.map,Except.ok.injEq,Prod.mk.injEq] at h
      rw [← h.1]
      rfl
    · rw [hr,readRound,calledRound] at h
      revert h
      cases dispatchCommand env l.state _ _ _ with
      | error e => simp [Except.map]
      | ok o =>
        simp only [Except.map,Except.ok.injEq,Prod.mk.injEq]
        rintro ⟨rfl,_⟩
        rfl
  rcases loopRound_dispatched h with ⟨_,hsent,hs⟩ | ⟨d,passed,o,hr,_,hsent,_,hh⟩
  · exact ⟨⟨hw',by rw [hs,hl.cacheDir],hb',hrun'⟩,by simp [hsent]⟩
  · obtain ⟨⟨pidStr,hw,_,hd⟩,_⟩ := reading_call _ hr
    rw [hw] at hwords
    obtain rfl := (List.cons.inj hwords).1
    have hn' : d.pid = n := by rw [hd,hpid,toInt_of_lt (by omega)]
    refine ⟨⟨hw',(handle_change hh).cacheDir.trans hl.cacheDir,hb',hrun'⟩,fun m hm => ?_⟩
    rw [hsent] at hm
    rw [(handle_exit hh).1.addressed hl.wellFormed m hm,hl.cacheDir,hn',myAddr_pid]

/-- Nothing but a client of the same PID waits where a request is answered. -/
lemma myAddr_shell (hdir : cacheDir.length < cacheDirMaxLen) {argv' : List CStr}
    (h : ShellRequest argv) (h' : ShellRequest argv') :
    myAddr cacheDir argv = myAddr cacheDir argv' ↔ argv.head? = argv'.head? := by
  obtain ⟨n,args,hn,rfl,_⟩ := h
  obtain ⟨m,args',hm,rfl,_⟩ := h'
  rw [myAddr_pid,myAddr_pid,sockPath_fits hdir hn,sockPath_fits hdir hm]
  constructor
  · intro he
    rw [sockName_injective he]
    rfl
  · intro he
    have hpid : pidArg n = pidArg m := Option.some.inj he
    rw [sockName,sockName,show decimalNat n = decimalNat m from congrArg CStr.bytes hpid]

lemma myAddr_head (h : argv.head? = some (pidArg n)) : myAddr cacheDir argv = sockPath cacheDir n := by
  obtain ⟨args,rfl⟩ := List.head?_eq_some_iff.mp h
  exact myAddr_pid cacheDir

end Rounds

section Runs
variable {κ : Type*} [DecidableEq κ] {cacheDir : CStr} {l₀ : Loop}
  {es : List (Event κ Env (List CStr))} {w : NavWorld κ} {os : List (Option (κ × List CStr))}

/-- What was sent for one request, as its client prints it, is what that client alone with the daemon
would print, in the state that the requests before it lead to. -/
def Atomic (l₀ : Loop) (w : NavWorld κ) (x : Served κ Env (List CStr) Round)
    (payload : List Byte) : Prop :=
  ∃ front behind l l', w.served = front ++ x::behind ∧
    runLoop l₀ (front.map arrival) = .ok (l,front.map Served.output) ∧
    loopRound l (arrival x) = .ok (l',x.output) ∧
    (x.output.overrun = false →
      processCommand l.state ⟨x.met,l.buf.leftover (request x.request).length,none,false⟩ x.request =
        (printed (replyBuf payload)).map fun text => (l'.state,text))

omit [DecidableEq κ] in
lemma served_run {xs : List (Served κ Env (List CStr) Round)} :
    Machine.run (navService cacheDir).step l₀ (xs.map Served.input) =
      runLoop l₀ (xs.map arrival) := by
  rw [runLoop,show xs.map arrival = (xs.map Served.input).map fun i => ⟨i.1,request i.2⟩ by
    simp [Function.comp_def,arrival,Served.input]]
  exact Machine.run_comap loopRound _

lemma serving_start (cacheDir : CStr) (validPath : CStr → Bool) (malloc : ℕ → Bool)
    (file : Option (List Byte)) :
    Serving cacheDir (startLoop (startState cacheDir validPath malloc file)) :=
  ⟨startState_wellFormed cacheDir validPath malloc file,rfl,startLoop_ended _,rfl⟩

lemma serving_step : ∀ l i l' r, Serving cacheDir l → ShellRequest i.2 →
    (navService cacheDir).step l i = .ok (l',r) →
    Serving cacheDir l' ∧ ∀ m ∈ (navService cacheDir).sends r, m.1 = (navService cacheDir).addr i.2 := by
  intro l i l' r hl hi hs
  obtain ⟨hl',hd⟩ := shell_round hl hi hs
  refine ⟨hl',fun m hm => ?_⟩
  obtain ⟨d,hd',rfl⟩ := List.mem_map.mp hm
  exact hd d hd'

lemma mail_all {r : Round} {name : List Byte} (h : ∀ d ∈ r.sent, d.dest = name) :
    mail (navService cacheDir) name r = r.sent.map Datagram.payload := by
  have hall : ((navService cacheDir).sends r).filter (·.1 = name) = (navService cacheDir).sends r :=
    List.filter_eq_self.mpr fun m hm => by
      obtain ⟨d,hd,rfl⟩ := List.mem_map.mp hm
      exact decide_eq_true (h d hd)
  rw [mail,hall]
  simp [navService,Function.comp_def]

omit [DecidableEq κ] in
/-- The client that is alone with the daemon prints what comes first. -/
theorem atomic_of_head (hl : Serving cacheDir l₀) (hs : World.Sound (navService cacheDir) l₀ w)
    (hshell : ∀ x ∈ w.served, ShellRequest x.request) {x : Served κ Env (List CStr) Round}
    (hx : x ∈ w.served) {payload : List Byte} {name : List Byte} (hname : myAddr cacheDir x.request = name)
    (hhead : (mail (navService cacheDir) name x.output).head? = some payload) :
    Atomic l₀ w x payload := by
  obtain ⟨front,behind,l,l',hsplit,hfront,hstep,_⟩ := hs.step hx
  rw [served_run] at hfront
  have hserving : Serving cacheDir l := by
    refine Machine.run_invariant loopRound (Serving cacheDir) (fun a => ∃ y ∈ front, a = arrival y)
      ?_ hl (fun a ha => ?_) hfront
    · rintro l a l' r hl ⟨y,hy,rfl⟩ hr
      exact (shell_round hl (hshell y (by rw [hsplit]; simp [hy])) hr).1
    · obtain ⟨y,hy,rfl⟩ := List.mem_map.mp ha
      exact ⟨y,hy,rfl⟩
  have hround : loopRound l ⟨x.met,request x.request⟩ = .ok (l',x.output) := hstep
  obtain ⟨hl',hdest⟩ := shell_round hserving (hshell x hx) hround
  refine ⟨front,behind,l,l',hsplit,hfront,hstep,fun hover => ?_⟩
  have hne : x.request ≠ [] := by
    obtain ⟨n,args,_,he,_⟩ := hshell x hx
    simp [he]
  have hrecv : received (myAddr l.state.cacheDir x.request) x.output.sent =
      printed (replyBuf payload) := by
    rw [mail_all fun d hd => (hdest d hd).trans hname,List.head?_map] at hhead
    obtain ⟨d,hd,rfl⟩ := Option.map_eq_some_iff.mp hhead
    obtain ⟨ds,hsent⟩ := List.head?_eq_some_iff.mp hd
    have hdn : d.dest = name := (hdest d (by simp [hsent])).trans hname
    simp [hserving.cacheDir,hname,received,hsent,hdn]
  rw [processCommand_loop x.met hserving.running hserving.ended hne,hround]
  simp [hover,hl'.running,hrecv]

/-- Every client of a PID prints what it would print alone with the daemon, and one that has been served
and still waits finds in its socket just what was sent for its own request. -/
def ClientsAtomic (l₀ : Loop) (n : ℕ) (w : NavWorld κ) : Prop :=
  ∀ k c, w.clients k = some c → c.request.head? = some (pidArg n) →
    (∀ payload, c.phase.read = some payload → ∃ x ∈ w.served, x.client = k ∧
      x.request = c.request ∧ Atomic l₀ w x payload) ∧
    (c.phase = .waiting → ∀ x ∈ w.served, x.client = k →
      c.inbox = x.output.sent.map Datagram.payload)

/-- The daemon has handled the requests one after the other as they were sent, each once and none left
out, and what a client prints is the first answer since it bound its socket to a request of its own
PID. -/
structure Sequential (l₀ : Loop) (w : NavWorld κ) (os : List (Option (κ × List CStr))) : Prop where
  inOrder : os.reduceOption = w.served.map (fun x => (x.client,x.request)) ++ w.queue
  once : (os.reduceOption.map Prod.fst).Nodup
  handled : runLoop l₀ (w.served.map arrival) = .ok (w.server,w.served.map Served.output)
  answered : ∀ k c payload, w.clients k = some c → c.phase.read = some payload →
    ∃ front x behind, w.served.drop c.since = front ++ x::behind ∧
      (∀ y ∈ front, y.request.head? = c.request.head? → y.output.sent = []) ∧
      x.request.head? = c.request.head? ∧ Atomic l₀ w x payload

section Start
variable {validPath : CStr → Bool} {malloc : ℕ → Bool} {file : Option (List Byte)}
  (hask : ∀ e ∈ es, World.Asks ShellRequest e)
  (h : runWorld (navService cacheDir)
    (World.start (startLoop (startState cacheDir validPath malloc file))) es = .ok (w,os))
include hask h

lemma run_shell : World.Direct (navService cacheDir) ShellRequest (Serving cacheDir) w ∧
    ∀ x ∈ w.served, ShellRequest x.request := by
  have hdirect := World.run_direct serving_step (serving_start cacheDir validPath malloc file) hask h
  refine ⟨hdirect,fun x hx => ?_⟩
  obtain ⟨c,hc,hr,_⟩ := (World.run_sound _ h).served x hx
  exact hr ▸ hdirect.allowed _ c hc

/-- As long as no client of a PID gives up or is stopped, the clients of that PID act one at a time,
whatever other clients do meanwhile. -/
theorem clients_atomic (n : ℕ)
    (hes : Machine.Along (fun w e => w.next (navService cacheDir) e)
      (World.Patient (navService cacheDir) (sockPath cacheDir n))
      (World.start (startLoop (startState cacheDir validPath malloc file))) es) :
    ClientsAtomic (startLoop (startState cacheDir validPath malloc file)) n w := by
  intro k c hc hpid
  obtain ⟨hdirect,hshell⟩ := run_shell hask h
  have hsound := World.run_sound _ h
  have hname : myAddr cacheDir c.request = sockPath cacheDir n := myAddr_head hpid
  obtain ⟨hread,hwait⟩ := World.run_answers serving_step
    (serving_start cacheDir validPath malloc file) hask hes h hc hname
  constructor
  · intro payload hp
    obtain ⟨x,hx,hk,hreq,hhead⟩ := hread payload hp
    exact ⟨x,hx,hk,hreq,atomic_of_head (serving_start ..) hsound hshell hx (hreq ▸ hname) hhead⟩
  · intro hp x hx hk
    rw [hwait hp x hx hk]
    obtain ⟨d,hd,hreq,_⟩ := hsound.served x hx
    rw [hk] at hd
    obtain rfl := Option.mem_unique hc hd
    refine mail_all fun m hm => ?_
    exact (hdirect.sent x hx (m.dest,m.payload) (List.mem_map.mpr ⟨m,hm,rfl⟩)).trans (hreq ▸ hname)

/-- Whatever clients give up or are stopped, no request is lost, doubled or overtaken, and no client
prints an answer that was meant for another PID. -/
theorem requests_sequential (hdir : cacheDir.length < cacheDirMaxLen) :
    Sequential (startLoop (startState cacheDir validPath malloc file)) w os := by
  have hsound := World.run_sound _ h
  have hasked := World.run_asked _ h
  simp only [World.asked,World.start,List.map_nil,List.nil_append] at hasked
  obtain ⟨hdirect,hshell⟩ := run_shell hask h
  refine ⟨hasked.symm,?_,?_,fun k c payload hc hp => ?_⟩
  · rw [← hasked,List.map_append,List.map_map]
    exact hsound.once
  · rw [← served_run]
    exact hsound.ran
  · have hhead := (World.run_mailed _ h k c hc).read payload hp
    have hname : (navService cacheDir).addr c.request = myAddr cacheDir c.request := rfl
    rw [World.arrived,hname,List.head?_flatMap,List.findSome?_eq_some_iff] at hhead
    obtain ⟨front,x,behind,hsplit,hx,hfront⟩ := hhead
    have hmem : ∀ y, y ∈ front ∨ y = x → y ∈ w.served := fun y hy =>
      List.mem_of_mem_drop (i:=c.since) (by rw [hsplit]; rcases hy with hy | rfl <;> simp [*])
    have haddr : ∀ y ∈ w.served, ∀ d ∈ y.output.sent, d.dest = myAddr cacheDir y.request :=
      fun y hy d hd => hdirect.sent y hy (d.dest,d.payload) (List.mem_map.mpr ⟨d,hd,rfl⟩)
    have hpid : ∀ y ∈ w.served, (myAddr cacheDir y.request = myAddr cacheDir c.request ↔
        y.request.head? = c.request.head?) := fun y hy =>
      myAddr_shell hdir (hshell y hy) (hdirect.allowed k c hc)
    have hxname : myAddr cacheDir x.request = myAddr cacheDir c.request := by
      obtain ⟨m,hm,_⟩ := List.mem_map.mp (List.mem_of_mem_head? hx)
      obtain ⟨hm,hmn⟩ := List.mem_filter.mp hm
      exact (hdirect.sent x (hmem x (Or.inr rfl)) m hm).symm.trans (by simpa using hmn)
    refine ⟨front,x,behind,hsplit,fun y hy hyp => ?_,(hpid x (hmem x (Or.inr rfl))).mp hxname,
      atomic_of_head (serving_start ..) hsound hshell (hmem x (Or.inr rfl)) hxname hx⟩
    have hy' := hmem y (Or.inl hy)
    have hnone := hfront y hy
    rw [List.head?_eq_none_iff,mail_all fun d hd =>
      (haddr y hy' d hd).trans ((hpid y hy').mpr hyp)] at hnone
    simpa using hnone

end Start

/-- Two shells register at the same time. -/
def twoClients : List (Event ℕ Env (List CStr)) :=
  [.start 0 [pidArg 1,registerArg],.start 1 [pidArg 2,registerArg],.client 0 .bind,.client 1 .bind,
   .client 0 .connect,.client 1 .connect,.client 1 .send,.client 0 .send,
   .serve (openEnv fun _ => true),.serve (openEnv fun _ => true),.client 0 .recv,.client 0 .close,
   .client 0 .unlink,.client 0 .exit]

lemma twoClients_ask : ∀ e ∈ twoClients, World.Asks ShellRequest e := by
  intro e he
  simp only [twoClients,List.mem_cons,List.not_mem_nil,or_false] at he
  rcases he with rfl | rfl | rfl | rfl | rfl | rfl | rfl | rfl | rfl | rfl | rfl | rfl | rfl | rfl
  · exact ⟨1,_,by decide,rfl,by decide⟩
  · exact ⟨2,_,by decide,rfl,by decide⟩
  all_goals trivial

theorem clients_atomic_two : ∃ w os,
    runWorld (navService (CStr.ofLit "/c")) (World.start (startLoop
      (startState (CStr.ofLit "/c") (fun _ => true) (fun _ => true) none))) twoClients = .ok (w,os) ∧
    ClientsAtomic (startLoop (startState (CStr.ofLit "/c") (fun _ => true) (fun _ => true) none)) 1
      w := by
  refine ⟨_,_,rfl,clients_atomic twoClients_ask rfl 1 (Machine.along_of_mem _ (fun e he w => ?_) _)⟩
  simp only [twoClients,List.mem_cons,List.not_mem_nil,or_false] at he
  rcases he with rfl | rfl | rfl | rfl | rfl | rfl | rfl | rfl | rfl | rfl | rfl | rfl | rfl | rfl <;>
    simp [World.Patient]

theorem requests_sequential_two : ∃ w os,
    runWorld (navService (CStr.ofLit "/c")) (World.start (startLoop
      (startState (CStr.ofLit "/c") (fun _ => true) (fun _ => true) none))) twoClients = .ok (w,os) ∧
    Sequential (startLoop (startState (CStr.ofLit "/c") (fun _ => true) (fun _ => true) none)) w os :=
  ⟨_,_,rfl,requests_sequential twoClients_ask rfl (by decide)⟩

/-- The socket of a PID is there, and no client of it is running that has it. -/
def LeftOver (cacheDir : CStr) (n : ℕ) (w : NavWorld κ) : Prop :=
  w.names (sockPath cacheDir n) ≠ none ∧ ∀ k c, w.clients k = some c →
    myAddr cacheDir c.request = sockPath cacheDir n → c.phase.holds = false

/-- As long as SIGINT comes to the clients of a PID only while they have their socket, the socket is
left over exactly if one of them was stopped by another signal while it had it. From then on no client
of that PID gets through to the daemon. -/
theorem leftOver_iff (n : ℕ) (cacheDir : CStr) (l₀ : Loop)
    (hes : Machine.Along (fun w e => w.next (navService cacheDir) e)
      (World.Steady (navService cacheDir) (sockPath cacheDir n)) (World.start l₀) es)
    (h : runWorld (navService cacheDir) (World.start l₀) es = .ok (w,os)) :
    (LeftOver cacheDir n w ↔
      ¬ Machine.Along (fun w e => w.next (navService cacheDir) e)
        (World.Spared (navService cacheDir) (sockPath cacheDir n)) (World.start l₀) es) ∧
    (LeftOver cacheDir n w → ∀ es' w' os',
      Machine.Along (fun w e => w.next (navService cacheDir) e)
        (World.Steady (navService cacheDir) (sockPath cacheDir n)) w es' →
      runWorld (navService cacheDir) w es' = .ok (w',os') →
      LeftOver cacheDir n w' ∧ ∀ q ∈ os'.reduceOption, q.2.head? ≠ some (pidArg n)) := by
  have hsound := World.run_sound _ h
  constructor
  · rcases World.held_or_locked (navService cacheDir) (World.sound_start l₀)
      (World.held_start (navService cacheDir)) hes h with ⟨hsp,hheld⟩ | ⟨hsp,hlocked⟩
    · refine iff_of_false (fun hl => ?_) (not_not_intro hsp)
      obtain ⟨k,hk⟩ := Option.ne_none_iff_exists'.mp hl.1
      obtain ⟨c,hc,hname⟩ := hsound.named _ k hk
      have hno := hl.2 k c hc hname
      simp [(hheld k c hc hname).mpr hk] at hno
    · exact iff_of_true hlocked hsp
  · intro hl es' w' os' hes' h'
    have hlocked : World.Locked (navService cacheDir) (sockPath cacheDir n) w := hl
    refine ⟨World.run_locked _ hlocked hes' h',fun q hq hpid => ?_⟩
    exact World.run_locked_asks _ hlocked hes' h' q hq (myAddr_head hpid)

/-- A client is killed with its socket. -/
def killedClient : List (Event ℕ Env (List CStr)) :=
  [.start 0 [pidArg 1,registerArg],.client 0 .bind,.client 0 .kill]

theorem leftOver_killed : ∃ w os,
    runWorld (navService (CStr.ofLit "/c")) (World.start (startLoop
      (startState (CStr.ofLit "/c") (fun _ => true) (fun _ => true) none))) killedClient =
        .ok (w,os) ∧
    LeftOver (CStr.ofLit "/c") 1 w ∧ ∀ es' w' os',
      Machine.Along (fun w e => w.next (navService (CStr.ofLit "/c")) e)
        (World.Steady (navService (CStr.ofLit "/c")) (sockPath (CStr.ofLit "/c") 1)) w es' →
      runWorld (navService (CStr.ofLit "/c")) w es' = .ok (w',os') →
      LeftOver (CStr.ofLit "/c") 1 w' ∧ ∀ q ∈ os'.reduceOption, q.2.head? ≠ some (pidArg 1) := by
  have hes : ∀ w, Machine.Along (fun w e => w.next (navService (CStr.ofLit "/c")) e)
      (World.Steady (navService (CStr.ofLit "/c")) (sockPath (CStr.ofLit "/c") 1)) w killedClient := by
    refine Machine.along_of_mem _ fun e he w => ?_
    simp only [killedClient,List.mem_cons,List.not_mem_nil,or_false] at he
    rcases he with rfl | rfl | rfl <;> simp [World.Steady]
  have hkilled : ¬ Machine.Along (fun w e => w.next (navService (CStr.ofLit "/c")) e)
      (World.Spared (navService (CStr.ofLit "/c")) (sockPath (CStr.ofLit "/c") 1)) (World.start
        (startLoop (startState (CStr.ofLit "/c") (fun _ => true) (fun _ => true) none)))
      killedClient := by
    intro h
    have hlast := (h.2 _ _ rfl).2 _ _ rfl
    exact absurd (hlast.1 _ rfl rfl rfl) (by decide)
  obtain ⟨hiff,hafter⟩ := leftOver_iff 1 (CStr.ofLit "/c")
    (startLoop (startState (CStr.ofLit "/c") (fun _ => true) (fun _ => true) none)) (hes _) rfl
  exact ⟨_,_,rfl,hiff.mpr hkilled,hafter (hiff.mpr hkilled)⟩

end Runs
end Nav.Client
