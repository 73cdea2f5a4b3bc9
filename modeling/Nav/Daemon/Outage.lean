import Nav.Daemon.PidFidelity
import Nav.Daemon.Recognition
import Nav.Daemon.Scans
import Nav.Daemon.Service

/-! What ends the service for all shells: calls that follow a NULL pointer, scans that run off the
memory, replies that do not fit, and datagrams that make the loop leave. -/
namespace Nav.Daemon
open Nav.C

/-- The datagram is read as a call whose handler follows the NULL argument. -/
def NullTokens (l : Loop) (x : Landing) : Prop :=
  l.running = true ∧ x.arrival.datagram ≠ [] ∧ nul ∈ landed l x ∧ NullArgs l.state (heardOn l x)

/-- A registered shell sends a tokenising command, and no word behind it. -/
structure NoArgument (l : Loop) (x : Landing) (pidStr cmdStr : CStr) : Prop where
  running : l.running = true
  received : x.arrival.datagram ≠ []
  ended : nul ∈ landed l x
  words : (heardOn l x).words isBlank = [pidStr,cmdStr]
  inRange : (strtol pidStr.bytes).2 = false
  command : Tokenises cmdStr
  shell : l.state.shell? (toInt (strtol pidStr.bytes).1) ≠ none

/-- The loop after any datagrams, whatever memory has held behind its array. -/
def ReachableOn (l : Loop) : Prop :=
  ∃ cacheDir validPath malloc file xs rs,
    Machine.run loopRoundOn (startLoop (startState cacheDir validPath malloc file)) xs = .ok (l,rs)

lemma ReachableOn.wellFormed {l : Loop} (h : ReachableOn l) : l.state.WellFormed := by
  obtain ⟨cacheDir,validPath,malloc,file,xs,rs,hr⟩ := h
  exact Machine.run_invariant loopRoundOn (fun l => l.state.WellFormed) (fun _ => True)
    (fun _ _ _ _ hw _ hs => loopRoundOn_wellFormed hw hs)
    (startState_wellFormed cacheDir validPath malloc file) (fun _ _ => trivial) hr

section NullTokens
variable {l : Loop} {x : Landing}

/-- The same, seen from the call. -/
lemma nullTokens_iff : NullTokens l x ↔ ∃ d, called l x = some d ∧ d.args = none ∧
    Tokenises d.cmdStr ∧ l.state.shell? d.pid ≠ none := by
  rw [NullTokens,nullArgs_iff]
  constructor
  · rintro ⟨hrun,hne,hn,d,passed,hr,hd⟩
    exact ⟨d,called_iff.mpr ⟨hrun,hne,hn,passed,hr⟩,hd⟩
  · rintro ⟨d,hc,hd⟩
    obtain ⟨hrun,hne,hn,passed,hr⟩ := called_iff.mp hc
    exact ⟨hrun,hne,hn,d,passed,hr,hd⟩

/-- A round follows a NULL pointer on these datagrams and no others. -/
theorem loopRoundOn_nullDeref (hw : l.state.WellFormed) :
    loopRoundOn l x = .error .nullDeref ↔ NullTokens l x := by
  rw [nullTokens_iff]
  cases hc : called l x with
  | some d =>
    obtain ⟨passed,hround⟩ := loopRoundOn_called hc
    have hd := dispatch_error_iff x.arrival.env hw d .nullDeref
    simp only [true_and] at hd
    simp only [hround,calledRound,Option.some.injEq,exists_eq_left']
    cases ho : dispatchCommand x.arrival.env l.state d.cmdStr d.pid d.args with
    | error e =>
      rw [ho] at hd
      simpa [Except.map] using hd
    | ok o =>
      rw [ho] at hd
      simpa [Except.map] using hd
  | none =>
    refine iff_of_false ?_ (by simp)
    by_cases hidle : l.running = false ∨ x.arrival.datagram = []
    · simp [loopRoundOn_idle hidle]
    · obtain ⟨hrun,hne⟩ : l.running = true ∧ x.arrival.datagram ≠ [] := by simpa using hidle
      rcases loopRoundOn_uncalled hc hrun hne with ⟨_,he⟩ | ⟨_,_,_,hk,_⟩
      · simp [he]
      · simp [hk]

/-- Without a word behind the command the call is refused, unless the argument is NULL. -/
theorem NoArgument.refused_iff {pidStr cmdStr : CStr} (h : NoArgument l x pidStr cmdStr)
    (hw : l.state.WellFormed) :
    (∃ l' r, loopRoundOn l x = .ok (l',r) ∧ l'.state = l.state ∧ ∀ d ∈ r.sent, d.payload = bad) ↔
      ¬ NullTokens l x := by
  rw [← loopRoundOn_nullDeref hw]
  constructor
  · rintro ⟨l',r,hk,_⟩
    simp [hk]
  · intro hne
    have hround := loopRoundOn_read h.running h.received h.ended
    obtain ⟨args,passed,hr,hnil⟩ := reading_of_words (heardOn l x) h.words h.inRange
    rw [hr] at hround
    cases ho : dispatchCommand x.arrival.env l.state cmdStr (toInt (strtol pidStr.bytes).1) args with
    | error e =>
      have hd := (dispatch_error_iff x.arrival.env hw ⟨cmdStr,_,args⟩ e).mp ho
      simp [hround,readRound,calledRound,ho,Except.map,hd.1] at hne
    | ok o =>
      have hsame : o.state = l.state ∧ ∀ d ∈ o.sent, d.payload = bad := by
        have he := dispatchCommand_exit (c:=⟨x.arrival.env,cmdStr,_,args⟩) ho
        have hno : ∀ line, args = some line → line.words isBlank = [] := by
          rintro line rfl
          exact hnil
        have hcmd := h.command
        simp only [Tokenises] at hcmd
        cases he with
        | addMalformed | deleteAbsent | getAbsent | addInvalid | addNoMemory =>
          exact ⟨rfl,by simp [reply]⟩
        | deleteBlank | getBlank | ignored => exact ⟨rfl,by simp [quiet]⟩
        | rebound _ _ hargs hadd | added _ _ hargs hadd =>
          simp [addArgs_words,hno _ hargs] at hadd
        | deleted _ _ hargs htag | got _ _ hargs htag =>
          simp [tagArg_words,hno _ hargs] at htag
        | _ => simp_all
      rw [hround,readRound,calledRound,ho]
      exact ⟨_,_,rfl,hsame⟩

end NullTokens

/-- The tokeniser is called with two NULL pointers exactly when a registered shell sends `add`,
`delete` or `get` with at most one space behind the command word, the string that is read ending in
the array or behind it; then the call that lacks an argument is not refused. A run without such a
datagram never gets there. -/
theorem nullTokeniser_iff (l : Loop) (hl : ReachableOn l) :
    (∀ x, loopRoundOn l x ≠ .error .nullDeref ↔ ¬ NullTokens l x) ∧
    (∀ x pidStr cmdStr, NoArgument l x pidStr cmdStr →
      ((∃ l' r, loopRoundOn l x = .ok (l',r) ∧ l'.state = l.state ∧ ∀ d ∈ r.sent, d.payload = bad) ↔
        ¬ NullTokens l x)) ∧
    (∀ xs, Machine.run loopRoundOn l xs ≠ .error .nullDeref ↔
      Machine.Along loopRoundOn (fun l x => ¬ NullTokens l x) l xs) := by
  refine ⟨fun x => (loopRoundOn_nullDeref hl.wellFormed).not,
    fun x pidStr cmdStr h => h.refused_iff hl.wellFormed,fun xs => ?_⟩
  rw [Machine.run_ne_error]
  exact Machine.along_congr loopRoundOn (fun l => l.state.WellFormed) (fun _ => True)
    (fun l x hw _ => (loopRoundOn_nullDeref hw).not)
    (fun l x l' r hw _ _ h => loopRoundOn_wellFormed hw h) hl.wellFormed (fun _ _ => trivial)

/-- A registered shell sends `get` alone, once the bytes of its earlier requests no longer stand
behind the command word. -/
theorem nullTokeniser_fails : ¬ ∀ l, ReachableOn l → ∀ x, loopRoundOn l x ≠ .error .nullDeref := by
  intro h
  let s := startState (CStr.ofLit "/c") (fun _ => true) (fun _ => true) none
  let xs : List Landing := [⟨⟨openEnv fun _ => true,lit "1 register "⟩,[]⟩,
    ⟨⟨openEnv fun _ => true,lit "1 get x "⟩,[]⟩,⟨⟨openEnv fun _ => true,lit "1 show "⟩,[]⟩]
  let x : Landing := ⟨⟨openEnv fun _ => true,lit "1 get "⟩,[]⟩
  have hrun : ((Machine.run loopRoundOn (startLoop s) xs).toOption.map fun p =>
      match loopRoundOn p.1 x with
      | .error e => decide (e = .nullDeref)
      | .ok _ => false) = some true := by decide +kernel
  cases hp : Machine.run loopRoundOn (startLoop s) xs with
  | error e => simp [hp,Except.toOption] at hrun
  | ok p =>
    have hne := h p.1 ⟨_,_,_,_,xs,p.2,hp⟩ x
    simp only [hp,Except.toOption,Option.map_some,Option.some.injEq] at hrun
    cases he : loopRoundOn p.1 x with
    | error e =>
      rw [he] at hrun
      exact hne (by rw [he,of_decide_eq_true hrun])
    | ok q =>
      simp [he] at hrun

/-- A registered shell sends `add` with blanks only behind it, and is refused. -/
theorem nullTokeniser_add : ∃ l' r,
    loopRoundOn ⟨⟨CStr.ofLit "/c",⟨[newShell (CStr.ofLit "/c") 1],1⟩,NodeList.empty,none⟩,
        (Buffer.zero 100).write (lit "1" ++ nul::(lit "register" ++ [nul])),true⟩
      ⟨⟨openEnv fun _ => true,lit "1 add     "⟩,[]⟩ = .ok (l',r) ∧
    l'.state = ⟨CStr.ofLit "/c",⟨[newShell (CStr.ofLit "/c") 1],1⟩,NodeList.empty,none⟩ ∧
    ∀ d ∈ r.sent, d.payload = bad := by
  let x : Landing := ⟨⟨openEnv fun _ => true,lit "1 register "⟩,[]⟩
  have hrun : (Machine.run loopRoundOn (startLoop (startState (CStr.ofLit "/c") (fun _ => true)
      (fun _ => true) none)) [x]).toOption.map Prod.fst = some ⟨⟨CStr.ofLit "/c",
        ⟨[newShell (CStr.ofLit "/c") 1],1⟩,NodeList.empty,none⟩,
        (Buffer.zero 100).write (lit "1" ++ nul::(lit "register" ++ [nul])),true⟩ := by
    decide +kernel
  obtain ⟨rs,hr⟩ := Machine.run_of_toOption loopRoundOn hrun
  refine ((nullTokeniser_iff _ ⟨_,_,_,_,_,rs,hr⟩).2.1 _ (CStr.ofLit "1") (CStr.ofLit "add")
    ⟨rfl,by decide,by decide +kernel,by decide +kernel,by decide,Or.inl (by decide),
      by decide +kernel⟩).mpr ?_
  rw [nullTokens_iff]
  rintro ⟨d,hd,hnull,_⟩
  have hcalled : called ⟨⟨CStr.ofLit "/c",⟨[newShell (CStr.ofLit "/c") 1],1⟩,NodeList.empty,none⟩,
      (Buffer.zero 100).write (lit "1" ++ nul::(lit "register" ++ [nul])),true⟩
      ⟨⟨openEnv fun _ => true,lit "1 add     "⟩,[]⟩ =
      some ⟨CStr.ofLit "add",1,some (CStr.ofLit "    ")⟩ := by decide +kernel
  rw [hd] at hcalled
  obtain rfl := Option.some.inj hcalled
  cases hnull

/-- The bytes behind the NUL of the line. -/
def behindLine (l : Loop) (x : Landing) : List Byte := (landed l x).drop ((heardOn l x).length+1)

/-- A call of a round where it stands in memory: the arguments end with the line. -/
def placed (l : Loop) (x : Landing) (d : Dispatch) : Placed :=
  ⟨⟨x.arrival.env,d.cmdStr,d.pid,d.args⟩,behindLine l x⟩

/-- One round of the loop, with the scans of the handler and the array of its reply. -/
def liveRound (l : Loop) (x : Landing) : Except Crash (Loop × Round) :=
  match loopRoundOn l x with
  | .error f => .error (.fault f)
  | .ok (l',r) =>
    match r.dispatched with
    | none => .ok (l',r)
    | some d => (liveHandle l.state (placed l x d)).map fun _ => (l',r)

/-- The datagram makes the loop leave, or a handler follow a NULL pointer, or a handler look for the
end of a word that has none in memory, or a reply go past its array. -/
def Stops (l : Loop) (x : Landing) : Prop :=
  x.arrival.datagram ≠ [] ∧ (OutOfRange (heardOn l x) ∨ NullArgs l.state (heardOn l x) ∨
    ∃ d, called l x = some d ∧
      ¬ (ScansEnd l.state (placed l x d) ∧ ReplyFits l.state (placed l x d).call))

/-- What is read has a command word that the table takes. -/
def Obeyed (l : Loop) (x : Landing) : Prop := x.arrival.datagram ≠ [] ∧ Taken (heardOn l x)

/-- The datagram does not start with the decimal numeral of an `int` and a word of the command
table, which may have a newline at its end. -/
def Malformed (d : List Byte) : Prop :=
  ∀ pidStr cmdStr ws, (cstr d).words isBlank = pidStr::cmdStr::ws →
    ¬ ((∃ n, NamesPid pidStr n) ∧ ∃ e ∈ cmdTable, Spells cmdStr e.1)

/-- The loop goes on after the datagram, and nothing has come of it. -/
def Skips (l : Loop) (x : Landing) : Prop :=
  ∃ l' r, liveRound l x = .ok (l',r) ∧ l'.running = true ∧ l'.state = l.state ∧ r.sent = [] ∧
    ∀ d, r.dispatched = some d → findCommand d.cmdStr = none

section Live
variable {l l' : Loop} {x : Landing} {r : Round}

/-- A round goes well in memory if it returns, the scans of its call end and its reply fits. -/
theorem liveRound_ok : liveRound l x = .ok (l',r) ↔ loopRoundOn l x = .ok (l',r) ∧
    ∀ d, called l x = some d →
      ScansEnd l.state (placed l x d) ∧ ReplyFits l.state (placed l x d).call := by
  unfold liveRound
  cases hk : loopRoundOn l x with
  | error f => simp
  | ok q =>
    obtain ⟨m,w⟩ := q
    obtain ⟨hcalled,⟨hnone,_⟩ | ⟨d,_,o,hd,_,_,_,hh⟩⟩ := loopRoundOn_ok hk
    · simp [hcalled,hnone]
    · simp only [hcalled,hd,Except.ok.injEq,Prod.mk.injEq,Option.some.injEq,forall_eq']
      cases hp : liveHandle l.state (placed l x d) with
      | error e =>
        refine iff_of_false (by simp [Except.map]) ?_
        rintro ⟨_,hends⟩
        have hok := liveHandle_ok.mpr ⟨hh,hends⟩
        rw [hp] at hok
        cases hok
      | ok q =>
        have hends := (liveHandle_ok.mp hp).2
        simp [Except.map,hends]

/-- A call with its arguments, scans that end and a reply that fits does not stop the loop. -/
lemma not_stops {d : Dispatch} (hc : called l x = some d)
    (hargs : Tokenises d.cmdStr → d.args ≠ none) (hs : ScansEnd l.state (placed l x d))
    (hf : ReplyFits l.state (placed l x d).call) : ¬ Stops l x := by
  obtain ⟨hrun,hne,hn,passed,hr⟩ := called_iff.mp hc
  rintro ⟨_,hout | hnull | ⟨d',hd',hbad⟩⟩
  · rw [outOfRange_iff,hr] at hout
    obtain ⟨_,hout⟩ := hout
    cases hout
  · obtain ⟨d',hd',hnone,ht,_⟩ := nullTokens_iff.mp ⟨hrun,hne,hn,hnull⟩
    rw [hc] at hd'
    cases hd'
    exact hargs ht hnone
  · rw [hc] at hd'
    cases hd'
    exact hbad ⟨hs,hf⟩

end Live

/-- A running loop between two datagrams of at most 99 bytes. -/
structure Serving (l : Loop) : Prop where
  wellFormed : l.state.WellFormed
  ended : Ended l.buf
  running : l.running = true

namespace Serving
variable {l : Loop} {x : Landing} (h : Serving l) (hd : x.arrival.datagram.length ≤ 99)
include h hd

lemma terminated : (l.buf.write x.arrival.datagram).terminated = true :=
  Buffer.terminated_of_nul _ (write_ended h.ended hd)

lemma nul_mem : nul ∈ landed l x := by
  have ht := h.terminated hd
  exact List.mem_append_left _ (by simpa [Buffer.terminated] using ht)

/-- A round ends with the loop still running unless the datagram stops it. -/
theorem running_iff :
    (∃ l' r, liveRound l x = .ok (l',r) ∧ l'.running = true) ↔ ¬ Stops l x := by
  by_cases hne : x.arrival.datagram = []
  · have hnone : called l x = none := by simp [called,hne]
    refine iff_of_true ⟨l,_,liveRound_ok.mpr ⟨loopRoundOn_idle (Or.inr hne),by simp [hnone]⟩,
      h.running⟩ fun hs => hs.1 hne
  · have hnul := h.nul_mem hd
    simp only [liveRound_ok,Stops,hne,ne_eq,not_false_eq_true,true_and,not_or]
    have hnull : NullArgs l.state (heardOn l x) ↔ loopRoundOn l x = .error .nullDeref := by
      rw [loopRoundOn_nullDeref h.wellFormed]
      simp [NullTokens,h.running,hne,hnul]
    rw [hnull]
    cases hc : called l x with
    | none =>
      have hoff : ¬ RunsOff (landed l x) := fun hoff => hoff.1 hnul
      obtain ⟨_,l',line,hk,_,hrun⟩ := (loopRoundOn_uncalled hc h.running hne).resolve_left
        fun hoff' => hoff hoff'.1
      have hleaves : Leaves (landed l x) ↔ OutOfRange (heardOn l x) := by
        simp [Leaves,hnul,heardOn]
      rw [hleaves] at hrun
      simp [hk,← hrun]
    | some d =>
      obtain ⟨_,_,_,passed,hr⟩ := called_iff.mp hc
      have hout : ¬ OutOfRange (heardOn l x) := by simp [outOfRange_iff,hr]
      simp only [hout,not_false_eq_true,true_and,Option.some.injEq,forall_eq',exists_eq_left',
        not_not]
      cases hk : loopRoundOn l x with
      | error e =>
        obtain ⟨passed',hround⟩ := loopRoundOn_called hc
        rw [hround,calledRound] at hk
        cases ho : dispatchCommand x.arrival.env l.state d.cmdStr d.pid d.args with
        | ok o => simp [ho,Except.map] at hk
        | error e' =>
          obtain rfl : e' = e := by simpa [ho,Except.map] using hk
          simp [((dispatch_error_iff x.arrival.env h.wellFormed d e').mp ho).1]
      | ok q =>
        obtain ⟨l',r⟩ := q
        rcases (loopRoundOn_ok hk).2 with ⟨hnone,_⟩ | ⟨_,_,_,_,_,_,hrun,_⟩
        · simp [hc] at hnone
        · simp [hrun]

/-- A datagram that does not stop the loop is skipped unless its command is taken. -/
theorem skips_iff (hs : ¬ Stops l x) : Skips l x ↔ ¬ Obeyed l x := by
  obtain ⟨l',r,hlive,hrun⟩ := (h.running_iff hd).mpr hs
  obtain ⟨hcalled,hround⟩ := loopRoundOn_ok (liveRound_ok.mp hlive).1
  have htaken : Obeyed l x ↔ ∃ d, called l x = some d ∧ findCommand d.cmdStr ≠ none := by
    by_cases hne : x.arrival.datagram = []
    · simp [Obeyed,called,hne]
    · have hout : ¬ OutOfRange (heardOn l x) := fun ho => hs ⟨hne,Or.inl ho⟩
      rw [Obeyed,taken_iff hout]
      simp only [called_iff,h.running,h.nul_mem hd,hne,ne_eq,not_false_eq_true,true_and]
      exact exists_congr fun d => exists_and_right
  have hskips : Skips l x ↔ l'.state = l.state ∧ r.sent = [] ∧
      ∀ d, r.dispatched = some d → findCommand d.cmdStr = none := by
    simp [Skips,hlive,hrun]
  rw [hskips,htaken,hcalled]
  rcases hround with ⟨hnone,hsent,hstate⟩ | ⟨d,_,o,hd',_,hsent,_,hh⟩
  · simp [hnone,hsent,hstate]
  · simp only [hd',Option.some.injEq,forall_eq',exists_eq_left',not_not]
    refine ⟨fun hq => hq.2.2,fun hc => ?_⟩
    obtain ⟨ho,hstate⟩ := handle_ok.mp hh
    obtain rfl : quiet l.state (region d.args) = o := by simpa [dispatchCommand,hc] using ho
    exact ⟨hstate.symm,hsent,hc⟩

lemma next {l' : Loop} {r : Round} (hk : liveRound l x = .ok (l',r)) (hrun : l'.running = true) :
    Serving l' := by
  have hround := (liveRound_ok.mp hk).1
  refine ⟨loopRoundOn_wellFormed h.wellFormed hround,?_,hrun⟩
  rw [(loopRoundOn_terminated (h.terminated hd)).1] at hround
  exact loopRound_ended h.ended hd hround

end Serving

/-- A loop that has been left stays so. -/
lemma liveRound_left {l l' : Loop} {x : Landing} {r : Round} (h : l.running ≠ true)
    (hk : liveRound l x = .ok (l',r)) : l'.running ≠ true := by
  have hround := (liveRound_ok.mp hk).1
  rw [loopRoundOn_idle (Or.inl (by simpa using h))] at hround
  obtain ⟨rfl,_⟩ : l = l' ∧ _ = r := by simpa using hround
  exact h

/-- The loop is still running after a run, with every malformed datagram skipped on the way,
exactly when no datagram stops it and of no malformed one a command is read that the table
takes. -/
theorem service_iff (cacheDir : CStr) (validPath : CStr → Bool) (malloc : ℕ → Bool)
    (file : Option (List Byte)) (xs : List Landing)
    (hxs : ∀ x ∈ xs, x.arrival.datagram.length ≤ 99) :
    ((∃ l rs, Machine.run liveRound (startLoop (startState cacheDir validPath malloc file)) xs =
          .ok (l,rs) ∧ l.running = true) ∧
      Machine.Along liveRound (fun l x => Malformed x.arrival.datagram → Skips l x)
        (startLoop (startState cacheDir validPath malloc file)) xs) ↔
    Machine.Along liveRound
      (fun l x => ¬ Stops l x ∧ (Malformed x.arrival.datagram → ¬ Obeyed l x))
      (startLoop (startState cacheDir validPath malloc file)) xs := by
  have hstart : Serving (startLoop (startState cacheDir validPath malloc file)) :=
    ⟨startState_wellFormed cacheDir validPath malloc file,startLoop_ended _,rfl⟩
  rw [Machine.run_up liveRound (fun l => l.running = true)
    (fun _ _ _ _ h hk => liveRound_left h hk) hstart.running,← Machine.along_and]
  refine Machine.along_congr liveRound Serving (fun x => x.arrival.datagram.length ≤ 99) ?_ ?_
    hstart hxs
  · intro l x h hd
    rw [h.running_iff hd]
    exact and_congr_right fun hs => imp_congr_right fun _ => h.skips_iff hd hs
  · rintro l x l' r h hd ⟨⟨l'',r',hk',hrun⟩,_⟩ hk
    obtain ⟨rfl,_⟩ : l'' = l' ∧ r' = r := by simpa using Except.ok.inj (hk'.symm.trans hk)
    exact h.next hd hk hrun

/-- A number that no `long` holds ends the service. -/
theorem service_fails : ¬ ∀ cacheDir validPath malloc file xs,
    (∀ x : Landing, x ∈ xs → nul ∉ x.arrival.datagram ∧ x.arrival.datagram.length ≤ 99) →
    (∃ l rs, Machine.run liveRound (startLoop (startState cacheDir validPath malloc file)) xs =
      .ok (l,rs) ∧ l.running = true) ∧
    Machine.Along liveRound (fun l x => Malformed x.arrival.datagram → Skips l x)
      (startLoop (startState cacheDir validPath malloc file)) xs := by
  intro h
  obtain ⟨⟨l,rs,hr,hrun⟩,_⟩ := h (CStr.ofLit "/c") (fun _ => true) (fun _ => true) none
    [⟨⟨openEnv fun _ => true,lit "99999999999999999999 show "⟩,[]⟩] (by
      simp only [List.mem_singleton,forall_eq]
      decide)
  have hleft : ((Machine.run liveRound (startLoop (startState (CStr.ofLit "/c") (fun _ => true)
      (fun _ => true) none))
      [⟨⟨openEnv fun _ => true,lit "99999999999999999999 show "⟩,[]⟩]).toOption.map
      fun p => p.1.running) = some false := by decide +kernel
  rw [hr] at hleft
  simp [Except.toOption,hrun] at hleft

/-- A shell registers and asks for a tag of the tag file, and a word that is no command is skipped;
behind the array stands a space. -/
theorem service_get :
    (∃ l rs, Machine.run liveRound (startLoop (startState (CStr.ofLit "/c") (fun _ => true)
        (fun _ => true) (some (lit "t=/a\n"))))
      [⟨⟨openEnv fun _ => true,lit "+1 register\n"⟩,[space]⟩,
       ⟨⟨openEnv fun _ => true,lit "1 get t "⟩,[space]⟩,
       ⟨⟨openEnv fun _ => true,lit "1 frob "⟩,[space]⟩] = .ok (l,rs) ∧ l.running = true) ∧
    Machine.Along liveRound (fun l x => Malformed x.arrival.datagram → Skips l x)
      (startLoop (startState (CStr.ofLit "/c") (fun _ => true) (fun _ => true)
        (some (lit "t=/a\n"))))
      [⟨⟨openEnv fun _ => true,lit "+1 register\n"⟩,[space]⟩,
       ⟨⟨openEnv fun _ => true,lit "1 get t "⟩,[space]⟩,
       ⟨⟨openEnv fun _ => true,lit "1 frob "⟩,[space]⟩] := by
  refine (service_iff _ _ _ _ _ ?_).mpr ?_
  · simp only [List.mem_cons,List.not_mem_nil,or_false,forall_eq_or_imp,forall_eq]
    decide
  let s : State := ⟨CStr.ofLit "/c",⟨[newShell (CStr.ofLit "/c") 1],1⟩,
    ⟨[⟨CStr.ofLit "t",CStr.ofLit "/a"⟩],1⟩,some (lit "t=/a\n")⟩
  let l₁ : Loop := ⟨s,(Buffer.zero 100).write (lit "+1" ++ nul::lit "register\n"),true⟩
  let l₂ : Loop := ⟨s,(Buffer.zero 100).write
    (lit "1" ++ nul::(lit "get" ++ nul::(lit "t" ++ nul::lit "ter\n"))),true⟩
  refine Machine.along_cons_of_toOption liveRound l₁ ⟨?_,fun hm => ?_⟩ (by decide +kernel)
    (Machine.along_cons_of_toOption liveRound l₂ ⟨?_,fun hm => ?_⟩ (by decide +kernel)
      ⟨⟨?_,fun _ => ?_⟩,fun _ _ _ => trivial⟩)
  · refine not_stops (d:=⟨CStr.ofLit "register\n",1,none⟩) (by decide +kernel)
      (fun ht => absurd ht (by unfold Tokenises; decide)) (by decide +kernel) fun _ _ => trivial
  · exact absurd ⟨⟨1,by decide +kernel⟩,(lit "register",.register),by decide,Or.inr (by decide)⟩
      (hm (CStr.ofLit "+1") (CStr.ofLit "register\n") [] (by decide +kernel))
  · refine not_stops (d:=⟨CStr.ofLit "get",1,some (CStr.ofLit "t ter\n")⟩) (by decide +kernel)
      (fun _ => by simp) (by decide +kernel) ?_
    rintro sh hsh line hl tag htag t ht
    cases hl
    cases htag
    have hstored : some ⟨CStr.ofLit "t",CStr.ofLit "/a"⟩ = some t := ht
    obtain rfl := Option.some.inj hstored
    decide
  · exact absurd ⟨⟨1,by decide +kernel⟩,(lit "get",.get),by decide,Or.inl (by decide)⟩
      (hm (CStr.ofLit "1") (CStr.ofLit "get") [CStr.ofLit "t"] (by decide +kernel))
  · refine not_stops (d:=⟨CStr.ofLit "frob",1,none⟩) (by decide +kernel)
      (fun ht => absurd ht (by unfold Tokenises; decide)) (by decide +kernel) fun _ _ => trivial
  · rintro ⟨_,pidStr,cmdStr,ws,hw,hcmd⟩
    have hwords : (heardOn l₂ ⟨⟨openEnv fun _ => true,lit "1 frob "⟩,[space]⟩).words isBlank =
        [CStr.ofLit "1",CStr.ofLit "frob"] := by decide +kernel
    rw [hwords] at hw
    cases hw
    exact hcmd (by decide)

end Nav.Daemon
