import Nav.Client.Wrapper
import Nav.Daemon.StoredPaths

/-! One run of the client: the options it takes out, the call that the loop makes of its request,
and what comes back. -/
namespace Nav.Client
open Nav.C Nav.Daemon

lemma heardLine_short {argv : List CStr} (h : (request argv).length ≤ 99) (rest : CStr) :
    (heardLine argv rest).bytes = request argv ++ rest.bytes := by
  have htake : (request argv).take 100 = request argv := List.take_of_length_le (by omega)
  simp only [heardLine,htake]

/-- A client that returns has sent its request, and has found the daemon back in its loop. -/
theorem processCommand_ran {s s' : State} {d : Delivery} {argv : List CStr} {text : CStr}
    (h : processCommand s d argv = some (s',text)) : (request argv).length < 1024 ∧
      ∃ rest r, d.rest argv = some rest ∧ loopLine d.env s true (heardLine argv rest) = .ok r ∧
        r.running = true ∧ r.state = s' := by
  have hover : (requestBuf argv).overrun = false := by
    by_contra hover
    simp [processCommand,hover] at h
  refine ⟨(requestBuf_fits argv).mp hover,?_⟩
  simp only [processCommand,hover,Bool.false_eq_true,if_false] at h
  cases hrest : d.rest argv with
  | none => simp [hrest] at h
  | some rest =>
    cases hr : loopLine d.env s true (heardLine argv rest) with
    | error e => simp [hrest,hr] at h
    | ok r =>
      simp only [hrest,hr] at h
      split_ifs at h with hbad
      · exact ⟨rest,r,rfl,hr,by simp_all,(Prod.mk.inj (Option.some.inj h)).1⟩
      · obtain ⟨_,_,he⟩ := Option.map_eq_some_iff.mp h
        exact ⟨rest,r,rfl,hr,by simp_all,(Prod.mk.inj he).1⟩

section Transport
variable {l : Loop} {argv : List CStr} (env : Env)

/-- The client and the loop: a request that fits is read with the bytes behind it that the buffer
still has. Nothing is known of the memory behind the buffer here, and a longer request takes the loop
there or out of its rounds. -/
theorem processCommand_loop (hl : l.running = true) (hb : Ended l.buf) (hne : argv ≠ []) :
    processCommand l.state ⟨env,l.buf.leftover (request argv).length,none,false⟩ argv =
      match loopRound l ⟨env,request argv⟩ with
      | .error _ => none
      | .ok (l',r) =>
        if r.overrun || !l'.running then none
        else (received (myAddr l.state.cacheDir argv) r.sent).map fun text => (l'.state,text) := by
  have hnil : request argv ≠ [] := by
    cases argv with
    | nil => contradiction
    | cons arg argv => simp [request_cons]
  by_cases hlen : (request argv).length ≤ 99
  · have hfits : (requestBuf argv).overrun = false := (requestBuf_fits argv).mpr (by omega)
    have hterm := Buffer.terminated_of_nul _ (write_ended (a:=⟨env,request argv⟩) hb hlen)
    have hheard : heard l ⟨env,request argv⟩ =
        heardLine argv (l.buf.leftover (request argv).length) := by
      ext1
      rw [heardLine_short hlen]
      exact l.buf.write_str _ (request_nulFree argv) (hlen.trans (by omega))
    rw [loopRound_read (a:=⟨env,request argv⟩) hl hnil hterm,hheard,← loopLine_eq]
    simp only [processCommand,hfits,Delivery.rest,hlen,if_true,Bool.false_eq_true,if_false]
    cases loopLine env l.state true (heardLine argv (l.buf.leftover (request argv).length)) <;> rfl
  · have hnone : processCommand l.state ⟨env,l.buf.leftover (request argv).length,none,false⟩ argv =
        none := by
      simp [processCommand,Delivery.rest,hlen]
    have hterm : (l.buf.write (request argv)).terminated = false := by
      have hall : (l.buf.write (request argv)).bytes = (request argv).take 100 := by
        have hdrop : l.buf.bytes.drop (request argv).length = [] := by
          rw [List.drop_eq_nil_iff,l.buf.size]
          omega
        simp only [Buffer.write,hdrop,List.append_nil]
      simpa [Buffer.terminated,hall] using fun h => request_nulFree argv (List.mem_of_mem_take h)
    rw [hnone]
    rcases loopRound_unterminated (a:=⟨env,request argv⟩) hl hnil hterm with he | ⟨line,hk⟩
    · rw [he]
    · rw [hk]
      simp

end Transport

/-- What the loop has read behind the command word: the arguments as far as the buffer takes them, and
what follows. -/
def argsLine (n : ℕ) (c : CStr) (args : List CStr) (rest : CStr) : CStr :=
  ⟨(request args).take (100-(request [pidArg n,c]).length) ++ rest.bytes,by
    simpa using ⟨fun h => request_nulFree args (List.mem_of_mem_take h),rest.nulFree⟩⟩

/-- The argument string of a call, NULL if nothing is left of the line. -/
def heardArgs (n : ℕ) (c : CStr) (args : List CStr) (rest : CStr) : Option CStr :=
  if (argsLine n c args rest).bytes = [] then none else some (argsLine n c args rest)

/-- The client sends this request, and the daemon reads at least its PID and its command, and `rest`
behind it. -/
structure Delivered (d : Delivery) (n : ℕ) (c : CStr) (args : List CStr) (rest : CStr) : Prop where
  front : (request [pidArg n,c]).length ≤ 99
  fits : (request (pidArg n::c::args)).length < 1024
  rest : d.rest (pidArg n::c::args) = some rest

section Calls
variable {s : State} {d : Delivery} {n : ℕ} {c rest : CStr} {args : List CStr}

lemma request_front (n : ℕ) (c : CStr) (args : List CStr) :
    request (pidArg n::c::args) = request [pidArg n,c] ++ request args := by
  simp [request_eq]

/-- A request that leaves room in the buffer. -/
lemma delivered_short (hlen : (request (pidArg n::c::args)).length ≤ 99) :
    Delivered d n c args d.left := by
  have hsplit := congrArg List.length (request_front n c args)
  rw [List.length_append] at hsplit
  exact ⟨by omega,by omega,if_pos hlen⟩

lemma argsLine_short (hlen : (request (pidArg n::c::args)).length ≤ 99) :
    (argsLine n c args rest).bytes = request args ++ rest.bytes := by
  have hsplit := congrArg List.length (request_front n c args)
  rw [List.length_append] at hsplit
  have htake : (request args).take (100-(request [pidArg n,c]).length) = request args :=
    List.take_of_length_le (by omega)
  simp only [argsLine,htake]

/-- What `cmd_push` keeps of a directory. -/
lemma trimmed_argsLine {path : CStr} (hlen : (request [pidArg n,c,path]).length ≤ 99) :
    trimmed (argsLine n c [path] rest) = trimmed path := by
  ext1
  simp only [trimmed_bytes,argsLine_short hlen,request_cons,List.append_assoc,List.cons_append]
  exact takeWhile_append_space path.bytes _

/-- A path is an argument. -/
lemma heardArgs_path {path : CStr} (hlen : (request [pidArg n,c,path]).length ≤ 99) :
    heardArgs n c [path] rest = some (argsLine n c [path] rest) :=
  if_neg (by simp [argsLine_short hlen,request_cons])

lemma myAddr_pid (cacheDir : CStr) : myAddr cacheDir (pidArg n::args) = sockPath cacheDir n := by
  rw [sockPath,decimal_natCast]
  rfl

/-- The client of the wrapper makes one call of `dispatch_command` for its shell. -/
theorem processCommand_call (hn : n < 2^31) (hc : Word c) (hd : Delivered d n c args rest) :
    processCommand s d (pidArg n::c::args) =
      match dispatchCommand d.env s c n (heardArgs n c args rest) with
      | .error _ => none
      | .ok o =>
        if o.overrun then none
        else if d.late then some (o.state,CStr.empty)
        else (received (sockPath s.cacheDir n) o.sent).map fun text => (o.state,text) := by
  have hline : (heardLine (pidArg n::c::args) rest).bytes =
      (pidArg n).bytes ++ space::(c.bytes ++ space::(argsLine n c args rest).bytes) := by
    have htake : (request [pidArg n,c]).take 100 = request [pidArg n,c] :=
      List.take_of_length_le (by have := hd.front; omega)
    have hfront : request [pidArg n,c] = (pidArg n).bytes ++ space::(c.bytes ++ [space]) := by
      rw [request_cons,request_cons]
      rfl
    simp only [heardLine,argsLine,request_front n c args,List.take_append,htake]
    rw [hfront]
    simp
  obtain ⟨passed,hr⟩ := reading_request n hn c (argsLine n c args rest) _ hc hline
  have hfits : (requestBuf (pidArg n::c::args)).overrun = false := (requestBuf_fits _).mpr hd.fits
  simp only [processCommand,hfits,hd.rest,Bool.false_eq_true,if_false]
  rw [loopLine_eq,hr,myAddr_pid]
  simp only [readRound,calledRound,heardArgs]
  cases dispatchCommand d.env s c n
    (if (argsLine n c args rest).bytes = [] then none else some (argsLine n c args rest)) <;>
    simp [Except.map]

/-- What the client prints of an answer that may come too late. -/
def Delivery.prints (d : Delivery) (text : CStr) : CStr := if d.late then CStr.empty else text

lemma substituted_prints (text : CStr) : substituted (d.prints text) = d.prints (substituted text) := by
  unfold Delivery.prints
  split_ifs
  · rfl
  · rfl

section Answered
variable {o : Outcome} (hn : n < 2^31) (hc : Word c) (hd : Delivered d n c args rest)
  (ho : dispatchCommand d.env s c n (heardArgs n c args rest) = .ok o) (hover : o.overrun = false)
include hn hc hd ho hover

lemma processCommand_quiet (hsent : o.sent = []) :
    processCommand s d (pidArg n::c::args) = some (o.state,CStr.empty) := by
  rw [processCommand_call hn hc hd,ho]
  simp only [hover,hsent]
  cases d.late <;> rfl

/-- The client prints the text of a reply that is short enough. -/
theorem processCommand_reply {payload : List Byte}
    (hsent : o.sent = [⟨sockPath s.cacheDir n,payload⟩]) (hpayload : (cstr payload).length < 1024) :
    processCommand s d (pidArg n::c::args) = some (o.state,d.prints (cstr payload)) := by
  rw [processCommand_call hn hc hd,ho,Delivery.prints]
  cases d.late <;> simp [hover,hsent,received,(printed_iff payload).mpr hpayload]

end Answered
end Calls

section Options
variable {passed argv argv' : List CStr} {arg : CStr}

/-- The word does not start with a dash. -/
def Plain (arg : CStr) : Prop := arg.bytes.head? ≠ some 45

lemma getopt_plain (h : Plain arg) : getopt passed (arg::argv) = getopt (passed ++ [arg]) argv := by
  have hdash : arg.bytes ≠ lit "--" := fun he => h (by rw [he]; rfl)
  rw [getopt,if_neg hdash]
  split
  · next c opt rest hb =>
    have hc : c ≠ 45 := fun he => h (by rw [hb,he]; rfl)
    rw [if_neg hc]
  · rfl

/-- Options are taken out behind the words that have been passed over. -/
theorem getopt_command (h : getopt passed argv = .command argv') : ∃ args, argv' = passed ++ args := by
  induction argv generalizing passed with
  | nil =>
    simp only [getopt] at h
    split_ifs at h
    exact ⟨[],by simpa using h.symm⟩
  | cons arg argv ih =>
    simp only [getopt] at h
    split_ifs at h
    · exact ⟨argv,by simpa using h.symm⟩
    · split at h
      · split_ifs at h
        obtain ⟨args,rfl⟩ := ih h
        exact ⟨arg::args,by simp⟩
      · obtain ⟨args,rfl⟩ := ih h
        exact ⟨arg::args,by simp⟩

lemma plain_pidArg (n : ℕ) : Plain (pidArg n) := by
  intro h
  have hd := isDigit_decimalNat n 45 (List.mem_of_mem_head? h)
  exact absurd hd (by decide)

/-- A call of the client without options. -/
theorem client_plain (navClient : CStr) (s : State) (d : Delivery) (n : ℕ) {args : List CStr}
    (h : ∀ arg ∈ args, Plain arg) :
    client navClient s d (pidArg n::args) = processCommand s d (pidArg n::args) := by
  have hall : ∀ (args passed : List CStr), (∀ arg ∈ args, Plain arg) → passed ≠ [] →
      getopt passed args = .command (passed ++ args) := by
    intro args
    induction args with
    | nil => simp [getopt]
    | cons arg args ih =>
      intro passed hargs hpassed
      rw [getopt_plain (hargs arg (by simp)),ih _ (fun a ha => hargs a (by simp [ha])) (by simp)]
      simp
  rw [client,getopt_plain (plain_pidArg n),hall args _ h (by simp)]
  rfl

end Options

section Outputs

lemma pathBuf_text (path : CStr) : (pathBuf path).text = path.bytes ++ [newline] := by
  simp [pathBuf,OutBuf.sprintf,OutBuf.empty]

lemma pathBuf_overrun {path : CStr} (h : ¬ path.length ≤ 98) : (pathBuf path).overrun = true := by
  rw [← Bool.not_eq_false,pathBuf_fits]
  exact h

lemma cstr_line (path : CStr) : (cstr (path.bytes ++ [newline])).bytes = path.bytes ++ [newline] :=
  cstr_nulFree (by simpa using ⟨path.nulFree,by decide⟩)

lemma pathBuf_printed {path : CStr} (h : path.length ≤ 98) :
    (cstr (pathBuf path).text).length < 1024 := by
  rw [pathBuf_text,CStr.length,cstr_line]
  simp only [CStr.length,List.length_append,List.length_singleton] at h ⊢
  omega

lemma substituted_line (path : CStr) :
    substituted (cstr (path.bytes ++ [newline])) = substituted path := by
  ext1
  simp only [substituted,CStr.part_bytes,cstr_line]
  exact List.rdropWhile_concat_pos _ _ _ rfl

lemma substituted_unbroken {path : CStr} (h : Unbroken path) : substituted path = path := by
  ext1
  refine List.rdropWhile_eq_self_iff.mpr fun hne hlast => ?_
  have hbreak := h _ (List.getLast_mem hne)
  rw [beq_iff_eq] at hlast
  rw [hlast] at hbreak
  exact absurd hbreak (by decide)

end Outputs

end Nav.Client
