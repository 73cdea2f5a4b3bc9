import Nav.Client.Process
import Nav.Daemon.Codec
import Nav.Daemon.Service

/-! The client's requests as the loop reads them: words that go in come out again. -/
namespace Nav.Client
open Nav.C Nav.Daemon

/-- Not empty, and without space and newline. -/
def Word (w : CStr) : Prop := w.bytes ≠ [] ∧ Unbroken w

instance (w : CStr) : Decidable (Word w) := inferInstanceAs (Decidable (_ ∧ _))

/-- `%d` of a PID as the argument that the wrapper passes. -/
def pidArg (n : ℕ) : CStr := ⟨decimalNat n,nul_notMem_decimalNat n⟩

def registerArg : CStr := CStr.ofLit "register"
def getArg : CStr := CStr.ofLit "get"
def pushArg : CStr := CStr.ofLit "push"
def popArg : CStr := CStr.ofLit "pop"

/-- The message as a C string. -/
def requestStr (argv : List CStr) : CStr := ⟨request argv,request_nulFree argv⟩

section Words
variable {w : CStr}

lemma Word.blankFree (h : Word w) : ∀ b ∈ w.bytes, isBlank b = false := by
  intro b hb
  have hbreak := h.2 b hb
  simp only [isBreak,Bool.or_eq_false_iff] at hbreak
  exact hbreak.2

lemma pidArg_word (n : ℕ) : Word (pidArg n) := by
  refine ⟨decimalNat_ne_nil n,fun b hb => ?_⟩
  have hdigit := isDigit_decimalNat n b hb
  by_contra hbreak
  simp only [isBreak,Bool.not_eq_false,Bool.or_eq_true,beq_iff_eq] at hbreak
  rcases hbreak with rfl | rfl
  · exact absurd hdigit (by decide)
  · exact absurd hdigit (by decide)

lemma request_cons (arg : CStr) (argv : List CStr) :
    request (arg::argv) = arg.bytes ++ space::request argv := by
  simp [request_eq,argItem]

/-- The words of a message are the arguments it was made of. -/
theorem words_request (argv : List CStr) (h : ∀ w ∈ argv, Word w) :
    (requestStr argv).words isBlank = argv := by
  induction argv with
  | nil => exact Strtok.words_empty isBlank
  | cons arg argv ih =>
    have harg := h arg (by simp)
    rw [words_token_cut isBlank (requestStr (arg::argv)) arg (requestStr argv) [] space (by simp)
      harg.blankFree harg.1 rfl (request_cons arg argv),ih fun w hw => h w (by simp [hw])]

/-- The first space ends what is cut, so what stands behind it does not matter. -/
lemma takeWhile_append_space (bs rest : List Byte) :
    (bs ++ space::rest).takeWhile (!isBreak ·) = bs.takeWhile (!isBreak ·) := by
  induction bs with
  | nil => rfl
  | cons b bs ih =>
    simp only [List.cons_append,List.takeWhile_cons]
    split_ifs
    · rw [ih]
    · rfl

/-- Cutting the message at its first break leaves the first argument, cut there. -/
theorem trimmed_request (arg : CStr) (argv : List CStr) :
    trimmed (requestStr (arg::argv)) = trimmed arg := by
  ext1
  simp only [trimmed_bytes,requestStr,request_cons]
  exact takeWhile_append_space arg.bytes (request argv)

end Words

/-- A line that starts with a PID in decimal and a word, each with a space behind it, is a call
of that word for that PID, with all the rest as arguments. -/
theorem reading_request (n : ℕ) (hn : n < 2^31) (c tail line : CStr) (hc : Word c)
    (hline : line.bytes = (pidArg n).bytes ++ space::(c.bytes ++ space::tail.bytes)) :
    ∃ passed, reading line = .call ⟨c,n,if tail.bytes = [] then none else some tail⟩ passed := by
  let rest : CStr := line.part (c.bytes ++ space::tail.bytes) (by rw [hline]; intro b; simp; tauto)
  have hpid : strtol (pidArg n).bytes = ((n : ℤ),false) :=
    strtol_decimalNat (by simp only [longMax]; omega)
  have h₁ := Strtok.next_cut isBlank (Strtok.start line) [] (pidArg n) rest space (by simp)
    (pidArg_word n).blankFree (pidArg_word n).1 rfl hline
  have h₂ := Strtok.next_cut isBlank
    ⟨(Strtok.start line).passed ++ [] ++ (pidArg n).bytes ++ [nul],rest⟩ [] c tail space (by simp)
    hc.blankFree hc.1 rfl rfl
  have hargs : ∀ passed, (Strtok.next noDelim ⟨passed,tail⟩).1 =
      if tail.bytes = [] then none else some tail := by
    intro passed
    rw [Strtok.next_noDelim]
    split_ifs <;> rfl
  refine ⟨(Strtok.start line).passed ++ [] ++ (pidArg n).bytes ++ [nul] ++ [] ++ c.bytes ++ [nul],?_⟩
  simp only [reading,h₁,hpid,Bool.false_eq_true,if_false,h₂,toInt_of_lt hn,hargs]

section Rounds
variable {l : Loop} (env : Env) {n : ℕ} {c : CStr} {args : List CStr}

/-- A request in a buffer with a NUL behind it is read as the call it was made for. -/
theorem reading_heard (hn : n < 2^31) (hc : Word c) (hlen : (request (pidArg n::c::args)).length ≤ 99)
    (hbyte : l.buf.bytes[(request (pidArg n::c::args)).length]? = some nul) :
    ∃ passed, reading (heard l ⟨env,request (pidArg n::c::args)⟩) =
      .call ⟨c,n,if args = [] then none else some (requestStr args)⟩ passed := by
  have hheard : (heard l ⟨env,request (pidArg n::c::args)⟩).bytes = request (pidArg n::c::args) :=
    (l.buf.write_str_iff _ (request_nulFree _) (by omega)).mpr hbyte
  obtain ⟨passed,hr⟩ := reading_request n hn c (requestStr args)
    (heard l ⟨env,request (pidArg n::c::args)⟩) hc
    (hheard.trans ((request_cons _ _).trans (by rw [request_cons]; rfl)))
  refine ⟨passed,hr.trans ?_⟩
  cases args with
  | nil => rfl
  | cons arg args =>
    have hne : (requestStr (arg::args)).bytes ≠ [] := by simp [requestStr,request_cons]
    rw [if_neg hne,if_neg (by simp)]

/-- The round of a request in a buffer with a NUL behind it is the call it was made for. -/
theorem loopRound_request (hl : l.running = true) (hn : n < 2^31) (hc : Word c)
    (hlen : (request (pidArg n::c::args)).length ≤ 99)
    (hbyte : l.buf.bytes[(request (pidArg n::c::args)).length]? = some nul) :
    ∃ passed, loopRound l ⟨env,request (pidArg n::c::args)⟩ =
      (calledRound env l.state ⟨c,n,if args = [] then none else some (requestStr args)⟩ passed).map
        fun r => (⟨r.state,(l.buf.write (request (pidArg n::c::args))).write r.line,r.running⟩,r) := by
  obtain ⟨passed,hr⟩ := reading_heard (l:=l) env hn hc hlen hbyte
  have hterm := l.buf.write_terminated_clear _ (request_nulFree (pidArg n::c::args)) (by omega) hbyte
  refine ⟨passed,?_⟩
  rw [loopRound_read hl (by simp [request_cons]) hterm,hr]
  rfl

/-- Over whatever bytes of earlier datagrams, a request is a call of its command for its PID. -/
theorem loopRound_command (hl : l.running = true) (hb : Ended l.buf) (hn : n < 2^31) (hc : Word c)
    (hlen : (request (pidArg n::c::args)).length ≤ 99) :
    ∃ argStr passed, loopRound l ⟨env,request (pidArg n::c::args)⟩ =
      (calledRound env l.state ⟨c,n,argStr⟩ passed).map
        fun r => (⟨r.state,(l.buf.write (request (pidArg n::c::args))).write r.line,r.running⟩,r) := by
  have hterm := Buffer.terminated_of_nul _ (write_ended (a:=⟨env,request (pidArg n::c::args)⟩) hb hlen)
  let left := l.buf.leftover (request (pidArg n::c::args)).length
  have hline : (heard l ⟨env,request (pidArg n::c::args)⟩).bytes =
      request (pidArg n::c::args) ++ left.bytes :=
    l.buf.write_str _ (request_nulFree _) (hlen.trans (by omega))
  obtain ⟨passed,hr⟩ := reading_request n hn c ⟨request args ++ left.bytes,by
      simpa using ⟨request_nulFree args,left.nulFree⟩⟩ (heard l ⟨env,request (pidArg n::c::args)⟩) hc (by
    rw [hline,request_cons,request_cons]
    simp)
  have hround := loopRound_read hl (a:=⟨env,request (pidArg n::c::args)⟩) (by simp [request_cons])
    hterm
  rw [hr] at hround
  exact ⟨_,passed,hround⟩

end Rounds

/-- A request of a PID, a command word and any number of words more is dispatched as it was made:
the argument string is NULL if there are no words more, and else tokenising it as `cmd_add` does
and cutting it as `cmd_push` does give the words back. -/
theorem request_roundTrip (l : Loop) (hl : l.running = true) (env : Env) (n : ℕ) (hn : n < 2^31)
    (c : CStr) (args : List CStr) (hwords : ∀ w ∈ c::args, Word w)
    (hlen : (request (pidArg n::c::args)).length ≤ 99)
    (hbyte : l.buf.bytes[(request (pidArg n::c::args)).length]? = some nul) :
    ∃ argStr passed, (loopRound l ⟨env,request (pidArg n::c::args)⟩).map Prod.snd =
        calledRound env l.state ⟨c,n,argStr⟩ passed ∧
      (argStr = none ↔ args = []) ∧
      ∀ line, argStr = some line →
        (Strtok.tokens isBlank line.length (Strtok.start line)).map trimmed = args ∧
        (∀ tag path, (addArgs line).1 = some (tag,path) ↔ args = [tag,path]) ∧
        args.head? = some (trimmed line) := by
  obtain ⟨passed,hr⟩ := loopRound_request env hl hn (hwords c (by simp)) hlen hbyte
  refine ⟨if args = [] then none else some (requestStr args),passed,?_,?_,?_⟩
  · rw [hr]
    cases calledRound env l.state ⟨c,n,if args = [] then none else some (requestStr args)⟩ passed <;>
      rfl
  · simp
  · intro line hline
    cases args with
    | nil => simp at hline
    | cons arg args =>
      obtain rfl : requestStr (arg::args) = line := by simpa using hline
      have hw : ∀ w ∈ arg::args, Word w := fun w hw => hwords w (by simp at hw ⊢; tauto)
      have htrim : ∀ w ∈ arg::args, trimmed w = w := fun w h => trimmed_eq_self w (hw w h).2
      have htokens := words_request (arg::args) hw
      refine ⟨?_,fun tag path => ?_,?_⟩
      · have hcalls := (Strtok.tokens_words isBlank (Strtok.start (requestStr (arg::args))) _
          le_rfl).trans htokens
        exact (congrArg (List.map trimmed) hcalls).trans
          ((List.map_congr_left htrim).trans (List.map_id _))
      · rw [addArgs_eq_some,htokens]
        constructor
        · rintro ⟨w₁,w₂,he,rfl,rfl⟩
          rw [he] at htrim ⊢
          rw [htrim w₁ (by simp),htrim w₂ (by simp)]
        · intro he
          rw [he] at htrim
          exact ⟨tag,path,he,htrim tag (by simp),htrim path (by simp)⟩
      · rw [trimmed_request,htrim arg (by simp)]
        rfl

theorem request_roundTrip_add : ∃ argStr passed,
    (loopRound (startLoop (startState (CStr.ofLit "/c") (fun _ => true) (fun _ => true) none))
      ⟨openEnv fun _ => true,request [pidArg 1,CStr.ofLit "add",CStr.ofLit "t",CStr.ofLit "/a"]⟩).map
        Prod.snd =
      calledRound (openEnv fun _ => true)
        (startState (CStr.ofLit "/c") (fun _ => true) (fun _ => true) none)
        ⟨CStr.ofLit "add",1,argStr⟩ passed ∧
    (argStr = none ↔ [CStr.ofLit "t",CStr.ofLit "/a"] = []) ∧
    ∀ line, argStr = some line →
      (Strtok.tokens isBlank line.length (Strtok.start line)).map trimmed =
        [CStr.ofLit "t",CStr.ofLit "/a"] ∧
      (∀ tag path, (addArgs line).1 = some (tag,path) ↔
        [CStr.ofLit "t",CStr.ofLit "/a"] = [tag,path]) ∧
      [CStr.ofLit "t",CStr.ofLit "/a"].head? = some (trimmed line) :=
  request_roundTrip (startLoop (startState (CStr.ofLit "/c") (fun _ => true) (fun _ => true) none))
    rfl _ 1 (by decide) (CStr.ofLit "add") [CStr.ofLit "t",CStr.ofLit "/a"]
    (by decide) (by decide) (by decide)

end Nav.Client
