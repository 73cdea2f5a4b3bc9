import Nav.Client.Process
import Nav.Daemon.History
import Nav.Daemon.ReplyBuffers

/-! Client and daemon together: whether a message arrives as it was sent, in both directions. The
buffers are 1024 bytes in the client and 100 bytes in the daemon, and no message has a length
field. -/
namespace Nav.Client
open Nav.C Nav.Daemon

/-- The request arrives: it fits in the client's buffer, is received in full, is what the string
in the daemon's buffer is when `strtok_r` first reads it, and the loop works on all of it. -/
structure RequestFramed (l : Loop) (argv : List CStr) : Prop where
  fits : (requestBuf argv).overrun = false
  whole : (l.buf.recv (request argv)).2 = (request argv).length
  terminated : (l.buf.recv (request argv)).1.terminated = true
  string : (l.buf.recv (request argv)).1.str.bytes = request argv
  handled : ∀ env, (loopRound l ⟨env,request argv⟩).map Prod.snd =
    loopLine env l.state true ⟨request argv,request_nulFree argv⟩

/-- A command of the client arrives as it was sent exactly when it is at most 99 bytes long,
with a space behind every argument, and the byte behind it in the daemon's buffer is a NUL. -/
theorem requestFramed_iff (l : Loop) (hl : l.running = true) (argv : List CStr) (hargv : argv ≠ []) :
    RequestFramed l argv ↔ (argv.map fun arg => arg.length+1).sum ≤ 99 ∧
      l.buf.bytes[(argv.map fun arg => arg.length+1).sum]? = some nul := by
  rw [← request_length]
  have hnul := request_nulFree argv
  constructor
  · intro h
    have hlen : (request argv).length ≤ 100 := by
      have := h.whole
      simp only [Buffer.recv] at this
      omega
    have hterm := h.terminated
    simp only [Buffer.recv] at hterm
    rw [Buffer.write_terminated _ _ hnul hlen] at hterm
    have hlt : (request argv).length < 100 := by
      by_contra hge
      rw [List.drop_eq_nil_of_le (by rw [l.buf.size]; omega)] at hterm
      simp at hterm
    exact ⟨by omega,(l.buf.write_str_iff _ hnul hlt).mp h.string⟩
  · rintro ⟨hlen,hbyte⟩
    have hpos : 1 ≤ (request argv).length := by
      obtain ⟨arg,args,rfl⟩ := List.exists_cons_of_ne_nil hargv
      simp [request_length]
      omega
    have hplain : Plain (request argv) := ⟨hnul,hpos,hlen⟩
    have hlt : (request argv).length < 100 := by omega
    have hstr : (l.buf.write (request argv)).str = ⟨request argv,hnul⟩ := by
      ext1
      exact (l.buf.write_str_iff _ hnul hlt).mpr hbyte
    have hterm := l.buf.write_terminated_clear _ hnul hlt hbyte
    refine ⟨(requestBuf_fits argv).mpr (by omega),?_,hterm,congrArg CStr.bytes hstr,fun env => ?_⟩
    · simp only [Buffer.recv]
      omega
    · rw [loopRound_plain (a:=⟨env,request argv⟩) hplain hl,hterm,hstr]

/-- A command with a path of 100 bytes is sent, but the daemon receives its front only. -/
theorem requestFramed_fails : ¬ ∀ s as l rs, runLoop (startLoop s) as = .ok (l,rs) →
    l.running = true → ∀ argv, argv ≠ [] → RequestFramed l argv := by
  intro h
  have hw := (h (startState (CStr.ofLit "/c") (fun _ => true) (fun _ => true) none) [] _ _ rfl rfl
    [CStr.ofLit "1",CStr.ofLit "push",⟨List.replicate 100 97,by decide⟩] (by simp)).whole
  revert hw
  decide

theorem requestFramed_show : RequestFramed
    (startLoop (startState (CStr.ofLit "/c") (fun _ => true) (fun _ => true) none))
    [CStr.ofLit "1",CStr.ofLit "show"] :=
  (requestFramed_iff _ rfl _ (by simp)).mpr ⟨by decide,by decide⟩

/-- The lines of `show` do not fit in the client's buffer. -/
def LongShow (s : State) (c : Call) : Prop :=
  findCommand c.cmdStr = some .show ∧ s.shell? c.pid ≠ none ∧
    1024 ≤ (s.tags.nodes.map fun t => t.tag.length+t.path.length+6).sum

/-- The client prints exactly the text of every reply. -/
def RepliesFramed (o : Outcome) : Prop :=
  ∀ d ∈ o.sent, printed (replyBuf d.payload) = some (cstr d.payload)

section Replies
variable {s : State} {c : Call} {o : Outcome}

lemma cstr_length_le (bs : List Byte) : (cstr bs).length ≤ bs.length :=
  (List.takeWhile_prefix _).length_le

/-- A reply of less than 1024 bytes is printed whole. -/
theorem printed_of_length {payload : List Byte} (h : payload.length < 1024) :
    printed (replyBuf payload) = some (cstr payload) := by
  have := cstr_length_le payload
  exact (printed_iff payload).mpr (by omega)

lemma showBuf_nulFree (tags : NodeList Tag) : nul ∉ (showBuf tags).text := by
  rw [showBuf_text]
  intro h
  obtain ⟨line,hm,hn⟩ := List.mem_flatten.mp (List.mem_of_mem_take h)
  obtain ⟨t,_,rfl⟩ := List.mem_map.mp hm
  have hlit : nul ∉ lit " --> " := by decide
  have hnl : nul ≠ newline := by decide
  simp only [showLine,List.mem_append,List.mem_singleton] at hn
  rcases hn with ((hn | hn) | hn) | hn
  · exact t.tag.nulFree hn
  · exact hlit hn
  · exact t.path.nulFree hn
  · exact hnl hn

/-- The text of `show` is printed whole exactly when its lines are shorter than the buffer. -/
theorem show_printed (tags : NodeList Tag) :
    printed (replyBuf (showBuf tags).text) = some (cstr (showBuf tags).text) ↔
      (tags.nodes.map fun t => t.tag.length+t.path.length+6).sum < 1024 := by
  have hlen : (cstr (showBuf tags).text).length = (showBuf tags).text.length :=
    congrArg List.length (cstr_nulFree (showBuf_nulFree tags))
  rw [printed_iff,hlen,showBuf_text,List.length_take,showLines_length]
  omega

lemma pathBuf_length {path : CStr} (h : (pathBuf path).overrun = false) :
    (pathBuf path).text.length < 100 := by
  simp [pathBuf,OutBuf.sprintf,OutBuf.empty] at h ⊢
  omega

lemma actionsBuf_length {actions : NodeList Action} (h : (actionsBuf actions).overrun = false) :
    (actionsBuf actions).text.length < 1024 := by
  have hfits := OutBuf.foldl_sprintf_fits 1024 OutBuf.empty _ (by simp [OutBuf.empty]) h
  have htext := OutBuf.foldl_sprintf 1024 OutBuf.empty
    (actions.nodes.mapIdx fun i a => actionLine (i+1) a)
  rw [htext.2] at hfits
  rw [actionsBuf,htext.1]
  simpa [OutBuf.empty] using hfits

lemma listReply_length (tags : NodeList Tag) : (listReply tags).length ≤ 256 := by
  unfold listReply
  exact List.length_take_le 256 _

/-- Of all exits only a long `show` sends more than the client takes. -/
theorem repliesFramed_of_exit (h : Exit c s o) (ho : o.overrun = false) :
    RepliesFramed o ↔ ¬ LongShow s c := by
  have hshort : (∀ d ∈ o.sent, d.payload.length < 1024) → ¬ LongShow s c →
      (RepliesFramed o ↔ ¬ LongShow s c) :=
    fun hl hn => iff_of_true (fun d hd => printed_of_length (hl d hd)) hn
  cases h with
  | shown hc hs =>
    have hlong : LongShow s c ↔ 1024 ≤ (s.tags.nodes.map fun t => t.tag.length+t.path.length+6).sum := by
      simp [LongShow,hc,hs]
    rw [hlong,not_le,← show_printed]
    simp [RepliesFramed,reply]
  | unknown hc => exact hshort (by simp [quiet]) (by simp [LongShow,hc])
  | ignored hc hs => exact hshort (by simp [quiet]) (by simp [LongShow,hs])
  | listed hc =>
    have := listReply_length s.tags
    refine hshort ?_ (by simp [LongShow,hc])
    simp [reply]
    omega
  | got hc =>
    have := pathBuf_length ho
    refine hshort ?_ (by simp [LongShow,hc])
    simp [reply]
    omega
  | popped hc =>
    have := pathBuf_length ho
    refine hshort ?_ (by simp [LongShow,hc])
    simp [reply]
    omega
  | actionsShown hc => exact hshort (by simpa [reply] using actionsBuf_length ho) (by simp [LongShow,hc])
  | registerNoMemory hc | deleteBlank hc | getBlank hc | pushNothing hc =>
    exact hshort (by simp [quiet]) (by simp [LongShow,hc])
  | registeredAgain hc | registered hc | unregistered hc | addMalformed hc | addInvalid hc
  | rebound hc | addNoMemory hc | added hc | deleteAbsent hc | deleted hc | getAbsent hc
  | pushInvalid hc | pushedAgain hc | pushNoMemory hc | pushed hc | popEmpty hc | reset hc =>
    refine hshort ?_ (by simp [LongShow,hc])
    simp [reply,show okNul.length = 4 by decide,show ok.length = 3 by decide,
      show bad.length = 4 by decide]

end Replies

/-- In every state the client prints the reply as the daemon sent it, unless the lines of `show` are
too long for it; and it does so throughout a run without such a `show`. -/
theorem repliesFramed_iff (s : State) :
    (∀ c s' o, handle s c = .ok (s',o) → o.overrun = false →
      (RepliesFramed o ↔ ¬ LongShow s c)) ∧
    (∀ cs s' os, Machine.Along handle (fun s c => ¬ LongShow s c) s cs →
      runCalls s cs = .ok (s',os) →
      List.Forall₂ (fun _ o => o.overrun = false → RepliesFramed o) cs os) := by
  constructor
  · intro c s' o hh ho
    exact repliesFramed_of_exit (handle_exit hh).1 ho
  · intro cs s' os hcs hr
    refine Machine.run_forall₂ handle (fun _ => True) (fun t c t' o _ hn hh => ?_) trivial hcs hr
    exact ⟨trivial,fun ho => (repliesFramed_of_exit (handle_exit hh).1 ho).mpr hn⟩

/-- A `show` that the daemon formats within its buffer and the client cannot print. -/
theorem longShow_fails {s : State} {c : Call} (hl : LongShow s c)
    (ho : (showBuf s.tags).overrun = false) :
    ∃ s' o, handle s c = .ok (s',o) ∧ o.overrun = false ∧ ¬ RepliesFramed o := by
  obtain ⟨hc,hs,hsum⟩ := hl
  obtain ⟨sh,hs⟩ := Option.ne_none_iff_exists'.mp hs
  have hd : dispatchCommand c.env s c.cmdStr c.pid c.args =
      .ok {reply s sh (showBuf s.tags).text (region c.args) with
        overrun := (showBuf s.tags).overrun} := by
    simp [dispatchCommand,hc,cmdFunc,cmdShow,withShell_some hs]
  refine ⟨_,_,handle_ok.mpr ⟨hd,rfl⟩,ho,fun hf => ?_⟩
  have hshort := (show_printed s.tags).mp (hf _ (List.mem_singleton.mpr rfl))
  omega

/-- A tag file of five long lines. -/
def longFile : List Byte :=
  ((List.range 5).map fun i =>
    UInt8.ofNat (48+i)::equals::(List.replicate 240 97 ++ [newline])).flatten

/-- With five long tags the client cannot print the reply to `show`. -/
theorem repliesFramed_fails : ¬ ∀ s, Reachable s → ∀ c s' o, handle s c = .ok (s',o) →
    o.overrun = false → RepliesFramed o := by
  intro h
  let start := startState (CStr.ofLit "/c") (fun _ => true) (fun _ => true) (some longFile)
  let s := {start with shells := listAppendNode start.shells (newShell (CStr.ofLit "/c") 1)}
  have hs : Reachable s := ⟨CStr.ofLit "/c",fun _ => true,fun _ => true,some longFile,
    [⟨openEnv fun _ => true,CStr.ofLit "register",1,none⟩],_,rfl⟩
  have hlong : LongShow s ⟨openEnv fun _ => true,CStr.ofLit "show",1,none⟩ :=
    ⟨by decide,by decide +kernel,by decide +kernel⟩
  obtain ⟨s',o,hh,ho,hn⟩ := longShow_fails hlong (by decide +kernel)
  exact hn (h s hs _ s' o hh ho)

/-- A registered shell gets to see two stored tags. -/
theorem repliesFramed_show :
    let s : State := ⟨CStr.ofLit "/c",⟨[newShell (CStr.ofLit "/c") 1],1⟩,
      ⟨[⟨CStr.ofLit "t",CStr.ofLit "/a"⟩,⟨CStr.ofLit "u",CStr.ofLit "/b"⟩],2⟩,none⟩
    ∃ s' o, handle s ⟨openEnv fun _ => true,CStr.ofLit "show",1,none⟩ = .ok (s',o) ∧
      o.sent.map Datagram.payload = [lit "t --> /a\nu --> /b\n"] ∧ RepliesFramed o := by
  intro s
  obtain ⟨s',o,hh⟩ : ∃ s' o,
      handle s ⟨openEnv fun _ => true,CStr.ofLit "show",1,none⟩ = .ok (s',o) := ⟨_,_,rfl⟩
  obtain ⟨rfl,rfl⟩ : _ = s' ∧ _ = o := by simpa using Except.ok.inj hh
  refine ⟨_,_,hh,by decide +kernel,((repliesFramed_iff s).1 _ _ _ hh (by decide +kernel)).mpr ?_⟩
  rintro ⟨_,_,hlong⟩
  exact absurd hlong (by decide +kernel)

end Nav.Client
