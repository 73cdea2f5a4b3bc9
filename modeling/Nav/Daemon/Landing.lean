import Nav.Daemon.Reading

/-! The rounds of the receive loop on the memory that the array stands in. A datagram that leaves no
NUL in the array does not stop the tokeniser: the string goes on behind the array, up to the first
NUL there is. -/
namespace Nav.Daemon
open Nav.C

/-- A datagram, and the bytes behind the array when it arrives, as far as they can be read. -/
structure Landing where
  arrival : Arrival
  memory : List Byte

/-- The memory from the start of the array on, once the datagram is in it. -/
def landed (l : Loop) (x : Landing) : List Byte :=
  (l.buf.write x.arrival.datagram).bytes ++ x.memory

/-- The string at the start of the array. -/
def heardOn (l : Loop) (x : Landing) : CStr := cstr (landed l x)

/-- One round of the loop. What the tokeniser writes behind the array is not kept: the next landing
brings its own memory. -/
def loopRoundOn (l : Loop) (x : Landing) : Except Fault (Loop × Round) :=
  if !l.running then .ok (l,idle l.state false [])
  else if (l.buf.recv x.arrival.datagram).2 = 0 then .ok (l,idle l.state true [])
  else
    let buf := (l.buf.recv x.arrival.datagram).1
    let mem := buf.bytes ++ x.memory
    (loopLine x.arrival.env l.state (mem.contains nul) (cstr mem)).map fun r =>
      (⟨r.state,buf.write r.line,r.running⟩,r)

/-- What the tokeniser makes of memory that may lack a NUL. Then it runs off, unless the first word
ends before and makes the loop leave. -/
def readMemory (mem : List Byte) : Except Fault Reading :=
  if mem.contains nul then .ok (reading (cstr mem))
  else
    match (Strtok.start (cstr mem)).next isBlank with
    | (none,_) => .error .overread
    | (some pidStr,k) =>
      if (Strtok.start (cstr mem)).stops isBlank && (strtol pidStr.bytes).2 then
        .ok (.broken k.region)
      else .error .overread

/-- What `dispatch_command` is called with in a round, whether or not the handler then returns. -/
def called (l : Loop) (x : Landing) : Option Dispatch :=
  if l.running = true ∧ x.arrival.datagram ≠ [] then
    match readMemory (landed l x) with
    | .ok (.call d _) => some d
    | _ => none
  else none

/-- The first word of the line is a number that no `long` holds. -/
def OutOfRange (line : CStr) : Prop :=
  ∃ pidStr ws, line.words isBlank = pidStr::ws ∧ (strtol pidStr.bytes).2 = true

/-- The first word ends in memory, and its number is out of range. -/
def Leaves (mem : List Byte) : Prop :=
  OutOfRange (cstr mem) ∧ (nul ∈ mem ∨ (Strtok.start (cstr mem)).stops isBlank = true)

/-- The tokeniser finds no end of the line in memory, and is not stopped before. -/
def RunsOff (mem : List Byte) : Prop := nul ∉ mem ∧ ¬ Leaves mem

lemma outOfRange_iff {line : CStr} : OutOfRange line ↔ ∃ rest, reading line = .broken rest := by
  unfold OutOfRange
  rcases reading_cases line with ⟨hw,_,_,hr⟩ | ⟨pidStr,ws,hw,hv,rest,_,hr⟩ | ⟨pidStr,hw,hv,_,_,hr⟩ |
    ⟨pidStr,cmdStr,args,passed,hw,hv,_,_,hr⟩
  · simp [hw,hr]
  · exact iff_of_true ⟨pidStr,ws,hw,hv⟩ ⟨rest,hr⟩
  · simp [hw,hr,hv]
  · simp [hw,hr,hv]

section Memory
variable {mem : List Byte}

lemma readMemory_nul (h : nul ∈ mem) : readMemory mem = .ok (reading (cstr mem)) := by
  simp [readMemory,h]

/-- Without a NUL nothing is called. -/
theorem readMemory_noNul (h : nul ∉ mem) :
    (Leaves mem ∧ ∃ line, readMemory mem = .ok (.broken line)) ∨
      RunsOff mem ∧ readMemory mem = .error .overread := by
  have hleaves : Leaves mem ↔ OutOfRange (cstr mem) ∧
      (Strtok.start (cstr mem)).stops isBlank = true := by simp [Leaves,h]
  have hwords : (Strtok.start (cstr mem)).save.words isBlank = (cstr mem).words isBlank := rfl
  have hread : readMemory mem = match (Strtok.start (cstr mem)).next isBlank with
      | (none,_) => .error .overread
      | (some pidStr,k) =>
        if (Strtok.start (cstr mem)).stops isBlank && (strtol pidStr.bytes).2 then
          .ok (.broken k.region)
        else .error .overread := by simp [readMemory,h]
  rw [RunsOff,hleaves,hread]
  cases hn : (Strtok.start (cstr mem)).next isBlank with
  | mk token k =>
    cases token with
    | none =>
      have hout : ¬ OutOfRange (cstr mem) := by
        simp [OutOfRange,← hwords,Strtok.next_none isBlank _ hn]
      exact Or.inr ⟨⟨h,fun hl => hout hl.1⟩,rfl⟩
    | some pidStr =>
      have hout : OutOfRange (cstr mem) ↔ (strtol pidStr.bytes).2 = true := by
        simp [OutOfRange,← hwords,Strtok.next_some isBlank _ hn]
      rw [hout]
      cases hs : (Strtok.start (cstr mem)).stops isBlank with
      | false => exact Or.inr ⟨⟨h,by simp⟩,by simp⟩
      | true =>
        cases hv : (strtol pidStr.bytes).2 with
        | false => exact Or.inr ⟨⟨h,by simp⟩,by simp [hv]⟩
        | true => exact Or.inl ⟨⟨rfl,rfl⟩,k.region,by simp [hv]⟩

lemma leaves_iff : Leaves mem ↔ ∃ line, readMemory mem = .ok (.broken line) := by
  by_cases h : nul ∈ mem
  · rw [readMemory_nul h]
    simp [Leaves,h,outOfRange_iff]
  · rcases readMemory_noNul h with ⟨hl,line,hr⟩ | ⟨hoff,hr⟩
    · exact iff_of_true hl ⟨line,hr⟩
    · simp [hr,hoff.2]

lemma runsOff_iff : RunsOff mem ↔ readMemory mem = .error .overread := by
  by_cases h : nul ∈ mem
  · rw [readMemory_nul h]
    simp [RunsOff,h]
  · rcases readMemory_noNul h with ⟨hl,line,hr⟩ | ⟨hoff,hr⟩
    · simp [hr,RunsOff,hl]
    · exact iff_of_true hoff hr

/-- Where it neither leaves the loop nor runs off, the tokeniser comes to the end of the line. -/
lemma nul_mem_of_reads (hl : ¬ Leaves mem) (hoff : ¬ RunsOff mem) : nul ∈ mem := by
  by_contra h
  exact hoff ⟨h,hl⟩

lemma readMemory_call {d : Dispatch} {passed : List Byte} :
    readMemory mem = .ok (.call d passed) ↔ nul ∈ mem ∧ reading (cstr mem) = .call d passed := by
  by_cases h : nul ∈ mem
  · simp [readMemory_nul h,h]
  · rcases readMemory_noNul h with ⟨_,line,hr⟩ | ⟨_,hr⟩
    · simp [hr,h]
    · simp [hr,h]

/-- The body of the loop reads the memory first, and then does what it has read. -/
theorem loopLine_readMemory (env : Env) (s : State) :
    loopLine env s (mem.contains nul) (cstr mem) = (readMemory mem).bind (readRound env s) := by
  by_cases h : nul ∈ mem
  · rw [readMemory_nul h,List.contains_iff_mem.mpr h,loopLine_eq]
    rfl
  · have hno : mem.contains nul = false := by simpa using h
    simp only [loopLine,strtokIn,readMemory,hno,Bool.false_or,Bool.false_eq_true,if_false,
      Strtok.stops_noDelim]
    cases hn : (Strtok.start (cstr mem)).next isBlank with
    | mk token k =>
      cases token with
      | none =>
        cases hs : (Strtok.start (cstr mem)).stops isBlank with
        | false => simp [Except.bind]
        | true =>
          obtain ⟨t,k',ht⟩ := Strtok.next_of_stops isBlank _ hs
          rw [ht] at hn
          cases hn
      | some pidStr =>
        cases hs : (Strtok.start (cstr mem)).stops isBlank with
        | false => simp [Except.bind]
        | true =>
          cases hv : (strtol pidStr.bytes).2 with
          | true => simp [Except.bind,readRound,hv]
          | false =>
            -- whatever the second call finds, the third one runs off
            cases hs₂ : k.stops isBlank with
            | false => simp [Except.bind,hv,hs₂]
            | true =>
              obtain ⟨cmdStr,k₂,h₂⟩ := Strtok.next_of_stops isBlank _ hs₂
              simp [Except.bind,hv,hs₂,h₂]

end Memory

section Rounds
variable {l l' : Loop} {x : Landing} {r : Round} {d : Dispatch}

lemma recv_ne_zero {d : List Byte} (h : d ≠ []) (b : Buffer 100) : (b.recv d).2 ≠ 0 := by
  have := List.length_pos_of_ne_nil h
  simp only [Buffer.recv]
  omega

/-- A loop that has been left, and an empty datagram, are rounds in which nothing happens. -/
theorem loopRoundOn_idle (h : l.running = false ∨ x.arrival.datagram = []) :
    loopRoundOn l x = .ok (l,idle l.state l.running []) := by
  cases hrun : l.running with
  | false => simp [loopRoundOn,hrun]
  | true =>
    have hd : x.arrival.datagram = [] := h.resolve_left (by simp [hrun])
    simp [loopRoundOn,hrun,hd,Buffer.recv]

/-- Any other round does what is read in memory. -/
theorem loopRoundOn_eq (hrun : l.running = true) (hd : x.arrival.datagram ≠ []) :
    loopRoundOn l x = ((readMemory (landed l x)).bind (readRound x.arrival.env l.state)).map fun r =>
      (⟨r.state,(l.buf.write x.arrival.datagram).write r.line,r.running⟩,r) := by
  rw [← loopLine_readMemory]
  simp only [loopRoundOn,hrun,Bool.not_true,Bool.false_eq_true,if_false,recv_ne_zero hd]
  simp only [Buffer.recv,landed]

/-- With a NUL in reach a round does what the string is read as. -/
theorem loopRoundOn_read (hrun : l.running = true) (hd : x.arrival.datagram ≠ [])
    (ht : nul ∈ landed l x) :
    loopRoundOn l x = (readRound x.arrival.env l.state (reading (heardOn l x))).map fun r =>
      (⟨r.state,(l.buf.write x.arrival.datagram).write r.line,r.running⟩,r) := by
  rw [loopRoundOn_eq hrun hd,readMemory_nul ht]
  rfl

/-- Without one a round runs off the memory or leaves the loop. -/
theorem loopRoundOn_noNul (hrun : l.running = true) (hd : x.arrival.datagram ≠ [])
    (ht : nul ∉ landed l x) :
    loopRoundOn l x = .error .overread ∨
    ∃ line, loopRoundOn l x = .ok (⟨l.state,(l.buf.write x.arrival.datagram).write line,false⟩,
      idle l.state false line) := by
  rw [loopRoundOn_eq hrun hd]
  rcases readMemory_noNul ht with ⟨_,line,hr⟩ | ⟨_,hr⟩
  · exact Or.inr ⟨line,by rw [hr]; rfl⟩
  · exact Or.inl (by rw [hr]; rfl)

/-- A call of a round, seen from what is read. -/
lemma called_iff : called l x = some d ↔ l.running = true ∧ x.arrival.datagram ≠ [] ∧
    nul ∈ landed l x ∧ ∃ passed, reading (heardOn l x) = .call d passed := by
  unfold called
  split_ifs with h
  · simp only [h,ne_eq,not_false_eq_true,true_and]
    have hcall : ∀ passed, readMemory (landed l x) = .ok (.call d passed) ↔
        nul ∈ landed l x ∧ reading (cstr (landed l x)) = .call d passed := fun _ => readMemory_call
    rw [← exists_and_left]
    simp only [heardOn,← hcall]
    constructor
    · intro hs
      split at hs
      · rename_i d' passed hr
        cases hs
        exact ⟨passed,hr⟩
      · cases hs
    · rintro ⟨passed,hr⟩
      simp [hr]
  · refine iff_of_false (by simp) fun hc => h ⟨hc.1,hc.2.1⟩

/-- The round of a call is the call and what comes of it. -/
theorem loopRoundOn_called (h : called l x = some d) : ∃ passed, loopRoundOn l x =
    (calledRound x.arrival.env l.state d passed).map fun r =>
      (⟨r.state,(l.buf.write x.arrival.datagram).write r.line,r.running⟩,r) := by
  obtain ⟨hrun,hne,ht,passed,hr⟩ := called_iff.mp h
  exact ⟨passed,by rw [loopRoundOn_read hrun hne ht,hr,readRound]⟩

/-- A round without a call runs off the memory, or changes and sends nothing. -/
theorem loopRoundOn_uncalled (h : called l x = none) (hrun : l.running = true)
    (hd : x.arrival.datagram ≠ []) :
    RunsOff (landed l x) ∧ loopRoundOn l x = .error .overread ∨
    ¬ RunsOff (landed l x) ∧ ∃ l' line, loopRoundOn l x = .ok (l',idle l.state l'.running line) ∧
      l'.state = l.state ∧ (l'.running = true ↔ ¬ Leaves (landed l x)) := by
  rw [loopRoundOn_eq hrun hd,runsOff_iff,leaves_iff]
  cases hm : readMemory (landed l x) with
  | error e =>
    obtain rfl : e = .overread := by
      by_cases hn : nul ∈ landed l x
      · rw [readMemory_nul hn] at hm
        cases hm
      · rcases readMemory_noNul hn with ⟨_,line,hr⟩ | ⟨_,hr⟩
        · rw [hr] at hm
          cases hm
        · rw [hr] at hm
          exact (Except.error.inj hm).symm
    exact Or.inl ⟨rfl,rfl⟩
  | ok read =>
    right
    cases read with
    | call d passed => simp [called,hrun,hd,hm] at h
    | skipped line => exact ⟨by simp,_,line,rfl,rfl,by simp [idle]⟩
    | broken line => exact ⟨by simp,_,line,rfl,rfl,by simp [idle]⟩

/-- A round that returns has handled its call if it has one, and else changes and sends nothing. -/
theorem loopRoundOn_ok (h : loopRoundOn l x = .ok (l',r)) :
    r.dispatched = called l x ∧
    ((called l x = none ∧ r.sent = [] ∧ l'.state = l.state) ∨
      ∃ d passed o, called l x = some d ∧ reading (heardOn l x) = .call d passed ∧
        r.sent = o.sent ∧ l'.running = true ∧
        handle l.state ⟨x.arrival.env,d.cmdStr,d.pid,d.args⟩ = .ok (l'.state,o)) := by
  cases hc : called l x with
  | some d =>
    obtain ⟨_,_,_,passed,hr⟩ := called_iff.mp hc
    obtain ⟨passed',hround⟩ := loopRoundOn_called hc
    rw [hround,calledRound] at h
    cases hdis : dispatchCommand x.arrival.env l.state d.cmdStr d.pid d.args with
    | error e => simp [hdis,Except.map] at h
    | ok o =>
      obtain ⟨rfl,rfl⟩ : _ = l' ∧ _ = r := by simpa [hdis,Except.map] using h
      exact ⟨rfl,Or.inr ⟨d,passed,o,rfl,hr,rfl,rfl,handle_ok.mpr ⟨hdis,rfl⟩⟩⟩
  | none =>
    by_cases hidle : l.running = false ∨ x.arrival.datagram = []
    · rw [loopRoundOn_idle hidle] at h
      obtain ⟨rfl,rfl⟩ : l = l' ∧ _ = r := by simpa using h
      exact ⟨rfl,Or.inl ⟨rfl,rfl,rfl⟩⟩
    · obtain ⟨hrun,hne⟩ : l.running = true ∧ x.arrival.datagram ≠ [] := by simpa using hidle
      rcases loopRoundOn_uncalled hc hrun hne with ⟨_,he⟩ | ⟨_,_,line,hk,hs,_⟩
      · simp [he] at h
      · rw [hk] at h
        obtain ⟨rfl,rfl⟩ : _ = l' ∧ _ = r := by simpa using h
        exact ⟨rfl,Or.inl ⟨rfl,rfl,hs⟩⟩

theorem loopRoundOn_wellFormed (hw : l.state.WellFormed) (h : loopRoundOn l x = .ok (l',r)) :
    l'.state.WellFormed := by
  rcases (loopRoundOn_ok h).2 with ⟨_,_,hs⟩ | ⟨d,_,o,_,_,_,_,hh⟩
  · rw [hs]
    exact hw
  · exact hw.change (handle_change hh)

/-- With a NUL in the array the memory behind it does not matter. -/
theorem loopRoundOn_terminated (ht : (l.buf.write x.arrival.datagram).terminated = true) :
    loopRoundOn l x = loopRound l x.arrival ∧
      heardOn l x = (l.buf.write x.arrival.datagram).str := by
  have hmem : nul ∈ (l.buf.write x.arrival.datagram).bytes := by
    simpa [Buffer.terminated] using ht
  obtain ⟨front,rest,hsplit⟩ := List.append_of_mem hmem
  have hstr : heardOn l x = (l.buf.write x.arrival.datagram).str := by
    rw [heardOn,landed,Buffer.str,hsplit,List.append_assoc,List.cons_append,cstr_append_nul,
      cstr_append_nul]
  refine ⟨?_,hstr⟩
  by_cases hidle : l.running = false ∨ x.arrival.datagram = []
  · rw [loopRoundOn_idle hidle]
    rcases hidle with hrun | hd
    · simp [loopRound,hrun]
    · cases hrun : l.running <;> simp [loopRound,hrun,hd,Buffer.recv]
  · obtain ⟨hrun,hne⟩ : l.running = true ∧ x.arrival.datagram ≠ [] := by simpa using hidle
    have hin : nul ∈ landed l x := List.mem_append_left _ hmem
    rw [loopRoundOn_read hrun hne hin,hstr,← loopLine_eq]
    simp only [loopRound,hrun,Bool.not_true,Bool.false_eq_true,if_false,recv_ne_zero hne]
    simp only [Buffer.recv,ht]

/-- The loop that knows of the array alone is the loop with nothing to read behind it. -/
theorem loopRound_eq_on (l : Loop) (a : Arrival) : loopRound l a = loopRoundOn l ⟨a,[]⟩ := by
  simp only [loopRound,loopRoundOn,List.append_nil]
  rfl

end Rounds
end Nav.Daemon
