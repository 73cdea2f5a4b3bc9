import Nav.Daemon.Loop

/-! What the loop reads off the string in its buffer. The string decides alone whether a round
skips it, leaves the loop over it, or calls `dispatch_command`. -/
namespace Nav.Daemon
open Nav.C

/-- What a terminated string comes to, with the bytes that tokenising has gone past. -/
inductive Reading
  | skipped (line : List Byte)
  | broken (line : List Byte)
  | call (d : Dispatch) (passed : List Byte)

/-- The three calls of `strtok_r` in the loop, with `strtol` behind the first. -/
def reading (line : CStr) : Reading :=
  match (Strtok.start line).next isBlank with
  | (none,k) => .skipped k.region
  | (some pidStr,k₁) =>
    let value := strtol pidStr.bytes
    if value.2 then .broken k₁.region
    else
      match k₁.next isBlank with
      | (none,k) => .skipped k.region
      | (some cmdStr,k₂) => .call ⟨cmdStr,toInt value.1,(k₂.next noDelim).1⟩ k₂.passed

/-- The round that a call makes. -/
def calledRound (env : Env) (s : State) (d : Dispatch) (passed : List Byte) : Except Fault Round :=
  (dispatchCommand env s d.cmdStr d.pid d.args).map fun o =>
    ⟨o.state,true,passed ++ o.args,some d,o.sent,o.overrun⟩

/-- What the loop does with what it has read. -/
def readRound (env : Env) (s : State) : Reading → Except Fault Round
  | .skipped line => .ok (idle s true line)
  | .broken line => .ok (idle s false line)
  | .call d passed => calledRound env s d passed

/-- The line holds a PID word and a command word, and behind them at most one space. -/
structure Bare (line pidStr cmdStr : CStr) : Prop where
  bytes : ∃ lead mid tail, line.bytes =
      lead ++ (pidStr.bytes ++ space::(mid ++ (cmdStr.bytes ++ tail))) ∧
    (∀ b ∈ lead, isBlank b = true) ∧ (∀ b ∈ mid, isBlank b = true) ∧ (tail = [] ∨ tail = [space])
  pidWord : pidStr.bytes ≠ [] ∧ ∀ b ∈ pidStr.bytes, isBlank b = false
  cmdWord : cmdStr.bytes ≠ [] ∧ ∀ b ∈ cmdStr.bytes, isBlank b = false

section Reading
variable (env : Env) (s : State) (line : CStr)

/-- A terminated line is read, and then skipped, broken off over, or dispatched. -/
theorem loopLine_eq : loopLine env s true line = readRound env s (reading line) := by
  unfold loopLine reading
  simp only [strtokIn,Bool.true_or,if_true]
  cases h₁ : (Strtok.start line).next isBlank with
  | mk token₁ k₁ =>
    cases token₁ with
    | none => rfl
    | some pidStr =>
      simp only
      split_ifs with hv
      · rfl
      · cases h₂ : k₁.next isBlank with
        | mk token₂ k₂ =>
          cases token₂ with
          | none => rfl
          | some cmdStr =>
            simp only [readRound,calledRound]
            cases dispatchCommand env s cmdStr (toInt (strtol pidStr.bytes).1)
              (k₂.next noDelim).1 <;> rfl

/-- The words of a line decide how it is read, and reading keeps its length. -/
theorem reading_cases :
    (line.words isBlank = [] ∧ ∃ r, r.length = line.length ∧ reading line = .skipped r) ∨
    (∃ pidStr ws, line.words isBlank = pidStr::ws ∧ (strtol pidStr.bytes).2 = true ∧
      ∃ r, r.length = line.length ∧ reading line = .broken r) ∨
    (∃ pidStr, line.words isBlank = [pidStr] ∧ (strtol pidStr.bytes).2 = false ∧
      ∃ r, r.length = line.length ∧ reading line = .skipped r) ∨
    ∃ pidStr cmdStr args passed,
      line.words isBlank = pidStr::cmdStr::(args.map (CStr.words isBlank)).getD [] ∧
      (strtol pidStr.bytes).2 = false ∧ 1 ≤ passed.length ∧
      passed.length+(region args).length = line.length ∧
      reading line = .call ⟨cmdStr,toInt (strtol pidStr.bytes).1,args⟩ passed := by
  have hstart : (Strtok.start line).save.words isBlank = line.words isBlank := rfl
  have hlen₁ : ((Strtok.start line).next isBlank).2.region.length = line.length :=
    Strtok.next_region_length isBlank (Strtok.start line)
  unfold reading
  rw [← hstart]
  cases h₁ : (Strtok.start line).next isBlank with
  | mk token₁ k₁ =>
    rw [h₁] at hlen₁
    cases token₁ with
    | none => exact Or.inl ⟨Strtok.next_none isBlank _ h₁,_,hlen₁,rfl⟩
    | some pidStr =>
      rw [Strtok.next_some isBlank _ h₁]
      simp only
      cases hv : (strtol pidStr.bytes).2 with
      | true => exact Or.inr (Or.inl ⟨pidStr,_,rfl,hv,_,hlen₁,by simp⟩)
      | false =>
        have hlen₂ := (Strtok.next_region_length isBlank k₁).trans hlen₁
        cases h₂ : k₁.next isBlank with
        | mk token₂ k₂ =>
          rw [h₂] at hlen₂
          cases token₂ with
          | none =>
            rw [Strtok.next_none isBlank _ h₂]
            exact Or.inr (Or.inr (Or.inl ⟨pidStr,rfl,hv,_,hlen₂,by simp⟩))
          | some cmdStr =>
            rw [Strtok.next_some isBlank _ h₂]
            refine Or.inr (Or.inr (Or.inr
              ⟨pidStr,cmdStr,(k₂.next noDelim).1,k₂.passed,?_,hv,?_,?_,by simp⟩))
            · rw [Strtok.next_noDelim]
              split_ifs with hsave
              · simp [words_blank isBlank k₂.save (by simp [hsave])]
              · simp
            · have hpid := Strtok.next_passed_length isBlank _ h₁
              have hcmd := Strtok.next_passed_length isBlank _ h₂
              have hpos := List.length_pos_of_ne_nil (Strtok.next_token_ne isBlank _ h₁)
              simp only [CStr.length] at hpid hcmd
              omega
            · rw [← hlen₂,Strtok.next_noDelim]
              split_ifs with hsave
              · simp [region,Strtok.region,hsave]
              · simp [region,Strtok.region]

/-- A call comes from a line of two words at least, and the arguments are what is behind them. -/
theorem reading_call {d : Dispatch} {passed : List Byte} (h : reading line = .call d passed) :
    (∃ pidStr, line.words isBlank =
        pidStr::d.cmdStr::(d.args.map (CStr.words isBlank)).getD [] ∧
      (strtol pidStr.bytes).2 = false ∧ d.pid = toInt (strtol pidStr.bytes).1) ∧
    1 ≤ passed.length ∧ passed.length+(region d.args).length = line.length := by
  rcases reading_cases line with ⟨_,_,_,hr⟩ | ⟨_,_,_,_,_,_,hr⟩ | ⟨_,_,_,_,_,hr⟩ |
    ⟨pidStr,_,_,_,hw,hv,hpos,hlen,hr⟩
  · simp [hr] at h
  · simp [hr] at h
  · simp [hr] at h
  · rw [hr] at h
    cases h
    exact ⟨⟨pidStr,hw,hv,rfl⟩,hpos,hlen⟩

/-- Two words are enough for a call, unless `strtol` finds the first out of range. -/
theorem reading_of_words {pidStr cmdStr : CStr} {ws : List CStr}
    (hw : line.words isBlank = pidStr::cmdStr::ws) (hv : (strtol pidStr.bytes).2 = false) :
    ∃ args passed, reading line = .call ⟨cmdStr,toInt (strtol pidStr.bytes).1,args⟩ passed ∧
      (args.map (CStr.words isBlank)).getD [] = ws := by
  rcases reading_cases line with ⟨hw',_⟩ | ⟨_,_,hw',hv',_⟩ | ⟨_,hw',_⟩ |
    ⟨_,_,args,passed,hw',_,_,_,hr⟩
  · simp [hw'] at hw
  · rw [hw'] at hw
    cases hw
    simp [hv] at hv'
  · simp [hw'] at hw
  · rw [hw'] at hw
    cases hw
    exact ⟨args,passed,hr,rfl⟩

/-- A line with nothing behind its command word is a call without arguments. -/
theorem Bare.reading {line pidStr cmdStr : CStr} (h : Bare line pidStr cmdStr)
    (hv : (strtol pidStr.bytes).2 = false) :
    ∃ passed, reading line = .call ⟨cmdStr,toInt (strtol pidStr.bytes).1,none⟩ passed := by
  obtain ⟨⟨lead,mid,tail,hline,hlead,hmid,htail⟩,hp,hc⟩ := h
  let rest : CStr := line.part (mid ++ (cmdStr.bytes ++ tail)) (by
    rw [hline]; intro b; simp; tauto)
  have h₁ := Strtok.next_cut isBlank (Strtok.start line) lead pidStr rest space hlead hp.2 hp.1 rfl
    hline
  have h₂ : ∀ passed, ∃ k, k.save = CStr.empty ∧
      Strtok.next isBlank ⟨passed,rest⟩ = (some cmdStr,k) := by
    intro passed
    cases htail with
    | inl htail =>
      exact ⟨_,rfl,Strtok.next_end isBlank ⟨passed,rest⟩ mid cmdStr hmid hc.2 hc.1
        (by simp [rest,htail])⟩
    | inr htail =>
      exact ⟨_,rfl,Strtok.next_cut isBlank ⟨passed,rest⟩ mid cmdStr CStr.empty space hmid hc.2 hc.1
        rfl (by simp [rest,htail])⟩
  obtain ⟨k₂,hsave,h₂⟩ := h₂ ((Strtok.start line).passed ++ lead ++ pidStr.bytes ++ [nul])
  refine ⟨k₂.passed,?_⟩
  simp only [Daemon.reading,h₁,hv,Bool.false_eq_true,if_false,h₂,Strtok.next_noDelim,hsave,
    CStr.empty_bytes,if_true]

/-- Only such a line is a call without arguments. -/
theorem bare_of_reading {line cmdStr : CStr} {pid : ℤ} {passed : List Byte}
    (h : reading line = .call ⟨cmdStr,pid,none⟩ passed) :
    ∃ pidStr, Bare line pidStr cmdStr ∧ (strtol pidStr.bytes).2 = false ∧
      pid = toInt (strtol pidStr.bytes).1 := by
  unfold reading at h
  rcases Strtok.next_cases isBlank (Strtok.start line) with
    hb | ⟨lead,pidStr,hlead,hp,hpne,⟨hs,hn⟩ | ⟨d,rest,hd,hs,hn⟩⟩
  · simp [Strtok.next_blank isBlank _ hb] at h
  · -- the PID word is the last one
    simp only [hn] at h
    split_ifs at h
    have hblank : Strtok.next isBlank ⟨(Strtok.start line).passed ++ (Strtok.start line).save.bytes,
        CStr.empty⟩ = _ := Strtok.next_blank isBlank _ (by simp)
    simp [hblank] at h
  · obtain rfl : d = space := by simpa [isBlank] using hd
    simp only [hn] at h
    split_ifs at h with hv
    have hv' : (strtol pidStr.bytes).2 = false := by simpa using hv
    rcases Strtok.next_cases isBlank
      ⟨(Strtok.start line).passed ++ lead ++ pidStr.bytes ++ [nul],rest⟩ with
      hb₂ | ⟨mid,cmd,hmid,hc,hcne,⟨hs₂,hn₂⟩ | ⟨d₂,rest₂,hd₂,hs₂,hn₂⟩⟩
    · simp only [Strtok.next_blank isBlank _ hb₂,reduceCtorEq] at h
    · simp only [hn₂,Reading.call.injEq,Dispatch.mk.injEq] at h
      obtain ⟨⟨rfl,hpid,_⟩,_⟩ := h
      have hbytes : line.bytes = lead ++ (pidStr.bytes ++ space::(mid ++ (cmd.bytes ++ []))) := by
        rw [List.append_nil,← hs₂]
        exact hs
      exact ⟨pidStr,⟨⟨lead,mid,[],hbytes,hlead,hmid,Or.inl rfl⟩,⟨hpne,hp⟩,⟨hcne,hc⟩⟩,hv',hpid.symm⟩
    · obtain rfl : d₂ = space := by simpa [isBlank] using hd₂
      simp only [hn₂,Strtok.next_noDelim,Reading.call.injEq,Dispatch.mk.injEq] at h
      obtain ⟨⟨rfl,hpid,harg⟩,_⟩ := h
      have hrest : rest₂.bytes = [] := by
        by_contra hne
        simp [hne] at harg
      have hbytes : line.bytes =
          lead ++ (pidStr.bytes ++ space::(mid ++ (cmd.bytes ++ [space]))) := by
        rw [← hrest,← hs₂]
        exact hs
      exact ⟨pidStr,⟨⟨lead,mid,[space],hbytes,hlead,hmid,Or.inr rfl⟩,⟨hpne,hp⟩,⟨hcne,hc⟩⟩,hv',
        hpid.symm⟩

end Reading
end Nav.Daemon
