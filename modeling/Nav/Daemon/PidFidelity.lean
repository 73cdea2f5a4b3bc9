import Nav.Daemon.Landing

/-! Whether the PID of a command is the number that its datagram starts with. `strtol` is called
without an end pointer, and its `long` is stored in an `int`. -/
namespace Nav.Daemon
open Nav.C

/-- The first word of the text in a datagram. -/
def FirstWord (datagram : List Byte) (s : CStr) : Prop :=
  ((cstr datagram).words isBlank).head? = some s

instance (datagram : List Byte) (s : CStr) : Decidable (FirstWord datagram s) :=
  inferInstanceAs (Decidable (_ = _))

/-- The word is a decimal numeral, and of an `int`. -/
def NamesPid (s : CStr) (n : ℤ) : Prop := numeral s.bytes = some n ∧ IsInt n

instance (s : CStr) (n : ℤ) : Decidable (NamesPid s n) := inferInstanceAs (Decidable (_ ∧ _))

/-- The round comes to an end without a call, the loop goes on, and nothing has changed. -/
def Rejects (l : Loop) (x : Landing) : Prop :=
  ∃ l' r, loopRoundOn l x = .ok (l',r) ∧ l'.running = true ∧ r.dispatched = none ∧ r.sent = [] ∧
    l'.state = l.state

/-- What a datagram with the first word `s` may come to. -/
structure Faithful (l : Loop) (x : Landing) (s : CStr) : Prop where
  dispatched : ∀ d, called l x = some d → NamesPid s d.pid
  rejected : l.running = true → (∀ n, ¬ NamesPid s n) → Rejects l x

/-- Two datagrams, handled anywhere, are taken for what they say, and act on one shell only if
they say the same PID. -/
structure PidFidelity (l₁ l₂ : Loop) (x₁ x₂ : Landing) (s₁ s₂ : CStr) : Prop where
  first : Faithful l₁ x₁ s₁
  second : Faithful l₂ x₂ s₂
  apart : ∀ d₁ d₂, called l₁ x₁ = some d₁ → called l₂ x₂ = some d₂ → d₁.pid = d₂.pid →
    ∃ n, NamesPid s₁ n ∧ NamesPid s₂ n

/-- The word of the line starts with a number that is the one of the datagram's word modulo 2^32. -/
def Unnoticed (s t : CStr) : Prop := startNumber t.bytes % 2^32 = startNumber s.bytes % 2^32

/-- The datagram starts with a PID, and where the line has a second word, and a number that fits
into a `long` in front, old bytes behind the datagram have not changed that PID. Or it does not
start with a PID, and the line ends in memory, with a number in range in front and no second
word. -/
def NamesOwnPid (l : Loop) (x : Landing) (s : CStr) : Prop :=
  l.running = true →
    (∃ n, NamesPid s n) ∧ (nul ∈ landed l x → ¬ OutOfRange (heardOn l x) →
      ∀ t c ws, (heardOn l x).words isBlank = t::c::ws → Unnoticed s t) ∨
    (∀ n, ¬ NamesPid s n) ∧ nul ∈ landed l x ∧ ¬ OutOfRange (heardOn l x) ∧
      ((heardOn l x).words isBlank).length ≤ 1

section Rounds
variable {l : Loop} {x : Landing} {s : CStr} {d : Dispatch}

lemma FirstWord.ne_nil (h : FirstWord x.arrival.datagram s) : x.arrival.datagram ≠ [] := by
  intro hnil
  have hwords : (cstr x.arrival.datagram).words isBlank = [] := words_blank isBlank _ (by simp [hnil])
  simp [FirstWord,hwords] at h

/-- A word is the numeral of one integer at most. -/
theorem NamesPid.unique {m n : ℤ} (hm : NamesPid s m) (hn : NamesPid s n) : m = n :=
  Option.some.inj (hm.1.symm.trans hn.1)

/-- Read off a word of the line, a PID is kept exactly when the difference goes unnoticed. -/
theorem NamesPid.kept_iff {n : ℤ} {t : CStr} (hn : NamesPid s n)
    (hv : (strtol t.bytes).2 = false) : toInt (strtol t.bytes).1 = n ↔ Unnoticed s t := by
  rw [toInt_eq_iff hn.2,strtol_inRange hv,Unnoticed,startNumber_numeral hn.1]

/-- A call comes of lines with two words and a number in range in front. -/
theorem called_words : called l x = some d → l.running = true ∧ nul ∈ landed l x ∧
    ¬ OutOfRange (heardOn l x) ∧ ∃ t ws, (heardOn l x).words isBlank = t::d.cmdStr::ws ∧
      (strtol t.bytes).2 = false ∧ d.pid = toInt (strtol t.bytes).1 := by
  intro hd
  obtain ⟨hrun,_,hn,passed,hr⟩ := called_iff.mp hd
  obtain ⟨⟨t,hw,hv,hpid⟩,_⟩ := reading_call (heardOn l x) hr
  exact ⟨hrun,hn,by simp [outOfRange_iff,hr],t,_,hw,hv,hpid⟩

/-- And of all of them. -/
theorem called_of_words {t c : CStr} {ws : List CStr} (hrun : l.running = true)
    (hne : x.arrival.datagram ≠ []) (hn : nul ∈ landed l x) (hout : ¬ OutOfRange (heardOn l x))
    (hw : (heardOn l x).words isBlank = t::c::ws) :
    (strtol t.bytes).2 = false ∧ ∃ args, called l x = some ⟨c,toInt (strtol t.bytes).1,args⟩ := by
  have hv : (strtol t.bytes).2 = false := by
    by_contra hv
    exact hout ⟨t,_,hw,by simpa using hv⟩
  obtain ⟨args,passed,hr,_⟩ := reading_of_words (heardOn l x) hw hv
  exact ⟨hv,args,called_iff.mpr ⟨hrun,hne,hn,passed,hr⟩⟩

/-- A running loop rejects what is not dispatched, unless it leaves over it or runs off the
memory. -/
theorem rejects_iff (hrun : l.running = true) (hne : x.arrival.datagram ≠ []) :
    Rejects l x ↔ called l x = none ∧ nul ∈ landed l x ∧ ¬ OutOfRange (heardOn l x) := by
  cases hc : called l x with
  | some d =>
    simp only [reduceCtorEq,false_and,iff_false]
    rintro ⟨l',r,hk,_,hnone,_⟩
    have hcalled := (loopRoundOn_ok hk).1
    simp [hnone,hc] at hcalled
  | none =>
    have hends : nul ∈ landed l x ∧ ¬ OutOfRange (heardOn l x) ↔
        ¬ RunsOff (landed l x) ∧ ¬ Leaves (landed l x) := by
      constructor
      · rintro ⟨hn,hout⟩
        exact ⟨fun hoff => hoff.1 hn,fun hl => hout hl.1⟩
      · rintro ⟨hoff,hl⟩
        have hn := nul_mem_of_reads hl hoff
        exact ⟨hn,fun hout => hl ⟨hout,Or.inl hn⟩⟩
    simp only [true_and,hends]
    rcases loopRoundOn_uncalled hc hrun hne with ⟨hoff,he⟩ | ⟨hoff,l',line,hk,hs,hup⟩
    · simp [Rejects,he,hoff]
    · constructor
      · rintro ⟨l'',r,hk',hup',_⟩
        obtain ⟨rfl,_⟩ : l' = l'' ∧ _ = r := by simpa using Except.ok.inj (hk.symm.trans hk')
        exact ⟨hoff,hup.mp hup'⟩
      · rintro ⟨_,hl⟩
        exact ⟨l',_,hk,hup.mpr hl,rfl,rfl,hs⟩

/-- One datagram is taken for what it says exactly when it names its own PID. -/
theorem faithful_iff (hs : FirstWord x.arrival.datagram s) : Faithful l x s ↔ NamesOwnPid l x s := by
  have hne := hs.ne_nil
  constructor
  · intro h hrun
    by_cases hpid : ∃ n, NamesPid s n
    · refine Or.inl ⟨hpid,fun hn hout t c ws hw => ?_⟩
      obtain ⟨hv,args,hc⟩ := called_of_words hrun hne hn hout hw
      exact ((h.dispatched _ hc).kept_iff hv).mp rfl
    · have hno := not_exists.mp hpid
      obtain ⟨hnone,hn,hout⟩ := (rejects_iff hrun hne).mp (h.rejected hrun hno)
      refine Or.inr ⟨hno,hn,hout,?_⟩
      by_contra hlen
      obtain ⟨t,c,ws,hw⟩ : ∃ t c ws, (heardOn l x).words isBlank = t::c::ws := by
        match hw : (heardOn l x).words isBlank with
        | [] | [_] => simp [hw] at hlen
        | t::c::ws => exact ⟨t,c,ws,rfl⟩
      obtain ⟨_,args,hc⟩ := called_of_words hrun hne hn hout hw
      simp [hnone] at hc
  · intro h
    refine ⟨fun d hd => ?_,fun hrun hno => ?_⟩
    · obtain ⟨hrun,hn,hout,t,ws,hw,hv,hpid⟩ := called_words hd
      rcases h hrun with ⟨⟨n,hname⟩,hsame⟩ | ⟨_,_,_,hlen⟩
      · rw [hpid,(hname.kept_iff hv).mpr (hsame hn hout t _ ws hw)]
        exact hname
      · simp [hw] at hlen
    · obtain ⟨_,hn,hout,hlen⟩ := (h hrun).resolve_left fun hp => not_exists.mpr hno hp.1
      refine (rejects_iff hrun hne).mpr ⟨?_,hn,hout⟩
      cases hc : called l x with
      | none => rfl
      | some d =>
        obtain ⟨_,_,_,t,ws,hw,_⟩ := called_words hc
        simp [hw] at hlen

/-- A PID that is read as it was sent is the datagram's own. -/
theorem NamesPid.own {n : ℤ} (hn : NamesPid s n)
    (hw : ((heardOn l x).words isBlank).head? = some s) : NamesOwnPid l x s := by
  refine fun _ => Or.inl ⟨⟨n,hn⟩,fun _ _ t c ws' hw' => ?_⟩
  rw [hw'] at hw
  cases hw
  rfl

end Rounds

/-- Two datagrams are taken for what they say, and kept apart, exactly when each names its own
PID. -/
theorem pidFidelity_iff {l₁ l₂ : Loop} {x₁ x₂ : Landing} {s₁ s₂ : CStr}
    (hs₁ : FirstWord x₁.arrival.datagram s₁) (hs₂ : FirstWord x₂.arrival.datagram s₂) :
    PidFidelity l₁ l₂ x₁ x₂ s₁ s₂ ↔ NamesOwnPid l₁ x₁ s₁ ∧ NamesOwnPid l₂ x₂ s₂ := by
  rw [← faithful_iff hs₁,← faithful_iff hs₂]
  constructor
  · intro h
    exact ⟨h.first,h.second⟩
  · rintro ⟨h₁,h₂⟩
    refine ⟨h₁,h₂,fun d₁ d₂ hd₁ hd₂ hpid => ⟨d₁.pid,h₁.dispatched d₁ hd₁,?_⟩⟩
    rw [hpid]
    exact h₂.dispatched d₂ hd₂

/-- A number one too large for 32 bits unregisters the shell with PID 1. -/
theorem pidFidelity_fails :
    ((runLoop (startLoop (startState (CStr.ofLit "/c") (fun _ => true) (fun _ => true) none))
        [⟨openEnv fun _ => true,lit "1 register "⟩,
          ⟨openEnv fun _ => true,lit "4294967297 unregister "⟩]).toOption.map fun p =>
      (p.2.map fun r => r.state.shells.nodes.map Shell.pid)) = some [[1],[]] ∧
    ¬ ∀ l₁ l₂ x₁ x₂ s₁ s₂, FirstWord (Landing.arrival x₁).datagram s₁ →
      FirstWord (Landing.arrival x₂).datagram s₂ → PidFidelity l₁ l₂ x₁ x₂ s₁ s₂ := by
  refine ⟨by decide +kernel,fun h => ?_⟩
  let l := startLoop (startState (CStr.ofLit "/c") (fun _ => true) (fun _ => true) none)
  let x : Landing := ⟨⟨openEnv fun _ => true,lit "4294967297 unregister "⟩,[]⟩
  have hf := (h l l x x (CStr.ofLit "4294967297") (CStr.ofLit "4294967297") (by decide +kernel)
    (by decide +kernel)).first
  have hcalled : called l x = some ⟨CStr.ofLit "unregister",1,none⟩ := by decide +kernel
  exact absurd (hf.dispatched _ hcalled) (by decide +kernel)

/-- Two shells register, one with a sign and a zero in front of its PID. -/
theorem pidFidelity_register :
    PidFidelity (startLoop (startState (CStr.ofLit "/c") (fun _ => true) (fun _ => true) none))
      (startLoop (startState (CStr.ofLit "/c") (fun _ => true) (fun _ => true) none))
      ⟨⟨openEnv fun _ => true,lit "1 register "⟩,[]⟩ ⟨⟨openEnv fun _ => true,lit "+07 register "⟩,[]⟩
      (CStr.ofLit "1") (CStr.ofLit "+07") :=
  (pidFidelity_iff (by decide +kernel) (by decide +kernel)).mpr
    ⟨NamesPid.own (n:=1) (by decide +kernel) (by decide +kernel),
      NamesPid.own (n:=7) (by decide +kernel) (by decide +kernel)⟩

end Nav.Daemon
