import Nav.Daemon.Commands
import Nav.Lib.PrefixTable

/-! Which words `dispatch_command` takes for commands. -/
namespace Nav.Daemon
open Nav.C Nav.Lib

/-- What the loop of `dispatch_command` does: it calls a handler, or logs an unknown command. -/
inductive Lookup
  | calls (cmd : Command)
  | unknown (cmdStr : CStr)
  deriving DecidableEq, Repr

/-- The loop of `dispatch_command` over a table. -/
def dispatchLoop (cmdStr : CStr) : List (List Byte × Command) → List Lookup
  | [] => [.unknown cmdStr]
  | (cmdName,cmd)::rest =>
    if cmdName.isPrefixOf cmdStr.bytes then [.calls cmd] else dispatchLoop cmdStr rest

/-- The word is this name, with a trailing newline at most. -/
def Spells (cmdStr : CStr) (name : List Byte) : Prop :=
  cmdStr.bytes = name ∨ cmdStr.bytes = name ++ [newline]

/-- The word is recognised exactly: a handler is called if and only if the word is its name, one at
most and whatever the order of the table; any other word is logged and has no effect. -/
structure RecognisedExactly (cmdStr : CStr) : Prop where
  calls : ∀ cmd, .calls cmd ∈ dispatchLoop cmdStr cmdTable ↔
    ∃ name, (name,cmd) ∈ cmdTable ∧ Spells cmdStr name
  once : (dispatchLoop cmdStr cmdTable).length = 1
  anyOrder : ∀ table, table.Perm cmdTable →
    dispatchLoop cmdStr table = dispatchLoop cmdStr cmdTable
  known : ∀ e ∈ cmdTable, Spells cmdStr e.1 → ∀ env s pid args,
    dispatchCommand env s cmdStr pid args = cmdFunc e.2 env s pid args
  unknown : (∀ e ∈ cmdTable, ¬ Spells cmdStr e.1) →
    dispatchLoop cmdStr cmdTable = [.unknown cmdStr] ∧ ∀ env s pid args,
      dispatchCommand env s cmdStr pid args = .ok (quiet s (region args))

section Lookup
variable (cmdStr : CStr)

/-- The loop stops at the first match. -/
theorem dispatchLoop_eq (table : List (List Byte × Command)) :
    dispatchLoop cmdStr table = match firstMatch table cmdStr.bytes with
      | some cmd => [.calls cmd]
      | none => [.unknown cmdStr] := by
  induction table with
  | nil => rfl
  | cons e rest ih =>
    obtain ⟨name,cmd⟩ := e
    by_cases h : name.isPrefixOf cmdStr.bytes = true
    · simp [dispatchLoop,firstMatch,h]
    · rw [Bool.not_eq_true] at h
      simpa [dispatchLoop,firstMatch,h] using ih

/-- No command name is a prefix of another. -/
theorem cmdTable_prefixFree : PrefixFree cmdTable := by
  unfold PrefixFree
  decide +kernel

variable {cmdStr}

lemma Spells.front {name : List Byte} (h : Spells cmdStr name) : name <+: cmdStr.bytes := by
  cases h with
  | inl h => exact h ▸ List.prefix_rfl
  | inr h => exact ⟨[newline],h.symm⟩

/-- The handler of the name in front of the word is called. -/
theorem dispatch_of_front {e : List Byte × Command} (he : e ∈ cmdTable)
    (hw : e.1 <+: cmdStr.bytes) : dispatchLoop cmdStr cmdTable = [.calls e.2] ∧
      findCommand cmdStr = some e.2 := by
  have hm : firstMatch cmdTable cmdStr.bytes = some e.2 :=
    cmdTable_prefixFree.firstMatch_eq_some.mpr ⟨e.1,he,hw⟩
  exact ⟨by rw [dispatchLoop_eq,hm],hm⟩

lemma dispatch_of_none (hw : ∀ e ∈ cmdTable, ¬ e.1 <+: cmdStr.bytes) :
    dispatchLoop cmdStr cmdTable = [.unknown cmdStr] ∧ findCommand cmdStr = none := by
  have hm : firstMatch cmdTable cmdStr.bytes = none := firstMatch_eq_none.mpr hw
  exact ⟨by rw [dispatchLoop_eq,hm],hm⟩

/-- A word that begins with a command name calls the handler of this name only. -/
lemma calls_iff (cmd : Command) : .calls cmd ∈ dispatchLoop cmdStr cmdTable ↔
    ∃ name, (name,cmd) ∈ cmdTable ∧ name <+: cmdStr.bytes := by
  rw [← cmdTable_prefixFree.firstMatch_eq_some,dispatchLoop_eq]
  cases firstMatch cmdTable cmdStr.bytes <;> simp [eq_comm]

end Lookup

/-- A word is recognised exactly unless it goes on behind the command name it begins with. -/
theorem recognisedExactly_iff (cmdStr : CStr) : RecognisedExactly cmdStr ↔
    ∀ e ∈ cmdTable, e.1 <+: cmdStr.bytes → Spells cmdStr e.1 := by
  constructor
  · intro h e he hw
    have hcalls : .calls e.2 ∈ dispatchLoop cmdStr cmdTable := by
      simp [(dispatch_of_front he hw).1]
    obtain ⟨name,hname,hspells⟩ := (h.calls e.2).mp hcalls
    have heq : (name,e.2) = e := cmdTable_prefixFree.eq_of_front hname he hspells.front hw
    exact congrArg Prod.fst heq ▸ hspells
  · intro h
    refine ⟨fun cmd => ?_,?_,fun table hp => ?_,fun e he hs env s pid args => ?_,fun hno => ?_⟩
    · rw [calls_iff]
      constructor
      · rintro ⟨name,hname,hw⟩
        exact ⟨name,hname,h _ hname hw⟩
      · rintro ⟨name,hname,hs⟩
        exact ⟨name,hname,hs.front⟩
    · rw [dispatchLoop_eq]
      cases firstMatch cmdTable cmdStr.bytes <;> rfl
    · rw [dispatchLoop_eq,dispatchLoop_eq,cmdTable_prefixFree.firstMatch_perm hp]
    · rw [dispatchCommand,(dispatch_of_front he hs.front).2]
    · obtain ⟨hlogged,hfind⟩ := dispatch_of_none fun e he hw => hno e he (h e he hw)
      refine ⟨hlogged,fun env s pid args => ?_⟩
      rw [dispatchCommand,hfind]

/-- `registerx` registers a shell. -/
theorem recognisedExactly_fails :
    dispatchLoop (CStr.ofLit "registerx") cmdTable = [.calls .register] ∧
    (∀ e ∈ cmdTable, ¬ Spells (CStr.ofLit "registerx") e.1) ∧
    ¬ RecognisedExactly (CStr.ofLit "registerx") := by
  have hcalls : dispatchLoop (CStr.ofLit "registerx") cmdTable = [.calls .register] := by decide
  have hno : ∀ e ∈ cmdTable, ¬ Spells (CStr.ofLit "registerx") e.1 := by
    unfold Spells
    decide +kernel
  refine ⟨hcalls,hno,fun h => ?_⟩
  have hlogged := (h.unknown hno).1
  rw [hcalls] at hlogged
  simp at hlogged

end Nav.Daemon
