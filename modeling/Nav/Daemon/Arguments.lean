import Nav.Daemon.Changes

/-! The arguments of `add`, `delete` and `get` as words of the argument string. -/
namespace Nav.Daemon
open Nav.C

section Words
variable (line : CStr)

/-- `cmd_add` accepts exactly two words, each cut at its first newline. -/
theorem addArgs_words : (addArgs line).1 =
    match line.words isBlank with
    | [tag,path] => some (trimmed tag,trimmed path)
    | _ => none := by
  unfold addArgs
  have hstart : (Strtok.start line).save.words isBlank = line.words isBlank := rfl
  rw [← hstart]
  cases h₁ : (Strtok.start line).next isBlank with
  | mk token₁ k₁ =>
    cases token₁ with
    | none => simp [Strtok.next_none isBlank _ h₁]
    | some token₁ =>
      rw [Strtok.next_some isBlank _ h₁]
      simp only
      cases h₂ : k₁.next isBlank with
      | mk token₂ k₂ =>
        cases token₂ with
        | none => simp [Strtok.next_none isBlank _ h₂]
        | some token₂ =>
          rw [Strtok.next_some isBlank _ h₂]
          simp only
          cases h₃ : k₂.next isBlank with
          | mk token₃ k₃ =>
            cases token₃ with
            | none => simp [Strtok.next_none isBlank _ h₃]
            | some token₃ => simp [Strtok.next_some isBlank _ h₃]

lemma addArgs_eq_some {tag path : CStr} : (addArgs line).1 = some (tag,path) ↔
    ∃ w₁ w₂, line.words isBlank = [w₁,w₂] ∧ trimmed w₁ = tag ∧ trimmed w₂ = path := by
  rw [addArgs_words]
  split
  · rename_i w₁ w₂ hw
    simp [hw]
  · rename_i hw
    constructor
    · intro h
      cases h
    · rintro ⟨w₁,w₂,hw',_⟩
      exact absurd hw' (hw w₁ w₂)

/-- `cmd_delete` and `cmd_get` take the first word, cut at its first newline. -/
theorem tagArg_words : (tagArg line).1 = (line.words isBlank).head?.map trimmed := by
  rw [tagArg,Strtok.next_head?]
  rfl

lemma tagArg_eq_some {tag : CStr} : (tagArg line).1 = some tag ↔
    ∃ w, (line.words isBlank).head? = some w ∧ trimmed w = tag := by
  rw [tagArg_words,Option.map_eq_some_iff]

lemma tagArg_eq_none : (tagArg line).1 = none ↔ line.words isBlank = [] := by
  simp [tagArg_words]

lemma tagArg_words_ne {tag : CStr} (h : (tagArg line).1 = some tag) :
    line.words isBlank ≠ [] := by
  intro hw
  simp [(tagArg_eq_none line).mpr hw] at h

/-- Tag and path are cut out of the argument string, so together they are not longer. -/
theorem addArgs_length {tag path : CStr} (h : (addArgs line).1 = some (tag,path)) :
    tag.length+path.length ≤ line.length := by
  unfold addArgs at h
  cases h₁ : (Strtok.start line).next isBlank with
  | mk token₁ k₁ =>
    cases token₁ with
    | none => simp [h₁] at h
    | some token₁ =>
      cases h₂ : k₁.next isBlank with
      | mk token₂ k₂ =>
        cases token₂ with
        | none => simp [h₁,h₂] at h
        | some token₂ =>
          cases h₃ : k₂.next isBlank with
          | mk token₃ k₃ =>
            cases token₃ with
            | some token₃ => simp [h₁,h₂,h₃] at h
            | none =>
              obtain ⟨rfl,rfl⟩ : trimmed token₁ = tag ∧ trimmed token₂ = path := by
                simpa [h₁,h₂,h₃] using h
              have hl₁ := Strtok.next_length isBlank _ h₁
              have hl₂ := Strtok.next_length isBlank _ h₂
              have ht₁ := trimmed_length_le token₁
              have ht₂ := trimmed_length_le token₂
              have hs : (Strtok.start line).save.length = line.length := rfl
              omega

/-- Tokenising keeps the length of the argument string. -/
theorem addArgs_region_length : (addArgs line).2.length = line.length := by
  have hlen₁ : ((Strtok.start line).next isBlank).2.region.length = line.length :=
    Strtok.next_region_length isBlank (Strtok.start line)
  unfold addArgs
  cases h₁ : (Strtok.start line).next isBlank with
  | mk token₁ k₁ =>
    rw [h₁] at hlen₁
    cases token₁ with
    | none => exact hlen₁
    | some token₁ =>
      have hlen₂ := (Strtok.next_region_length isBlank k₁).trans hlen₁
      cases h₂ : k₁.next isBlank with
      | mk token₂ k₂ =>
        rw [h₂] at hlen₂
        cases token₂ with
        | none => simpa [h₂] using hlen₂
        | some token₂ =>
          have hlen₃ := (Strtok.next_region_length isBlank k₂).trans hlen₂
          cases h₃ : k₂.next isBlank with
          | mk token₃ k₃ =>
            rw [h₃] at hlen₃
            cases token₃ with
            | none => simpa [h₂,h₃] using hlen₃
            | some token₃ => simpa [h₂,h₃] using hlen₃

lemma tagArg_region_length : (tagArg line).2.length = line.length :=
  Strtok.next_region_length isBlank (Strtok.start line)

end Words

/-- Whatever a handler does, the argument bytes stay as many as they were. -/
theorem Exit.args_length {c : Call} {s : State} {o : Outcome} (h : Exit c s o) :
    o.args.length = (region c.args).length := by
  cases h with
  | addMalformed _ _ hargs | addInvalid _ _ hargs | rebound _ _ hargs | addNoMemory _ _ hargs
  | added _ _ hargs =>
    rw [hargs]
    exact addArgs_region_length _
  | deleteBlank _ _ hargs | deleteAbsent _ _ hargs | deleted _ _ hargs | getBlank _ _ hargs
  | getAbsent _ _ hargs | got _ _ hargs =>
    rw [hargs]
    exact tagArg_region_length _
  | _ => rfl

end Nav.Daemon
