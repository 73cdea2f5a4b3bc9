import Nav.C.Bytes

/-! `strtok_r` on one string. The tokeniser owns the region it was given: what it has gone
past, with every delimiter it overwrote already turned into NUL, and what its saved pointer
still points at. -/
namespace Nav.C

/-- The saved pointer of `strtok_r` together with the bytes behind it. -/
structure Strtok where
  passed : List Byte
  save : CStr
  deriving DecidableEq

namespace Strtok

def start (s : CStr) : Strtok := ⟨[],s⟩

/-- The bytes of the region as the calls so far have left them. -/
def region (k : Strtok) : List Byte := k.passed ++ k.save.bytes

/-- One call. Leading delimiters are skipped; the delimiter that ends the token, if there is
one before the NUL, is overwritten and the saved pointer moves past it. -/
def next (delim : Byte → Bool) (k : Strtok) : Option CStr × Strtok :=
  let lead := k.save.bytes.takeWhile delim
  let body := k.save.dropWhile delim
  let token := body.takeWhile (!delim ·)
  let after := body.dropWhile (!delim ·)
  if body.bytes = [] then (none,⟨k.passed ++ k.save.bytes,CStr.empty⟩)
  else if after.bytes = [] then (some token,⟨k.passed ++ k.save.bytes,CStr.empty⟩)
  else (some token,⟨k.passed ++ lead ++ token.bytes ++ [nul],after.tail⟩)

/-- The call stops at a delimiter and so never looks at the NUL. -/
def stops (delim : Byte → Bool) (k : Strtok) : Bool :=
  ((k.save.dropWhile delim).dropWhile (!delim ·)).bytes ≠ []

end Strtok

/-- The delimiter set `" "`. -/
def isBlank (b : Byte) : Bool := b == space

/-- The empty delimiter set, with which a call takes all that is left. -/
def noDelim (_ : Byte) : Bool := false

/-- The maximal delimiter-free pieces of a string, in order. -/
def CStr.words (delim : Byte → Bool) (s : CStr) : List CStr :=
  ((s.bytes.splitOnP delim).filter (· ≠ [])).map cstr

section Words
variable (delim : Byte → Bool)

lemma splitOnP_filter_lead (lead bs : List Byte) (h : ∀ b ∈ lead, delim b = true) :
    ((lead ++ bs).splitOnP delim).filter (· ≠ []) = (bs.splitOnP delim).filter (· ≠ []) := by
  induction lead with
  | nil => rfl
  | cons b lead ih =>
    have hb : delim b = true := h b (by simp)
    rw [List.cons_append,List.splitOnP_cons_eq_if_modifyHead]
    simpa [hb] using ih (fun c hc => h c (by simp [hc]))

lemma words_blank (s : CStr) (h : ∀ b ∈ s.bytes, delim b = true) : s.words delim = [] := by
  have hs := splitOnP_filter_lead delim s.bytes [] h
  rw [List.append_nil] at hs
  rw [CStr.words,hs]
  rfl

lemma words_token (s token : CStr) (lead : List Byte) (hlead : ∀ b ∈ lead, delim b = true)
    (htoken : ∀ b ∈ token.bytes, delim b = false) (hne : token.bytes ≠ [])
    (hs : s.bytes = lead ++ token.bytes) : s.words delim = [token] := by
  simp only [CStr.words,hs]
  rw [splitOnP_filter_lead delim lead token.bytes hlead,List.splitOnP_eq_singleton htoken]
  simp [hne]

lemma words_token_cut (s token rest : CStr) (lead : List Byte) (d : Byte)
    (hlead : ∀ b ∈ lead, delim b = true) (htoken : ∀ b ∈ token.bytes, delim b = false)
    (hne : token.bytes ≠ []) (hd : delim d = true)
    (hs : s.bytes = lead ++ (token.bytes ++ d::rest.bytes)) :
    s.words delim = token::rest.words delim := by
  simp only [CStr.words,hs]
  rw [splitOnP_filter_lead delim lead _ hlead,List.splitOnP_append_cons_of_forall_mem htoken d hd]
  simp [hne]

end Words

namespace Strtok
variable (delim : Byte → Bool) (k : Strtok)

/-- A string made of delimiters only has no token, and the saved pointer moves to its NUL. -/
theorem next_blank (h : ∀ b ∈ k.save.bytes, delim b = true) :
    k.next delim = (none,⟨k.passed ++ k.save.bytes,CStr.empty⟩) := by
  have hb : (k.save.dropWhile delim).bytes = [] := List.dropWhile_eq_nil_iff.mpr h
  simp only [next,hb,if_true]

/-- A token that a delimiter ends: the delimiter is overwritten. -/
theorem next_cut (lead : List Byte) (token rest : CStr) (d : Byte)
    (hlead : ∀ b ∈ lead, delim b = true) (htoken : ∀ b ∈ token.bytes, delim b = false)
    (hne : token.bytes ≠ []) (hd : delim d = true)
    (hs : k.save.bytes = lead ++ (token.bytes ++ d::rest.bytes)) :
    k.next delim = (some token,⟨k.passed ++ lead ++ token.bytes ++ [nul],rest⟩) := by
  obtain ⟨b,bs,hb⟩ := List.exists_cons_of_ne_nil hne
  have hfirst : delim b = false := htoken b (by simp [hb])
  have hbody : k.save.bytes.dropWhile delim = token.bytes ++ d::rest.bytes := by
    rw [hs,List.dropWhile_append_of_pos hlead,hb]
    simp [hfirst]
  have hlead' : k.save.bytes.takeWhile delim = lead := by
    rw [hs,List.takeWhile_append_of_pos hlead,hb]
    simp [hfirst]
  have htok : ∀ b ∈ token.bytes, (!delim b) = true := fun b hb => by simp [htoken b hb]
  have ht : (k.save.dropWhile delim).takeWhile (!delim ·) = token := by
    ext1
    rw [CStr.takeWhile_bytes,CStr.dropWhile_bytes,hbody,List.takeWhile_append_of_pos htok]
    simp [hd]
  have ha : ((k.save.dropWhile delim).dropWhile (!delim ·)).bytes = d::rest.bytes := by
    rw [CStr.dropWhile_bytes,CStr.dropWhile_bytes,hbody,List.dropWhile_append_of_pos htok]
    simp [hd]
  have hr : ((k.save.dropWhile delim).dropWhile (!delim ·)).tail = rest := by
    ext1
    rw [CStr.tail_bytes,ha,List.tail_cons]
  simp only [next,ht,hr,hlead',CStr.dropWhile_bytes,hbody] at ha ⊢
  simp [ha,hne]

/-- A token that the NUL ends: the saved pointer moves to the NUL. -/
theorem next_end (lead : List Byte) (token : CStr) (hlead : ∀ b ∈ lead, delim b = true)
    (htoken : ∀ b ∈ token.bytes, delim b = false) (hne : token.bytes ≠ [])
    (hs : k.save.bytes = lead ++ token.bytes) :
    k.next delim = (some token,⟨k.passed ++ k.save.bytes,CStr.empty⟩) := by
  obtain ⟨b,bs,hb⟩ := List.exists_cons_of_ne_nil hne
  have hfirst : delim b = false := htoken b (by simp [hb])
  have hbody : k.save.bytes.dropWhile delim = token.bytes := by
    rw [hs,List.dropWhile_append_of_pos hlead,hb]
    simp [hfirst]
  have htok : ∀ b ∈ token.bytes, (!delim b) = true := fun b hb => by simp [htoken b hb]
  have ht : (k.save.dropWhile delim).takeWhile (!delim ·) = token := by
    ext1
    rw [CStr.takeWhile_bytes,CStr.dropWhile_bytes,hbody]
    exact List.takeWhile_eq_self_iff.mpr htok
  have ha : token.bytes.dropWhile (!delim ·) = [] := List.dropWhile_eq_nil_iff.mpr htok
  simp only [next,ht,CStr.dropWhile_bytes,hbody,ha,if_neg hne,if_true]

/-- How a string splits at its first token, with what `next` makes of it. -/
theorem next_cases :
    (∀ b ∈ k.save.bytes, delim b = true) ∨
    ∃ lead token, (∀ b ∈ lead, delim b = true) ∧ (∀ b ∈ CStr.bytes token, delim b = false) ∧
      token.bytes ≠ [] ∧
      ((k.save.bytes = lead ++ token.bytes ∧
          k.next delim = (some token,⟨k.passed ++ k.save.bytes,CStr.empty⟩)) ∨
        ∃ d rest, delim d = true ∧ k.save.bytes = lead ++ (token.bytes ++ d::CStr.bytes rest) ∧
          k.next delim = (some token,⟨k.passed ++ lead ++ token.bytes ++ [nul],rest⟩)) := by
  by_cases hb : (k.save.dropWhile delim).bytes = []
  · exact Or.inl (List.dropWhile_eq_nil_iff.mp hb)
  right
  have hsplit : k.save.bytes = k.save.bytes.takeWhile delim ++ (k.save.dropWhile delim).bytes :=
    List.takeWhile_append_dropWhile.symm
  have hbody : (k.save.dropWhile delim).bytes =
      ((k.save.dropWhile delim).takeWhile (!delim ·)).bytes ++
        ((k.save.dropWhile delim).dropWhile (!delim ·)).bytes :=
    List.takeWhile_append_dropWhile.symm
  refine ⟨k.save.bytes.takeWhile delim,(k.save.dropWhile delim).takeWhile (!delim ·),?_,?_,?_,?_⟩
  · exact fun b hb => List.mem_takeWhile_imp hb
  · exact fun b hb => by simpa using List.mem_takeWhile_imp hb
  · -- the first byte of the body is no delimiter, so it belongs to the token
    have hhead := List.head_dropWhile_not delim (l:=k.save.bytes) hb
    cases hc : (k.save.dropWhile delim).bytes with
    | nil => exact absurd hc hb
    | cons b bs =>
      simp only [CStr.dropWhile_bytes] at hc
      simp only [hc,List.head_cons] at hhead
      simp [hc,hhead]
  · cases ha : ((k.save.dropWhile delim).dropWhile (!delim ·)).bytes with
    | nil =>
      left
      rw [ha,List.append_nil] at hbody
      exact ⟨by rw [← hbody]; exact hsplit,by simp only [next,if_neg hb,ha,if_true]⟩
    | cons d ds =>
      right
      refine ⟨d,((k.save.dropWhile delim).dropWhile (!delim ·)).tail,?_,?_,?_⟩
      · have hne : ((k.save.dropWhile delim).dropWhile (!delim ·)).bytes ≠ [] := by
          rw [ha]; exact List.cons_ne_nil d ds
        have hhead := List.head_dropWhile_not (!delim ·) (l:=(k.save.dropWhile delim).bytes) hne
        have hd : (((k.save.dropWhile delim).dropWhile (!delim ·)).bytes).head hne = d := by
          simp only [ha,List.head_cons]
        simpa using (show (!delim d) = false from hd ▸ hhead)
      · rw [CStr.tail_bytes,ha,List.tail_cons,← ha,← hbody]
        exact hsplit
      · have hne : ((k.save.dropWhile delim).dropWhile (!delim ·)).bytes ≠ [] := by
          rw [ha]; exact List.cons_ne_nil d ds
        simp only [next,if_neg hb,if_neg hne]

@[simp] theorem words_empty : CStr.empty.words delim = [] :=
  words_blank delim CStr.empty (by simp)

/-- A call that finds no token was made on a string without words. -/
theorem next_none {k' : Strtok} (h : k.next delim = (none,k')) : k.save.words delim = [] := by
  rcases next_cases delim k with hb | ⟨lead,token,_,_,_,⟨_,hn⟩ | ⟨d,rest,_,_,hn⟩⟩
  · exact words_blank delim k.save hb
  · rw [hn] at h; simp at h
  · rw [hn] at h; simp at h

/-- A call that finds a token takes the first word and leaves the others to later calls. -/
theorem next_some {k' : Strtok} {token : CStr} (h : k.next delim = (some token,k')) :
    k.save.words delim = token::k'.save.words delim := by
  rcases next_cases delim k with hb | ⟨lead,t,hl,ht,hne,⟨hs,hn⟩ | ⟨d,rest,hd,hs,hn⟩⟩
  · rw [next_blank delim k hb] at h; simp at h
  · rw [hn] at h
    obtain ⟨rfl,rfl⟩ : t = token ∧ _ = k' := by simpa using h
    simpa using words_token delim k.save t lead hl ht hne hs
  · rw [hn] at h
    obtain ⟨rfl,rfl⟩ : t = token ∧ _ = k' := by simpa using h
    exact words_token_cut delim k.save t rest lead d hl ht hne hd hs

/-- The token of a call is the first word. -/
theorem next_head? : (k.next delim).1 = (k.save.words delim).head? := by
  cases h : k.next delim with
  | mk token k' =>
    cases token with
    | none =>
      rw [next_none delim k h]
      rfl
    | some token =>
      rw [next_some delim k h]
      rfl

lemma next_token_ne {k' : Strtok} {token : CStr} (h : k.next delim = (some token,k')) :
    token.bytes ≠ [] := by
  rcases next_cases delim k with hb | ⟨lead,t,_,_,hne,⟨_,hn⟩ | ⟨d,rest,_,_,hn⟩⟩
  · rw [next_blank delim k hb] at h; simp at h
  · rw [hn] at h
    obtain ⟨rfl,_⟩ : t = token ∧ _ = k' := by simpa using h
    exact hne
  · rw [hn] at h
    obtain ⟨rfl,_⟩ : t = token ∧ _ = k' := by simpa using h
    exact hne

lemma next_passed_length {k' : Strtok} {token : CStr} (h : k.next delim = (some token,k')) :
    k.passed.length+token.length ≤ k'.passed.length := by
  rcases next_cases delim k with hb | ⟨lead,t,_,_,_,⟨hs,hn⟩ | ⟨d,rest,_,_,hn⟩⟩
  · rw [next_blank delim k hb] at h; simp at h
  · rw [hn] at h
    obtain ⟨rfl,rfl⟩ : t = token ∧ _ = k' := by simpa using h
    simp [CStr.length,hs]
  · rw [hn] at h
    obtain ⟨rfl,rfl⟩ : t = token ∧ _ = k' := by simpa using h
    simp only [CStr.length,List.length_append]
    omega

/-- Cutting overwrites bytes in place: the region keeps its length. -/
theorem next_region_length : (k.next delim).2.region.length = k.region.length := by
  rcases next_cases delim k with hb | ⟨lead,t,_,_,_,⟨_,hn⟩ | ⟨d,rest,_,hs,hn⟩⟩
  · simp [next_blank delim k hb,region]
  · simp [hn,region]
  · simp [hn,region,hs]

/-- Tokens and what is left of the string are never longer than the string. -/
theorem next_length {k' : Strtok} {token : CStr} (h : k.next delim = (some token,k')) :
    token.length + k'.save.length ≤ k.save.length := by
  rcases next_cases delim k with hb | ⟨lead,t,_,_,_,⟨hs,hn⟩ | ⟨d,rest,_,hs,hn⟩⟩
  · rw [next_blank delim k hb] at h; simp at h
  · rw [hn] at h
    obtain ⟨rfl,rfl⟩ : t = token ∧ _ = k' := by simpa using h
    simp [CStr.length,hs]
  · rw [hn] at h
    obtain ⟨rfl,rfl⟩ : t = token ∧ _ = k' := by simpa using h
    simp only [CStr.length,hs,List.length_append,List.length_cons]
    omega

/-- With the empty delimiter set a call takes everything that is left. -/
theorem next_noDelim : k.next noDelim =
    if k.save.bytes = [] then (none,⟨k.passed,CStr.empty⟩)
    else (some k.save,⟨k.passed ++ k.save.bytes,CStr.empty⟩) := by
  have hd : k.save.bytes.dropWhile noDelim = k.save.bytes :=
    List.dropWhile_eq_self_iff.mpr fun _ => by simp [noDelim]
  have ht : k.save.bytes.takeWhile (fun b => !noDelim b) = k.save.bytes :=
    List.takeWhile_eq_self_iff.mpr fun _ _ => rfl
  have ha : k.save.bytes.dropWhile (fun b => !noDelim b) = [] :=
    List.dropWhile_eq_nil_iff.mpr fun _ _ => rfl
  by_cases he : k.save.bytes = []
  · simp [next,he]
  · have hs : (k.save.dropWhile noDelim).takeWhile (fun b => !noDelim b) = k.save := by
      ext1
      rw [CStr.takeWhile_bytes,CStr.dropWhile_bytes,hd,ht]
    simp only [next,CStr.dropWhile_bytes,hd,ha,he,if_false,if_true,hs]

/-- A call that stops at a delimiter has found a token. -/
theorem next_of_stops (h : k.stops delim = true) : ∃ token k', k.next delim = (some token,k') := by
  have hafter : ((k.save.dropWhile delim).dropWhile (!delim ·)).bytes ≠ [] := by
    simpa [stops] using h
  have hbody : (k.save.dropWhile delim).bytes ≠ [] := by
    intro hb
    rw [CStr.dropWhile_bytes,hb] at hafter
    exact hafter rfl
  simp only [next,if_neg hbody,if_neg hafter]
  exact ⟨_,_,rfl⟩

lemma stops_noDelim : k.stops noDelim = false := by
  have hall : (k.save.bytes.dropWhile noDelim).dropWhile (fun b => !noDelim b) = [] :=
    List.dropWhile_eq_nil_iff.mpr fun _ _ => rfl
  simp [stops,hall]

/-- Calling until there is no token left, at most `fuel` times. -/
def tokens : ℕ → Strtok → List CStr
  | 0, _ => []
  | fuel+1, k =>
    match k.next delim with
    | (none,_) => []
    | (some token,k') => token::tokens fuel k'

/-- The tokens are the words of the string; every call takes at least one byte of it. -/
theorem tokens_words (fuel : ℕ) (h : k.save.length ≤ fuel) :
    tokens delim fuel k = k.save.words delim := by
  induction fuel generalizing k with
  | zero =>
    have hs : k.save.bytes = [] := List.eq_nil_of_length_eq_zero (Nat.le_zero.mp h)
    exact (words_blank delim k.save (by simp [hs])).symm
  | succ fuel ih =>
    cases hn : k.next delim with
    | mk token k' =>
      cases token with
      | none => simp [tokens,hn,next_none delim k hn]
      | some token =>
        have hlen := next_length delim k hn
        have hpos := List.length_pos_of_ne_nil (next_token_ne delim k hn)
        simp only [CStr.length] at hlen h
        rw [next_some delim k hn,← ih k' (by simp only [CStr.length]; omega)]
        simp [tokens,hn]

end Strtok
end Nav.C
