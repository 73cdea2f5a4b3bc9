import Mathlib.Data.List.Basic

/-! Tables whose keys are matched against the front of a word. The first match wins; where no key is
a prefix of another there is at most one, and the order of the table does not matter. -/
namespace Nav.Lib

variable {α β : Type*} {table : List (List α × β)} {w : List α} {b : β}

/-- No key is a prefix of another. -/
def PrefixFree (table : List (List α × β)) : Prop :=
  ∀ e ∈ table, ∀ e' ∈ table, e.1 <+: e'.1 → e = e'

/-- Two keys in front of one word are prefixes one of the other. -/
theorem PrefixFree.eq_of_front (hfree : PrefixFree table) {e e' : List α × β} (he : e ∈ table)
    (he' : e' ∈ table) (hw : e.1 <+: w) (hw' : e'.1 <+: w) : e = e' := by
  rcases List.prefix_or_prefix_of_prefix hw hw' with h | h
  · exact hfree e he e' he' h
  · exact (hfree e' he' e he h).symm

lemma PrefixFree.perm {table' : List (List α × β)} (hfree : PrefixFree table)
    (hp : table'.Perm table) : PrefixFree table' :=
  fun e he e' he' => hfree e (hp.subset he) e' (hp.subset he')

section FirstMatch
variable [BEq α] [LawfulBEq α]

/-- What the first key in front of the word stands for. -/
def firstMatch (table : List (List α × β)) (w : List α) : Option β :=
  (table.find? fun e => e.1.isPrefixOf w).map Prod.snd

lemma firstMatch_eq_none : firstMatch table w = none ↔ ∀ e ∈ table, ¬ e.1 <+: w := by
  simp only [firstMatch,Option.map_eq_none_iff,List.find?_eq_none,List.isPrefixOf_iff_prefix]

/-- The first match is a match. -/
theorem firstMatch_mem (h : firstMatch table w = some b) : ∃ k, (k,b) ∈ table ∧ k <+: w := by
  obtain ⟨e,he,rfl⟩ := Option.map_eq_some_iff.mp h
  have hw : e.1.isPrefixOf w = true := by
    simpa using List.find?_some he
  exact ⟨e.1,List.mem_of_find?_eq_some he,List.isPrefixOf_iff_prefix.mp hw⟩

theorem PrefixFree.firstMatch_eq_some (hfree : PrefixFree table) :
    firstMatch table w = some b ↔ ∃ k, (k,b) ∈ table ∧ k <+: w := by
  constructor
  · exact firstMatch_mem
  · rintro ⟨k,hk,hw⟩
    cases hm : firstMatch table w with
    | none => exact absurd hw (firstMatch_eq_none.mp hm _ hk)
    | some c =>
      obtain ⟨k',hk',hw'⟩ := firstMatch_mem hm
      cases hfree.eq_of_front hk hk' hw hw'
      rfl

/-- The order of the table does not matter. -/
theorem PrefixFree.firstMatch_perm {table' : List (List α × β)} (hfree : PrefixFree table)
    (hp : table'.Perm table) (w : List α) : firstMatch table' w = firstMatch table w := by
  apply Option.ext
  intro b
  rw [(hfree.perm hp).firstMatch_eq_some,hfree.firstMatch_eq_some]
  simp only [hp.mem_iff]

end FirstMatch

end Nav.Lib
