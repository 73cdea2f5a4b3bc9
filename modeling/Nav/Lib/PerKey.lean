import Nav.Lib.Run
import Mathlib.Logic.Function.Basic
import Mathlib.Data.List.Destutter

/-! Machines with a separate state for every key. An input changes the state of its own key
only, so one key sees its own inputs alone, however they are interleaved with others. Then
stacks that do not take the same element twice in a row. -/
namespace Nav.Machine
variable {κ ι ο α : Type*} [DecidableEq κ] (key : ι → κ) (step : α → ι → α)

def perKey (m : κ → α) (i : ι) : κ → α := Function.update m (key i) (step (m (key i)) i)

lemma perKey_self (m : κ → α) (i : ι) : perKey key step m i (key i) = step (m (key i)) i :=
  Function.update_self _ _ _

lemma perKey_of_ne (m : κ → α) (i : ι) (k : κ) (h : key i ≠ k) : perKey key step m i k = m k :=
  Function.update_of_ne (Ne.symm h) _ _

/-- The outputs that belong to the inputs of one key. -/
def outputsAt (k : κ) (is : List ι) (os : List ο) : List ο :=
  ((is.zip os).filter (key ·.1 = k)).map Prod.snd

lemma Conforms.perKey {Out : α → ι → ο → Prop} {m : κ → α} {is : List ι} {os : List ο}
    (h : Conforms (perKey key step) (fun m i o => Out (m (key i)) i o) m is os) (k : κ) :
    Conforms step Out (m k) (is.filter (key · = k)) (outputsAt key k is os) := by
  induction is generalizing m os with
  | nil => cases os with
    | nil => trivial
    | cons o os => exact h.elim
  | cons i is ih => cases os with
    | nil => exact h.elim
    | cons o os =>
      obtain ⟨ho,hr⟩ := h
      have hi := ih hr
      by_cases hk : key i = k
      · subst hk
        rw [perKey_self] at hi
        simpa only [outputsAt,List.zip_cons_cons,List.filter_cons,decide_true,if_true,
          List.map_cons] using ⟨ho,hi⟩
      · rw [perKey_of_ne key step m i k hk] at hi
        simpa only [outputsAt,List.zip_cons_cons,List.filter_cons,hk,decide_false,
          Bool.false_eq_true,if_false] using hi

end Nav.Machine

namespace Nav.Lib
variable {α : Type*} [DecidableEq α]

/-- Put `p` on a stack unless it is on top already. -/
def pushTop (st : List α) (p : α) : List α := if st.head? = some p then st else p::st

lemma foldl_pushTop_cons (ps : List α) (a : α) (st : List α) :
    ps.foldl pushTop (a::st) = (ps.destutter' (· ≠ ·) a).reverse ++ st := by
  induction ps generalizing a st with
  | nil => simp
  | cons p ps ih =>
    rw [List.foldl_cons]
    by_cases h : a = p
    · simp [pushTop,h,ih]
    · simp [pushTop,h,ih]

/-- Pushes on the empty stack leave the pushed elements with adjacent repeats collapsed, the
last one on top. -/
theorem foldl_pushTop (ps : List α) :
    ps.foldl pushTop [] = (ps.destutter (· ≠ ·)).reverse := by
  cases ps with
  | nil => rfl
  | cons p ps =>
    rw [List.foldl_cons,List.destutter_cons',show pushTop [] p = [p] by simp [pushTop]]
    simpa using foldl_pushTop_cons ps p []

end Nav.Lib
