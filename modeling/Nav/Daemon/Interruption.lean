import Nav.Daemon.Saving
import Mathlib.Logic.Relation

/-! `write_tag_file` step by step, and what a signal leaves of the tag file. The signal handlers
end the process with `_exit`, so text that stdio still holds is lost. -/
namespace Nav.Daemon
open Nav.C Nav.Lib

/-- Where `write_tag_file` stands: before `fopen`, with these tags still to print, before
`fclose`, or returned. -/
inductive SavePoint
  | start
  | lines (rest : List Tag)
  | last
  | done

/-- A call of `write_tag_file` under way: the bytes in the file and those that stdio holds. -/
structure Save where
  point : SavePoint
  file : Option (List Byte)
  pending : List Byte

/-- One step. Whenever it likes, stdio writes some front part of what it holds. -/
inductive SaveStep (fopen : Bool) (tags : NodeList Tag) : Save → Save → Prop
  | failed (h : fopen = false) (file) : SaveStep fopen tags ⟨.start,file,[]⟩ ⟨.done,file,[]⟩
  | opened (h : fopen = true) (file) :
      SaveStep fopen tags ⟨.start,file,[]⟩ ⟨.lines tags.nodes,some [],[]⟩
  | line (t rest file pending) : SaveStep fopen tags ⟨.lines (t::rest),file,pending⟩
      ⟨.lines rest,file,pending ++ tagLine t⟩
  | last (file pending) : SaveStep fopen tags ⟨.lines [],file,pending⟩
      ⟨.last,file,pending ++ [newline]⟩
  | flushed (point file pending k) : SaveStep fopen tags ⟨point,some file,pending⟩
      ⟨point,some (file ++ pending.take k),pending.drop k⟩
  | closed (file pending) : SaveStep fopen tags ⟨.last,some file,pending⟩
      ⟨.done,some (file ++ pending),[]⟩

/-- Some steps of a call on a file, after which the signal may arrive. -/
def SaveRun (fopen : Bool) (tags : NodeList Tag) (file : Option (List Byte)) : Save → Prop :=
  Relation.ReflTransGen (SaveStep fopen tags) ⟨.start,file,[]⟩

/-- File, held text and text to come make up the whole. -/
def SaveInv (fopen : Bool) (tags : NodeList Tag) (old : Option (List Byte)) (w : Save) : Prop :=
  match w.point with
  | .start => w.file = old ∧ w.pending = []
  | .lines rest => fopen = true ∧ ∃ f, w.file = some f ∧
      f ++ w.pending ++ ((rest.map tagLine).flatten ++ [newline]) = tagFileText tags
  | .last => fopen = true ∧ ∃ f, w.file = some f ∧ f ++ w.pending = tagFileText tags
  | .done => w.file = (writeTagFile fopen tags old).2 ∧ w.pending = []

section Save
variable {fopen : Bool} {tags : NodeList Tag} {old : Option (List Byte)} {w w' : Save}

lemma SaveInv.step (h : SaveInv fopen tags old w) (hs : SaveStep fopen tags w w') :
    SaveInv fopen tags old w' := by
  cases hs with
  | failed hf =>
    obtain ⟨rfl,_⟩ := h
    simp [SaveInv,writeTagFile,hf]
  | opened hf => exact ⟨hf,[],rfl,rfl⟩
  | line t rest file pending =>
    obtain ⟨hf,f,rfl,htext⟩ := h
    exact ⟨hf,f,rfl,by simpa using htext⟩
  | last file pending =>
    obtain ⟨hf,f,rfl,htext⟩ := h
    exact ⟨hf,f,rfl,by simpa using htext⟩
  | flushed point file pending k =>
    cases point with
    | start =>
      obtain ⟨hfile,rfl⟩ : some file = old ∧ pending = [] := h
      exact ⟨by simpa using hfile,by simp⟩
    | lines rest =>
      obtain ⟨hf,f,hfile,htext⟩ := h
      obtain rfl := Option.some.inj hfile
      exact ⟨hf,_,rfl,by simpa using htext⟩
    | last =>
      obtain ⟨hf,f,hfile,htext⟩ := h
      obtain rfl := Option.some.inj hfile
      exact ⟨hf,_,rfl,by simpa using htext⟩
    | done =>
      obtain ⟨hfile,rfl⟩ : some file = (writeTagFile fopen tags old).2 ∧ pending = [] := h
      exact ⟨by simpa using hfile,by simp⟩
  | closed file pending =>
    obtain ⟨hf,f,hfile,htext⟩ := h
    obtain rfl := Option.some.inj hfile
    exact ⟨by simpa [writeTagFile,hf] using htext,rfl⟩

lemma SaveRun.inv (h : SaveRun fopen tags old w) : SaveInv fopen tags old w := by
  induction h with
  | refl => exact ⟨rfl,rfl⟩
  | tail _ hs ih => exact ih.step hs

/-- Printing the tags one after the other. -/
theorem SaveRun.print (ts : List Tag) (pending : List Byte)
    (h : SaveRun fopen tags old ⟨.lines ts,some [],pending⟩) :
    SaveRun fopen tags old ⟨.lines [],some [],pending ++ (ts.map tagLine).flatten⟩ := by
  induction ts generalizing pending with
  | nil => simpa using h
  | cons t ts ih => simpa using ih _ (h.tail (.line t ts _ _))

/-- All of the text can be held back until the close. -/
theorem saveRun_last (tags : NodeList Tag) (old : Option (List Byte)) :
    SaveRun true tags old ⟨.last,some [],tagFileText tags⟩ := by
  have hopen : SaveRun true tags old ⟨.lines tags.nodes,some [],[]⟩ :=
    Relation.ReflTransGen.single (.opened rfl old)
  have hlast := (hopen.print tags.nodes []).tail (.last _ _)
  rwa [List.nil_append] at hlast

/-- The steps taken to the end are `write_tag_file`. -/
theorem saveRun_done (fopen : Bool) (tags : NodeList Tag) (old : Option (List Byte)) :
    SaveRun fopen tags old ⟨.done,(writeTagFile fopen tags old).2,[]⟩ := by
  cases fopen with
  | false => exact Relation.ReflTransGen.single (.failed rfl old)
  | true => exact (saveRun_last tags old).tail (.closed [] (tagFileText tags))

end Save

/-- What a signal during the saving step of an accepted `add` or `delete` leaves behind: the old
file before the open, a front part of the new text up to the close, any of them, and what the
command would have left afterwards. -/
theorem interrupted_save (s s' : State) (c : Call) (o : Outcome) (op : MapOp CStr CStr)
    (hs : Reachable s) (hacc : Accepted s c op) (hh : handle s c = .ok (s',o)) :
    (∀ w, SaveRun c.env.fopen s'.tags s.tagFile w →
      match w.point with
      | .start => w.file = s.tagFile
      | .lines _ | .last => ∃ p, p <+: tagFileText s'.tags ∧ w.file = some p
      | .done => w.file = s'.tagFile) ∧
    (c.env.fopen = true → s'.tagFile = some (tagFileText s'.tags) ∧
      ∀ p, p <+: tagFileText s'.tags →
        ∃ w, SaveRun true s'.tags s.tagFile w ∧ w.point = .last ∧ w.file = some p) ∧
    (c.env.fopen = false → s'.tagFile = s.tagFile) := by
  have hfile : s'.tagFile = (writeTagFile c.env.fopen s'.tags s.tagFile).2 := by
    obtain ⟨he,rfl⟩ := handle_exit hh
    exact he.saved hs.wellFormed hacc
  refine ⟨fun w hw => ?_,fun hf => ⟨?_,?_⟩,fun hf => ?_⟩
  · have hinv := hw.inv
    unfold SaveInv at hinv
    split at hinv
    · exact hinv.1
    · obtain ⟨_,f,hwf,htext⟩ := hinv
      exact ⟨f,⟨_,(List.append_assoc _ _ _).symm.trans htext⟩,hwf⟩
    · obtain ⟨_,f,hwf,htext⟩ := hinv
      exact ⟨f,⟨_,htext⟩,hwf⟩
    · exact hinv.1.trans hfile.symm
  · simp [hfile,writeTagFile,hf]
  · rintro p ⟨rest,htext⟩
    refine ⟨⟨.last,some p,rest⟩,?_,rfl,rfl⟩
    have hrun := (saveRun_last s'.tags s.tagFile).tail (.flushed _ _ _ p.length)
    rwa [← htext,List.take_left,List.drop_left,List.nil_append] at hrun
  · simp [hfile,writeTagFile,hf]

/-- A signal right behind the open leaves an empty file. -/
theorem interrupted_save_fails : ¬ ∀ s, Reachable s → s.tagFile = some (tagFileText s.tags) →
    ∀ c op, Accepted s c op → ∀ s' o, handle s c = .ok (s',o) →
    ∀ w, SaveRun c.env.fopen s'.tags s.tagFile w →
      w.file = some (tagFileText s.tags) ∨ w.file = some (tagFileText s'.tags) := by
  intro h
  have hw := h _ ⟨CStr.ofLit "/c",fun _ => true,fun _ => true,none,
    [⟨openEnv fun _ => true,CStr.ofLit "register",1,none⟩,
     ⟨openEnv fun _ => true,CStr.ofLit "add",1,some (CStr.ofLit "t /a")⟩],_,rfl⟩ (by decide)
    ⟨openEnv fun _ => true,CStr.ofLit "add",1,some (CStr.ofLit "u /a")⟩
    (.put (CStr.ofLit "u") (CStr.ofLit "/a"))
    (.put ⟨by decide,⟨_,rfl⟩,⟨_,rfl,by decide⟩,rfl,Or.inr ⟨rfl,rfl⟩⟩) _ _ rfl _
    (Relation.ReflTransGen.single (.opened rfl _))
  revert hw
  decide

theorem interrupted_save_add : ∃ s os s' o,
    runCalls (startState (CStr.ofLit "/c") (fun _ => true) (fun _ => true) none)
      [⟨openEnv fun _ => true,CStr.ofLit "register",1,none⟩] = .ok (s,os) ∧
    handle s ⟨openEnv fun _ => true,CStr.ofLit "add",1,some (CStr.ofLit "t /a")⟩ = .ok (s',o) ∧
    ∀ p, p <+: lit "t=/a\n\n" → ∃ w, SaveRun true s'.tags none w ∧ w.point = .last ∧
      w.file = some p := by
  refine ⟨_,_,_,_,rfl,rfl,((interrupted_save _ _
    ⟨openEnv fun _ => true,CStr.ofLit "add",1,some (CStr.ofLit "t /a")⟩ _
    (.put (CStr.ofLit "t") (CStr.ofLit "/a")) ⟨CStr.ofLit "/c",fun _ => true,fun _ => true,none,
      [⟨openEnv fun _ => true,CStr.ofLit "register",1,none⟩],_,rfl⟩ ?_ rfl).2.1 rfl).2⟩
  exact .put ⟨by decide,⟨_,rfl⟩,⟨_,rfl,by decide⟩,rfl,Or.inr ⟨rfl,rfl⟩⟩

end Nav.Daemon
