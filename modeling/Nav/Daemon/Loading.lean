import Nav.Daemon.TagFile

/-! Which paths the tags have once a tag file is loaded, said of the lines of the file. -/
namespace Nav.Daemon
open Nav.C Nav.Lib

/-- The lines that the loop of `read_tag_file` works on: those in front of the empty one. -/
def linesRead : ℕ → List Byte → List CStr
  | 0, _ => []
  | fuel+1, file =>
    if file = [] then []
    else
      let line := cstr (fgets 255 file).1
      if line.bytes = [newline] then [] else line::linesRead fuel (fgets 255 file).2

/-- What a line is taken apart into, `none` if it has no tag or no path. -/
def lineEntry (line : CStr) : Option Tag :=
  match (Strtok.start line).next isEquals with
  | (none,_) => none
  | (some token,k) => (k.next noDelim).1.map fun rest => ⟨trimmed token,trimmed rest⟩

/-- An entry of the file. It is accepted if its path exists and there is memory for it. -/
structure Entry where
  entry : Tag
  accepted : Bool
  deriving DecidableEq

/-- The entries of the lines, the first line being the `i`-th. -/
def entriesFrom (validPath : CStr → Bool) (malloc : ℕ → Bool) (i : ℕ) (lines : List CStr) :
    List Entry :=
  (lines.zipIdx i).filterMap fun x =>
    (lineEntry x.1).map fun t => ⟨t,validPath t.path && malloc x.2⟩

def fileEntries (validPath : CStr → Bool) (malloc : ℕ → Bool) (file : List Byte) : List Entry :=
  entriesFrom validPath malloc 0 (linesRead file.length file)

/-- What an entry does to the list. -/
def loadEntry (tags : NodeList Tag) (e : Entry) : NodeList Tag :=
  match listGetNode compareTagTag tags e.entry.tag with
  | some _ => updateNode compareTagTag tags e.entry.tag fun t => {t with path := e.entry.path}
  | none => if e.accepted then listAppendNode tags e.entry else tags

/-- The path of a tag according to the entries: that of its last one, if any is accepted. -/
def loadedPath (es : List Entry) (tag : CStr) : Option CStr :=
  if ∃ e ∈ es, e.entry.tag = tag ∧ e.accepted = true then
    ((es.filter (·.entry.tag = tag)).getLast?).map (·.entry.path)
  else none

section Lines
variable (validPath : CStr → Bool) (malloc : ℕ → Bool)

lemma readLine_eq (m : Bool) (line : CStr) (tags : NodeList Tag) :
    readLine validPath m line tags =
      (lineEntry line).elim tags fun t => loadEntry tags ⟨t,validPath t.path && m⟩ := by
  unfold readLine lineEntry
  cases (Strtok.start line).next isEquals with
  | mk token k =>
    cases token with
    | none => rfl
    | some token =>
      cases hn : k.next noDelim with
      | mk rest k' =>
        cases rest with
        | none => simp [hn]
        | some rest =>
          simp only [hn,Option.map_some,Option.elim_some,loadEntry]
          cases listGetNode compareTagTag tags (trimmed token) with
          | some t => rfl
          | none => cases validPath (trimmed rest) <;> cases m <;> rfl

/-- The loop of `read_tag_file` is a fold over the entries of the lines. -/
theorem readLoop_eq (fuel i : ℕ) (file : List Byte) (tags : NodeList Tag) :
    readLoop validPath malloc fuel i file tags =
      (entriesFrom validPath malloc i (linesRead fuel file)).foldl loadEntry tags := by
  induction fuel generalizing i file tags with
  | zero => rfl
  | succ fuel ih =>
    simp only [readLoop,linesRead]
    split_ifs with hf hl
    · rfl
    · rfl
    · rw [ih,readLine_eq]
      simp only [entriesFrom,List.zipIdx_cons,List.filterMap_cons]
      cases lineEntry (cstr (fgets 255 file).1) <;> rfl

end Lines

end Nav.Daemon
