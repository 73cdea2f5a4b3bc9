import Nav.C.Stdio
import Nav.C.Strtok
import Nav.Daemon.State

/-! The tag file: `write_tag_file`, which overwrites it, and `read_tag_file`, which loads it
when the daemon starts. -/
namespace Nav.Daemon
open Nav.C

/-- `fprintf(f, "%s=%s\n", tag, path)`. -/
def tagLine (t : Tag) : List Byte := t.tag.bytes ++ equals::t.path.bytes ++ [newline]

/-- Everything `write_tag_file` prints: a line for every tag and an empty line. -/
def tagFileText (tags : NodeList Tag) : List Byte := (tags.nodes.map tagLine).flatten ++ [newline]

/-- `write_tag_file`: its return code and the file it leaves behind. When `fopen` fails the file
stays as it is. -/
def writeTagFile (fopen : Bool) (tags : NodeList Tag) (file : Option (List Byte)) :
    ℕ × Option (List Byte) :=
  if fopen then (0,some (tagFileText tags)) else (1,file)

/-- The delimiter set `"="`. -/
def isEquals (b : Byte) : Bool := b == equals

/-- One round of the loop of `read_tag_file` on a line that is not the empty line. A tag that is
already there gets its new path before the path is checked. -/
def readLine (validPath : CStr → Bool) (malloc : Bool) (line : CStr) (tags : NodeList Tag) :
    NodeList Tag :=
  match (Strtok.start line).next isEquals with
  | (none,_) => tags
  | (some token,k) =>
    match k.next noDelim with
    | (none,_) => tags
    | (some rest,_) =>
      let tag := trimmed token
      let path := trimmed rest
      match listGetNode compareTagTag tags tag with
      | some _ => updateNode compareTagTag tags tag fun t => {t with path}
      | none =>
        if !validPath path then tags
        else if !malloc then tags
        else listAppendNode tags ⟨tag,path⟩

/-- The loop of `read_tag_file`. `malloc` answers the allocations of each round. Every `fgets`
takes at least one byte, so the length of the file is enough fuel. -/
def readLoop (validPath : CStr → Bool) (malloc : ℕ → Bool) :
    ℕ → ℕ → List Byte → NodeList Tag → NodeList Tag
  | 0, _, _, tags => tags
  | fuel+1, i, file, tags =>
    if file = [] then tags
    else
      let line := cstr (fgets 255 file).1
      if line.bytes = [newline] then tags
      else readLoop validPath malloc fuel (i+1) (fgets 255 file).2
        (readLine validPath (malloc i) line tags)

/-- `read_tag_file`: its return code and the list it leaves behind. -/
def readTagFile (validPath : CStr → Bool) (malloc : ℕ → Bool) (file : Option (List Byte))
    (tags : NodeList Tag) : ℕ × NodeList Tag :=
  match file with
  | none => (1,tags)
  | some bytes => (0,readLoop validPath malloc bytes.length 0 bytes tags)

/-- What one line can do to the list. -/
theorem readLine_cases (validPath : CStr → Bool) (malloc : Bool) (line : CStr)
    (tags : NodeList Tag) :
    readLine validPath malloc line tags = tags ∨
    (∃ tag path, listGetNode compareTagTag tags tag ≠ none ∧
      readLine validPath malloc line tags =
        updateNode compareTagTag tags tag fun t => {t with path}) ∨
    ∃ tag path, listGetNode compareTagTag tags tag = none ∧ validPath path = true ∧
      readLine validPath malloc line tags = listAppendNode tags ⟨tag,path⟩ := by
  unfold readLine
  split
  · exact Or.inl rfl
  split
  · exact Or.inl rfl
  rename_i token k _ _ rest _ _
  simp only
  cases hget : listGetNode compareTagTag tags (trimmed token) with
  | some t => exact Or.inr (Or.inl ⟨trimmed token,trimmed rest,by simp [hget],rfl⟩)
  | none =>
    simp only
    split_ifs with hv hm
    · exact Or.inl rfl
    · exact Or.inl rfl
    · exact Or.inr (Or.inr ⟨trimmed token,trimmed rest,hget,by simpa using hv,rfl⟩)

section Loop
variable (validPath : CStr → Bool) (malloc : ℕ → Bool)

/-- More fuel than the file has bytes changes nothing. -/
theorem readLoop_fuel (fuel extra i : ℕ) (file : List Byte) (tags : NodeList Tag)
    (h : file.length ≤ fuel) : readLoop validPath malloc (fuel+extra) i file tags =
      readLoop validPath malloc fuel i file tags := by
  induction fuel generalizing i file tags with
  | zero =>
    obtain rfl : file = [] := by simpa using h
    cases extra <;> simp [readLoop]
  | succ fuel ih =>
    rw [show fuel+1+extra = fuel+extra+1 by omega]
    simp only [readLoop]
    split_ifs with hf hl
    · rfl
    · rfl
    · apply ih
      cases file with
      | nil => exact absurd rfl hf
      | cons b file => exact (fgets_rest_length 254 b file).trans (by simpa using h)

/-- One round of the loop on a line that `fgets` reads whole. -/
theorem readLoop_line (i : ℕ) (line : CStr) (body rest : List Byte) (tags : NodeList Tag)
    (hline : line.bytes = body ++ [newline]) (hnl : newline ∉ body) (hlen : body.length < 255)
    (hne : body ≠ []) :
    readLoop validPath malloc (line.bytes ++ rest).length i (line.bytes ++ rest) tags =
      readLoop validPath malloc rest.length (i+1) rest
        (readLine validPath (malloc i) line tags) := by
  have hfile : line.bytes ++ rest = body ++ newline::rest := by simp [hline]
  have hfg : fgets 255 (line.bytes ++ rest) = (line.bytes,rest) := by
    rw [hfile,fgets_line 255 body rest hnl hlen,hline]
  rw [show (line.bytes ++ rest).length = rest.length+body.length+1 by
    simp [hline]; omega]
  simp only [readLoop,hfg,cstr_self]
  rw [if_neg (by simp [hline]),if_neg (by simp [hline,hne])]
  exact readLoop_fuel validPath malloc _ _ _ _ _ le_rfl

/-- The empty line ends the loop. -/
theorem readLoop_end (i : ℕ) (rest : List Byte) (tags : NodeList Tag) :
    readLoop validPath malloc (newline::rest).length i (newline::rest) tags = tags := by
  have hfg := fgets_line 255 [] rest (by simp) (by simp)
  simp only [List.nil_append] at hfg
  simp only [List.length_cons,readLoop,hfg]
  rw [if_neg (by simp),if_pos (by decide)]

end Loop
end Nav.Daemon
