import Nav.C.Buffer
import Nav.Daemon.Codec

/-! `read_tag_file` with the array `line` that it reads every line into and that `strtok_r` cuts in
place. What a longer line has left in the array does not matter. -/
namespace Nav.Daemon
open Nav.C

/-- `fgets(line, sizeof(line), f)` while there is something left in the file. -/
def fgetsLine (line : Buffer 256) (file : List Byte) : Buffer 256 × List Byte :=
  (line.write ((fgets 255 file).1 ++ [nul]),(fgets 255 file).2)

/-- The bytes of a line after the calls of `strtok_r` on it. -/
def cutLine (line : CStr) : List Byte :=
  match (Strtok.start line).next isEquals with
  | (none,k) => k.region
  | (some _,k) => (k.next noDelim).2.region

/-- The loop of `read_tag_file`, with `line` from round to round. -/
def readLoopIn (validPath : CStr → Bool) (malloc : ℕ → Bool) :
    ℕ → ℕ → Buffer 256 → List Byte → NodeList Tag → Buffer 256 × NodeList Tag
  | 0, _, line, _, tags => (line,tags)
  | fuel+1, i, line, file, tags =>
    if file = [] then (line,tags)
    else
      let line := (fgetsLine line file).1
      if line.str.bytes = [newline] then (line,tags)
      else readLoopIn validPath malloc fuel (i+1) (line.write (cutLine line.str))
        (fgetsLine line file).2 (readLine validPath (malloc i) line.str tags)

/-- `read_tag_file` from any contents of `line`. The source starts from zeroes. -/
def readTagFileIn (line : Buffer 256) (validPath : CStr → Bool) (malloc : ℕ → Bool)
    (file : Option (List Byte)) (tags : NodeList Tag) : ℕ × NodeList Tag :=
  match file with
  | none => (1,tags)
  | some bytes => (0,(readLoopIn validPath malloc bytes.length 0 line bytes tags).2)

lemma fgets_length (n : ℕ) (file : List Byte) : (fgets n file).1.length ≤ n := by
  induction n generalizing file with
  | zero => simp [fgets]
  | succ n ih =>
    cases file with
    | nil => simp [fgets]
    | cons b file =>
      simp only [fgets]
      split_ifs
      · simp
      · simpa using ih file

/-- The string in the array is what `fgets` has just read. -/
theorem fgetsLine_str (line : Buffer 256) (file : List Byte) :
    (fgetsLine line file).1.str = cstr (fgets 255 file).1 := by
  have hfits : ((fgets 255 file).1 ++ [nul]).length ≤ 256 := by
    rw [List.length_append,List.length_singleton]
    exact Nat.succ_le_succ (fgets_length 255 file)
  rw [Buffer.str,fgetsLine,Buffer.write_fits _ _ hfits,List.append_assoc]
  exact cstr_append_nul _ _

section Loop
variable (validPath : CStr → Bool) (malloc : ℕ → Bool)

/-- Whatever the array holds, the loop builds the same list. -/
theorem readLoopIn_tags (fuel i : ℕ) (line : Buffer 256) (file : List Byte) (tags : NodeList Tag) :
    (readLoopIn validPath malloc fuel i line file tags).2 =
      readLoop validPath malloc fuel i file tags := by
  induction fuel generalizing i line file tags with
  | zero => rfl
  | succ fuel ih =>
    simp only [readLoopIn,readLoop,fgetsLine_str]
    split_ifs
    · rfl
    · rfl
    · exact ih (i+1) _ _ _

theorem readTagFileIn_eq (line : Buffer 256) (file : Option (List Byte)) (tags : NodeList Tag) :
    readTagFileIn line validPath malloc file tags = readTagFile validPath malloc file tags := by
  cases file with
  | none => rfl
  | some bytes => rw [readTagFileIn,readLoopIn_tags,readTagFile]

end Loop

/-- The entries that are written are those that are read back, in their order and counted, whatever
the array held before. -/
theorem tagFile_codec (validPath : CStr → Bool) (tags : NodeList Tag) (line : Buffer 256)
    (file : Option (List Byte)) (hn : (tags.nodes.map Tag.tag).Nodup)
    (hload : ∀ t ∈ tags.nodes, Loadable t.tag) (hts : ∀ t ∈ tags.nodes, Storable validPath t) :
    (writeTagFile true tags file).1 = 0 ∧
      readTagFileIn line validPath (fun _ => true) (writeTagFile true tags file).2 NodeList.empty =
        (0,⟨tags.nodes,tags.nodes.length⟩) := by
  refine ⟨rfl,?_⟩
  -- the counter of the list that is written plays no part
  have hread := (readTagFile_tagFileText validPath ⟨tags.nodes,tags.nodes.length⟩ hts hn rfl).mpr hload
  rw [readTagFileIn_eq]
  exact Prod.ext rfl hread

/-- A path that begins with the separator, and one with the separator inside. -/
theorem tagFile_codec_equals :
    readTagFileIn (Buffer.zero 256) (fun _ => true) (fun _ => true)
      (writeTagFile true ⟨[⟨CStr.ofLit "a",CStr.ofLit "=b"⟩,⟨CStr.ofLit "c",CStr.ofLit "/d=e"⟩],2⟩
        none).2 NodeList.empty =
      (0,⟨[⟨CStr.ofLit "a",CStr.ofLit "=b"⟩,⟨CStr.ofLit "c",CStr.ofLit "/d=e"⟩],2⟩) := by
  have hall : ∀ t ∈ [(⟨CStr.ofLit "a",CStr.ofLit "=b"⟩ : Tag),⟨CStr.ofLit "c",CStr.ofLit "/d=e"⟩],
      Loadable t.tag ∧ Storable (fun _ => true) t := by
    simp only [List.mem_cons,List.not_mem_nil,or_false,forall_eq_or_imp,forall_eq]
    exact ⟨⟨by decide,by decide,by decide,rfl,by decide⟩,by decide,by decide,by decide,rfl,by decide⟩
  exact (tagFile_codec (fun _ => true)
    ⟨[⟨CStr.ofLit "a",CStr.ofLit "=b"⟩,⟨CStr.ofLit "c",CStr.ofLit "/d=e"⟩],2⟩ (Buffer.zero 256) none
    (by decide) (fun t ht => (hall t ht).1) fun t ht => (hall t ht).2).2

end Nav.Daemon
