import Nav.Daemon.Loading

/-! The lines of a tag file, and the pieces of at most 255 bytes in which `fgets` hands them to
`read_tag_file`. A line that is longer comes in fragments, and where its last fragment is the newline
alone, reading ends. -/
namespace Nav.Daemon
open Nav.C

/-- The lines of a file, each with its newline. The last one may have none. -/
def fileLines : List Byte → List (List Byte)
  | [] => []
  | b::file =>
    if b = newline then [newline]::fileLines file
    else
      match fileLines file with
      | [] => [[b]]
      | line::lines => (b::line)::lines

/-- The lines in front of the first empty one. -/
def linesBefore (file : List Byte) : List (List Byte) := (fileLines file).takeWhile (· ≠ [newline])

/-- What one `fgets` has read: a whole line or a fragment. -/
structure Piece where
  bytes : List Byte
  whole : Bool
  deriving DecidableEq, Repr

/-- The pieces that the loop of `read_tag_file` works on. A piece is a whole line if it starts where
a line does and ends behind a newline or with the file. -/
def piecesRead : ℕ → Bool → List Byte → List Piece
  | 0, _, _ => []
  | fuel+1, start, file =>
    if file = [] then []
    else
      let piece := (fgets 255 file).1
      let rest := (fgets 255 file).2
      let ends : Bool := piece.getLast? = some newline
      if (cstr piece).bytes = [newline] then []
      else ⟨piece,start && (ends || rest = [])⟩::piecesRead fuel ends rest

def filePieces (start : Bool) (file : List Byte) : List Piece := piecesRead file.length start file

/-- They are the lines that the loop sees. -/
theorem linesRead_eq_pieces (fuel : ℕ) (start : Bool) (file : List Byte) :
    linesRead fuel file = (piecesRead fuel start file).map fun p => cstr p.bytes := by
  induction fuel generalizing start file with
  | zero => rfl
  | succ fuel ih =>
    simp only [linesRead,piecesRead]
    split_ifs
    · rfl
    · rfl
    · rw [ih,List.map_cons]

section Lines
variable {body : List Byte} (rest : List Byte)

lemma fileLines_line (hnl : newline ∉ body) :
    fileLines (body ++ newline::rest) = (body ++ [newline])::fileLines rest := by
  induction body with
  | nil => rfl
  | cons b body ih =>
    have hb : b ≠ newline := fun h => hnl (by simp [h])
    simp only [List.cons_append,fileLines,hb,if_false]
    rw [ih fun h => hnl (by simp [h])]

lemma fileLines_end (hnl : newline ∉ body) (hne : body ≠ []) : fileLines body = [body] := by
  induction body with
  | nil => exact absurd rfl hne
  | cons b body ih =>
    have hb : b ≠ newline := fun h => hnl (by simp [h])
    simp only [fileLines,hb,if_false]
    by_cases hbody : body = []
    · rw [hbody]
      rfl
    · rw [ih (fun h => hnl (by simp [h])) hbody]

lemma linesBefore_line (hnl : newline ∉ body) (hne : body ≠ []) :
    linesBefore (body ++ newline::rest) = (body ++ [newline])::linesBefore rest := by
  rw [linesBefore,fileLines_line rest hnl,List.takeWhile_cons_of_pos (by simpa using hne)]
  rfl

lemma linesBefore_empty : linesBefore (newline::rest) = [] := by
  have h : fileLines (newline::rest) = [newline]::fileLines rest := by simp [fileLines]
  rw [linesBefore,h,List.takeWhile_cons_of_neg (by simp)]

lemma linesBefore_end (hnl : newline ∉ body) (hne : body ≠ []) : linesBefore body = [body] := by
  have h : body ≠ [newline] := by
    rintro rfl
    simp at hnl
  rw [linesBefore,fileLines_end hnl hne,List.takeWhile_cons_of_pos (by simpa using h)]
  rfl

end Lines

section Pieces

/-- Without a newline in reach `fgets` fills the array, or reads to the end of the file. -/
theorem fgets_take (n : ℕ) (file : List Byte) (hnl : newline ∉ file.take n) :
    fgets n file = (file.take n,file.drop n) := by
  induction n generalizing file with
  | zero => rfl
  | succ n ih =>
    cases file with
    | nil => rfl
    | cons b file =>
      have hb : b ≠ newline := fun h => hnl (by simp [h])
      simp only [fgets,hb,if_false,List.take_succ_cons,List.drop_succ_cons]
      rw [ih file fun h => hnl (by simp [h])]

/-- As soon as there is a unit of fuel for every byte, its amount does not matter. -/
theorem piecesRead_fuel {fuel fuel' : ℕ} (start : Bool) {file : List Byte}
    (h : file.length ≤ fuel) (h' : file.length ≤ fuel') :
    piecesRead fuel start file = piecesRead fuel' start file := by
  induction fuel generalizing fuel' start file with
  | zero =>
    obtain rfl : file = [] := by simpa using h
    cases fuel' <;> simp [piecesRead]
  | succ fuel ih =>
    cases file with
    | nil => cases fuel' <;> simp [piecesRead]
    | cons b file =>
      cases fuel' with
      | zero => simp at h'
      | succ fuel' =>
        have hrest := fgets_rest_length 254 b file
        simp only [List.length_cons] at h h'
        simp only [piecesRead]
        rw [ih _ (by omega) (hrest.trans (by omega : file.length ≤ fuel'))]

/-- One round of the loop. -/
lemma filePieces_step (start : Bool) {file piece rest : List Byte} (hne : file ≠ [])
    (hfg : fgets 255 file = (piece,rest)) (hp : (cstr piece).bytes ≠ [newline]) :
    filePieces start file =
      ⟨piece,start && (decide (piece.getLast? = some newline) || rest = [])⟩::
        filePieces (piece.getLast? = some newline) rest := by
  obtain ⟨b,file,rfl⟩ := List.exists_cons_of_ne_nil hne
  have hlen := fgets_rest_length 254 b file
  rw [hfg] at hlen
  simp only [filePieces,List.length_cons,piecesRead,hfg,List.cons_ne_nil,if_false,if_neg hp]
  rw [piecesRead_fuel _ hlen le_rfl]

lemma ne_newline_of_cstr {body : List Byte} (hnl : newline ∉ body) (hne : body ≠ [])
    (behind : List Byte) : (cstr (body ++ behind)).bytes ≠ [newline] := by
  obtain ⟨b,body,rfl⟩ := List.exists_cons_of_ne_nil hne
  have hb : b ≠ newline := fun h => hnl (by simp [h])
  rw [cstr_bytes,List.cons_append,List.takeWhile_cons]
  split_ifs
  · simp [hb]
  · simp

variable {body : List Byte} (start : Bool) (rest : List Byte)

/-- The newline alone ends the reading, be it an empty line or what is left of a long one. -/
theorem filePieces_newline : filePieces start (newline::rest) = [] := by
  have hfg := fgets_line 255 [] rest (by simp) (by simp)
  simp only [List.nil_append] at hfg
  simp only [filePieces,List.length_cons,piecesRead,hfg]
  rw [if_neg (by simp),if_pos (by decide)]

/-- What is left of a line, if it fits into the array. -/
theorem filePieces_short (hnl : newline ∉ body) (hne : body ≠ []) (hlen : body.length < 255) :
    filePieces start (body ++ newline::rest) =
      ⟨body ++ [newline],start⟩::filePieces true rest := by
  rw [filePieces_step start (by simp) (fgets_line 255 body rest hnl hlen)
    (ne_newline_of_cstr hnl hne [newline])]
  simp

/-- What is left of a line, if it does not fit. -/
theorem filePieces_long (hnl : newline ∉ body) (hlen : 255 ≤ body.length) :
    filePieces start (body ++ newline::rest) =
      ⟨body.take 255,false⟩::filePieces false (body.drop 255 ++ newline::rest) := by
  have htake : (body ++ newline::rest).take 255 = body.take 255 :=
    List.take_append_of_le_length hlen
  have hdrop : (body ++ newline::rest).drop 255 = body.drop 255 ++ newline::rest :=
    List.drop_append_of_le_length hlen
  have hnl' : newline ∉ body.take 255 := fun h => hnl (List.mem_of_mem_take h)
  have hne : body.take 255 ≠ [] :=
    List.ne_nil_of_length_pos (by rw [List.length_take]; omega)
  have hfg := fgets_take 255 (body ++ newline::rest) (by rwa [htake])
  rw [htake,hdrop] at hfg
  have hlast : (body.take 255).getLast? ≠ some newline :=
    fun h => hnl' (List.mem_of_getLast? h)
  rw [filePieces_step start (by simp) hfg (by simpa using ne_newline_of_cstr hnl' hne [])]
  simp [hlast]

/-- The same at the end of the file. -/
theorem filePieces_end_short (hnl : newline ∉ body) (hne : body ≠ []) (hlen : body.length ≤ 255) :
    filePieces start body = [⟨body,start⟩] := by
  have htake : body.take 255 = body := List.take_of_length_le hlen
  have hfg := fgets_take 255 body (by rwa [htake])
  rw [htake,List.drop_eq_nil_of_le hlen] at hfg
  rw [filePieces_step start hne hfg (by simpa using ne_newline_of_cstr hnl hne [])]
  simp [filePieces,piecesRead]

theorem filePieces_end_long (hnl : newline ∉ body) (hlen : 255 < body.length) :
    filePieces start body = ⟨body.take 255,false⟩::filePieces false (body.drop 255) := by
  have hnl' : newline ∉ body.take 255 := fun h => hnl (List.mem_of_mem_take h)
  have hne : body.take 255 ≠ [] :=
    List.ne_nil_of_length_pos (by rw [List.length_take]; omega)
  have hbody : body ≠ [] := by
    rintro rfl
    simp at hlen
  have hlast : (body.take 255).getLast? ≠ some newline :=
    fun h => hnl' (List.mem_of_getLast? h)
  rw [filePieces_step start hbody (fgets_take 255 body hnl')
    (by simpa using ne_newline_of_cstr hnl' hne [])]
  simp [hlast,Nat.not_le.mpr hlen]

/-- The rest of a line comes in fragments. The file is read on behind it unless the last fragment is
the newline alone. -/
theorem filePieces_tail (body : List Byte) (hnl : newline ∉ body) :
    ∃ fs, (∀ p ∈ fs, Piece.whole p = false) ∧ filePieces false (body ++ newline::rest) =
      fs ++ if body.length % 255 = 0 then [] else filePieces true rest := by
  induction hn : body.length using Nat.strong_induction_on generalizing body with
  | _ n ih =>
    subst hn
    by_cases hlen : body.length < 255
    · by_cases hne : body = []
      · subst hne
        exact ⟨[],by simp,by simpa using filePieces_newline false rest⟩
      · have hpos := List.length_pos_of_ne_nil hne
        refine ⟨[⟨body ++ [newline],false⟩],by simp,?_⟩
        rw [filePieces_short false rest hnl hne hlen,Nat.mod_eq_of_lt hlen,if_neg (by omega)]
        rfl
    · have hge : 255 ≤ body.length := Nat.not_lt.mp hlen
      have hdrop : (body.drop 255).length = body.length-255 := List.length_drop
      obtain ⟨fs,hfs,hpieces⟩ := ih (body.drop 255).length (by omega) (body.drop 255)
        (fun h => hnl (List.mem_of_mem_drop h)) rfl
      refine ⟨⟨body.take 255,false⟩::fs,by simpa using hfs,?_⟩
      have hmod : (body.drop 255).length % 255 = body.length % 255 := by
        rw [hdrop]
        omega
      rw [filePieces_long false rest hnl hge,hpieces,hmod]
      rfl

/-- Nothing of the rest of an unfinished line is a whole line. -/
theorem filePieces_end_tail (body : List Byte) (hnl : newline ∉ body) :
    ∀ p ∈ filePieces false body, p.whole = false := by
  induction hn : body.length using Nat.strong_induction_on generalizing body with
  | _ n ih =>
    subst hn
    by_cases hne : body = []
    · subst hne
      simp [filePieces,piecesRead]
    by_cases hlen : body.length ≤ 255
    · rw [filePieces_end_short false hnl hne hlen]
      simp
    · have hlt : 255 < body.length := Nat.not_le.mp hlen
      have hdrop : (body.drop 255).length = body.length-255 := List.length_drop
      rw [filePieces_end_long false hnl hlt]
      intro p hp
      rcases List.mem_cons.mp hp with rfl | hp
      · rfl
      · exact ih (body.drop 255).length (by omega) (body.drop 255)
          (fun h => hnl (List.mem_of_mem_drop h)) rfl p hp

end Pieces

/-- The line leaves its newline to an `fgets` of its own. -/
def LeavesNewline (line : List Byte) : Prop := 255 < line.length ∧ line.length % 255 = 1

instance (line : List Byte) : Decidable (LeavesNewline line) :=
  inferInstanceAs (Decidable (_ ∧ _))

lemma leavesNewline_iff (body : List Byte) :
    LeavesNewline (body ++ [newline]) ↔ 255 ≤ body.length ∧ body.length % 255 = 0 := by
  unfold LeavesNewline
  rw [List.length_append,List.length_singleton]
  omega

/-- The lines that are read whole: those that fit, up to the one that leaves its newline. -/
def linesWhole : List (List Byte) → List (List Byte)
  | [] => []
  | line::lines =>
    if line.length ≤ 255 then line::linesWhole lines
    else if LeavesNewline line then []
    else linesWhole lines

/-- A line is read whole if it fits and no line in front of it leaves its newline. -/
theorem mem_linesWhole {lines : List (List Byte)} {line : List Byte} : line ∈ linesWhole lines ↔
    ∃ pre post, lines = pre ++ line::post ∧ line.length ≤ 255 ∧ ∀ v ∈ pre, ¬ LeavesNewline v := by
  induction lines with
  | nil => simp [linesWhole]
  | cons v lines ih =>
    unfold linesWhole
    constructor
    · intro h
      split_ifs at h with hfit hleaves
      · rcases List.mem_cons.mp h with rfl | h
        · exact ⟨[],lines,rfl,hfit,by simp⟩
        · obtain ⟨pre,post,rfl,hlen,hpre⟩ := ih.mp h
          refine ⟨v::pre,post,rfl,hlen,fun u hu => ?_⟩
          rcases List.mem_cons.mp hu with rfl | hu
          · exact fun hl => absurd hl.1 (Nat.not_lt.mpr hfit)
          · exact hpre u hu
      · simp at h
      · obtain ⟨pre,post,rfl,hlen,hpre⟩ := ih.mp h
        refine ⟨v::pre,post,rfl,hlen,fun u hu => ?_⟩
        rcases List.mem_cons.mp hu with rfl | hu
        · exact hleaves
        · exact hpre u hu
    · rintro ⟨pre,post,heq,hlen,hpre⟩
      cases pre with
      | nil =>
        obtain ⟨rfl,rfl⟩ := List.cons.inj heq
        simp [hlen]
      | cons u pre =>
        obtain ⟨rfl,rfl⟩ := List.cons.inj heq
        have hmem := ih.mpr ⟨pre,post,rfl,hlen,fun x hx => hpre x (by simp [hx])⟩
        split_ifs with hfit hleaves
        · exact List.mem_cons_of_mem _ hmem
        · exact absurd hleaves (hpre v (by simp))
        · exact hmem

/-- How a file goes on: not at all, with an empty line, with a line, or with an unfinished one. -/
theorem file_induction {motive : List Byte → Prop} (file : List Byte) (nil : motive [])
    (empty : ∀ rest, motive (newline::rest))
    (line : ∀ body rest, newline ∉ body → body ≠ [] → motive rest → motive (body ++ newline::rest))
    (last : ∀ body, newline ∉ body → body ≠ [] → motive body) : motive file := by
  induction hn : file.length using Nat.strong_induction_on generalizing file with
  | _ n ih =>
    subst hn
    by_cases hmem : newline ∈ file
    · obtain ⟨body,rest,rfl,hnl⟩ := List.eq_append_cons_of_mem hmem
      by_cases hne : body = []
      · subst hne
        exact empty rest
      · exact line body rest hnl hne (ih rest.length (by simp; omega) rest rfl)
    · by_cases hne : file = []
      · exact hne ▸ nil
      · exact last file hmem hne

/-- The pieces that are whole lines are the lines read whole. -/
theorem filePieces_whole (file : List Byte) :
    ((filePieces true file).filter Piece.whole).map Piece.bytes = linesWhole (linesBefore file) := by
  have hfragments : ∀ fs : List Piece, (∀ p ∈ fs, p.whole = false) → fs.filter Piece.whole = [] :=
    fun fs hfs => List.filter_eq_nil_iff.mpr fun p hp => by simp [hfs p hp]
  induction file using file_induction with
  | nil => rfl
  | empty rest => rw [filePieces_newline,linesBefore_empty]; rfl
  | line body rest hnl hne ih =>
    rw [linesBefore_line rest hnl hne]
    unfold linesWhole
    have hlength : (body ++ [newline]).length = body.length+1 := by simp
    by_cases hlen : body.length < 255
    · rw [filePieces_short true rest hnl hne hlen,if_pos (by omega),← ih]
      rfl
    · have hge : 255 ≤ body.length := Nat.not_lt.mp hlen
      obtain ⟨fs,hfs,htail⟩ := filePieces_tail rest (body.drop 255)
        fun h => hnl (List.mem_of_mem_drop h)
      rw [filePieces_long true rest hnl hge,htail]
      rw [if_neg (show ¬ (body ++ [newline]).length ≤ 255 by omega),List.length_drop]
      simp only [List.filter_cons,Bool.false_eq_true,if_false,List.filter_append,hfragments fs hfs,
        List.nil_append,leavesNewline_iff]
      by_cases hmod : (body.length-255) % 255 = 0
      · rw [if_pos hmod,if_pos ⟨hge,by omega⟩]
        rfl
      · rw [if_neg hmod,if_neg (by omega),ih]
  | last body hnl hne =>
    rw [linesBefore_end hnl hne]
    unfold linesWhole
    by_cases hlen : body.length ≤ 255
    · rw [filePieces_end_short true hnl hne hlen,if_pos hlen]
      rfl
    · rw [filePieces_end_long true hnl (Nat.not_le.mp hlen),if_neg hlen,List.filter_cons]
      rw [hfragments _ (filePieces_end_tail _ fun h => hnl (List.mem_of_mem_drop h))]
      simp [linesWhole]

/-- Where all lines fit, the pieces are the lines. -/
theorem filePieces_fit (file : List Byte) (h : ∀ line ∈ linesBefore file, line.length ≤ 255) :
    filePieces true file = (linesBefore file).map fun line => ⟨line,true⟩ := by
  induction file using file_induction with
  | nil => rfl
  | empty rest => rw [filePieces_newline,linesBefore_empty]; rfl
  | line body rest hnl hne ih =>
    rw [linesBefore_line rest hnl hne] at h ⊢
    have hlen : body.length < 255 := by
      have hfits := h (body ++ [newline]) (by simp)
      rwa [List.length_append,List.length_singleton] at hfits
    rw [filePieces_short true rest hnl hne hlen,ih fun line hl => h line (by simp [hl])]
    rfl
  | last body hnl hne =>
    rw [linesBefore_end hnl hne] at h ⊢
    rw [filePieces_end_short true hnl hne (h body (by simp))]
    rfl

end Nav.Daemon
