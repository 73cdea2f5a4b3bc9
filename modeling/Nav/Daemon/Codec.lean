import Nav.Daemon.Loading
import Nav.Lib.Keyed

/-! What `read_tag_file` makes of a file that `write_tag_file` has written. -/
namespace Nav.Daemon
open Nav.C Nav.Lib

/-- Without space and newline, as every trimmed token is. -/
def Unbroken (s : CStr) : Prop := ∀ b ∈ s.bytes, isBreak b = false

instance (s : CStr) : Decidable (Unbroken s) := List.decidableBAll _ s.bytes

/-- A tag that survives the tag file: not empty, and without the separator. -/
def Loadable (tag : CStr) : Prop := tag.bytes ≠ [] ∧ equals ∉ tag.bytes

instance (tag : CStr) : Decidable (Loadable tag) := inferInstanceAs (Decidable (_ ∧ _))

lemma trimmed_unbroken (s : CStr) : Unbroken (trimmed s) :=
  fun _ hb => by simpa using List.mem_takeWhile_imp hb

/-- Trimming takes off a newline at the end and nothing else. -/
theorem trimmed_newline (s line : CStr) (hs : Unbroken s) (hl : line.bytes = s.bytes ++ [newline]) :
    trimmed line = s := by
  ext1
  rw [trimmed_bytes,hl,List.takeWhile_append_of_pos (fun b hb => by simp [hs b hb])]
  simp [isBreak]

lemma trimmed_eq_self (s : CStr) (hs : Unbroken s) : trimmed s = s := by
  ext1
  exact List.takeWhile_eq_self_iff.mpr fun b hb => by simp [hs b hb]

/-- The line of a tag as a C string. -/
def tagLineStr (t : Tag) : CStr :=
  ⟨tagLine t,by simpa [tagLine] using ⟨t.tag.nulFree,by decide,t.path.nulFree,by decide⟩⟩

/-- The string behind the separator of that line. -/
def pathLineStr (path : CStr) : CStr :=
  ⟨path.bytes ++ [newline],by simpa using ⟨path.nulFree,by decide⟩⟩

section Line
variable (validPath : CStr → Bool) (malloc : Bool) (tags : NodeList Tag) (t : Tag)

/-- A separator behind a tag takes the line apart there. -/
theorem lineEntry_cut {line tag rest : CStr} (hline : line.bytes = tag.bytes ++ equals::rest.bytes)
    (hload : Loadable tag) (htag : Unbroken tag) (hrest : rest.bytes ≠ []) :
    lineEntry line = some ⟨tag,trimmed rest⟩ := by
  have hne : ∀ b ∈ tag.bytes, isEquals b = false := by
    intro b hb
    have : b ≠ equals := by
      rintro rfl
      exact hload.2 hb
    simpa [isEquals] using this
  have hcut := Strtok.next_cut isEquals (Strtok.start line) [] tag rest equals (by simp) hne hload.1
    rfl hline
  unfold lineEntry
  rw [hcut]
  simp [Strtok.next_noDelim,hrest,trimmed_eq_self tag htag]

/-- The line of a loadable tag is taken apart into that tag and its path. -/
theorem lineEntry_tagLine (hload : Loadable t.tag) (htag : Unbroken t.tag) (hpath : Unbroken t.path) :
    lineEntry (tagLineStr t) = some t := by
  have hbytes : (tagLineStr t).bytes = t.tag.bytes ++ equals::(pathLineStr t.path).bytes := by
    simp [tagLineStr,tagLine,pathLineStr]
  rw [lineEntry_cut hbytes hload htag (by simp [pathLineStr]),trimmed_newline t.path _ hpath rfl]

/-- A token in front of a separator is loadable if the line has no break but its newline: the
token has no separator in it, and starts with a byte of the line that is not the last. -/
theorem trimmed_loadable (line token rest : CStr) (lead body : List Byte) (d : Byte)
    (htok : ∀ b ∈ token.bytes, isEquals b = false) (hne : token.bytes ≠ [])
    (hs : line.bytes = lead ++ (token.bytes ++ d::rest.bytes)) (hrest : rest.bytes ≠ [])
    (hline : line.bytes = body ++ [newline]) (hbody : ∀ b ∈ body, isBreak b = false) :
    Loadable (trimmed token) := by
  constructor
  · intro hempty
    obtain ⟨b,bs,hb⟩ := List.exists_cons_of_ne_nil hne
    have hbreak : isBreak b = true := by
      rw [trimmed_bytes,hb,List.takeWhile_cons] at hempty
      by_contra hc
      simp [hc] at hempty
    have hinit := List.dropLast_append_getLast hrest
    have hbody' : body = lead ++ b::bs ++ d::rest.bytes.dropLast := by
      refine List.append_inj_left' (hline.symm.trans (hs.trans ?_ :
        _ = (lead ++ b::bs ++ d::rest.bytes.dropLast) ++ [rest.bytes.getLast hrest])) rfl
      rw [hb]
      conv_lhs => rw [← hinit]
      simp
    have hfalse := hbody b (by simp [hbody'])
    rw [hbreak] at hfalse
    contradiction
  · intro hmem
    have hfalse := htok equals (List.takeWhile_subset _ hmem)
    simp [isEquals] at hfalse

/-- Whatever a line without spaces inside is taken for, the tags of the list stay loadable. -/
theorem readLine_loadable (line : CStr) (body : List Byte) (hline : line.bytes = body ++ [newline])
    (hbody : ∀ b ∈ body, isBreak b = false) (htags : ∀ u ∈ tags.nodes, Loadable u.tag) :
    ∀ u ∈ (readLine validPath malloc line tags).nodes, Loadable u.tag := by
  unfold readLine
  rcases Strtok.next_cases isEquals (Strtok.start line) with
    hb | ⟨lead,token,_,htok,hne,⟨hs,hn⟩ | ⟨d,rest,_,hs,hn⟩⟩
  · rw [Strtok.next_blank isEquals _ hb]
    exact htags
  · -- no separator behind the token, so no path
    rw [hn]
    simp only [Strtok.next_noDelim,CStr.empty_bytes,if_true]
    exact htags
  · rw [hn]
    by_cases hrest : rest.bytes = []
    · simp only [Strtok.next_noDelim,hrest,if_true]
      exact htags
    have hload := trimmed_loadable line token rest lead body d htok hne hs hrest hline hbody
    simp only [Strtok.next_noDelim,if_neg hrest]
    cases hget : listGetNode compareTagTag tags (trimmed token) with
    | some u => exact forall_mem_modifyFirst _ _ _ htags fun old ho _ => htags old ho
    | none =>
      simp only
      split_ifs
      · exact htags
      · exact htags
      · exact forall_listAppendNode _ htags hload

end Line

/-- An entry as the daemon stores it, short enough for one line buffer. -/
structure Storable (validPath : CStr → Bool) (t : Tag) : Prop where
  tag : Unbroken t.tag
  path : Unbroken t.path
  valid : validPath t.path = true
  short : t.tag.length+t.path.length ≤ 253

section File
variable (validPath : CStr → Bool)

lemma tagLine_body (t : Tag) : tagLine t = (t.tag.bytes ++ equals::t.path.bytes) ++ [newline] := by
  simp [tagLine]

lemma Storable.body_unbroken {validPath : CStr → Bool} {t : Tag} (h : Storable validPath t) :
    ∀ b ∈ t.tag.bytes ++ equals::t.path.bytes, isBreak b = false := by
  intro b hb
  rcases List.mem_append.mp hb with hb | hb
  · exact h.tag b hb
  · rcases List.mem_cons.mp hb with rfl | hb
    · rfl
    · exact h.path b hb

/-- The reader goes through a written file line by line. -/
theorem readLoop_tagFileText (i : ℕ) (ts : List Tag) (tags : NodeList Tag)
    (hts : ∀ t ∈ ts, Storable validPath t) :
    readLoop validPath (fun _ => true) ((ts.map tagLine).flatten ++ [newline]).length i
      ((ts.map tagLine).flatten ++ [newline]) tags =
      ts.foldl (fun l t => readLine validPath true (tagLineStr t) l) tags := by
  induction ts generalizing i tags with
  | nil => exact readLoop_end validPath _ i [] tags
  | cons t ts ih =>
    have ht := hts t (by simp)
    have hnl : newline ∉ t.tag.bytes ++ equals::t.path.bytes := fun hm => by
      have := ht.body_unbroken newline hm
      simp [isBreak] at this
    have hlen : (t.tag.bytes ++ equals::t.path.bytes).length < 255 := by
      have := ht.short
      simp only [CStr.length] at this
      simp
      omega
    have hline := readLoop_line validPath (fun _ => true) i (tagLineStr t)
      (t.tag.bytes ++ equals::t.path.bytes) ((ts.map tagLine).flatten ++ [newline]) tags
      (tagLine_body t) hnl hlen (by simp)
    rw [List.map_cons,List.flatten_cons,List.append_assoc,List.foldl_cons]
    exact hline.trans (ih (i+1) _ fun u hu => hts u (by simp [hu]))

lemma foldl_readLine_loadable (ts : List Tag) (tags : NodeList Tag)
    (hts : ∀ t ∈ ts, Storable validPath t) (htags : ∀ u ∈ tags.nodes, Loadable u.tag) :
    ∀ u ∈ (ts.foldl (fun l t => readLine validPath true (tagLineStr t) l) tags).nodes,
      Loadable u.tag := by
  induction ts generalizing tags with
  | nil => exact htags
  | cons t ts ih =>
    exact ih _ (fun u hu => hts u (by simp [hu])) (readLine_loadable validPath true tags _ _
      (tagLine_body t) (hts t (by simp)).body_unbroken htags)

lemma foldl_readLine_eq (ts : List Tag) (tags : NodeList Tag)
    (hts : ∀ t ∈ ts, Storable validPath t) (hload : ∀ t ∈ ts, Loadable t.tag)
    (hn : ((tags.nodes ++ ts).map Tag.tag).Nodup) :
    ts.foldl (fun l t => readLine validPath true (tagLineStr t) l) tags =
      ⟨tags.nodes ++ ts,tags.nItems+ts.length⟩ := by
  induction ts generalizing tags with
  | nil => simp
  | cons t ts ih =>
    have ht := hts t (by simp)
    have hnew : listGetNode compareTagTag tags t.tag = none := by
      rw [listGetNode_eq]
      simp only [compareTagTag_eq_zero]
      rw [find?_key_none]
      rw [List.map_append,List.nodup_append] at hn
      exact fun hm => hn.2.2 _ hm t.tag (by simp) rfl
    have hline : readLine validPath true (tagLineStr t) tags = listAppendNode tags t := by
      have hentry := lineEntry_tagLine t (hload t (by simp)) ht.tag ht.path
      simp [readLine_eq,hentry,loadEntry,hnew,ht.valid]
    rw [List.foldl_cons,hline]
    rw [ih _ (fun u hu => hts u (by simp [hu])) (fun u hu => hload u (by simp [hu])) (by simpa using hn)]
    simp only [listAppendNode,List.length_cons,List.append_assoc,List.singleton_append]
    congr 1
    push_cast
    ring

/-- A written file is read back as the list it was written from exactly when every tag in it is
loadable. -/
theorem readTagFile_tagFileText (tags : NodeList Tag) (hts : ∀ t ∈ tags.nodes, Storable validPath t)
    (hn : (tags.nodes.map Tag.tag).Nodup) (hc : tags.Counted) :
    (readTagFile validPath (fun _ => true) (some (tagFileText tags)) NodeList.empty).2 = tags ↔
      ∀ t ∈ tags.nodes, Loadable t.tag := by
  simp only [readTagFile,tagFileText]
  rw [readLoop_tagFileText validPath 0 tags.nodes NodeList.empty hts]
  constructor
  · intro h
    have hl := foldl_readLine_loadable validPath tags.nodes NodeList.empty hts (by simp [NodeList.empty])
    rwa [h] at hl
  · intro hload
    rw [foldl_readLine_eq validPath tags.nodes NodeList.empty hts hload (by simpa [NodeList.empty] using hn)]
    simp only [NodeList.Counted] at hc
    simp [NodeList.empty,← hc]

end File
end Nav.Daemon
