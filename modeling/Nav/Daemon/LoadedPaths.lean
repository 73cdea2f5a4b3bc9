import Nav.Daemon.FileLines
import Nav.Lib.Writes

/-! Whether the paths that `read_tag_file` loads are those that `valid_path` accepts. The update of a
tag that is already there does not ask it. -/
namespace Nav.Daemon
open Nav.C Nav.Lib

/-- What a tag list binds. -/
def tagTable (tags : NodeList Tag) : List (CStr × CStr) := tags.nodes.map fun t => (t.tag,t.path)

/-- An entry as a write to that table. -/
def Entry.write (e : Entry) : Write CStr CStr := ⟨e.entry.tag,e.entry.path,e.accepted⟩

/-- What the lines of the file say, up to the first empty one. -/
def lineEntries (file : List Byte) : List Tag :=
  (linesBefore file).filterMap fun line => lineEntry (cstr line)

/-- What the pieces of at most 255 bytes that are read for lines are taken apart into. -/
def pieceEntries (file : List Byte) : List Tag := (linesRead file.length file).filterMap lineEntry

/-- After loading, every path is one that `valid_path` accepts, and the tags are bound as the last
lines of the file with such a path say. -/
structure PathsVerified (validPath : CStr → Bool) (malloc : ℕ → Bool) (file : List Byte) : Prop where
  valid : ∀ t ∈ (readTagFile validPath malloc (some file) NodeList.empty).2.nodes,
    validPath t.path = true
  bound : ∀ t, t ∈ (readTagFile validPath malloc (some file) NodeList.empty).2.nodes ↔
    LastAt Tag.tag ((lineEntries file).filter fun u => validPath u.path) t

/-- In a file without overlong lines the pieces are the lines. -/
theorem lineEntries_fit (file : List Byte) (h : ∀ line ∈ linesBefore file, line.length ≤ 255) :
    pieceEntries file = lineEntries file := by
  have hlines : linesRead file.length file = (linesBefore file).map cstr := by
    rw [linesRead_eq_pieces _ true,← filePieces,filePieces_fit file h,List.map_map]
    rfl
  rw [pieceEntries,hlines,List.filterMap_map]
  rfl

section Table
variable (validPath : CStr → Bool) (malloc : ℕ → Bool)

/-- An entry is loaded as it would be written to a table. -/
theorem loadEntry_table (tags : NodeList Tag) (e : Entry) :
    tagTable (loadEntry tags e) = put (tagTable tags) e.write := by
  have hkeys : e.write.key ∈ (tagTable tags).map Prod.fst ↔
      listGetNode compareTagTag tags e.entry.tag ≠ none := by
    rw [listGetNode_eq]
    simp only [compareTagTag_eq_zero,ne_eq,find?_key_none,not_not,tagTable,List.map_map,
      Function.comp_def]
    rfl
  unfold loadEntry put
  cases hget : listGetNode compareTagTag tags e.entry.tag with
  | some t =>
    rw [if_pos (hkeys.mpr (by simp [hget]))]
    exact map_modifyFirst _ _ tags.nodes (fun t => (t.tag,t.path)) _ (fun p => (p.1,e.write.value))
      (fun a => decide_eq_decide.mpr (compareTagTag_eq_zero a e.entry.tag).symm) fun _ => rfl
  | none =>
    rw [if_neg fun h => hkeys.mp h hget]
    cases ha : e.accepted with
    | true => simp [tagTable,Entry.write,ha]
    | false => simp [Entry.write,ha]

theorem readTagFile_table (file : List Byte) :
    tagTable (readTagFile validPath malloc (some file) NodeList.empty).2 =
      ((fileEntries validPath malloc file).map Entry.write).foldl put [] := by
  have hfold : ∀ (es : List Entry) (tags : NodeList Tag),
      tagTable (es.foldl loadEntry tags) = (es.map Entry.write).foldl put (tagTable tags) := by
    intro es
    induction es with
    | nil => exact fun _ => rfl
    | cons e es ih =>
      intro tags
      rw [List.foldl_cons,ih,loadEntry_table,List.map_cons,List.foldl_cons]
  rw [readTagFile,readLoop_eq]
  exact hfold _ _

lemma mem_tagTable {tags : NodeList Tag} {t : Tag} :
    (t.tag,t.path) ∈ tagTable tags ↔ t ∈ tags.nodes := by
  unfold tagTable
  constructor
  · intro h
    obtain ⟨u,hu,heq⟩ := List.mem_map.mp h
    obtain ⟨h1,h2⟩ := Prod.mk.inj heq
    exact Tag.ext h1 h2 ▸ hu
  · exact fun h => List.mem_map_of_mem h

lemma entriesFrom_entry (i : ℕ) (lines : List CStr) :
    (entriesFrom validPath malloc i lines).map Entry.entry = lines.filterMap lineEntry := by
  induction lines generalizing i with
  | nil => rfl
  | cons line lines ih =>
    have h := ih (i+1)
    simp only [entriesFrom,List.zipIdx_cons,List.filterMap_cons] at h ⊢
    cases lineEntry line with
    | none => exact h
    | some t => simpa using h

/-- Only entries with a path that exists are accepted. -/
lemma accepted_valid {file : List Byte} {e : Entry} (he : e ∈ fileEntries validPath malloc file)
    (ha : e.accepted = true) : validPath e.entry.path = true := by
  obtain ⟨x,_,hx⟩ := List.mem_filterMap.mp he
  obtain ⟨t,_,rfl⟩ := Option.map_eq_some_iff.mp hx
  simp only [Bool.and_eq_true] at ha
  exact ha.1

end Table

section Verified
variable (validPath : CStr → Bool) (malloc : ℕ → Bool) (file : List Byte)

lemma fileEntries_entry :
    (fileEntries validPath malloc file).map Entry.entry = pieceEntries file :=
  entriesFrom_entry validPath malloc 0 _

/-- What is loaded: the last entry of a tag, if one of its entries is accepted. -/
theorem mem_loaded {t : Tag} :
    t ∈ (readTagFile validPath malloc (some file) NodeList.empty).2.nodes ↔
      (∃ y ∈ fileEntries validPath malloc file, y.entry.tag = t.tag ∧ y.accepted = true) ∧
        LastAt Tag.tag (pieceEntries file) t := by
  rw [← mem_tagTable,readTagFile_table,mem_foldl_put]
  apply and_congr
  · simp [Entry.write]
  · rw [← fileEntries_entry validPath malloc,
      lastAt_map (fun e => e.entry.tag) Entry.entry fun _ => rfl]
    constructor
    · rintro ⟨w,hw,hk,hv⟩
      obtain ⟨e,he,rfl⟩ := (lastAt_map (fun e => e.entry.tag) Entry.write fun _ => rfl).mp hw
      exact ⟨e,he,Tag.ext hk hv⟩
    · rintro ⟨e,he,rfl⟩
      exact ⟨e.write,(lastAt_map (fun e => e.entry.tag) Entry.write fun _ => rfl).mpr ⟨e,he,rfl⟩,rfl,rfl⟩

/-- The path of a tag according to the entries is that of the last one. -/
theorem loadedPath_eq_some {es : List Entry} {tag path : CStr} : loadedPath es tag = some path ↔
    (∃ y ∈ es, y.entry.tag = tag ∧ y.accepted = true) ∧
      LastAt Tag.tag (es.map Entry.entry) ⟨tag,path⟩ := by
  rw [loadedPath,Option.ite_none_right_eq_some,Option.map_eq_some_iff,
    lastAt_map (fun e => e.entry.tag) Entry.entry fun _ => rfl]
  refine and_congr_right fun _ => exists_congr fun e => ?_
  rw [getLast?_filter_key,and_assoc]
  exact and_congr_right fun _ => ⟨fun h => Tag.ext h.1 h.2,fun h => by simp [h]⟩

/-- The list has for every tag the path that the entries say. -/
theorem mem_loaded_path {t : Tag} :
    t ∈ (readTagFile validPath malloc (some file) NodeList.empty).2.nodes ↔
      loadedPath (fileEntries validPath malloc file) t.tag = some t.path := by
  rw [mem_loaded,loadedPath_eq_some,fileEntries_entry]

/-- A piece with the tag has an existing path, and memory. -/
def SomeAccepted (tag : CStr) : Prop :=
  ∃ y ∈ fileEntries validPath malloc file, y.entry.tag = tag ∧ y.accepted = true

/-- The last line of its tag with an existing path. -/
def LastValid (t : Tag) : Prop := LastAt Tag.tag ((lineEntries file).filter fun u => validPath u.path) t

/-- A tag with an existing path on a line, or on a piece with memory, has some piece with both, and
its last piece says what its last line with an existing path says. -/
def LastPiecesValid : Prop :=
  ∀ tag, (∃ u ∈ lineEntries file, u.tag = tag ∧ validPath u.path = true) ∨
      SomeAccepted validPath malloc file tag →
    SomeAccepted validPath malloc file tag ∧
      ∃ t, t.tag = tag ∧ LastAt Tag.tag (pieceEntries file) t ∧ LastValid validPath file t

variable {validPath malloc file}

lemma LastValid.valid {t : Tag} (h : LastValid validPath file t) :
    t ∈ lineEntries file ∧ validPath t.path = true := List.mem_filter.mp h.mem

lemma exists_lastValid {u : Tag} (hu : u ∈ lineEntries file) (hv : validPath u.path = true) :
    ∃ t, LastValid validPath file t ∧ t.tag = u.tag :=
  exists_lastAt Tag.tag ⟨u,List.mem_filter.mpr ⟨hu,hv⟩,rfl⟩

lemma SomeAccepted.entry {tag : CStr} (h : SomeAccepted validPath malloc file tag) :
    ∃ u ∈ pieceEntries file, u.tag = tag ∧ validPath u.path = true := by
  obtain ⟨y,hy,hyt,ha⟩ := h
  refine ⟨y.entry,?_,hyt,accepted_valid validPath malloc hy ha⟩
  rw [← fileEntries_entry validPath malloc]
  exact List.mem_map_of_mem hy

theorem pathsVerified_iff_pieces :
    PathsVerified validPath malloc file ↔ LastPiecesValid validPath malloc file := by
  have hload := fun t => mem_loaded validPath malloc file (t:=t)
  constructor
  · rintro h tag (⟨u,hu,rfl,hv⟩ | haccepted)
    · obtain ⟨t,ht,htag⟩ := exists_lastValid hu hv
      obtain ⟨haccepted,hlast⟩ := (hload t).mp ((h.bound t).mpr ht)
      exact ⟨htag ▸ haccepted,t,htag,hlast,ht⟩
    · obtain ⟨u,hu,hut,_⟩ := haccepted.entry
      obtain ⟨t,hlast,htag⟩ := exists_lastAt Tag.tag ⟨u,hu,hut⟩
      have hmem := (hload t).mpr ⟨by rw [htag]; exact haccepted,hlast⟩
      exact ⟨haccepted,t,htag,hlast,(h.bound t).mp hmem⟩
  · intro h
    have hbound : ∀ t, t ∈ (readTagFile validPath malloc (some file) NodeList.empty).2.nodes ↔
        LastValid validPath file t := by
      intro t
      constructor
      · intro ht
        obtain ⟨haccepted,hlast⟩ := (hload t).mp ht
        obtain ⟨_,u,hut,hu,hvalid⟩ := h t.tag (Or.inr haccepted)
        obtain rfl := hu.unique hlast hut
        exact hvalid
      · intro ht
        obtain ⟨hmem,hv⟩ := ht.valid
        obtain ⟨haccepted,u,hut,hu,hvalid⟩ := h t.tag (Or.inl ⟨t,hmem,rfl,hv⟩)
        obtain rfl := hvalid.unique ht hut
        exact (hload u).mpr ⟨haccepted,hu⟩
    exact ⟨fun t ht => ((hbound t).mp ht).valid.2,hbound⟩

/-- Where every line fits into the array, it is the last lines that count. -/
theorem lastPiecesValid_fit (hfit : ∀ line ∈ linesBefore file, line.length ≤ 255) :
    LastPiecesValid validPath malloc file ↔ ∀ t, LastAt Tag.tag (lineEntries file) t →
      (∃ u ∈ lineEntries file, u.tag = t.tag ∧ validPath u.path = true) →
      validPath t.path = true ∧ SomeAccepted validPath malloc file t.tag := by
  unfold LastPiecesValid
  rw [lineEntries_fit file hfit]
  constructor
  · intro h t ht hvalid
    obtain ⟨haccepted,u,hut,hu,hlast⟩ := h t.tag (Or.inl hvalid)
    obtain rfl := hu.unique ht hut
    exact ⟨hlast.valid.2,haccepted⟩
  · intro h tag htag
    obtain ⟨u,hu,hut,hv⟩ : ∃ u ∈ lineEntries file, u.tag = tag ∧ validPath u.path = true := by
      refine htag.elim id fun haccepted => ?_
      rw [← lineEntries_fit file hfit]
      exact haccepted.entry
    obtain ⟨t,ht,rfl⟩ := exists_lastAt Tag.tag ⟨u,hu,hut⟩
    obtain ⟨hvt,haccepted⟩ := h t ht ⟨u,hu,hut,hv⟩
    exact ⟨haccepted,t,rfl,ht,ht.filter hvt⟩

/-- The loaded paths are verified exactly if the last piece of every tag in question says what its last
line with an existing path says. Where all lines fit into the array, this means that every tag with an
existing path on a line has one on its last line, and memory for one of its lines. -/
theorem pathsVerified_iff (validPath : CStr → Bool) (malloc : ℕ → Bool) (file : List Byte) :
    (PathsVerified validPath malloc file ↔ LastPiecesValid validPath malloc file) ∧
    ((∀ line ∈ linesBefore file, line.length ≤ 255) →
      (PathsVerified validPath malloc file ↔ ∀ t, LastAt Tag.tag (lineEntries file) t →
        (∃ u ∈ lineEntries file, u.tag = t.tag ∧ validPath u.path = true) →
        validPath t.path = true ∧ SomeAccepted validPath malloc file t.tag)) :=
  ⟨pathsVerified_iff_pieces,fun hfit => pathsVerified_iff_pieces.trans (lastPiecesValid_fit hfit)⟩

/-- A later line of a tag puts in a path that does not exist. -/
theorem pathsVerified_fails :
    (readTagFile (· = CStr.ofLit "/x") (fun _ => true) (some (lit "a=/x\na=/gone\n")) NodeList.empty).2 =
      ⟨[⟨CStr.ofLit "a",CStr.ofLit "/gone"⟩],1⟩ ∧
    ¬ PathsVerified (· = CStr.ofLit "/x") (fun _ => true) (lit "a=/x\na=/gone\n") := by
  have hload : (readTagFile (· = CStr.ofLit "/x") (fun _ => true) (some (lit "a=/x\na=/gone\n"))
      NodeList.empty).2 = ⟨[⟨CStr.ofLit "a",CStr.ofLit "/gone"⟩],1⟩ := by decide
  refine ⟨hload,fun h => ?_⟩
  have hv := h.valid ⟨CStr.ofLit "a",CStr.ofLit "/gone"⟩ (by rw [hload]; simp)
  revert hv
  decide

/-- Two lines of one tag, the last one with a path that exists, and a line of another. -/
theorem pathsVerified_two : PathsVerified (· ≠ CStr.ofLit "/gone") (fun _ => true)
    (lit "a=/gone\nb=/y\na=/x\n") := by
  refine ((pathsVerified_iff _ _ _).2 (by decide +kernel)).mpr fun t ht _ => ?_
  have hentries : lineEntries (lit "a=/gone\nb=/y\na=/x\n") =
      [⟨CStr.ofLit "a",CStr.ofLit "/gone"⟩,⟨CStr.ofLit "b",CStr.ofLit "/y"⟩,
        ⟨CStr.ofLit "a",CStr.ofLit "/x"⟩] := by decide +kernel
  rw [hentries] at ht
  rcases lastAt_snoc.mp (show LastAt Tag.tag ([⟨CStr.ofLit "a",CStr.ofLit "/gone"⟩,
    ⟨CStr.ofLit "b",CStr.ofLit "/y"⟩] ++ [⟨CStr.ofLit "a",CStr.ofLit "/x"⟩]) t from ht) with
    rfl | ⟨hne,ht⟩
  · exact ⟨by decide,⟨⟨CStr.ofLit "a",CStr.ofLit "/x"⟩,true⟩,by decide +kernel,rfl,rfl⟩
  rcases lastAt_snoc.mp (show LastAt Tag.tag ([⟨CStr.ofLit "a",CStr.ofLit "/gone"⟩] ++
    [⟨CStr.ofLit "b",CStr.ofLit "/y"⟩]) t from ht) with rfl | ⟨_,ht⟩
  · exact ⟨by decide,⟨⟨CStr.ofLit "b",CStr.ofLit "/y"⟩,true⟩,by decide +kernel,rfl,rfl⟩
  · obtain rfl : t = ⟨CStr.ofLit "a",CStr.ofLit "/gone"⟩ := by simpa using ht.mem
    exact absurd rfl hne

end Verified
end Nav.Daemon
