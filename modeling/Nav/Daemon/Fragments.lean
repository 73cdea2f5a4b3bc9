import Nav.Daemon.Codec
import Nav.Daemon.LoadedPaths

/-! Whether the lines of a tag file are read independently. A line that does not fit into the array
comes in fragments, which are loaded like lines, and may end the reading. -/
namespace Nav.Daemon
open Nav.C Nav.Lib

/-- A line of the form `tag=path` that the format provides for; the last line of a file may lack the
newline. -/
structure WellFormedLine (validPath : CStr → Bool) (line : List Byte) (t : Tag) : Prop where
  form : line = t.tag.bytes ++ equals::t.path.bytes ++ [newline] ∨
    line = t.tag.bytes ++ equals::t.path.bytes
  loadable : Loadable t.tag
  tag : Unbroken t.tag
  path : Unbroken t.path
  nonempty : t.path.bytes ≠ []
  valid : validPath t.path = true

/-- The line stands between `pre` and `post` in front of the first empty line, is of the form that is
provided for, and its tag is that of no other line. -/
structure Promised (validPath : CStr → Bool) (file : List Byte) (pre : List (List Byte))
    (line : List Byte) (post : List (List Byte)) (t : Tag) : Prop where
  lines : linesBefore file = pre ++ line::post
  wellFormed : WellFormedLine validPath line t
  alone : ∀ v ∈ pre ++ post, ∀ u, lineEntry (cstr v) = some u → u.tag ≠ t.tag

section Traced
variable (validPath : CStr → Bool) (malloc : ℕ → Bool) (file : List Byte)

end Traced

section Promise
variable {validPath : CStr → Bool} {malloc : ℕ → Bool} {file : List Byte}

theorem WellFormedLine.entry {line : List Byte} {t : Tag} (h : WellFormedLine validPath line t) :
    lineEntry (cstr line) = some t := by
  rcases h.form with rfl | rfl
  · have hline : cstr (t.tag.bytes ++ equals::t.path.bytes ++ [newline]) = tagLineStr t :=
      cstr_self (tagLineStr t)
    rw [hline]
    exact lineEntry_tagLine t h.loadable h.tag h.path
  · have hnul : nul ∉ t.tag.bytes ++ equals::t.path.bytes := by
      simpa using ⟨t.tag.nulFree,by decide,t.path.nulFree⟩
    rw [lineEntry_cut (cstr_nulFree hnul) h.loadable h.tag h.nonempty,trimmed_eq_self _ h.path]

/-- A whole line that is read with the tag of a promised line is this line. -/
theorem Promised.whole {pre post : List (List Byte)} {line : List Byte} {t : Tag} {p : Piece}
    {path : CStr} (h : Promised validPath file pre line post t) (hp : p ∈ filePieces true file)
    (hwhole : p.whole = true) (hentry : lineEntry (cstr p.bytes) = some ⟨t.tag,path⟩) :
    path = t.path ∧ line.length ≤ 255 ∧ ∀ v ∈ pre, ¬ LeavesNewline v := by
  have hothers : ∀ v ∈ pre ++ post, ∀ s, lineEntry (cstr v) = some ⟨t.tag,s⟩ → False :=
    fun v hv s hs => h.alone v hv _ hs rfl
  have hread : p.bytes ∈ linesWhole (linesBefore file) := by
    rw [← filePieces_whole]
    exact List.mem_map_of_mem (List.mem_filter.mpr ⟨hp,hwhole⟩)
  obtain ⟨pre',post',hlines,hlen,hpre⟩ := mem_linesWhole.mp hread
  have hmem : p.bytes ∈ pre ++ line::post := by
    rw [← h.lines,hlines]
    simp
  have hline : p.bytes = line := by
    rcases List.mem_append.mp hmem with hm | hm
    · exact (hothers _ (List.mem_append_left _ hm) _ hentry).elim
    · rcases List.mem_cons.mp hm with hm | hm
      · exact hm
      · exact (hothers _ (List.mem_append_right _ hm) _ hentry).elim
  rw [hline] at hentry hlen hlines
  have hpath : t = ⟨t.tag,path⟩ := Option.some.inj (h.wellFormed.entry.symm.trans hentry)
  refine ⟨(congrArg Tag.path hpath).symm,hlen,?_⟩
  -- the line occurs once
  have hpre' : pre' = pre := by
    have heq := hlines.symm.trans h.lines
    rw [List.append_eq_append_iff] at heq
    rcases heq with ⟨a,rfl,ha⟩ | ⟨a,rfl,ha⟩
    · cases a with
      | nil => simp
      | cons v a =>
        obtain ⟨rfl,_⟩ := List.cons.inj ha
        exact (hothers line (by simp) _ hentry).elim
    · cases a with
      | nil => simp
      | cons v a =>
        obtain ⟨rfl,rfl⟩ := List.cons.inj ha
        exact (hothers line (by simp) _ hentry).elim
  exact hpre' ▸ hpre

end Promise

section Independence
variable (validPath : CStr → Bool) (malloc : ℕ → Bool) (file : List Byte)

variable {validPath malloc file}

end Independence

end Nav.Daemon
