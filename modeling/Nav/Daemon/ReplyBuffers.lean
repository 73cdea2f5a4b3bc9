import Nav.Daemon.Exits

/-! The arrays of fixed size that `show`, `list` and `actions` format their replies in: when the
text fits, and what is sent then. -/
namespace Nav.Daemon
open Nav.C

/-- A call that is handled with one reply sends this text within its array exactly if the reply is
this text and has stayed in the array. -/
theorem replied_iff {s : State} {c : Call} {sh : Shell} {payload args : List Byte} {overrun : Bool}
    (hd : dispatchCommand c.env s c.cmdStr c.pid c.args =
      .ok {reply s sh payload args with overrun}) (text : List Byte) :
    (∃ s' o, handle s c = .ok (s',o) ∧ o.overrun = false ∧ o.sent = [⟨sh.sunPath,text⟩]) ↔
      overrun = false ∧ payload = text := by
  constructor
  · rintro ⟨s',o,hh,ho,hsent⟩
    obtain rfl := Except.ok.inj (hd.symm.trans (handle_ok.mp hh).1)
    exact ⟨ho,by simpa [reply] using hsent⟩
  · rintro ⟨ho,rfl⟩
    exact ⟨_,_,handle_ok.mpr ⟨hd,rfl⟩,ho,rfl⟩

lemma pathBuf_fits (path : CStr) : (pathBuf path).overrun = false ↔ path.length ≤ 98 := by
  simp only [pathBuf,OutBuf.sprintf,OutBuf.empty,CStr.length,List.length_append,
    List.length_singleton,Bool.false_or,decide_eq_false_iff_not]
  omega

section Show

lemma showLines_length (ts : List Tag) : (ts.map showLine).flatten.length =
    (ts.map fun t => t.tag.length+t.path.length+6).sum := by
  induction ts with
  | nil => rfl
  | cons t ts ih =>
    have hlit : (lit " --> ").length = 5 := by decide
    simp only [List.map_cons,List.flatten_cons,List.length_append,ih,List.sum_cons,showLine,hlit,
      CStr.length,List.length_singleton]
    omega

/-- What `show` sends is the front of its lines, as far as its own buffer takes them. -/
theorem showBuf_text (tags : NodeList Tag) :
    (showBuf tags).text = (tags.nodes.map showLine).flatten.take 2047 := by
  simpa [showBuf] using (OutBuf.foldl_snprintf_text 2048 OutBuf.empty (tags.nodes.map showLine) []
    rfl rfl).1

/-- The running offset of `cmd_show` when it comes to the node behind the first `k`. -/
def showOffset (tags : NodeList Tag) (k : ℕ) : ℕ :=
  (((tags.nodes.take k).map showLine).foldl (OutBuf.snprintf 2048) OutBuf.empty).offset

lemma showOffset_eq (tags : NodeList Tag) (k : ℕ) : showOffset tags k =
    (((tags.nodes.take k).map fun t => t.tag.length+t.path.length+6)).sum := by
  rw [← showLines_length]
  simpa [showOffset] using (OutBuf.foldl_snprintf_text 2048 OutBuf.empty
    ((tags.nodes.take k).map showLine) [] rfl rfl).2

/-- The offset only grows, so the last round decides. -/
theorem showOffset_le_iff (tags : NodeList Tag) (n : ℕ) :
    (∀ k < tags.nodes.length, showOffset tags k ≤ n) ↔
      (tags.nodes.dropLast.map fun t => t.tag.length+t.path.length+6).sum ≤ n := by
  simp only [showOffset_eq]
  rw [List.dropLast_eq_take]
  constructor
  · intro h
    cases hl : tags.nodes with
    | nil => simp
    | cons t ts =>
      rw [← hl]
      exact h _ (by simp [hl])
  · intro h k hk
    have hsplit := List.take_append_drop k (tags.nodes.take (tags.nodes.length-1))
    rw [List.take_take,min_eq_left (by omega)] at hsplit
    rw [← hsplit,List.map_append,List.sum_append] at h
    omega

/-- `show` stays in its array as long as its last line does not start behind the array. -/
lemma showBuf_overrun (tags : NodeList Tag) : (showBuf tags).overrun = false ↔
    (tags.nodes.dropLast.map fun t => t.tag.length+t.path.length+6).sum ≤ 2048 := by
  rw [← showOffset_le_iff,showBuf,OutBuf.foldl_snprintf_overrun 2048 _ _ rfl]
  simp only [OutBuf.empty,Nat.zero_add,List.length_map,← List.map_take,showLines_length,
    showOffset_eq]

/-- `show` of a registered shell never counts past its array, writes nothing behind it, and sends
the lines of all tags, cut at the end of the array. -/
def ShowSound (s : State) (c : Call) : Prop :=
  findCommand c.cmdStr = some .show → ∀ sh, s.shell? c.pid = some sh →
    (∀ k < s.tags.nodes.length, showOffset s.tags k ≤ 2047) ∧
    ∃ s' o, handle s c = .ok (s',o) ∧ o.overrun = false ∧
      o.sent = [⟨sh.sunPath,(s.tags.nodes.map showLine).flatten.take 2047⟩]

/-- At a `show` of a registered shell the lines of all tags but the last take at most 2047
bytes. -/
def ShowFits (s : State) (c : Call) : Prop :=
  findCommand c.cmdStr = some .show → s.shell? c.pid ≠ none →
    (s.tags.nodes.dropLast.map fun t => t.tag.length+t.path.length+6).sum ≤ 2047

theorem showSound_iff (s : State) (c : Call) : ShowSound s c ↔ ShowFits s c := by
  refine imp_congr_right fun hc => ?_
  cases hs : s.shell? c.pid with
  | none => simp
  | some sh =>
    simp only [Option.some.injEq,forall_eq',ne_eq,reduceCtorEq,not_false_eq_true,true_imp_iff,
      ← showOffset_le_iff]
    refine and_iff_left_of_imp fun hoff => ?_
    have hd : dispatchCommand c.env s c.cmdStr c.pid c.args =
        .ok {reply s sh (showBuf s.tags).text (region c.args) with
          overrun := (showBuf s.tags).overrun} := by
      simp [dispatchCommand,hc,cmdFunc,cmdShow,withShell_some hs]
    refine (replied_iff hd _).mpr ⟨?_,showBuf_text s.tags⟩
    refine OutBuf.foldl_snprintf_within 2048 _ _ rfl fun k hk => ?_
    have hle := hoff k (by simpa using hk)
    rw [showOffset_eq,← showLines_length] at hle
    rw [← List.map_take]
    simp only [OutBuf.empty]
    omega

/-- Every `show` of a run keeps to its array exactly if at every `show` the lines of all tags but
the last take at most 2047 bytes. -/
theorem showReply_iff (cacheDir : CStr) (validPath : CStr → Bool) (malloc : ℕ → Bool)
    (file : Option (List Byte)) (cs : List Call) :
    Machine.Along handle ShowSound (startState cacheDir validPath malloc file) cs ↔
      Machine.Along handle ShowFits (startState cacheDir validPath malloc file) cs :=
  Machine.along_congr handle (fun _ => True) (fun _ => True) (fun s c _ _ => showSound_iff s c)
    (fun _ _ _ _ _ _ _ _ => trivial) trivial (fun _ _ => trivial)

/-- A tag file of ten long lines. -/
def longTagFile : List Byte :=
  ((List.range 10).map fun i =>
    UInt8.ofNat (48+i)::equals::(List.replicate 240 97 ++ [newline])).flatten

/-- With ten long tags the offset of `show` passes the end of the array. -/
theorem showReply_fails : ¬ ∀ cacheDir validPath malloc file cs,
    Machine.Along handle ShowSound (startState cacheDir validPath malloc file) cs := by
  intro h
  have hrun := h (CStr.ofLit "/c") (fun _ => true) (fun _ => true) (some longTagFile)
    [⟨openEnv fun _ => true,CStr.ofLit "register",1,none⟩,
     ⟨openEnv fun _ => true,CStr.ofLit "show",1,none⟩]
  have hfits := (showSound_iff _ _).mp (hrun.2 _ _ rfl).1 (by decide) (by decide +kernel)
  revert hfits
  decide +kernel

end Show

section Lists

/-- The paths line by line, numbered from `i` on. -/
def numbered : ℕ → List CStr → List Byte
  | _, [] => []
  | i, p::ps => lit "    " ++ decimal i ++ lit ". " ++ p.bytes ++ [newline] ++ numbered (i+1) ps

lemma actionLines_eq (i : ℕ) (as : List Action) :
    (as.mapIdx fun j a => actionLine (j+i) a).flatten = numbered i (as.map Action.path) := by
  induction as generalizing i with
  | nil => rfl
  | cons a as ih =>
    rw [List.mapIdx_cons,List.flatten_cons,List.map_cons,numbered,← ih]
    simp only [actionLine,Nat.zero_add,Nat.add_right_comm,Nat.add_assoc]

lemma numbered_length (i : ℕ) (ps : List CStr) : (numbered i ps).length =
    ((ps.zipIdx i).map fun x => x.1.length+(decimal x.2).length+7).sum := by
  induction ps generalizing i with
  | nil => rfl
  | cons p ps ih =>
    have hlit : (lit "    ").length = 4 ∧ (lit ". ").length = 2 := by decide
    simp only [numbered,List.length_append,List.length_singleton,hlit,List.zipIdx_cons,List.map_cons,
      List.sum_cons,ih,CStr.length]
    omega

/-- The text of `list` without its last space is the tags with single spaces between them. -/
lemma listItems_dropLast (ts : List Tag) : ((ts.map listItem).flatten).dropLast =
    [space].intercalate (ts.map fun t => t.tag.bytes) := by
  induction ts with
  | nil => rfl
  | cons t ts ih =>
    cases ts with
    | nil => simp [listItem]
    | cons u us =>
      have hne : ((u::us).map listItem).flatten ≠ [] := by simp [listItem]
      rw [List.map_cons,List.flatten_cons,List.dropLast_append_of_ne_nil hne,ih]
      simp [listItem,List.intercalate]

lemma listItems_length (ts : List Tag) :
    (ts.map listItem).flatten.length = (ts.map fun t => t.tag.length+1).sum := by
  simp [List.length_flatten,listItem,CStr.length,Function.comp_def]

lemma listItems_nulFree (ts : List Tag) : nul ∉ (ts.map listItem).flatten := by
  intro h
  obtain ⟨item,hm,hn⟩ := List.mem_flatten.mp h
  obtain ⟨t,_,rfl⟩ := List.mem_map.mp hm
  rcases List.mem_append.mp hn with hn | hn
  · exact t.tag.nulFree hn
  · exact absurd (List.mem_singleton.mp hn) (by decide)

/-- The string in the array that `list` sends. -/
theorem cstr_listReply (tags : NodeList Tag)
    (h : (tags.nodes.map fun t => t.tag.length+1).sum ≤ 255) :
    (cstr (listReply tags)).bytes = [space].intercalate (tags.nodes.map fun t => t.tag.bytes) := by
  obtain ⟨ht,ho⟩ := OutBuf.foldl_sprintf 256 OutBuf.empty (tags.nodes.map listItem)
  have htext : listReply tags =
      (((tags.nodes.map listItem).flatten.dropLast ++ List.replicate 256 nul)).take 256 := by
    simp only [listReply,listBuf,ht,ho]
    simp only [OutBuf.empty,List.nil_append,Nat.zero_add]
    split_ifs with hpos
    · rfl
    · rw [List.eq_nil_of_length_eq_zero (by omega : (tags.nodes.map listItem).flatten.length = 0)]
      rfl
  have hlen := listItems_length tags.nodes
  have hnul : nul ∉ (tags.nodes.map listItem).flatten.dropLast :=
    fun hn => listItems_nulFree _ (List.dropLast_subset _ hn)
  have hshort : (tags.nodes.map listItem).flatten.dropLast.length ≤ 255 := by
    rw [List.length_dropLast]
    omega
  obtain ⟨m,hm⟩ := Nat.exists_eq_succ_of_ne_zero
    (by omega : 256-(tags.nodes.map listItem).flatten.dropLast.length ≠ 0)
  rw [htext,List.take_append,List.take_of_length_le (by omega),hm,List.take_replicate,
    ← listItems_dropLast]
  rw [show min (m+1) 256 = m+1 by omega,List.replicate_succ]
  exact congrArg CStr.bytes (cstr_terminated ⟨_,hnul⟩ _)

/-- `list` of a registered shell writes nothing behind its array and sends all tags with single
spaces between them and none behind the last. -/
def ListSound (s : State) (c : Call) : Prop :=
  findCommand c.cmdStr = some .list → ∀ sh, s.shell? c.pid = some sh →
    ∃ s' o payload, handle s c = .ok (s',o) ∧ o.overrun = false ∧
      o.sent = [⟨sh.sunPath,payload⟩] ∧
      (cstr payload).bytes = [space].intercalate (s.tags.nodes.map fun t => t.tag.bytes) ∧
      (cstr payload).bytes.getLast? ≠ some space

/-- `actions` of a registered shell writes nothing behind its array and sends the paths of its
stack, numbered from the top. -/
def ActionsSound (s : State) (c : Call) : Prop :=
  findCommand c.cmdStr = some .actions → ∀ sh, s.shell? c.pid = some sh →
    ∃ s' o, handle s c = .ok (s',o) ∧ o.overrun = false ∧
      o.sent = [⟨sh.sunPath,numbered 1 (sh.actions.nodes.map Action.path)⟩]

/-- At a `list` of a registered shell the tags with a space behind each take at most 255 bytes. -/
def ListFits (s : State) (c : Call) : Prop :=
  findCommand c.cmdStr = some .list → s.shell? c.pid ≠ none →
    (s.tags.nodes.map fun t => t.tag.length+1).sum ≤ 255

/-- At a `list` of a registered shell the last tag does not end in a space, and is not empty unless
it is the only one. -/
def LastNamed (s : State) (c : Call) : Prop :=
  findCommand c.cmdStr = some .list → s.shell? c.pid ≠ none → ∀ t, s.tags.nodes.getLast? = some t →
    t.tag.bytes.getLast? ≠ some space ∧ (t.tag.bytes = [] → s.tags.nodes.length = 1)

/-- At an `actions` the numbered lines take at most 1023 bytes: of each line seven bytes are
neither path nor number. -/
def ActionsFits (s : State) (c : Call) : Prop :=
  findCommand c.cmdStr = some .actions → ∀ sh, s.shell? c.pid = some sh →
    (((sh.actions.nodes.map Action.path).zipIdx 1).map fun x =>
      x.1.length+(decimal x.2).length+7).sum ≤ 1023

/-- Tags with single spaces between them end in a space exactly if the last one does, or is empty
behind another. -/
theorem spaced_getLast? (ts : List Tag) :
    ([space].intercalate (ts.map fun t => t.tag.bytes)).getLast? ≠ some space ↔
      ∀ t, ts.getLast? = some t →
        t.tag.bytes.getLast? ≠ some space ∧ (t.tag.bytes = [] → ts.length = 1) := by
  rw [← listItems_dropLast]
  rcases List.eq_nil_or_concat ts with rfl | ⟨front,last,rfl⟩
  · simp
  · have hitem : listItem last = last.tag.bytes ++ [space] := rfl
    have htext : (((front ++ [last]).map listItem).flatten).dropLast =
        (front.map listItem).flatten ++ last.tag.bytes := by
      rw [List.map_append,List.flatten_append,List.map_singleton,List.flatten_singleton,hitem,
        ← List.append_assoc,List.dropLast_concat]
    simp only [List.concat_eq_append,htext,List.getLast?_append,List.getLast?_singleton,
      Option.some_or,Option.some.injEq,forall_eq',List.length_append,List.length_singleton]
    cases hlast : last.tag.bytes.getLast? with
    | some b =>
      have hne : last.tag.bytes ≠ [] := by
        rintro he
        simp [he] at hlast
      simp [hne]
    | none =>
      have he : last.tag.bytes = [] := List.getLast?_eq_none_iff.mp hlast
      rcases List.eq_nil_or_concat front with rfl | ⟨init,t,rfl⟩
      · simp [he]
      · simp [he,listItem]

lemma listBuf_overrun (tags : NodeList Tag) : (listBuf tags).overrun = false ↔
    (tags.nodes.map fun t => t.tag.length+1).sum ≤ 255 := by
  rw [listBuf,OutBuf.foldl_sprintf_overrun 256 _ _ rfl (by simp [OutBuf.empty]),listItems_length]
  simp only [OutBuf.empty]
  omega

theorem listSound_iff (s : State) (c : Call) : ListSound s c ↔ ListFits s c ∧ LastNamed s c := by
  unfold ListSound ListFits LastNamed
  rw [← imp_and]
  refine imp_congr_right fun hc => ?_
  cases hs : s.shell? c.pid with
  | none => simp
  | some sh =>
    simp only [Option.some.injEq,forall_eq',ne_eq,reduceCtorEq,not_false_eq_true,true_imp_iff]
    have hd : dispatchCommand c.env s c.cmdStr c.pid c.args =
        .ok {reply s sh (listReply s.tags) (region c.args) with
          overrun := (listBuf s.tags).overrun} := by
      simp [dispatchCommand,hc,cmdFunc,cmdList,withShell_some hs]
    constructor
    · rintro ⟨s',o,payload,hh,ho,hsent,htext,hlast⟩
      rw [htext] at hlast
      exact ⟨(listBuf_overrun _).mp ((replied_iff hd payload).mp ⟨s',o,hh,ho,hsent⟩).1,
        (spaced_getLast? _).mp hlast⟩
    · rintro ⟨hle,hlast⟩
      obtain ⟨s',o,hh,ho,hsent⟩ :=
        (replied_iff hd (listReply s.tags)).mpr ⟨(listBuf_overrun _).mpr hle,rfl⟩
      have htext := cstr_listReply s.tags hle
      exact ⟨s',o,_,hh,ho,hsent,htext,htext ▸ (spaced_getLast? _).mpr hlast⟩

lemma actionsBuf_overrun (actions : NodeList Action) : (actionsBuf actions).overrun = false ↔
    (((actions.nodes.map Action.path).zipIdx 1).map fun x =>
      x.1.length+(decimal x.2).length+7).sum ≤ 1023 := by
  rw [actionsBuf,OutBuf.foldl_sprintf_overrun 1024 _ _ rfl (by simp [OutBuf.empty]),
    actionLines_eq 1 actions.nodes,numbered_length]
  simp only [OutBuf.empty]
  omega

theorem actionsSound_iff (s : State) (c : Call) : ActionsSound s c ↔ ActionsFits s c := by
  refine imp_congr_right fun hc => forall_congr' fun sh => imp_congr_right fun hs => ?_
  have hd : dispatchCommand c.env s c.cmdStr c.pid c.args =
      .ok {reply s sh (actionsBuf sh.actions).text (region c.args) with
        overrun := (actionsBuf sh.actions).overrun} := by
    simp [dispatchCommand,hc,cmdFunc,cmdActions,withShell_some hs]
  have htext : (actionsBuf sh.actions).text = numbered 1 (sh.actions.nodes.map Action.path) := by
    rw [actionsBuf,(OutBuf.foldl_sprintf 1024 OutBuf.empty _).1]
    exact actionLines_eq 1 sh.actions.nodes
  rw [replied_iff hd,actionsBuf_overrun]
  exact and_iff_left htext

/-- Every `list` and every `actions` of a run keeps to its array and replies in full, without a
space behind the last tag, exactly if at each the text is short enough and no empty tag stands
behind the others. -/
theorem listingReplies_iff (cacheDir : CStr) (validPath : CStr → Bool) (malloc : ℕ → Bool)
    (file : Option (List Byte)) (cs : List Call) :
    Machine.Along handle (fun s c => ListSound s c ∧ ActionsSound s c)
        (startState cacheDir validPath malloc file) cs ↔
      Machine.Along handle (fun s c => (ListFits s c ∧ LastNamed s c) ∧ ActionsFits s c)
        (startState cacheDir validPath malloc file) cs :=
  Machine.along_congr handle (fun _ => True) (fun _ => True)
    (fun s c _ _ => and_congr (listSound_iff s c) (actionsSound_iff s c))
    (fun _ _ _ _ _ _ _ _ => trivial) trivial (fun _ _ => trivial)

/-- Two tags of 150 bytes. -/
def longNameFile : List Byte :=
  List.replicate 150 97 ++ lit "=/a
" ++ List.replicate 150 98 ++ lit "=/a
"

/-- Two long tags do not fit into the array of `list`. -/
theorem listingReplies_fails : ¬ ∀ cacheDir validPath malloc file cs,
    Machine.Along handle (fun s c => ListSound s c ∧ ActionsSound s c)
      (startState cacheDir validPath malloc file) cs := by
  intro h
  have hrun := h (CStr.ofLit "/c") (fun _ => true) (fun _ => true) (some longNameFile)
    [⟨openEnv fun _ => true,CStr.ofLit "register",1,none⟩,
     ⟨openEnv fun _ => true,CStr.ofLit "list",1,none⟩]
  have hfits := ((listSound_iff _ _).mp (hrun.2 _ _ rfl).1.1).1 (by decide) (by decide +kernel)
  revert hfits
  decide +kernel

end Lists
end Nav.Daemon
