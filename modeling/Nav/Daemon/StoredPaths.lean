import Nav.Daemon.LoadedPaths
import Nav.Daemon.ReplyBuffers
import Nav.Daemon.Service

/-! How long the stored paths are, and so whether `get` and `pop` can format them. Datagrams bring
in short ones only, the tag file need not. -/
namespace Nav.Daemon
open Nav.C Nav.Lib

/-- A path that a tag or an action has. -/
def Stored (s : State) (path : CStr) : Prop :=
  (∃ t ∈ s.tags.nodes, t.path = path) ∨ ∃ sh ∈ s.shells.nodes, path ∈ stackOf sh

def ShortPaths (s : State) : Prop := ∀ path, Stored s path → path.length ≤ 98

section Paths
variable {s s' : State} {c : Call} {l l' : Loop} {a : Arrival} {r : Round}

/-- A call whose arguments are short stores a short path if any. -/
theorem ShortPaths.change (h : ShortPaths s) (hch : Change c s s')
    (hargs : ∀ line, c.args = some line → line.length ≤ 98) : ShortPaths s' := by
  have htags : ∀ t ∈ s'.tags.nodes, t.path.length ≤ 98 := by
    refine hch.forall_tags (fun t ht => h _ (Or.inl ⟨t,ht,rfl⟩)) fun tag path hst => ?_
    obtain ⟨line,hl,hadd⟩ := hst.args
    have hlen := addArgs_length line hadd
    have hshort := hargs line hl
    show path.length ≤ 98
    omega
  have hstacks : ∀ sh ∈ s'.shells.nodes, ∀ path ∈ stackOf sh, path.length ≤ 98 := by
    refine hch.forall_paths (fun sh hsh path hp => h _ (Or.inr ⟨sh,hsh,hp⟩)) fun line _ hl => ?_
    exact (trimmed_length_le line).trans (hargs line hl)
  rintro path (⟨t,ht,rfl⟩ | ⟨sh,hsh,hp⟩)
  · exact htags t ht
  · exact hstacks sh hsh path hp

/-- Command word and PID word take their share of the 99 bytes that are heard. -/
theorem loopRound_shortPaths (hb : Ended l.buf) (hd : a.datagram.length ≤ 99)
    (h : ShortPaths l.state) (hk : loopRound l a = .ok (l',r)) : ShortPaths l'.state := by
  rcases loopRound_dispatched hk with ⟨_,_,hs⟩ | ⟨d,passed,o,hr,_,_,_,hh⟩
  · rw [hs]
    exact h
  · refine h.change (handle_change hh) fun line hl => ?_
    have hheard := heard_length hb hd
    obtain ⟨_,hpos,hlen⟩ := reading_call (heard l a) hr
    have hargs : d.args = some line := hl
    rw [hargs] at hlen
    simp only [region,Option.map_some,Option.getD_some] at hlen
    simp only [CStr.length] at hheard hlen ⊢
    omega

end Paths

/-- At start-up the stored paths are those that the lines of the tag file say. -/
theorem stored_startState (cacheDir : CStr) (validPath : CStr → Bool) (malloc : ℕ → Bool)
    (file : Option (List Byte)) (path : CStr) :
    Stored (startState cacheDir validPath malloc file) path ↔ ∃ bytes tag, file = some bytes ∧
      loadedPath (fileEntries validPath malloc bytes) tag = some path := by
  have hshells : ¬ ∃ sh ∈ (startState cacheDir validPath malloc file).shells.nodes,
      path ∈ stackOf sh := by simp [startState,NodeList.empty]
  rw [Stored,or_iff_left hshells]
  cases file with
  | none => simp [startState,readTagFile,NodeList.empty]
  | some bytes =>
    constructor
    · rintro ⟨t,ht,rfl⟩
      exact ⟨bytes,t.tag,rfl,(mem_loaded_path validPath malloc bytes).mp ht⟩
    · rintro ⟨bytes',tag,hf,hp⟩
      obtain rfl := Option.some.inj hf
      exact ⟨⟨tag,path⟩,(mem_loaded_path validPath malloc _).mpr hp,rfl⟩

/-- In every state of every run on datagrams of at most 99 bytes each stored path fits in the array
of `get` and `pop`, exactly if each path that the tag file says at start-up has at most 98 bytes. -/
theorem storedPaths_iff (cacheDir : CStr) (validPath : CStr → Bool) (malloc : ℕ → Bool)
    (file : Option (List Byte)) :
    (∀ as l rs, (∀ a ∈ as, a.datagram.length ≤ 99) →
      runLoop (startLoop (startState cacheDir validPath malloc file)) as = .ok (l,rs) →
      ∀ path, Stored l.state path → path.length ≤ 98 ∧ (pathBuf path).overrun = false) ↔
    ∀ bytes tag path, file = some bytes →
      loadedPath (fileEntries validPath malloc bytes) tag = some path → path.length ≤ 98 := by
  constructor
  · intro h bytes tag path hf hp
    exact (h [] _ _ (by simp) rfl path
      ((stored_startState cacheDir validPath malloc file path).mpr ⟨bytes,tag,hf,hp⟩)).1
  · intro h as l rs has hr path hp
    have hstart : ShortPaths (startState cacheDir validPath malloc file) := by
      intro path hp
      obtain ⟨bytes,tag,hf,hload⟩ := (stored_startState cacheDir validPath malloc file path).mp hp
      exact h bytes tag path hf hload
    have hinv := Machine.run_invariant loopRound (fun l => Ended l.buf ∧ ShortPaths l.state)
      (fun a => a.datagram.length ≤ 99)
      (fun _ _ _ _ hi ha hk => ⟨loopRound_ended hi.1 ha hk,loopRound_shortPaths hi.1 ha hi.2 hk⟩)
      ⟨startLoop_ended _,hstart⟩ has hr
    have hlen := hinv.2 path hp
    exact ⟨hlen,(pathBuf_fits path).mpr hlen⟩

/-- The tag file binds a tag to a path of 99 bytes. -/
theorem storedPaths_fails : ¬ ∀ cacheDir validPath malloc file as l rs,
    (∀ a ∈ as, a.datagram.length ≤ 99) →
    runLoop (startLoop (startState cacheDir validPath malloc file)) as = .ok (l,rs) →
    ∀ path, Stored l.state path → path.length ≤ 98 ∧ (pathBuf path).overrun = false := by
  intro h
  have hlong := (h (CStr.ofLit "/c") (fun _ => true) (fun _ => true)
    (some (lit "t=" ++ List.replicate 99 97 ++ [newline])) [] _ _ (by simp) rfl
    ⟨List.replicate 99 97,by decide⟩
    (Or.inl ⟨⟨CStr.ofLit "t",⟨List.replicate 99 97,by decide⟩⟩,by decide +kernel,rfl⟩)).1
  revert hlong
  decide

end Nav.Daemon
