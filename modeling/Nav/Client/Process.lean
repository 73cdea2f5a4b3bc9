import Nav.C.Buffer
import Nav.C.Stdio

/-! `process_command` of the client: the message it sends and what it prints of the reply. -/
namespace Nav.Client
open Nav.C

/-- `"%s "`. -/
def argItem (arg : CStr) : List Byte := arg.bytes ++ [space]

/-- The loop that formats the arguments into `buf`. -/
def requestBuf (argv : List CStr) : OutBuf :=
  (argv.map argItem).foldl (OutBuf.sprintf 1024) OutBuf.empty

/-- The datagram of `send(sfd, buf, strlen(buf), 0)`. There is no other way through the function:
a command is sent however long it is. -/
def request (argv : List CStr) : List Byte := (requestBuf argv).text

/-- The buffer after `memset` and `recv`. -/
def replyBuf (reply : List Byte) : Buffer 1024 := ((Buffer.zero 1024).recv reply).1

/-- `printf("%s", buf)`: the text, or `none` if there is no NUL to end it. -/
def printed (buf : Buffer 1024) : Option CStr := if buf.terminated then some buf.str else none

section Request
variable (argv : List CStr)

lemma request_eq : request argv = (argv.map argItem).flatten := by
  simpa [request,requestBuf,OutBuf.empty] using
    (OutBuf.foldl_sprintf 1024 OutBuf.empty (argv.map argItem)).1

lemma request_nulFree : nul ∉ request argv := by
  rw [request_eq]
  intro h
  obtain ⟨item,hm,hn⟩ := List.mem_flatten.mp h
  obtain ⟨arg,_,rfl⟩ := List.mem_map.mp hm
  rcases List.mem_append.mp hn with hn | hn
  · exact arg.nulFree hn
  · exact absurd (List.mem_singleton.mp hn) (by decide)

/-- Every argument takes its own length and a space. -/
theorem request_length : (request argv).length = (argv.map fun arg => arg.length+1).sum := by
  rw [request_eq]
  simp [List.length_flatten,argItem,CStr.length,Function.comp_def]

/-- The message has been formatted within the buffer exactly if it is short enough. -/
theorem requestBuf_fits : (requestBuf argv).overrun = false ↔ (request argv).length < 1024 := by
  rw [request_eq]
  simpa [requestBuf,OutBuf.empty] using
    OutBuf.foldl_sprintf_overrun 1024 OutBuf.empty (argv.map argItem) rfl (by decide)

end Request

/-- The client prints the text of a reply exactly when that text is shorter than its buffer. -/
theorem printed_iff (reply : List Byte) :
    printed (replyBuf reply) = some (cstr reply) ↔ (cstr reply).length < 1024 := by
  constructor
  · intro h
    by_contra hlen
    have hfull := Buffer.zero_write_full reply (n:=1024) (by omega)
    simp [printed,replyBuf,Buffer.recv,hfull] at h
  · intro h
    obtain ⟨behind,hb⟩ := Buffer.zero_write_text reply h
    have hstr : (replyBuf reply).str = cstr reply := by
      simp only [replyBuf,Buffer.recv,Buffer.str]
      rw [hb,cstr_terminated]
    have hterm : (replyBuf reply).terminated = true := by
      simp [replyBuf,Buffer.recv,Buffer.terminated,hb]
    rw [printed,if_pos hterm,hstr]

end Nav.Client
