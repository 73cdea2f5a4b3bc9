import Nav.Daemon.Landing

/-! What a round of the receive loop depends on: the datagram, the lists, and the old bytes that
stand behind the datagram in memory. -/
namespace Nav.Daemon
open Nav.C

/-- A datagram of 1 to 99 bytes without NUL. -/
structure Plain (d : List Byte) : Prop where
  nulFree : nul ∉ d
  pos : 1 ≤ d.length
  short : d.length ≤ 99

/-- What there is to see of a round: what `dispatch_command` is called with, whether or not the
handler returns, and then whether the loop goes on, the lists with the tag file, and the replies. -/
def observed (l : Loop) (x : Landing) :
    Option Dispatch × Except Fault (Bool × State × List Datagram) :=
  (called l x,(loopRoundOn l x).map fun p => (p.1.running,p.1.state,p.2.sent))

section Words
variable {line : CStr}

end Words

section Observed
variable {l l' : Loop} {x x' : Landing}

section Seen
variable (hrun : l.running = true) (hne : x.arrival.datagram ≠ [])
include hrun hne

end Seen

end Observed

section Runs
variable {l : Loop} {a : Arrival}

lemma Plain.ne_nil {d : List Byte} (h : Plain d) : d ≠ [] := by
  rintro rfl
  exact absurd h.pos (by decide)

/-- What a round on a plain datagram does is what the body of the loop does on the string in the
buffer. -/
theorem loopRound_plain (hd : Plain a.datagram) (hrun : l.running = true) :
    (loopRound l a).map Prod.snd =
      loopLine a.env l.state (l.buf.write a.datagram).terminated (l.buf.write a.datagram).str := by
  simp only [loopRound,hrun,Bool.not_true,Bool.false_eq_true,if_false,recv_ne_zero hd.ne_nil]
  simp only [Buffer.recv]
  cases loopLine a.env l.state (l.buf.write a.datagram).terminated (l.buf.write a.datagram).str <;>
    rfl

end Runs

end Nav.Daemon
