import Nav.C.Buffer
import Nav.Daemon.Invariant

/-! The receive loop of `main.c`. One buffer serves for all datagrams and is never cleared;
`strtok_r` cuts it up in place, in the loop and again in the handlers. -/
namespace Nav.Daemon
open Nav.C

/-- The arguments of one call of `dispatch_command`. -/
structure Dispatch where
  cmdStr : CStr
  pid : ℤ
  args : Option CStr
  deriving DecidableEq, Repr

/-- What one round of the loop does. `line` are the bytes that tokenising leaves at the start of
the buffer, `running` is false once the loop is left. -/
structure Round where
  state : State
  running : Bool
  line : List Byte
  dispatched : Option Dispatch
  sent : List Datagram
  overrun : Bool
  deriving DecidableEq, Repr

/-- A round without a dispatch. -/
def idle (s : State) (running : Bool) (line : List Byte) : Round := ⟨s,running,line,none,[],false⟩

/-- One call of `strtok_r` on the buffer. Without a NUL in the buffer the call must find a
delimiter, or it runs past the end. -/
def strtokIn (terminated : Bool) (delim : Byte → Bool) (k : Strtok) :
    Except Fault (Option CStr × Strtok) :=
  if terminated || k.stops delim then .ok (k.next delim) else .error .overread

/-- The body of the loop behind `recv`, on the string at the start of the buffer. -/
def loopLine (env : Env) (s : State) (terminated : Bool) (line : CStr) : Except Fault Round :=
  match strtokIn terminated isBlank (Strtok.start line) with
  | .error e => .error e
  | .ok (none,k) => .ok (idle s true k.region)
  | .ok (some pidStr,k₁) =>
    let value := strtol pidStr.bytes
    if value.2 then .ok (idle s false k₁.region)
    else
      match strtokIn terminated isBlank k₁ with
      | .error e => .error e
      | .ok (none,k) => .ok (idle s true k.region)
      | .ok (some cmdStr,k₂) =>
        match strtokIn terminated noDelim k₂ with
        | .error e => .error e
        | .ok (args,_) =>
          match dispatchCommand env s cmdStr (toInt value.1) args with
          | .error e => .error e
          | .ok o => .ok ⟨o.state,true,k₂.passed ++ o.args,some ⟨cmdStr,toInt value.1,args⟩,
              o.sent,o.overrun⟩

/-- The loop between two calls of `recv`. -/
structure Loop where
  state : State
  buf : Buffer 100
  running : Bool
  deriving DecidableEq

/-- A datagram, with what the system answers while it is handled. -/
structure Arrival where
  env : Env
  datagram : List Byte

def startLoop (s : State) : Loop := ⟨s,Buffer.zero 100,true⟩

/-- One round of the loop. An empty datagram makes `recv` return 0 and nothing happens; a loop
that has been left takes no datagrams. -/
def loopRound (l : Loop) (a : Arrival) : Except Fault (Loop × Round) :=
  if !l.running then .ok (l,idle l.state false [])
  else if (l.buf.recv a.datagram).2 = 0 then .ok (l,idle l.state true [])
  else
    let buf := (l.buf.recv a.datagram).1
    (loopLine a.env l.state buf.terminated buf.str).map fun r =>
      (⟨r.state,buf.write r.line,r.running⟩,r)

abbrev runLoop (l : Loop) (as : List Arrival) : Except Fault (Loop × List Round) :=
  Machine.run loopRound l as

end Nav.Daemon
