import RespOS.Basis.Runs

/-!
# The outcome of `connect` (`net/tcp.rs`)

`poll_connect` learns the outcome of a handshake from the state in which it finds the smoltcp socket:
`SynSent` means to wait, `Established` that the connection stands, and every other state that it was
refused. So a connection that the peer has closed before the next call counts as refused
(`connection_refused_late`). Where every call comes in time, the outcome is that of the handshake.
-/

namespace RespOS.Net

open RespOS.Basis

inductive TcpState
  | closed | listen | synSent | synReceived | established | finWait1 | finWait2 | closeWait | closing
  | lastAck | timeWait
  deriving DecidableEq

/-- The states of a `TcpSocket` from `connect` on. -/
inductive ConnectState
  | connecting | connected | failed
  deriving DecidableEq

/-- The socket, whether `ECONNREFUSED` is pending, and whether it was `Established` since `connect`. -/
structure Connect where
  tcp : TcpState := .synSent
  state : ConnectState := .connecting
  refused : Bool := false
  reached : Bool := false
  deriving DecidableEq

/-- The smoltcp socket moves on, or `poll_connect` may be called: by the closure of a blocking `connect`,
or by a function that looks first whether the socket is connecting. -/
inductive ConnectEvent
  | advance (tcp : TcpState)
  | call (blocking : Bool)

namespace Connect

def pollConnect (s : Connect) : Connect :=
  match s.tcp with
  | .synSent => s
  | .established => { s with state := .connected, refused := false }
  | _ => { s with state := .failed, refused := true }

def calls (s : Connect) : ConnectEvent → Bool
  | .advance _ => false
  | .call blocking => blocking || s.state = .connecting

def next (s : Connect) : ConnectEvent → Connect
  | .advance tcp => { s with tcp := tcp, reached := s.reached || tcp = .established }
  | e => if s.calls e then s.pollConnect else s

/-- No move of the smoltcp socket leads back to `SynSent`. -/
def Step (s : Connect) (e : ConnectEvent) (s' : Connect) : Prop :=
  e ≠ .advance .synSent ∧ s.next e = s'

/-- The call finds a handshake under way, completed or failed. -/
def Timely (s : Connect) (e : ConnectEvent) : Prop :=
  s.calls e = true → s.tcp = .synSent ∨ s.tcp = .established ∨ s.tcp = .closed ∧ s.reached = false

/-- The state tells the outcome of the handshake. -/
structure Tells (s : Connect) (e : ConnectEvent) (s' : Connect) : Prop where
  connects : s.calls e = true → s.reached = true → s'.state = .connected
  fails : s.state ≠ .failed → s'.state = .failed →
    s.tcp = .closed ∧ s.reached = false ∧ s'.refused = true
  stays : s.state = .connected → s'.state = .connected

structure Sound (s : Connect) : Prop where
  reached : s.reached = true → s.tcp ≠ .synSent
  connected : s.state = .connected → s.reached = true
  established : s.tcp = .established → s.reached = true

variable {s s' : Connect} {e : ConnectEvent}

theorem Sound.step (h : s.Sound) (hok : s.Timely e) (hstep : s.Step e s') :
    s'.Sound ∧ s.Tells e s' := by
  obtain ⟨hreached, hconnected, hestablished⟩ := h
  obtain ⟨hmove, rfl⟩ := hstep
  fun_cases next s e with
  | case1 tcp => exact ⟨⟨by grind, by grind, by grind⟩, nofun, by grind, id⟩
  | case2 blocking hmoves hcalls =>
    have hsampled := hok hcalls
    fun_cases pollConnect s <;> exact ⟨⟨by grind, by grind, by grind⟩, by grind, by grind, by grind⟩
  | case3 => exact ⟨⟨hreached, hconnected, hestablished⟩, by grind, by grind, id⟩

/-- Where `poll_connect` is called in time, the state tells the outcome of the handshake. -/
theorem tells_of_run (hrun : Run (· = {}) Timely Step s) (hok : s.Timely e) (hstep : s.Step e s') :
    s.Tells e s' := by
  have h : s.Sound := by
    refine hrun.invariant ?_ fun s e s' h hok hstep ↦ (h.step hok hstep).1
    rintro s rfl
    exact ⟨nofun, nofun, nofun⟩
  exact (h.step hok hstep).2

/-- The next call comes while the connection stands. -/
theorem tells_connected : let s : Connect := { tcp := .established, reached := true }
    s.Tells (.call false) { s with state := .connected } :=
  tells_of_run (.next (.advance .established) (.start rfl) nofun ⟨nofun, rfl⟩)
    (fun _ ↦ .inr (.inl rfl)) ⟨nofun, rfl⟩

/-- The peer accepts the connection and closes it before the next call: it counts as refused. A blocking
`connect` makes it so even after another call has found it connected. -/
theorem connection_refused_late :
    [.advance .established, .advance .closeWait, .call false].foldl next {} =
      ⟨.closeWait, .failed, true, true⟩ ∧
    [.advance .established, .call false, .advance .closeWait].foldl next {} =
      ⟨.closeWait, .connected, false, true⟩ ∧
    next ⟨.closeWait, .connected, false, true⟩ (.call true) = ⟨.closeWait, .failed, true, true⟩ := by
  decide

end Connect

end RespOS.Net
