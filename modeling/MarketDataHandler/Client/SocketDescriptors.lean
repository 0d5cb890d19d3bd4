import MarketDataHandler.Client.Socket
import MarketDataHandler.Lib.HandleLedger

/-!
# The descriptors of the client socket

Whatever the calls and the answers of the system, `fd_` and `epoll_fd_` are the
descriptors that are open, nothing is closed that is not open, and the
destructor, which disconnects, leaves none.  The one exit of `do_connect` that
does not close the new descriptor leaves it in `fd_`, where the next attempt
finds it.
-/

namespace MarketDataHandler

open HandleLedger (Fresh ReleasesOpen replay)

/-- The descriptors that an event opens or closes. -/
def SocketEvent.handles : SocketEvent → List (HandleLedger.Event Int)
  | .socket fd => if 0 ≤ fd then [.acquire fd] else []
  | .epollCreate1 fd => if 0 ≤ fd then [.acquire fd] else []
  | .close fd => [.release fd]
  | _ => []

def handles (trace : List SocketEvent) : List (HandleLedger.Event Int) :=
  trace.flatMap SocketEvent.handles

theorem handles_append (first second : List SocketEvent) :
    handles (first ++ second) = handles first ++ handles second :=
  List.flatMap_append

theorem fresh_of_append {first second : List SocketEvent}
    (fresh : Fresh ∅ (handles (first ++ second))) :
    Fresh ∅ (handles first) := by
  rw [handles_append, HandleLedger.fresh_append] at fresh
  exact fresh.1

/-- The given descriptors, as far as they are valid, are the open ones. -/
structure Holds (fd epollFd : Int) (trace : List SocketEvent) : Prop where
  releases : ReleasesOpen ∅ (handles trace)
  mem_opened :
    ∀ handle,
      handle ∈ replay ∅ (handles trace) ↔
        0 ≤ handle ∧ (handle = fd ∨ handle = epollFd)
  apart : 0 ≤ fd → fd ≠ epollFd

namespace Holds

variable {fd epollFd : Int} {trace : List SocketEvent}

theorem symm (holds : Holds fd epollFd trace) :
    Holds epollFd fd trace where
  releases := holds.releases
  mem_opened := by
    intro handle
    rw [holds.mem_opened, or_comm]
  apart := by
    intro valid same
    exact holds.apart (same ▸ valid) same.symm

/-- Which invalid value a descriptor has does not matter. -/
theorem invalid (holds : Holds fd epollFd trace) (invalid : fd < 0)
    {other : Int} (alsoInvalid : other < 0) :
    Holds other epollFd trace where
  releases := holds.releases
  mem_opened := by
    intro handle
    rw [holds.mem_opened]
    constructor
    · rintro ⟨valid, same | same⟩
      · omega
      · exact ⟨valid, Or.inr same⟩
    · rintro ⟨valid, same | same⟩
      · omega
      · exact ⟨valid, Or.inr same⟩
  apart := by
    intro valid
    omega

theorem quiet (holds : Holds fd epollFd trace) {event : SocketEvent}
    (silent : event.handles = []) :
    Holds fd epollFd (trace ++ [event]) := by
  have same : handles (trace ++ [event]) = handles trace := by
    rw [handles_append, handles, handles, List.flatMap_singleton, silent,
      List.append_nil]
  refine ⟨?_, ?_, holds.apart⟩
  · rw [same]
    exact holds.releases
  · rw [same]
    exact holds.mem_opened

theorem close (holds : Holds fd epollFd trace) (valid : 0 ≤ fd) :
    Holds (-1) epollFd (trace ++ [.close fd]) := by
  have handlesEq :
      handles (trace ++ [.close fd]) = handles trace ++ [.release fd] :=
    handles_append trace [.close fd]
  refine ⟨?_, ?_, fun impossible => absurd impossible (by decide)⟩
  · rw [handlesEq, HandleLedger.releasesOpen_append]
    exact ⟨holds.releases,
      (holds.mem_opened fd).mpr ⟨valid, Or.inl rfl⟩, trivial⟩
  · intro handle
    rw [handlesEq, HandleLedger.replay_append]
    change handle ∈ (replay ∅ (handles trace)).erase fd ↔ _
    rw [Finset.mem_erase, holds.mem_opened]
    have apart := holds.apart valid
    omega

/-- A descriptor is closed if it is valid. -/
theorem closeValid (holds : Holds fd epollFd trace) :
    Holds (if 0 ≤ fd then -1 else fd) epollFd
        (trace ++ if 0 ≤ fd then [.close fd] else []) ∧
      (if 0 ≤ fd then -1 else fd) < 0 := by
  split
  · rename_i valid
    exact ⟨holds.close valid, by decide⟩
  · rename_i invalid
    rw [List.append_nil]
    exact ⟨holds, Int.not_le.mp invalid⟩

theorem opens (holds : Holds fd epollFd trace) (invalid : fd < 0)
    {event : SocketEvent} {result : Int}
    (opening :
      event.handles = if 0 ≤ result then [.acquire result] else [])
    (fresh : Fresh ∅ (handles (trace ++ [event]))) :
    Holds result epollFd (trace ++ [event]) := by
  by_cases valid : 0 ≤ result
  · rw [if_pos valid] at opening
    have handlesEq :
        handles (trace ++ [event]) =
          handles trace ++ [.acquire result] := by
      rw [handles_append, handles, handles, List.flatMap_singleton,
        opening]
    rw [handlesEq, HandleLedger.fresh_append] at fresh
    have unopened : result ∉ replay ∅ (handles trace) := fresh.2.1
    rw [holds.mem_opened] at unopened
    refine ⟨?_, ?_, fun _ same => unopened ⟨valid, Or.inr same⟩⟩
    · rw [handlesEq, HandleLedger.releasesOpen_append]
      exact ⟨holds.releases, trivial⟩
    · intro handle
      rw [handlesEq, HandleLedger.replay_append]
      change handle ∈ insert result (replay ∅ (handles trace)) ↔ _
      rw [Finset.mem_insert, holds.mem_opened]
      omega
  · rw [if_neg valid] at opening
    exact (holds.quiet opening).invalid invalid (Int.not_le.mp valid)

end Holds

/-- The two descriptors of a socket are the open ones. -/
def MarketDataSocket.Sound (sock : MarketDataSocket)
    (trace : List SocketEvent) : Prop :=
  Holds sock.fd sock.epollFd trace

namespace MarketDataSocket

variable {sock : MarketDataSocket} {trace : List SocketEvent}

/-- The old descriptor is closed, and a new one is opened. -/
theorem Sound.opened
    (sound : sock.Sound trace) {answers : ConnectAnswers}
    {rest : List SocketEvent}
    (fresh :
      Fresh ∅
        (handles
          (trace ++
            (sock.closeOld ++ [.socket answers.socket] ++ rest)))) :
    Holds answers.socket sock.epollFd
      (trace ++ (sock.closeOld ++ [.socket answers.socket])) := by
  rw [← List.append_assoc] at fresh
  have freshNow := fresh_of_append fresh
  rw [← List.append_assoc] at freshNow ⊢
  obtain ⟨closed, invalid⟩ := Holds.closeValid sound
  exact closed.opens invalid rfl freshNow

theorem Sound.created
    (sound : sock.Sound trace) {answers : ConnectAnswers}
    {rest : List SocketEvent}
    (fresh :
      Fresh ∅
        (handles
          (trace ++
            (sock.closeOld ++ [.socket answers.socket] ++
                (sock.createEpoll answers).2 ++
              rest)))) :
    Holds answers.socket (sock.createEpoll answers).1.epollFd
      (trace ++
        (sock.closeOld ++ [.socket answers.socket] ++
          (sock.createEpoll answers).2)) := by
  have opened :=
    @Sound.opened _ _ sound answers ((sock.createEpoll answers).2 ++ rest)
      (by rwa [List.append_assoc (_ ++ _)] at fresh)
  rw [← List.append_assoc] at fresh
  have freshNow := fresh_of_append fresh
  rw [← List.append_assoc] at freshNow ⊢
  rw [createEpoll] at freshNow ⊢
  split
  · rename_i missing
    rw [if_pos missing] at freshNow
    exact (opened.symm.opens missing rfl freshNow).symm
  · rw [List.append_nil]
    exact opened

/-- The new descriptor is closed again. -/
theorem Sound.abandon
    {next : MarketDataSocket} {fd : Int} {events : List SocketEvent}
    (holds : Holds fd next.epollFd (trace ++ events)) (valid : 0 ≤ fd) :
    (next.abandon fd events).1.Sound
      (trace ++ (next.abandon fd events).2.1) := by
  have closed := holds.close valid
  rw [List.append_assoc] at closed
  exact closed

theorem Sound.doConnect
    (sound : sock.Sound trace) {answers : ConnectAnswers}
    (fresh : Fresh ∅ (handles (trace ++ (sock.doConnect answers).2.1))) :
    (sock.doConnect answers).1.Sound
      (trace ++ (sock.doConnect answers).2.1) := by
  rw [MarketDataSocket.doConnect] at fresh ⊢
  by_cases noSocket : answers.socket < 0
  · rw [if_pos noSocket] at fresh ⊢
    exact @Sound.opened _ _ sound answers [] (by rwa [List.append_nil])
  rw [if_neg noSocket] at fresh ⊢
  have valid := Int.not_lt.mp noSocket
  by_cases badAddress : answers.inetPton ≤ 0
  · rw [if_pos badAddress] at fresh ⊢
    exact Sound.abandon (sound.opened fresh) valid
  rw [if_neg badAddress] at fresh ⊢
  by_cases refused : answers.connect < 0 ∧ answers.inProgress = false
  · rw [if_pos refused] at fresh ⊢
    exact Sound.abandon (sound.opened fresh) valid
  rw [if_neg refused] at fresh ⊢
  dsimp only at fresh ⊢
  by_cases noEpoll : (sock.createEpoll answers).1.epollFd < 0
  · rw [if_pos noEpoll] at fresh ⊢
    exact @Sound.created _ _ sound answers [] (by rwa [List.append_nil])
  rw [if_neg noEpoll] at fresh ⊢
  by_cases timeout : answers.epollWait ≤ 0
  · rw [if_pos timeout] at fresh ⊢
    exact Sound.abandon (sound.created fresh) valid
  rw [if_neg timeout] at fresh ⊢
  by_cases error : answers.soError ≠ 0
  · rw [if_pos error] at fresh ⊢
    exact Sound.abandon (sound.created fresh) valid
  rw [if_neg error] at fresh ⊢
  exact @Sound.created _ _ sound answers [] (by rwa [List.append_nil])

theorem Sound.connect
    (sound : sock.Sound trace) {answers : ConnectAnswers}
    (fresh : Fresh ∅ (handles (trace ++ (sock.connect answers).2.1))) :
    (sock.connect answers).1.Sound
      (trace ++ (sock.connect answers).2.1) := by
  rw [MarketDataSocket.connect] at fresh ⊢
  dsimp only at fresh ⊢
  rw [← List.append_assoc] at fresh ⊢
  exact Holds.quiet (sound.doConnect (fresh_of_append fresh)) rfl

theorem Sound.retryLoop
    {answers : Nat → ConnectAnswers} {left attempt : Nat}
    {backoff : UInt32} (sound : sock.Sound trace)
    (fresh :
      Fresh ∅
        (handles
          (trace ++
            (retryLoop answers left attempt backoff sock).2.1))) :
    (retryLoop answers left attempt backoff sock).1.Sound
      (trace ++ (retryLoop answers left attempt backoff sock).2.1) := by
  induction left generalizing attempt backoff sock trace with
  | zero =>
      rw [MarketDataSocket.retryLoop, List.append_nil]
      exact sound
  | succ left inductionHypothesis =>
      rw [MarketDataSocket.retryLoop] at fresh ⊢
      dsimp only at fresh ⊢
      by_cases connected : (sock.connect (answers attempt)).2.2 = true
      · rw [if_pos connected] at fresh ⊢
        exact sound.connect fresh
      · rw [if_neg connected] at fresh ⊢
        dsimp only at fresh ⊢
        have split (later : List SocketEvent) :
            trace ++
                ((sock.connect (answers attempt)).2.1 ++
                  .sleep backoff :: later) =
              trace ++ (sock.connect (answers attempt)).2.1 ++
                  [.sleep backoff] ++
                later := by
          simp
        rw [split] at fresh ⊢
        have freshSleep := fresh_of_append fresh
        have tried := sound.connect (fresh_of_append freshSleep)
        exact inductionHypothesis (Holds.quiet tried rfl) fresh

theorem Sound.receive (sound : sock.Sound trace)
    (buffer : ByteBuffer recvBufSize) (outcome : RecvOutcome) :
    (sock.receive buffer outcome).1.Sound
      (trace ++ (sock.receive buffer outcome).2) := by
  rw [MarketDataSocket.receive]
  dsimp only
  split
  · exact Holds.quiet sound rfl
  · rw [List.append_nil]
    exact sound

/-- Both descriptors are closed. -/
theorem Sound.disconnect (sound : sock.Sound trace) :
    sock.disconnect.1.Sound (trace ++ sock.disconnect.2) ∧
      sock.disconnect.1.fd < 0 ∧ sock.disconnect.1.epollFd < 0 := by
  have marked : Holds sock.fd sock.epollFd (trace ++ [.disconnected]) :=
    Holds.quiet sound rfl
  obtain ⟨closed, invalid⟩ := marked.closeValid
  obtain ⟨both, epollInvalid⟩ := closed.symm.closeValid
  refine ⟨?_, invalid, epollInvalid⟩
  rw [List.append_assoc, List.append_assoc] at both
  exact both.symm

theorem Sound.step (sound : sock.Sound trace) {call : SocketCall}
    (fresh : Fresh ∅ (handles (trace ++ (sock.step call).2))) :
    (sock.step call).1.Sound (trace ++ (sock.step call).2) := by
  cases call with
  | connect answers =>
      exact sound.connect fresh
  | connectWithRetry maxRetries baseBackoffMs answers =>
      exact sound.retryLoop fresh
  | receive buffer outcome =>
      exact sound.receive buffer outcome
  | disconnect =>
      exact sound.disconnect.1

theorem sound_run {calls : List SocketCall}
    (fresh : Fresh ∅ (handles (new.run calls).2)) :
    (new.run calls).1.Sound (new.run calls).2 := by
  induction calls using List.reverseRecOn with
  | nil =>
      refine ⟨trivial, ?_, fun impossible => absurd impossible (by decide)⟩
      intro handle
      change handle ∈ ∅ ↔ 0 ≤ handle ∧ (handle = -1 ∨ handle = -1)
      simp
      omega
  | append_singleton calls call inductionHypothesis =>
      have appended :
          new.run (calls ++ [call]) =
            (((new.run calls).1.step call).1,
              (new.run calls).2 ++ ((new.run calls).1.step call).2) := by
        rw [run, Mealy.run_append, Mealy.run_cons, Mealy.run_nil,
          List.append_nil]
        rfl
      rw [appended] at fresh ⊢
      exact (inductionHypothesis (fresh_of_append fresh)).step fresh

/-- If the system opens no descriptor that is open, the socket closes open
descriptors only; between the calls the open descriptors are `fd_` and
`epoll_fd_`, as far as these are valid; and after the destructor every
descriptor has been closed as often as opened. -/
theorem run_descriptors {calls : List SocketCall}
    (fresh : Fresh ∅ (handles (new.run calls).2)) :
    let result := new.run calls
    let trace := result.2 ++ result.1.disconnect.2
    ReleasesOpen ∅ (handles trace) ∧
      (∀ handle,
        handle ∈ replay ∅ (handles result.2) ↔
          0 ≤ handle ∧
            (handle = result.1.fd ∨ handle = result.1.epollFd)) ∧
      ∀ handle,
        (handles trace).count (.acquire handle) =
          (handles trace).count (.release handle) := by
  intro result trace
  have sound := sound_run fresh
  obtain ⟨ended, invalid, epollInvalid⟩ := sound.disconnect
  have freshAll : Fresh ∅ (handles trace) := by
    rw [handles_append, HandleLedger.fresh_append]
    refine ⟨fresh, HandleLedger.fresh_of_releases ?_ _⟩
    intro handle acquired
    obtain ⟨event, member, opening⟩ := List.mem_flatMap.mp acquired
    have closing :
        event = .disconnected ∨ ∃ fd, event = .close fd := by
      rw [disconnect] at member
      grind
    rcases closing with rfl | ⟨fd, rfl⟩
    · cases opening
    · cases List.mem_singleton.mp opening
  refine ⟨ended.releases, sound.mem_opened, ?_⟩
  intro handle
  have balance :=
    HandleLedger.count_acquire freshAll ended.releases handle
  have closed : handle ∉ replay ∅ (handles trace) := by
    rw [ended.mem_opened]
    omega
  rwa [if_neg (Finset.notMem_empty _), if_neg closed] at balance

/-- The second attempt gets the descriptor of the first again and cannot create
an epoll descriptor; the third closes what the second left. -/
theorem run_descriptors_reused :
    let calls : List SocketCall :=
      [.connect (answersRefused 3),
        .connect { answersOk 3 with epollCreate1 := -1 },
        .connect (answersOk 3)]
    let result := new.run calls
    let trace := result.2 ++ result.1.disconnect.2
    ReleasesOpen ∅ (handles trace) ∧
      (∀ handle,
        handle ∈ replay ∅ (handles result.2) ↔
          0 ≤ handle ∧
            (handle = result.1.fd ∨ handle = result.1.epollFd)) ∧
      ∀ handle,
        (handles trace).count (.acquire handle) =
          (handles trace).count (.release handle) := by
  intro calls
  exact run_descriptors (by decide)

end MarketDataSocket

end MarketDataHandler
