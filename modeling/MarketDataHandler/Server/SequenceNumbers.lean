import MarketDataHandler.Server.SymbolSchedule

/-!
# What becomes of the sequence numbers

Ticks, heartbeats and fault injection share one 32-bit counter.  Read off the
trace of any run, the numbers of the messages and those that were passed over
are consecutive: none is used twice, and none is lost without a trace.
-/

namespace MarketDataHandler

/-! ## The message of an action -/

/-- The answers to the calls of `send` of an action. -/
def ServerAction.sends : ServerAction → Nat → List SendOutcome
  | .tick _ sends => sends
  | .heartbeat _ sends => sends
  | _ => fun _ => []

namespace ExchangeSimulator

/-- The message that an action broadcasts. -/
def message (server : ExchangeSimulator) : ServerAction → Option Frame
  | .tick draw _ =>
      if server.clients.isEmpty then
        none
      else
        some (tickFrame server.nextSym server.nextSeq draw)
  | .heartbeat nowNs _ =>
      if server.clients.isEmpty then
        none
      else
        some (TickGenerator.heartbeatFrame server.seqNo nowNs)
  | _ => none

/-- Whether the action passes over a number. -/
def passesOver (server : ExchangeSimulator) : ServerAction → Bool
  | .tick _ _ => !server.clients.isEmpty && server.skips
  | _ => false

/-- What an action comes to: an operation on the connections or the flag that
sends nothing, or the broadcast of its message behind a possible skip. -/
inductive Serves (server : ExchangeSimulator) (action : ServerAction) :
    ExchangeSimulator × List ServerOutput → Prop
  | quiet {next : ExchangeSimulator} {outputs : List ServerOutput} :
      server.message action = none →
      server.passesOver action = false →
      next.seqNo = server.seqNo →
      (∀ fd, fd ∈ next.clients ↔
        (fd ∈ server.clients ∧ action ≠ .clientDisconnect fd) ∨
          action = .newConnection (some fd)) →
      (∀ output ∈ outputs,
        (∃ fd, output = .accepted fd ∧
          action = .newConnection (some fd)) ∨
        ∃ fd, output = .closed fd) →
      Serves server action (next, outputs)
  | message {frame : Frame} :
      server.message action = some frame →
      frame.seqNo =
        (if server.passesOver action then
          server.seqNo + 1
        else
          server.seqNo) →
      Serves server action
        ((broadcast { server with seqNo := frame.seqNo + 1 } frame
            action.sends).1,
          (if server.passesOver action then
            [.skip server.seqNo]
          else
            []) ++
            (broadcast { server with seqNo := frame.seqNo + 1 } frame
              action.sends).2)

theorem step_serves (server : ExchangeSimulator) (action : ServerAction) :
    Serves server action (server.step action) := by
  cases action with
  | newConnection accepted =>
      cases accepted with
      | none =>
          refine Serves.quiet rfl rfl rfl ?_ (List.forall_mem_nil _)
          intro fd
          change fd ∈ server.clients ↔ _
          simp
      | some newcomer =>
          refine Serves.quiet rfl rfl rfl ?_ ?_
          · intro fd
            change fd ∈ server.clients.insert newcomer ↔ _
            simp [List.mem_insert_iff, or_comm, eq_comm]
          · intro output member
            exact Or.inl ⟨newcomer, List.mem_singleton.mp member, rfl⟩
  | clientDisconnect gone =>
      refine Serves.quiet rfl rfl rfl ?_ ?_
      · intro fd
        change fd ∈ server.clients.erase gone ↔ _
        simp [server.nodup.mem_erase_iff, and_comm, eq_comm]
      · intro output member
        exact Or.inr ⟨gone, List.mem_singleton.mp member⟩
  | reorder order =>
      refine Serves.quiet rfl rfl rfl ?_ (List.forall_mem_nil _)
      intro fd
      change fd ∈ (server.toConnections.reorder order).clients ↔ _
      simp [Connections.mem_clients_reorder]
  | enableFaultInjection enable =>
      exact Serves.quiet rfl rfl rfl (by simp)
        (List.forall_mem_nil _)
  | tick draw sends =>
      cases connected : server.clients.isEmpty with
      | true =>
          have idle :
              server.step (.tick draw sends) = (server, []) := by
            rw [step, generateAndBroadcast, connected]
            rfl
          rw [idle]
          exact Serves.quiet (by rw [message, connected]; rfl)
            (by rw [passesOver, connected]; rfl) rfl (by simp)
            (List.forall_mem_nil _)
      | false =>
          have passes :
              server.passesOver (.tick draw sends) = server.skips := by
            rw [passesOver, connected]
            rfl
          have number :
              (tickFrame server.nextSym server.nextSeq draw).seqNo =
                server.nextSeq :=
            tickFrame_seqNo _ _ _
          have named :
              server.message (.tick draw sends) =
                some (tickFrame server.nextSym server.nextSeq draw) := by
            rw [message, connected]
            rfl
          have made := Serves.message named (by rw [number, passes]; rfl)
          rw [number, passes] at made
          rw [step, generateAndBroadcast_of_clients connected draw sends]
          exact made
  | heartbeat nowNs sends =>
      cases connected : server.clients.isEmpty with
      | true =>
          have idle :
              server.step (.heartbeat nowNs sends) = (server, []) := by
            rw [step, broadcastHeartbeat, connected]
            rfl
          rw [idle]
          exact Serves.quiet (by rw [message, connected]; rfl) rfl rfl
            (by simp) (List.forall_mem_nil _)
      | false =>
          rw [step, broadcastHeartbeat_of_clients connected nowNs sends]
          exact Serves.message (by rw [message, connected]; rfl) rfl

/-- A number is passed over only with fault injection, and only if it is a
multiple of a hundred. -/
theorem passesOver_cases
    {server : ExchangeSimulator} {action : ServerAction}
    (passes : server.passesOver action = true) :
    server.faultInjection = true ∧ server.seqNo % 100 = 0 := by
  cases action with
  | tick draw sends =>
      rw [passesOver, skips] at passes
      simp only [Bool.and_eq_true, decide_eq_true_eq] at passes
      exact passes.2
  | _ =>
      cases passes

end ExchangeSimulator

/-! ## The numbers of a trace -/

/-- The number of a message, or the one that was passed over. -/
def ServerOutput.number : ServerOutput → Option UInt32
  | .broadcast data => some (seqNoAt data)
  | .skip seq => some seq
  | _ => none

def numbers (trace : List ServerOutput) : List UInt32 :=
  trace.filterMap ServerOutput.number

/-- Successive values of the counter. -/
def consecutive (first : UInt32) (count : Nat) : List UInt32 :=
  (List.range count).map fun offset => first + UInt32.ofNat offset

theorem numbers_append (first second : List ServerOutput) :
    numbers (first ++ second) = numbers first ++ numbers second :=
  List.filterMap_append

theorem consecutive_add (first : UInt32) (front back : Nat) :
    consecutive first (front + back) =
      consecutive first front ++
        consecutive (first + UInt32.ofNat front) back := by
  rw [consecutive, List.range_add, List.map_append, List.map_map]
  congr 1
  apply List.map_congr_left
  intro offset _
  rw [Function.comp_apply, UInt32.ofNat_add, UInt32.add_assoc]

theorem consecutive_nodup (first : UInt32) {count : Nat}
    (few : count ≤ 2 ^ 32) : (consecutive first count).Nodup := by
  rw [consecutive]
  apply List.Nodup.map_on _ List.nodup_range
  intro left leftInside right rightInside same
  have values :=
    congrArg UInt32.toNat ((UInt32.add_right_inj first).mp same)
  rw [UInt32.toNat_ofNat', UInt32.toNat_ofNat'] at values
  have leftBound := List.mem_range.mp leftInside
  have rightBound := List.mem_range.mp rightInside
  omega

namespace ExchangeSimulator

/-- A broadcast shows the number of its message only. -/
theorem numbers_broadcast
    (server : ExchangeSimulator) (frame : Frame)
    (sends : Nat → List SendOutcome) :
    numbers (server.broadcast frame sends).2 = [frame.seqNo] := by
  obtain ⟨sent, closed, shape, onlySends, onlyCloses, _⟩ :=
    server.toConnections.broadcastMessage_shape frame.bytes sends
  have silent : numbers (sent ++ closed) = [] := by
    apply List.filterMap_eq_nil_iff.mpr
    intro output member
    rcases List.mem_append.mp member with isSend | isClose
    · obtain ⟨_, _, rfl⟩ := onlySends output isSend
      rfl
    · obtain ⟨_, rfl⟩ := onlyCloses output isClose
      rfl
  change
    numbers (server.toConnections.broadcastMessage frame.bytes sends).2 = _
  rw [shape]
  change seqNoAt frame.bytes :: numbers (sent ++ closed) = _
  rw [silent, frame.seqNoAt_bytes]

/-- An action uses up to two numbers, the next ones of the counter. -/
theorem numbers_step (server : ExchangeSimulator) (action : ServerAction) :
    ∃ count ≤ 2,
      numbers (server.step action).2 = consecutive server.seqNo count ∧
        (server.step action).1.seqNo =
          server.seqNo + UInt32.ofNat count := by
  have serves := server.step_serves action
  generalize server.step action = result at serves
  cases serves with
  | @quiet next outputs _ _ sameNumber _ silent =>
      refine ⟨0, by omega, ?_, ?_⟩
      · apply List.filterMap_eq_nil_iff.mpr
        intro output member
        rcases silent output member with ⟨_, rfl, _⟩ | ⟨_, rfl⟩
        · rfl
        · rfl
      · rw [sameNumber]
        exact (UInt32.add_zero _).symm
  | @message frame _ number =>
      rw [numbers_append, numbers_broadcast]
      cases passes : server.passesOver action with
      | true =>
          rw [passes] at number
          refine ⟨2, by omega, ?_, ?_⟩
          · rw [number]
            exact congrArg (fun first => [first, server.seqNo + 1])
              (UInt32.add_zero server.seqNo).symm
          · change frame.seqNo + 1 = _
            rw [number]
            exact UInt32.add_assoc server.seqNo 1 1
      | false =>
          rw [passes] at number
          refine ⟨1, by omega, ?_, ?_⟩
          · rw [number]
            exact congrArg (fun first => [first])
              (UInt32.add_zero server.seqNo).symm
          · change frame.seqNo + 1 = _
            rw [number]
            rfl

/-- A number that is passed over is a multiple of a hundred. -/
theorem skip_step
    {server : ExchangeSimulator} {action : ServerAction} {seq : UInt32}
    (member : .skip seq ∈ (server.step action).2) :
    server.faultInjection = true ∧ seq % 100 = 0 := by
  have serves := server.step_serves action
  generalize server.step action = result at serves member
  cases serves with
  | quiet _ _ _ _ silent =>
      rcases silent _ member with ⟨_, other, _⟩ | ⟨_, other⟩
      · cases other
      · cases other
  | @message frame _ _ =>
      rcases List.mem_append.mp member with here | behind
      · cases passes : server.passesOver action with
        | true =>
            rw [passes] at here
            cases List.mem_singleton.mp here
            exact passesOver_cases passes
        | false =>
            rw [passes] at here
            cases here
      · obtain ⟨sent, closed, shape, onlySends, onlyCloses, _⟩ :=
          server.toConnections.broadcastMessage_shape frame.bytes
            action.sends
        have output :
            .skip seq ∈ ServerOutput.broadcast frame.bytes ::
              (sent ++ closed) :=
          shape ▸ behind
        rcases List.mem_cons.mp output with announced | later
        · cases announced
        · rcases List.mem_append.mp later with isSend | isClose
          · obtain ⟨_, _, other⟩ := onlySends _ isSend
            cases other
          · obtain ⟨_, other⟩ := onlyCloses _ isClose
            cases other

/-- The numbers that a run uses are successive values of the counter. -/
theorem consecutive_run
    (server : ExchangeSimulator) (actions : List ServerAction) :
    ∃ count ≤ 2 * actions.length,
      numbers (server.run actions).2 = consecutive server.seqNo count ∧
        (server.run actions).1.seqNo =
          server.seqNo + UInt32.ofNat count := by
  induction actions generalizing server with
  | nil =>
      exact ⟨0, Nat.le_refl 0, rfl, (UInt32.add_zero _).symm⟩
  | cons action actions inductionHypothesis =>
      obtain ⟨now, nowFew, nowNumbers, nowNext⟩ :=
        server.numbers_step action
      obtain ⟨later, laterFew, laterNumbers, laterNext⟩ :=
        inductionHypothesis (server.step action).1
      rw [run, Mealy.run_cons]
      refine ⟨now + later, ?_, ?_, ?_⟩
      · rw [List.length_cons]
        omega
      · rw [numbers_append, nowNumbers, consecutive_add, ← nowNext,
          ← laterNumbers]
        rfl
      · rw [UInt32.ofNat_add, ← UInt32.add_assoc, ← nowNext,
          ← laterNext]
        rfl

/-- Only multiples of a hundred are passed over. -/
theorem skip_run
    {server : ExchangeSimulator} {actions : List ServerAction}
    {seq : UInt32} (member : .skip seq ∈ (server.run actions).2) :
    seq % 100 = 0 := by
  induction actions generalizing server with
  | nil =>
      cases member
  | cons action actions inductionHypothesis =>
      rw [run, Mealy.run_cons] at member
      rcases List.mem_append.mp member with here | behind
      · exact (skip_step here).2
      · exact inductionHypothesis behind

/-- In every run the numbers of the messages and the numbers passed over are
the successive values of the counter, so up to a full turn of the counter none
occurs twice; and only multiples of a hundred are passed over. -/
theorem numbers_run (server : ExchangeSimulator)
    (actions : List ServerAction) :
    ∃ count ≤ 2 * actions.length,
      numbers (server.run actions).2 = consecutive server.seqNo count ∧
        (server.run actions).1.seqNo =
          server.seqNo + UInt32.ofNat count ∧
        (count ≤ 2 ^ 32 → (numbers (server.run actions).2).Nodup) ∧
        ∀ seq, .skip seq ∈ (server.run actions).2 → seq % 100 = 0 := by
  obtain ⟨count, few, shown, next⟩ := server.consecutive_run actions
  refine ⟨count, few, shown, next, ?_, fun seq => skip_run⟩
  intro oneTurn
  rw [shown]
  exact consecutive_nodup server.seqNo oneTurn

end ExchangeSimulator

end MarketDataHandler
