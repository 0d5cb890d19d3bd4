import MarketDataHandler.Server.ClientManager

/-!
# The accounts of the client manager

What the counters of `ClientManager` say after any calls of `add`, `remove`
and `broadcast`, compared with what the kernel has answered.  `bytes_sent` and
`is_slow` agree with the answers.  `msgs_sent` does not: after would-block
`send_to` leaves its loop by `break` and counts the message that it gives up.
-/

namespace MarketDataHandler

/-! ## Runs -/

/-- A call with the kernel's answers and, for a broadcast, the order in which
the map is iterated. -/
inductive ManagerCall where
  | add (fd : Nat) (remoteAddr : String) (now : Nat) (registered : Bool)
  | remove (fd : Nat)
  | broadcast (order : List Nat) (data : List UInt8)
      (sends : Nat → List SendOutcome)

structure CallRecord where
  call : ManagerCall
  outputs : List ManagerOutput

namespace ManagerCall

/-- The call adds the client. -/
def adds (fd : Nat) : ManagerCall → Bool
  | .add other _ _ registered => decide (other = fd) && registered
  | _ => false

/-- The call fails to add the client. -/
def refuses (fd : Nat) : ManagerCall → Bool
  | .add other _ _ registered => decide (other = fd) && !registered
  | _ => false

def message : ManagerCall → Option (List UInt8)
  | .broadcast _ data _ => some data
  | _ => none

end ManagerCall

namespace CallRecord

/-- The answers to the calls of `send` for a client. -/
def answersTo (fd : Nat) (record : CallRecord) : List SendAnswer :=
  (record.outputs.filterMap (ManagerOutput.sendTo fd)).map Prod.snd

/-- The bytes that the kernel accepted for a client. -/
def accepted (fd : Nat) (record : CallRecord) : List UInt8 :=
  (record.answersTo fd).flatMap SendAnswer.bytes

/-- The message that the kernel accepted completely for a client. -/
def delivered (fd : Nat) (record : CallRecord) : Option (List UInt8) :=
  record.call.message.filter fun data => record.accepted fd = data

/-- The kernel answered a client with would-block. -/
def refused (fd : Nat) (record : CallRecord) : Bool :=
  decide (.wouldBlock ∈ record.answersTo fd)

end CallRecord

/-- The records since the client was added. -/
def sinceAdded (fd : Nat) (log : List CallRecord) : List CallRecord :=
  log.foldl
    (fun current record =>
      if record.call.adds fd then [] else current ++ [record]) []

namespace ClientManager

def step (manager : ClientManager) :
    ManagerCall → ClientManager × List ManagerOutput
  | .add fd remoteAddr now registered =>
      let added := manager.add fd remoteAddr now registered
      (added.1.1, added.2)
  | .remove fd => manager.remove fd
  | .broadcast order data sends =>
      (manager.reorder order).broadcast data sends

/-- A call and its record. -/
def logStep (manager : ClientManager) (call : ManagerCall) :
    ClientManager × List CallRecord :=
  ((manager.step call).1,
    [{ call := call
       outputs := (manager.step call).2 }])

def run (manager : ClientManager) (calls : List ManagerCall) :
    ClientManager × List CallRecord :=
  Mealy.run logStep manager calls

/-- A descriptor is added only when it is not managed, and messages are not
empty. -/
def Allowed (manager : ClientManager) : ManagerCall → Prop
  | .add fd _ _ _ => fd ∉ manager.clients
  | .remove _ => True
  | .broadcast _ data _ => data ≠ []

instance (manager : ClientManager) (call : ManagerCall) :
    Decidable (manager.Allowed call) :=
  match call with
  | .add _ _ _ _ => inferInstanceAs (Decidable (¬ _))
  | .remove _ => isTrue trivial
  | .broadcast _ _ _ => inferInstanceAs (Decidable (¬ _))

/-- The clients that a call marks as slow. -/
def slowRises (before after : ClientManager) : Nat :=
  after.clients.countP fun fd =>
    decide (fd ∈ before.clients) && !(before.info fd).isSlow &&
      (after.info fd).isSlow

/-- How often in a run a client was marked as slow. -/
def totalRises (manager : ClientManager) : List ManagerCall → Nat
  | [] => 0
  | call :: calls =>
      slowRises manager (manager.step call).1 +
        (manager.step call).1.totalRises calls

/-! ## What the accounts say -/

structure Accounted (manager : ClientManager) (log : List CallRecord) :
    Prop where
  connected :
    manager.totalConnected =
      manager.totalDisconnected + UInt64.ofNat manager.count
  bytesSent :
    ∀ fd ∈ manager.clients,
      (manager.info fd).bytesSent =
        UInt64.ofNat
          ((sinceAdded fd log).flatMap (·.accepted fd)).length
  isSlow :
    ∀ fd ∈ manager.clients,
      ((manager.info fd).isSlow = true ↔
        ((sinceAdded fd log).flatMap (·.answersTo fd)).getLast? =
          some .wouldBlock)

/-- A call closes, once, each client that leaves, and the descriptor that it
fails to add, which is then not managed. -/
structure ClosesLeavers (manager : ClientManager) (call : ManagerCall) :
    Prop where
  closes :
    ∀ fd,
      (manager.step call).2.count (.close fd) =
        if (fd ∈ manager.clients ∧ fd ∉ (manager.step call).1.clients) ∨
            call.refuses fd then
          1
        else
          0
  refused :
    ∀ fd, call.refuses fd → fd ∉ (manager.step call).1.clients

/-- The counters of a client are those of the messages that the kernel
accepted completely for it. -/
def CountsDelivered (manager : ClientManager) (log : List CallRecord)
    (fd : Nat) : Prop :=
  let delivered := (sinceAdded fd log).filterMap (·.delivered fd)
  (manager.info fd).msgsSent = UInt64.ofNat delivered.length ∧
    (manager.info fd).bytesSent = UInt64.ofNat delivered.flatten.length

/-- Since a client was added, the messages that were given up for it and the
bytes that the kernel had accepted of them count to zero in 64 bits. -/
def GivesUpNothing (log : List CallRecord) (fd : Nat) : Prop :=
  let givenUp := (sinceAdded fd log).filter (·.refused fd)
  givenUp.length % 2 ^ 64 = 0 ∧
    (givenUp.flatMap (·.accepted fd)).length % 2 ^ 64 = 0

end ClientManager

/-! ## The answers to one message -/

theorem wouldBlock_mem_sendCalls_iff
    (outcomes : List SendOutcome) (data : List UInt8) :
    .wouldBlock ∈ (sendCalls outcomes data).map Prod.snd ↔
      (sendLoop outcomes data).2 = .slow := by
  fun_induction sendCalls outcomes data with
  | case1 outcomes =>
      cases outcomes <;> simp [sendLoop]
  | case2 byte rest =>
      simp [sendLoop]
  | case3 extra outcomes byte rest inductionHypothesis =>
      simpa [sendLoop] using inductionHypothesis
  | case4 outcomes byte rest =>
      simp [sendLoop]
  | case5 outcomes byte rest =>
      simp [sendLoop]

theorem sendCalls_ne_nil
    (outcomes : List SendOutcome) {data : List UInt8} (some_ : data ≠ []) :
    (sendCalls outcomes data).map Prod.snd ≠ [] := by
  fun_cases sendCalls outcomes data <;> simp_all

/-- Would-block is the last answer to a message. -/
theorem getLast?_sendCalls_slow
    {outcomes : List SendOutcome} {data : List UInt8}
    (slow : (sendLoop outcomes data).2 = .slow) :
    ((sendCalls outcomes data).map Prod.snd).getLast? =
      some .wouldBlock := by
  fun_induction sendCalls outcomes data with
  | case1 outcomes =>
      cases outcomes <;> cases slow
  | case2 byte rest =>
      cases slow
  | case3 extra outcomes byte rest inductionHypothesis =>
      have later := inductionHypothesis slow
      rw [List.map_cons, List.getLast?_cons, later]
      rfl
  | case4 outcomes byte rest =>
      rfl
  | case5 outcomes byte rest =>
      cases slow

theorem flatMap_bytes_sendCalls
    (outcomes : List SendOutcome) (data : List UInt8) :
    ((sendCalls outcomes data).map Prod.snd).flatMap SendAnswer.bytes =
      (sendLoop outcomes data).1.flatten := by
  rw [← sendCalls_sendLoop, List.flatMap_map]
  rfl

/-! ## What a call does to a client -/

theorem sinceAdded_concat
    (fd : Nat) (log : List CallRecord) (record : CallRecord) :
    sinceAdded fd (log ++ [record]) =
      if record.call.adds fd then [] else sinceAdded fd log ++ [record] := by
  rw [sinceAdded, List.foldl_concat]
  rfl

namespace ClientManager

variable {manager : ClientManager} {fd : Nat}

/-- What a call does to a client that is managed afterwards. -/
inductive ClientStep (fd : Nat) (manager : ClientManager)
    (call : ManagerCall) : Prop
  | added (remoteAddr : String) (now : Nat) :
      call.adds fd →
      (manager.step call).1.info fd = ClientInfo.new fd remoteAddr now →
      ClientStep fd manager call
  | quiet :
      call.adds fd = false →
      fd ∈ manager.clients →
      call.message = none →
      CallRecord.answersTo fd ⟨call, (manager.step call).2⟩ = [] →
      (manager.step call).1.info fd = manager.info fd →
      ClientStep fd manager call
  | served {data : List UInt8} {outcomes : List SendOutcome} :
      call.adds fd = false →
      fd ∈ manager.clients →
      call.message = some data →
      CallRecord.answersTo fd ⟨call, (manager.step call).2⟩ =
        (sendCalls outcomes data).map Prod.snd →
      (sendLoop outcomes data).2 ≠ .drop →
      (manager.step call).1.info fd =
        (manager.info fd).afterSend data outcomes →
      ClientStep fd manager call

theorem mem_clients_add (remoteAddr : String) (now : Nat) {other : Nat} :
    fd ∈ (manager.add other remoteAddr now true).1.1.clients ↔
      fd = other ∨ fd ∈ manager.clients :=
  List.mem_insert_iff

theorem mem_clients_remove {other : Nat} :
    fd ∈ (manager.remove other).1.clients ↔
      fd ≠ other ∧ fd ∈ manager.clients := by
  rw [remove]
  split
  · exact manager.nodup.mem_erase_iff
  · rename_i absent
    constructor
    · intro managed
      exact ⟨ne_of_mem_of_not_mem managed absent, managed⟩
    · exact And.right

theorem clientStep
    {call : ManagerCall} (allowed : manager.Allowed call)
    (managed : fd ∈ (manager.step call).1.clients) :
    ClientStep fd manager call := by
  cases call with
  | add other remoteAddr now registered =>
      cases registered with
      | false =>
          exact .quiet (by simp [ManagerCall.adds]) managed rfl rfl rfl
      | true =>
          have fresh : other ∉ manager.clients := allowed
          by_cases same : other = fd
          · subst same
            apply ClientStep.added remoteAddr now
            · simp [ManagerCall.adds]
            · simp [step, add, fresh]
          · have old : fd ∈ manager.clients :=
              ((mem_clients_add remoteAddr now).mp managed).resolve_left
                (Ne.symm same)
            apply ClientStep.quiet _ old rfl rfl
            · simp [step, add, fresh, Ne.symm same]
            · simp [ManagerCall.adds, same]
  | remove other =>
      obtain ⟨_, old⟩ := mem_clients_remove.mp managed
      apply ClientStep.quiet rfl old rfl
      · rw [step, remove]
        split <;> rfl
      · rw [step, remove]
        split <;> rfl
  | broadcast order data sends =>
      obtain ⟨old, kept⟩ := mem_clients_broadcast.mp managed
      obtain ⟨clients, nodup, same, ordered⟩ := manager.reorder_eq order
      have here : fd ∈ manager.clients := by
        rw [ordered] at old
        exact same.mem_iff.mp old
      apply ClientStep.served rfl here rfl _ kept
      · rw [step, broadcast_eq]
        change (if fd ∈ (manager.reorder order).clients then _ else _) = _
        rw [if_pos old, ordered]
      · rw [CallRecord.answersTo, step, filterMap_sendTo_broadcast,
          if_pos old]

end ClientManager

/-! ## The account of one client -/

/-- A message is either accepted completely or given up at would-block, and
other calls send nothing. -/
def CallRecord.Settled (fd : Nat) (record : CallRecord) : Prop :=
  match record.call.message with
  | none => record.answersTo fd = []
  | some data =>
      record.accepted fd = data ↔ .wouldBlock ∉ record.answersTo fd

/-- An entry of the map against the records of its client. -/
structure ClientAccount (fd : Nat) (entry : ClientInfo)
    (records : List CallRecord) : Prop where
  msgsSent :
    entry.msgsSent =
      UInt64.ofNat (records.filterMap (·.call.message)).length
  bytesSent :
    entry.bytesSent =
      UInt64.ofNat (records.flatMap (·.accepted fd)).length
  isSlow :
    entry.isSlow = true ↔
      (records.flatMap (·.answersTo fd)).getLast? = some .wouldBlock
  settled : ∀ record ∈ records, record.Settled fd

namespace ClientAccount

variable {fd : Nat} {entry : ClientInfo} {records : List CallRecord}

theorem new (fd : Nat) (remoteAddr : String) (now : Nat) :
    ClientAccount fd (ClientInfo.new fd remoteAddr now) [] where
  msgsSent := rfl
  bytesSent := rfl
  isSlow := by
    simp [ClientInfo.new]
  settled := by
    simp

theorem quiet
    (account : ClientAccount fd entry records)
    {record : CallRecord} (noMessage : record.call.message = none)
    (noAnswers : record.answersTo fd = []) :
    ClientAccount fd entry (records ++ [record]) where
  msgsSent := by
    rw [account.msgsSent]
    simp [noMessage]
  bytesSent := by
    rw [account.bytesSent]
    simp [CallRecord.accepted, noAnswers]
  isSlow := by
    rw [account.isSlow]
    simp [noAnswers]
  settled := by
    intro other member
    rcases List.mem_append.mp member with earlier | last
    · exact account.settled other earlier
    · rw [List.mem_singleton.mp last, CallRecord.Settled, noMessage]
      exact noAnswers

theorem served
    (account : ClientAccount fd entry records)
    {record : CallRecord} {data : List UInt8}
    {outcomes : List SendOutcome}
    (some_ : data ≠ []) (message : record.call.message = some data)
    (answers :
      record.answersTo fd = (sendCalls outcomes data).map Prod.snd)
    (kept : (sendLoop outcomes data).2 ≠ .drop) :
    ClientAccount fd (entry.afterSend data outcomes)
      (records ++ [record]) := by
  have taken :
      record.accepted fd = (sendLoop outcomes data).1.flatten := by
    rw [CallRecord.accepted, answers, flatMap_bytes_sendCalls]
  have blocked := wouldBlock_mem_sendCalls_iff outcomes data
  constructor
  · rw [entry.afterSend_msgsSent kept, account.msgsSent,
      List.filterMap_append, List.length_append, UInt64.ofNat_add]
    simp [message]
  · rw [entry.afterSend_bytesSent kept, account.bytesSent,
      List.flatMap_append, List.flatMap_singleton, List.length_append,
      UInt64.ofNat_add, taken]
  · -- A message that is not empty has an answer, so the last one is its own.
    rw [entry.afterSend_isSlow kept, List.flatMap_append,
      List.flatMap_singleton, answers,
      List.getLast?_append_of_ne_nil _ (sendCalls_ne_nil outcomes some_)]
    constructor
    · exact getLast?_sendCalls_slow
    · intro last
      exact blocked.mp (List.mem_of_getLast? last)
  · intro other member
    rcases List.mem_append.mp member with earlier | here
    · exact account.settled other earlier
    · rw [List.mem_singleton.mp here, CallRecord.Settled, message, taken,
        answers]
      exact (sendLoop_complete_iff kept).trans (not_congr blocked).symm

end ClientAccount

namespace ClientManager

variable {manager : ClientManager}

/-! ## Clients that come and go -/

theorem connected_step
    {call : ManagerCall} (allowed : manager.Allowed call)
    (connected :
      manager.totalConnected =
        manager.totalDisconnected + UInt64.ofNat manager.count) :
    (manager.step call).1.totalConnected =
      (manager.step call).1.totalDisconnected +
        UInt64.ofNat (manager.step call).1.count := by
  cases call with
  | add fd remoteAddr now registered =>
      cases registered with
      | false =>
          exact connected
      | true =>
          have fresh : fd ∉ manager.clients := allowed
          change manager.totalConnected + 1 =
            manager.totalDisconnected +
              UInt64.ofNat (manager.clients.insert fd).length
          rw [List.length_insert_of_not_mem fresh, UInt64.ofNat_add,
            connected, UInt64.add_assoc]
          rfl
  | remove fd =>
      rw [step, remove]
      split
      · rename_i managed
        rw [count, ← List.length_erase_add_one managed, UInt64.ofNat_add,
          UInt64.add_comm (UInt64.ofNat _), ← UInt64.add_assoc] at connected
        exact connected
      · exact connected
  | broadcast order data sends =>
      obtain ⟨clients, nodup, same, ordered⟩ := manager.reorder_eq order
      have length : manager.count = clients.length := same.length_eq.symm
      have parts :
          clients.length =
            clients.countP (dropsClient data sends) +
              (clients.filter fun fd => !dropsClient data sends fd).length := by
        rw [← List.countP_eq_length_filter,
          List.length_eq_countP_add_countP (dropsClient data sends)]
        simp
      rw [length, parts, UInt64.ofNat_add, ← UInt64.add_assoc] at connected
      rw [step, ordered, broadcast_eq]
      exact connected

theorem count_close_sends (fds : List Nat) (data : List UInt8)
    (sends : Nat → List SendOutcome) (fd : Nat) :
    (fds.flatMap (managerSends data sends)).count (.close fd) = 0 := by
  apply List.count_eq_zero_of_not_mem
  simp [managerSends]

theorem count_close_removeCalls (fds : List Nat) (fd : Nat) :
    (fds.flatMap removeCalls).count (.close fd) = fds.count fd := by
  induction fds with
  | nil =>
      rfl
  | cons other fds inductionHypothesis =>
      rw [List.flatMap_cons, List.count_append, inductionHypothesis,
        List.count_cons, removeCalls, Nat.add_comm]
      by_cases same : other = fd
      · simp [same]
      · simp [same]

/-- A removal closes the client if it was managed. -/
theorem count_close_remove (manager : ClientManager) (other fd : Nat) :
    (manager.remove other).2.count (.close fd) =
      if fd ∈ manager.clients ∧ fd ∉ (manager.remove other).1.clients then
        1
      else
        0 := by
  simp only [mem_clients_remove]
  rw [remove]
  by_cases same : other = fd
  · subst same
    by_cases managed : other ∈ manager.clients <;>
      simp [managed]
  · have leaves :
        ¬ (fd ∈ manager.clients ∧ ¬ (fd ≠ other ∧ fd ∈ manager.clients)) := by
      rintro ⟨managed, left⟩
      exact left ⟨Ne.symm same, managed⟩
    rw [if_neg leaves]
    split <;> simp [same]

/-- A broadcast closes the clients that it drops, each once. -/
theorem count_close_broadcast
    (manager : ClientManager) (data : List UInt8)
    (sends : Nat → List SendOutcome) (fd : Nat) :
    (manager.broadcast data sends).2.count (.close fd) =
      if fd ∈ manager.clients ∧
          fd ∉ (manager.broadcast data sends).1.clients then
        1
      else
        0 := by
  rw [broadcast_eq, List.count_append, count_close_sends,
    count_close_removeCalls, Nat.zero_add,
    (manager.nodup.filter (dropsClient data sends)).count]
  apply if_congr _ rfl rfl
  simp only [List.mem_filter, not_and, Bool.not_eq_true', Bool.not_eq_false]
  constructor
  · intro dropped
    exact ⟨dropped.1, fun _ => dropped.2⟩
  · intro left
    exact ⟨left.1, left.2 left.1⟩

theorem closesLeavers
    {call : ManagerCall} (allowed : manager.Allowed call) :
    manager.ClosesLeavers call := by
  cases call with
  | add other remoteAddr now registered =>
      have fresh : other ∉ manager.clients := allowed
      cases registered with
      | false =>
          constructor
          · intro fd
            simp [step, add, ManagerCall.refuses, List.count_cons]
          · intro fd refuses
            have same : other = fd := by
              simpa [ManagerCall.refuses] using refuses
            rw [← same]
            exact fresh
      | true =>
          have stays (fd : Nat) (managed : fd ∈ manager.clients) :
              fd ∈ (manager.add other remoteAddr now true).1.1.clients :=
            (mem_clients_add remoteAddr now).mpr (Or.inr managed)
          constructor
          · intro fd
            rw [if_neg]
            · rfl
            · rintro (left | refuses)
              · exact left.2 (stays fd left.1)
              · simp [ManagerCall.refuses] at refuses
          · intro fd refuses
            simp [ManagerCall.refuses] at refuses
  | remove other =>
      constructor
      · intro fd
        have closed := manager.count_close_remove other fd
        simpa [step, ManagerCall.refuses] using closed
      · intro fd refuses
        cases refuses
  | broadcast order data sends =>
      obtain ⟨clients, nodup, same, ordered⟩ := manager.reorder_eq order
      constructor
      · intro fd
        have closed :=
          (manager.reorder order).count_close_broadcast data sends fd
        have old :
            fd ∈ (manager.reorder order).clients ↔ fd ∈ manager.clients := by
          rw [ordered]
          exact same.mem_iff
        simp only [old] at closed
        simpa [step, ManagerCall.refuses] using closed
      · intro fd refuses
        cases refuses

/-! ## Slow clients -/

/-- A call that changes no mark. -/
theorem slowRises_eq_zero
    {after : ClientManager}
    (same : ∀ fd ∈ after.clients, fd ∈ manager.clients →
      (after.info fd).isSlow = (manager.info fd).isSlow) :
    slowRises manager after = 0 := by
  rw [slowRises, List.countP_eq_zero]
  intro fd member rises
  simp only [Bool.and_eq_true, Bool.not_eq_true', decide_eq_true_eq]
    at rises
  rw [same fd member rises.1.1, rises.1.2] at rises
  cases rises.2

theorem totalSlow_step (call : ManagerCall) :
    (manager.step call).1.totalSlow =
      manager.totalSlow +
        UInt64.ofNat (slowRises manager (manager.step call).1) := by
  cases call with
  | add fd remoteAddr now registered =>
      cases registered with
      | false =>
          rw [slowRises_eq_zero]
          · exact (UInt64.add_zero _).symm
          · intro other _ _
            rfl
      | true =>
          rw [slowRises_eq_zero]
          · exact (UInt64.add_zero _).symm
          · intro other _ managed
            simp only [step, add, if_true]
            split
            · rfl
            · rename_i fresh
              rw [Function.update_of_ne]
              rintro rfl
              exact fresh managed
  | remove fd =>
      have kept : (manager.remove fd).1.info = manager.info := by
        rw [remove]
        split <;> rfl
      have slow : (manager.remove fd).1.totalSlow = manager.totalSlow := by
        rw [remove]
        split <;> rfl
      rw [slowRises_eq_zero]
      · rw [step, slow]
        exact (UInt64.add_zero _).symm
      · intro other _ _
        rw [step, kept]
  | broadcast order data sends =>
      obtain ⟨clients, nodup, same, ordered⟩ := manager.reorder_eq order
      have rises :
          slowRises manager
              (manager.step (.broadcast order data sends)).1 =
            clients.countP fun fd =>
              (manager.info fd).becomesSlow data (sends fd) := by
        rw [slowRises, step, ordered, broadcast_eq]
        simp only [List.countP_filter]
        apply List.countP_congr
        intro fd member
        have old := same.mem_iff.mp member
        simp only [served, if_pos member, old, decide_true, Bool.true_and]
        cases verdict : (sendLoop (sends fd) data).2 <;>
          simp [ClientInfo.becomesSlow, dropsClient,
            ClientInfo.afterSend, verdict]
      rw [rises, step, ordered, broadcast_eq]
      rfl

theorem totalSlow_run (calls : List ManagerCall) :
    (manager.run calls).1.totalSlow =
      manager.totalSlow + UInt64.ofNat (manager.totalRises calls) := by
  induction calls generalizing manager with
  | nil =>
      exact (UInt64.add_zero _).symm
  | cons call calls inductionHypothesis =>
      rw [run, Mealy.run_cons]
      change ((manager.step call).1.run calls).1.totalSlow = _
      rw [inductionHypothesis, totalSlow_step, totalRises,
        UInt64.ofNat_add, UInt64.add_assoc]

/-! ## Every state of a run -/

/-- The invariant of a run. -/
def Sound (manager : ClientManager) (log : List CallRecord) : Prop :=
  manager.totalConnected =
      manager.totalDisconnected + UInt64.ofNat manager.count ∧
    ∀ fd ∈ manager.clients,
      ClientAccount fd (manager.info fd) (sinceAdded fd log)

theorem sound_step
    {log : List CallRecord} {call : ManagerCall}
    (allowed : manager.Allowed call) (sound : manager.Sound log) :
    (manager.logStep call).1.Sound (log ++ (manager.logStep call).2) := by
  refine ⟨connected_step allowed sound.1, ?_⟩
  intro fd managed
  change ClientAccount fd ((manager.step call).1.info fd)
    (sinceAdded fd (log ++ [_]))
  rw [sinceAdded_concat]
  cases clientStep allowed managed with
  | added remoteAddr now adds info =>
      rw [if_pos adds, info]
      exact ClientAccount.new fd remoteAddr now
  | quiet stays old message answers info =>
      rw [if_neg (by rw [stays]; exact Bool.false_ne_true), info]
      exact (sound.2 fd old).quiet message answers
  | @served data outcomes stays old message answers kept info =>
      have some_ : data ≠ [] := by
        cases call with
        | broadcast order data sends =>
            cases message
            exact allowed
        | add other remoteAddr now registered =>
            cases message
        | remove other =>
            cases message
      rw [if_neg (by rw [stays]; exact Bool.false_ne_true), info]
      exact (sound.2 fd old).served some_ message answers kept

theorem sound_run
    {calls : List ManagerCall}
    (allowed : Mealy.Guarded logStep Allowed initial calls) :
    (initial.run calls).1.Sound (initial.run calls).2 := by
  apply Mealy.run_invariant logStep Sound _ _ allowed
  · intro manager past call now sound
    exact sound_step now sound
  · refine ⟨rfl, ?_⟩
    intro fd managed
    cases managed

/-- After any allowed calls, and at each of them. -/
theorem accounted_run
    (calls : List ManagerCall)
    (allowed : Mealy.Guarded logStep Allowed initial calls) :
    (initial.run calls).1.Accounted (initial.run calls).2 ∧
      (initial.run calls).1.totalSlow =
        UInt64.ofNat (initial.totalRises calls) ∧
      ∀ earlier call later,
        calls = earlier ++ call :: later →
          (initial.run earlier).1.ClosesLeavers call := by
  obtain ⟨connected, accounts⟩ := sound_run allowed
  refine ⟨⟨connected, ?_, ?_⟩, ?_, ?_⟩
  · intro fd managed
    exact (accounts fd managed).bytesSent
  · intro fd managed
    exact (accounts fd managed).isSlow
  · rw [totalSlow_run]
    exact UInt64.zero_add _
  · intro earlier call later split
    rw [split, Mealy.guarded_append] at allowed
    exact closesLeavers allowed.2.1

/-- Two clients, of which one is refused once and taken whole afterwards, and
one fails; a third descriptor is not registered. -/
theorem accounted_run_three :
    let calls : List ManagerCall :=
      [.add 3 "10.0.0.1" 0 true, .add 4 "10.0.0.2" 0 true,
        .add 5 "10.0.0.3" 0 false,
        .broadcast [4, 3] [1, 2] fun fd =>
          if fd = 3 then [.accept 0, .wouldBlock] else [.fail],
        .broadcast [] [7, 8] fun _ => []]
    (initial.run calls).1.Accounted (initial.run calls).2 ∧
      (initial.run calls).1.clients = [3] ∧
      ((initial.run calls).1.info 3).bytesSent = 3 ∧
      (initial.run calls).1.totalSlow = 1 := by
  intro calls
  have allowed : Mealy.Guarded logStep Allowed initial calls := by
    decide
  refine ⟨(accounted_run calls allowed).1, ?_, ?_, ?_⟩
  · decide
  · decide
  · decide

/-! ## Messages that were given up -/

/-- The records of a client are those of delivered messages and of messages
that were given up. -/
theorem settled_counts
    {fd : Nat} {records : List CallRecord}
    (settled : ∀ record ∈ records, record.Settled fd) :
    (records.filterMap (·.call.message)).length =
        (records.filterMap (·.delivered fd)).length +
          (records.filter (·.refused fd)).length ∧
      (records.flatMap (·.accepted fd)).length =
        (records.filterMap (·.delivered fd)).flatten.length +
          ((records.filter (·.refused fd)).flatMap
            (·.accepted fd)).length := by
  induction records with
  | nil =>
      exact ⟨rfl, rfl⟩
  | cons record records inductionHypothesis =>
      obtain ⟨messages, bytes⟩ :=
        inductionHypothesis fun other member =>
          settled other (List.mem_cons_of_mem record member)
      have here := settled record List.mem_cons_self
      rw [CallRecord.Settled] at here
      cases message : record.call.message with
      | none =>
          rw [message] at here
          have nothing : record.accepted fd = [] := by
            rw [CallRecord.accepted, here]
            rfl
          have none_ : record.delivered fd = none := by
            rw [CallRecord.delivered, message]
            rfl
          have kept : record.refused fd = false := by
            rw [CallRecord.refused, here]
            rfl
          simp [message, nothing, none_, kept, messages, bytes,
            -List.length_flatten, -List.length_flatMap]
      | some data =>
          rw [message] at here
          by_cases complete : record.accepted fd = data
          · have some_ : record.delivered fd = some data := by
              rw [CallRecord.delivered, message]
              simp [complete]
            have kept : record.refused fd = false :=
              decide_eq_false (here.mp complete)
            simp only [List.filterMap_cons, message, some_,
              List.length_cons, messages, kept, List.flatMap_cons,
              List.length_append, bytes, List.flatten_cons, complete,
              List.filter_cons, Bool.false_eq_true, if_false]
            omega
          · have none_ : record.delivered fd = none := by
              rw [CallRecord.delivered, message]
              simp [complete]
            have givenUp : record.refused fd = true :=
              decide_eq_true (by
                by_contra free
                exact complete (here.mpr free))
            simp only [List.filterMap_cons, message, none_,
              List.length_cons, messages, givenUp, List.flatMap_cons,
              List.length_append, bytes, List.filter_cons, if_true]
            omega

theorem ofNat_add_eq_left_iff (first second : Nat) :
    UInt64.ofNat (first + second) = UInt64.ofNat first ↔
      second % 2 ^ 64 = 0 := by
  rw [← UInt64.toNat_inj, UInt64.toNat_ofNat', UInt64.toNat_ofNat']
  omega

/-- The counters of a client are those of the delivered messages exactly when
no message was given up for it, counted in 64 bits. -/
theorem countsDelivered_iff
    (calls : List ManagerCall)
    (allowed : Mealy.Guarded logStep Allowed initial calls)
    {fd : Nat} (managed : fd ∈ (initial.run calls).1.clients) :
    (initial.run calls).1.CountsDelivered (initial.run calls).2 fd ↔
      GivesUpNothing (initial.run calls).2 fd := by
  have account := (sound_run allowed).2 fd managed
  obtain ⟨messages, bytes⟩ := settled_counts account.settled
  rw [CountsDelivered, GivesUpNothing, account.msgsSent,
    account.bytesSent, messages, bytes, ofNat_add_eq_left_iff,
    ofNat_add_eq_left_iff]

/-- A message in two parts: one message and two bytes. -/
theorem countsDelivered_iff_parts :
    let calls : List ManagerCall :=
      [.add 3 "10.0.0.1" 0 true,
        .broadcast [] [1, 2] fun _ => [.accept 0, .accept 0]]
    (initial.run calls).1.CountsDelivered (initial.run calls).2 3 := by
  intro calls
  have allowed : Mealy.Guarded logStep Allowed initial calls := by
    decide
  have managed : 3 ∈ (initial.run calls).1.clients := by
    decide
  apply (countsDelivered_iff calls allowed managed).mpr
  constructor <;> decide

/-- One byte of a message is taken and the next call would block. -/
theorem not_countsDelivered_interrupted :
    ¬ ∀ calls : List ManagerCall,
      Mealy.Guarded logStep Allowed initial calls →
        ∀ fd ∈ (initial.run calls).1.clients,
          (initial.run calls).1.CountsDelivered (initial.run calls).2
            fd := by
  intro counts
  have delivered :=
    counts
      [.add 3 "10.0.0.1" 0 true,
        .broadcast [] [1, 2] fun _ => [.accept 0, .wouldBlock]]
      (by decide) 3 (by decide)
  have none_ := delivered.1
  revert none_
  decide

end ClientManager

end MarketDataHandler
