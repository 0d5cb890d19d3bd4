import MarketDataHandler.Server.RunLoop

/-!
# The client manager

`ClientManager` of `src/server/client_manager.cpp`, the broadcaster that keeps
an entry for each client.  The keys of `clients_` are a list without
repetitions in the present iteration order, and `info` has the entry of each.

The kernel's answers, the clock and the iteration order are inputs.  A `send`
that returns zero is treated like one with a hard error.
-/

namespace MarketDataHandler

structure ClientInfo where
  fd : Nat
  remoteAddr : String
  connectTime : Nat
  bytesSent : UInt64
  msgsSent : UInt64
  isSlow : Bool
  deriving DecidableEq, Repr

/-- The entry of a new client. -/
def ClientInfo.new (fd : Nat) (remoteAddr : String) (now : Nat) :
    ClientInfo where
  fd := fd
  remoteAddr := remoteAddr
  connectTime := now
  bytesSent := 0
  msgsSent := 0
  isSlow := false

/-- The system calls, with their answers where these matter. -/
inductive ManagerOutput where
  | epollAdd (fd : Nat) (registered : Bool)
  | epollDel (fd : Nat)
  | close (fd : Nat)
  | send (fd : Nat) (data : List UInt8) (answer : SendAnswer)
  deriving DecidableEq, Repr

/-- What a call of `send` for the given client is handed, and its answer. -/
def ManagerOutput.sendTo (fd : Nat) :
    ManagerOutput → Option (List UInt8 × SendAnswer)
  | .send other data answer =>
      if other = fd then some (data, answer) else none
  | _ => none

/-! ## Sending -/

/-- What the loop in `send_to` leaves behind. -/
structure SendProgress where
  calls : List (List UInt8 × SendAnswer)
  sentTotal : Nat
  verdict : SendVerdict
  deriving DecidableEq, Repr

/-- The loop in `send_to`.  A call is handed the bytes from `ptr + sent_total`
on; calls beyond the end of the outcomes take everything. -/
def sendToLoop (data : List UInt8) :
    List SendOutcome → Nat → Nat → SendProgress
  | _, sentTotal, 0 =>
      { calls := []
        sentTotal := sentTotal
        verdict := .whole }
  | [], sentTotal, remaining + 1 =>
      let handed := (data.drop sentTotal).take (remaining + 1)
      { calls := [(handed, .took handed)]
        sentTotal := sentTotal + (remaining + 1)
        verdict := .whole }
  | .accept extra :: outcomes, sentTotal, remaining + 1 =>
      let handed := (data.drop sentTotal).take (remaining + 1)
      let r := min (extra + 1) (remaining + 1)
      let later :=
        sendToLoop data outcomes (sentTotal + r) (remaining + 1 - r)
      { later with calls := (handed, .took (handed.take r)) :: later.calls }
  | .wouldBlock :: _, sentTotal, remaining + 1 =>
      let handed := (data.drop sentTotal).take (remaining + 1)
      { calls := [(handed, .wouldBlock)]
        sentTotal := sentTotal
        verdict := .slow }
  | .fail :: _, sentTotal, remaining + 1 =>
      let handed := (data.drop sentTotal).take (remaining + 1)
      { calls := [(handed, .failed)]
        sentTotal := sentTotal
        verdict := .drop }

/-! ## The manager -/

@[ext]
structure ClientManager where
  clients : List Nat
  nodup : clients.Nodup
  info : Nat → ClientInfo
  totalConnected : UInt64
  totalDisconnected : UInt64
  totalSlow : UInt64

namespace ClientManager

def initial : ClientManager where
  clients := []
  nodup := List.nodup_nil
  info := fun fd => ClientInfo.new fd "" 0
  totalConnected := 0
  totalDisconnected := 0
  totalSlow := 0

def count (manager : ClientManager) : Nat :=
  manager.clients.length

/-- `add` with the success of `epoll_ctl`.  `emplace` keeps an entry that is
there already. -/
def add (manager : ClientManager) (fd : Nat) (remoteAddr : String)
    (now : Nat) (registered : Bool) :
    (ClientManager × Bool) × List ManagerOutput :=
  if registered then
    (({ manager with
        clients := manager.clients.insert fd
        nodup := manager.nodup.insert
        info :=
          if fd ∈ manager.clients then
            manager.info
          else
            Function.update manager.info fd
              (ClientInfo.new fd remoteAddr now)
        totalConnected := manager.totalConnected + 1 }, true),
      [.epollAdd fd true])
  else
    ((manager, false), [.epollAdd fd false, .close fd])

def remove (manager : ClientManager) (fd : Nat) :
    ClientManager × List ManagerOutput :=
  if fd ∈ manager.clients then
    ({ manager with
        clients := manager.clients.erase fd
        nodup := manager.nodup.erase fd
        totalDisconnected := manager.totalDisconnected + 1 },
      [.epollDel fd, .close fd])
  else
    (manager, [])

/-- The branch of the loop in `send_to` for would-block. -/
def markSlow (manager : ClientManager) (fd : Nat) : ClientManager :=
  if (manager.info fd).isSlow then
    manager
  else
    { manager with
      info :=
        Function.update manager.info fd
          { manager.info fd with isSlow := true }
      totalSlow := manager.totalSlow + 1 }

/-- The statements behind the loop in `send_to`. -/
def recordSent (manager : ClientManager) (fd sentTotal len : Nat) :
    ClientManager :=
  let entry := manager.info fd
  { manager with
    info :=
      Function.update manager.info fd
        { entry with
          bytesSent := entry.bytesSent + UInt64.ofNat sentTotal
          msgsSent := entry.msgsSent + 1
          isSlow := if sentTotal = len then false else entry.isSlow } }

/-- After would-block the loop is left by `break`, after any other failure the
function returns. -/
def sendTo (manager : ClientManager) (fd : Nat) (data : List UInt8)
    (outcomes : List SendOutcome) :
    (ClientManager × Bool) × List ManagerOutput :=
  if fd ∈ manager.clients then
    let sent := sendToLoop data outcomes 0 data.length
    (match sent.verdict with
      | .whole =>
          (manager.recordSent fd sent.sentTotal data.length, true)
      | .slow =>
          ((manager.markSlow fd).recordSent fd sent.sentTotal data.length,
            true)
      | .drop => (manager, false),
      sent.calls.map fun call => .send fd call.1 call.2)
  else
    ((manager, false), [])

/-- The body of the loop over the clients.  The state is the manager and
`to_remove`. -/
def serve (data : List UInt8) (sends : Nat → List SendOutcome)
    (progress : ClientManager × List Nat) (fd : Nat) :
    (ClientManager × List Nat) × List ManagerOutput :=
  let sent := progress.1.sendTo fd data (sends fd)
  ((sent.1.1, if sent.1.2 then progress.2 else progress.2 ++ [fd]),
    sent.2)

def broadcast (manager : ClientManager) (data : List UInt8)
    (sends : Nat → List SendOutcome) :
    ClientManager × List ManagerOutput :=
  let served := Mealy.run (serve data sends) (manager, []) manager.clients
  let removed := Mealy.run remove served.1.1 served.1.2
  (removed.1, served.2 ++ removed.2)

/-- The iteration order of the map becomes another one. -/
def reorder (manager : ClientManager) (order : List Nat) : ClientManager :=
  if same : order.Perm manager.clients then
    { manager with
      clients := order
      nodup := same.nodup_iff.mpr manager.nodup }
  else
    manager

end ClientManager

/-! ## The loop over the calls of send -/

/-- The loop makes the calls that the loop of `broadcast_message` makes, and
counts what they take. -/
theorem sendToLoop_drop
    {data rest : List UInt8} {sentTotal : Nat}
    (split : data.drop sentTotal = rest) (outcomes : List SendOutcome) :
    sendToLoop data outcomes sentTotal rest.length =
      { calls := sendCalls outcomes rest
        sentTotal :=
          sentTotal + (sendLoop outcomes rest).1.flatten.length
        verdict := (sendLoop outcomes rest).2 } := by
  induction outcomes generalizing rest sentTotal with
  | nil =>
      cases rest with
      | nil =>
          rfl
      | cons byte rest =>
          simp [sendToLoop, split, sendCalls, sendLoop]
  | cons outcome outcomes inductionHypothesis =>
      cases rest with
      | nil =>
          cases outcome <;> rfl
      | cons byte rest =>
          have handed :
              (data.drop sentTotal).take (rest.length + 1) =
                byte :: rest := by
            rw [split]
            exact List.take_of_length_le (Nat.le_refl _)
          cases outcome with
          | accept extra =>
              have behind :
                  data.drop
                      (sentTotal + min (extra + 1) (byte :: rest).length) =
                    (byte :: rest).drop (extra + 1) := by
                rw [← List.drop_drop, split, ← List.drop_eq_drop_min]
              have left :
                  ((byte :: rest).drop (extra + 1)).length =
                    rest.length + 1 -
                      min (extra + 1) (rest.length + 1) := by
                rw [List.length_drop, List.length_cons]
                omega
              have taken :
                  (byte :: rest).take (min (extra + 1) (rest.length + 1)) =
                    (byte :: rest).take (extra + 1) := by
                rw [List.take_eq_take_min (i := extra + 1),
                  List.length_cons]
              have later := inductionHypothesis behind
              rw [left, List.length_cons] at later
              rw [List.length_cons, sendToLoop, handed]
              simp only [later, taken, sendCalls, sendLoop,
                List.flatten_cons, List.length_append, List.length_take,
                List.length_cons, Nat.add_assoc]
          | wouldBlock =>
              rw [List.length_cons, sendToLoop, handed]
              rfl
          | fail =>
              rw [List.length_cons, sendToLoop, handed]
              rfl

theorem sendToLoop_start
    (data : List UInt8) (outcomes : List SendOutcome) :
    sendToLoop data outcomes 0 data.length =
      { calls := sendCalls outcomes data
        sentTotal := (sendLoop outcomes data).1.flatten.length
        verdict := (sendLoop outcomes data).2 } := by
  have made := sendToLoop_drop (List.drop_zero (l := data)) outcomes
  rw [Nat.zero_add] at made
  exact made

/-- Would-block is answered before the message has been taken. -/
theorem sendLoop_slow_length
    {outcomes : List SendOutcome} {data : List UInt8}
    (slow : (sendLoop outcomes data).2 = .slow) :
    (sendLoop outcomes data).1.flatten.length < data.length := by
  induction outcomes generalizing data with
  | nil =>
      cases data <;> cases slow
  | cons outcome outcomes inductionHypothesis =>
      cases data with
      | nil =>
          cases slow
      | cons byte rest =>
          cases outcome with
          | accept extra =>
              have later := inductionHypothesis slow
              rw [List.length_drop] at later
              rw [sendLoop, List.flatten_cons, List.length_append,
                List.length_take]
              omega
          | wouldBlock =>
              exact Nat.succ_pos _
          | fail =>
              cases slow

/-- A message that is not given up, nor its client, is taken completely. -/
theorem sendLoop_complete_iff
    {outcomes : List SendOutcome} {data : List UInt8}
    (kept : (sendLoop outcomes data).2 ≠ .drop) :
    (sendLoop outcomes data).1.flatten = data ↔
      (sendLoop outcomes data).2 ≠ .slow := by
  constructor
  · intro complete slow
    have short := sendLoop_slow_length slow
    rw [complete] at short
    exact Nat.lt_irrefl _ short
  · intro notSlow
    apply sendLoop_whole
    cases verdict : (sendLoop outcomes data).2 with
    | whole =>
        rfl
    | slow =>
        exact absurd verdict notSlow
    | drop =>
        exact absurd verdict kept

/-! ## One client -/

namespace ClientInfo

/-- What `send_to` does to the entry of its client. -/
def afterSend (entry : ClientInfo) (data : List UInt8)
    (outcomes : List SendOutcome) : ClientInfo :=
  match (sendLoop outcomes data).2 with
  | .whole =>
      { entry with
        bytesSent := entry.bytesSent + UInt64.ofNat data.length
        msgsSent := entry.msgsSent + 1
        isSlow := false }
  | .slow =>
      { entry with
        bytesSent :=
          entry.bytesSent +
            UInt64.ofNat (sendLoop outcomes data).1.flatten.length
        msgsSent := entry.msgsSent + 1
        isSlow := true }
  | .drop => entry

/-- `send_to` marks a client as slow that was not marked. -/
def becomesSlow (entry : ClientInfo) (data : List UInt8)
    (outcomes : List SendOutcome) : Bool :=
  !entry.isSlow && decide ((sendLoop outcomes data).2 = .slow)

section Kept

variable {data : List UInt8} {outcomes : List SendOutcome}
  (entry : ClientInfo) (kept : (sendLoop outcomes data).2 ≠ .drop)

include kept

theorem afterSend_msgsSent :
    (entry.afterSend data outcomes).msgsSent = entry.msgsSent + 1 := by
  rw [afterSend]
  split
  · rfl
  · rfl
  · rename_i drop
    exact absurd drop kept

theorem afterSend_bytesSent :
    (entry.afterSend data outcomes).bytesSent =
      entry.bytesSent +
        UInt64.ofNat (sendLoop outcomes data).1.flatten.length := by
  rw [afterSend]
  split
  · rename_i whole
    rw [sendLoop_whole whole]
  · rfl
  · rename_i drop
    exact absurd drop kept

theorem afterSend_isSlow :
    (entry.afterSend data outcomes).isSlow = true ↔
      (sendLoop outcomes data).2 = .slow := by
  rw [afterSend]
  split
  · rename_i whole
    simp [whole]
  · rename_i slow
    simp [slow]
  · rename_i drop
    exact absurd drop kept

end Kept

end ClientInfo

/-- The message makes the manager remove the client. -/
def dropsClient (data : List UInt8) (sends : Nat → List SendOutcome)
    (fd : Nat) : Bool :=
  decide ((sendLoop (sends fd) data).2 = .drop)

/-- The calls of `send` for one client. -/
def managerSends (data : List UInt8) (sends : Nat → List SendOutcome)
    (fd : Nat) : List ManagerOutput :=
  (sendCalls (sends fd) data).map fun call => .send fd call.1 call.2

def removeCalls (fd : Nat) : List ManagerOutput :=
  [.epollDel fd, .close fd]

namespace ClientManager

variable {manager : ClientManager} {data : List UInt8}
  {sends : Nat → List SendOutcome}

theorem sendTo_eq {fd : Nat} (managed : fd ∈ manager.clients) :
    manager.sendTo fd data (sends fd) =
      (({ manager with
          info :=
            Function.update manager.info fd
              ((manager.info fd).afterSend data (sends fd))
          totalSlow :=
            manager.totalSlow +
              if (manager.info fd).becomesSlow data (sends fd) then 1
              else 0 },
          !dropsClient data sends fd),
        managerSends data sends fd) := by
  rw [sendTo, if_pos managed, sendToLoop_start]
  cases verdict : (sendLoop (sends fd) data).2 with
  | whole =>
      have all := congrArg List.length (sendLoop_whole verdict)
      simp [recordSent, all, ClientInfo.afterSend, verdict,
        ClientInfo.becomesSlow, dropsClient, managerSends]
  | slow =>
      have part := sendLoop_slow_length verdict
      -- Only a client that was not marked is counted.
      cases before : (manager.info fd).isSlow <;>
        simp [recordSent, markSlow, before, ClientInfo.afterSend,
          verdict, ClientInfo.becomesSlow, dropsClient, managerSends,
          Nat.ne_of_lt part, -List.length_flatten]
  | drop =>
      simp [ClientInfo.afterSend, verdict, ClientInfo.becomesSlow,
        dropsClient, managerSends]

/-! ## One broadcast -/

/-- The manager behind the loop over some of its clients. -/
def served (manager : ClientManager) (data : List UInt8)
    (sends : Nat → List SendOutcome) (fds : List Nat) : ClientManager :=
  { manager with
    info := fun fd =>
      if fd ∈ fds then
        (manager.info fd).afterSend data (sends fd)
      else
        manager.info fd
    totalSlow :=
      manager.totalSlow +
        UInt64.ofNat
          (fds.countP fun fd =>
            (manager.info fd).becomesSlow data (sends fd)) }

theorem served_totalSlow (fds : List Nat) :
    (manager.served data sends fds).totalSlow =
      manager.totalSlow +
        UInt64.ofNat
          (fds.countP fun fd =>
            (manager.info fd).becomesSlow data (sends fd)) :=
  rfl

theorem serve_eq
    {fd : Nat} (managed : fd ∈ manager.clients) (toRemove : List Nat) :
    serve data sends (manager, toRemove) fd =
      ((manager.served data sends [fd],
          toRemove ++ [fd].filter (dropsClient data sends)),
        managerSends data sends fd) := by
  have entries :
      (fun other =>
          if other ∈ [fd] then
            (manager.info other).afterSend data (sends other)
          else
            manager.info other) =
        Function.update manager.info fd
          ((manager.info fd).afterSend data (sends fd)) := by
    funext other
    by_cases same : other = fd
    · subst same
      simp
    · simp [same]
  have slow :
      UInt64.ofNat
          ([fd].countP fun other =>
            (manager.info other).becomesSlow data (sends other)) =
        if (manager.info fd).becomesSlow data (sends fd) then 1 else 0 := by
    rw [List.countP_singleton]
    split <;> rfl
  rw [serve, sendTo_eq managed, served, entries, slow]
  cases dropped : dropsClient data sends fd <;> simp [dropped]

theorem served_cons
    {fd : Nat} {fds : List Nat} (fresh : fd ∉ fds) :
    (manager.served data sends [fd]).served data sends fds =
      manager.served data sends (fd :: fds) := by
  have kept : ∀ other ∈ fds,
      (manager.served data sends [fd]).info other = manager.info other := by
    intro other member
    apply if_neg
    rw [List.mem_singleton]
    exact ne_of_mem_of_not_mem member fresh
  have slow :
      (fds.countP fun other =>
          ((manager.served data sends [fd]).info other).becomesSlow data
            (sends other)) =
        fds.countP fun other =>
          (manager.info other).becomesSlow data (sends other) := by
    apply List.countP_congr
    intro other member
    rw [kept other member]
  refine ClientManager.ext rfl ?_ rfl rfl ?_
  · funext other
    simp only [served, List.mem_cons]
    by_cases member : other ∈ fds
    · have apart : other ≠ fd := ne_of_mem_of_not_mem member fresh
      simp [member, apart]
    · simp [member]
  · rw [served_totalSlow, slow, served_totalSlow, served_totalSlow,
      ← List.singleton_append (x := fd) (l := fds), List.countP_append,
      UInt64.ofNat_add, UInt64.add_assoc]

/-- Every client is served from the entry that it had before the loop. -/
theorem run_serve
    {fds : List Nat} (nodup : fds.Nodup)
    (managed : ∀ fd ∈ fds, fd ∈ manager.clients) (toRemove : List Nat) :
    Mealy.run (serve data sends) (manager, toRemove) fds =
      ((manager.served data sends fds,
          toRemove ++ fds.filter (dropsClient data sends)),
        fds.flatMap (managerSends data sends)) := by
  induction fds generalizing manager toRemove with
  | nil =>
      simp [served]
  | cons fd fds inductionHypothesis =>
      obtain ⟨fresh, distinct⟩ := List.nodup_cons.mp nodup
      have here := managed fd List.mem_cons_self
      have later :
          ∀ other ∈ fds,
            other ∈ (manager.served data sends [fd]).clients := by
        intro other member
        exact managed other (List.mem_cons_of_mem fd member)
      rw [Mealy.run_cons, serve_eq here,
        inductionHypothesis distinct later, served_cons fresh,
        List.append_assoc, ← List.filter_append, List.flatMap_cons]
      rfl

/-- Removing clients one after the other. -/
theorem run_remove
    {fds : List Nat} (nodup : fds.Nodup)
    (managed : ∀ fd ∈ fds, fd ∈ manager.clients) :
    Mealy.run remove manager fds =
      ({ manager with
          clients := manager.clients.filter fun fd => fd ∉ fds
          nodup := manager.nodup.filter _
          totalDisconnected :=
            manager.totalDisconnected + UInt64.ofNat fds.length },
        fds.flatMap removeCalls) := by
  induction fds generalizing manager with
  | nil =>
      simp
  | cons fd fds inductionHypothesis =>
      obtain ⟨fresh, distinct⟩ := List.nodup_cons.mp nodup
      have here := managed fd List.mem_cons_self
      have later :
          ∀ other ∈ fds, other ∈ (manager.remove fd).1.clients := by
        intro other member
        rw [remove, if_pos here]
        apply (manager.nodup.mem_erase_iff).mpr
        exact ⟨ne_of_mem_of_not_mem member fresh,
          managed other (List.mem_cons_of_mem fd member)⟩
      rw [Mealy.run_cons, inductionHypothesis distinct later, remove,
        if_pos here, List.flatMap_cons]
      refine Prod.ext (ClientManager.ext ?_ rfl rfl ?_ rfl) rfl
      · simp only [manager.nodup.erase_eq_filter, List.filter_filter]
        apply List.filter_congr
        intro other _
        rw [Bool.eq_iff_iff]
        simp [and_comm]
      · simp only [List.length_cons, Nat.add_comm fds.length 1,
          UInt64.ofNat_add, ← UInt64.add_assoc]
        rfl

/-- A broadcast, in closed form. -/
theorem broadcast_eq (manager : ClientManager) (data : List UInt8)
    (sends : Nat → List SendOutcome) :
    manager.broadcast data sends =
      ({ manager.served data sends manager.clients with
          clients :=
            manager.clients.filter fun fd => !dropsClient data sends fd
          nodup := manager.nodup.filter _
          totalDisconnected :=
            manager.totalDisconnected +
              UInt64.ofNat (manager.clients.countP (dropsClient data sends)) },
        manager.clients.flatMap (managerSends data sends) ++
          (manager.clients.filter (dropsClient data sends)).flatMap
            removeCalls) := by
  have dropped :
      ∀ fd ∈ manager.clients.filter (dropsClient data sends),
        fd ∈ (manager.served data sends manager.clients).clients := by
    intro fd member
    exact List.mem_of_mem_filter member
  rw [broadcast, run_serve manager.nodup (fun _ member => member),
    List.nil_append, run_remove (manager.nodup.filter _) dropped]
  refine Prod.ext (ClientManager.ext ?_ rfl rfl ?_ rfl) rfl
  · apply List.filter_congr
    intro fd member
    have here : fd ∈ manager.clients := member
    simp [here]
  · rw [List.countP_eq_length_filter]
    rfl

theorem mem_clients_broadcast
    {fd : Nat} :
    fd ∈ (manager.broadcast data sends).1.clients ↔
      fd ∈ manager.clients ∧ (sendLoop (sends fd) data).2 ≠ .drop := by
  rw [broadcast_eq]
  simp [dropsClient]

/-- The calls of `send` for one client in a broadcast. -/
theorem filterMap_sendTo_broadcast
    (manager : ClientManager) (data : List UInt8)
    (sends : Nat → List SendOutcome) (fd : Nat) :
    (manager.broadcast data sends).2.filterMap (ManagerOutput.sendTo fd) =
      if fd ∈ manager.clients then sendCalls (sends fd) data else [] := by
  have removed (fds : List Nat) :
      (fds.flatMap removeCalls).filterMap (ManagerOutput.sendTo fd) =
        [] := by
    rw [List.filterMap_flatMap, List.flatMap_eq_nil_iff]
    intro other _
    rfl
  rw [broadcast_eq, List.filterMap_append, removed, List.append_nil]
  apply filterMap_flatMap_map manager.nodup
  · intro call
    exact if_pos rfl
  · intro other different call
    exact if_neg different

/-- A new iteration order leaves everything else as it is. -/
theorem reorder_eq (manager : ClientManager) (order : List Nat) :
    ∃ clients nodup,
      clients.Perm manager.clients ∧
        manager.reorder order =
          { manager with
            clients := clients
            nodup := nodup } := by
  rw [reorder]
  split
  · rename_i same
    exact ⟨order, same.nodup_iff.mpr manager.nodup, same, rfl⟩
  · exact ⟨manager.clients, manager.nodup, List.Perm.refl _, rfl⟩

end ClientManager

end MarketDataHandler
