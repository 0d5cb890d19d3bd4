import MarketDataHandler.Server.RunLoop
import Mathlib.Data.Finset.Basic

/-!
# Bookkeeping of connections

The run loop beside the kernel's table of descriptors.  A number that was
closed may come back from `accept4`, also within one batch of events.  The
kernel is assumed to answer `accept4` with a number that is not in use, and to
report in one batch only registered descriptors, each once.

From that follows that every event that is not for the listening socket is for
a client (`KernelLawful.guarded`).  With it each part of an iteration keeps
`clients_` equal to the connections that were accepted and not closed, and
every call of the loop is on one of these.
-/

namespace MarketDataHandler

/-! ## Descriptors -/

/-- The set of connections before and after a call. -/
def connectionsAfter (live : Finset Nat) : LoopOutput → Finset Nat
  | .accept (some fd) => insert fd live
  | .close fd => live.erase fd
  | _ => live

/-- The descriptors that were accepted in a trace and not closed since. -/
def acceptedNotClosed (trace : List LoopOutput) : Finset Nat :=
  trace.foldl connectionsAfter ∅

/-- The descriptor on which a call sends, receives or closes. -/
def LoopOutput.usedFd : LoopOutput → Option Nat
  | .send fd _ _ => some fd
  | .recv fd _ => some fd
  | .close fd => some fd
  | _ => none

/-- Every call that sends, receives or closes does so on a descriptor that is
open at that moment. -/
def UsesOpen : Finset Nat → List LoopOutput → Prop
  | _, [] => True
  | opened, call :: calls =>
      (∀ fd ∈ call.usedFd, fd ∈ opened) ∧
        UsesOpen (connectionsAfter opened call) calls

/-- Behind each time that a descriptor was accepted, and before it is accepted
again, it is closed at most once. -/
def ClosedAtMostOnce (trace : List LoopOutput) : Prop :=
  ∀ fd before during behind,
    trace = before ++ .accept (some fd) :: (during ++ behind) →
    .accept (some fd) ∉ during →
      during.count (.close fd) ≤ 1

/-- The present connection of a descriptor was answered `EAGAIN`. -/
def WasRefused (trace : List LoopOutput) (fd : Nat) : Prop :=
  ∃ data,
    .send fd data .wouldBlock ∈
      Mealy.since (.accept (some fd)) trace

/-- What the two sets of the loop and its calls have to do with the
connections.  `opened` are the descriptors that were open at the start. -/
structure Bookkeeping (opened : Finset Nat) (connections : Connections)
    (trace : List LoopOutput) : Prop where
  clients :
    ∀ fd, fd ∈ connections.clients ↔ fd ∈ acceptedNotClosed trace
  slowClients :
    ∀ fd,
      fd ∈ connections.slowClients ↔
        fd ∈ connections.clients ∧ WasRefused trace fd
  closedAtMostOnce : ClosedAtMostOnce trace
  usesOpen : UsesOpen opened trace

/-! ## The kernel -/

/-- What the kernel knows: the descriptors in use, and those registered with
the epoll instance. -/
structure Kernel where
  opened : Finset Nat
  registered : Finset Nat

def Kernel.after (kernel : Kernel) (call : LoopOutput) : Kernel where
  opened := connectionsAfter kernel.opened call
  registered :=
    match call with
    | .epollAdd fd => insert fd kernel.registered
    | .epollDel fd => kernel.registered.erase fd
    | _ => kernel.registered

/-- The loop and the kernel that it runs on. -/
structure HostedLoop (G : Type) extends RunLoop G where
  kernel : Kernel

namespace HostedLoop

variable {G : Type} (process : PriceProcess G)

def step (hosted : HostedLoop G) (part : LoopStep) :
    HostedLoop G × List LoopOutput :=
  let made := hosted.toRunLoop.step process part
  ({ toRunLoop := made.1
     kernel := made.2.foldl Kernel.after hosted.kernel },
    made.2)

def iterate (hosted : HostedLoop G) (inputs : Iteration) :
    HostedLoop G × List LoopOutput :=
  Mealy.run (step process) hosted inputs.steps

/-- `accept4` answers with a descriptor that is not in use. -/
def AcceptsFresh (hosted : HostedLoop G) : LoopStep → Prop
  | .event event =>
      event.fd = hosted.serverFd →
        ∀ fd ∈ event.accepted, fd ∉ hosted.kernel.opened
  | _ => True

/-- What is assumed of the kernel during an iteration. -/
structure KernelLawful (hosted : HostedLoop G) (inputs : Iteration) :
    Prop where
  once : (inputs.events.map ReadyEvent.fd).Nodup
  registered :
    ∀ event ∈ inputs.events, event.fd ∈ hosted.kernel.registered
  fresh :
    Mealy.Guarded (step process) AcceptsFresh hosted inputs.steps

/-- The server behind `start`: it listens and has no clients. -/
structure Started (hosted : HostedLoop G) : Prop where
  clients : hosted.clients = []
  slowClients : hosted.slowClients = []
  listening : hosted.serverFd ∈ hosted.kernel.opened
  registered : hosted.kernel.registered = {hosted.serverFd}

end HostedLoop

/-! ## Traces -/

theorem usesOpen_append
    (opened : Finset Nat) (first second : List LoopOutput) :
    UsesOpen opened (first ++ second) ↔
      UsesOpen opened first ∧
        UsesOpen (first.foldl connectionsAfter opened) second := by
  induction first generalizing opened with
  | nil =>
      simp [UsesOpen]
  | cons call calls inductionHypothesis =>
      rw [List.cons_append, UsesOpen, UsesOpen, inductionHypothesis,
        and_assoc]
      rfl

theorem connectionsAfter_mono
    {small large : Finset Nat} (included : small ⊆ large)
    (call : LoopOutput) :
    connectionsAfter small call ⊆ connectionsAfter large call := by
  unfold connectionsAfter
  split
  · exact Finset.insert_subset_insert _ included
  · exact Finset.erase_subset_erase _ included
  · exact included

/-- With more open descriptors the same calls are allowed. -/
theorem UsesOpen.mono
    {small large : Finset Nat} (included : small ⊆ large)
    {trace : List LoopOutput} (uses : UsesOpen small trace) :
    UsesOpen large trace := by
  induction trace generalizing small large with
  | nil =>
      exact trivial
  | cons call calls inductionHypothesis =>
      obtain ⟨now, later⟩ := uses
      refine ⟨fun fd used => included (now fd used), ?_⟩
      exact inductionHypothesis (connectionsAfter_mono included call) later

/-- A descriptor that is not accepted meanwhile is closed only while it is
open, so once at most. -/
theorem UsesOpen.count_close
    {opened : Finset Nat} {calls : List LoopOutput} {fd : Nat}
    (uses : UsesOpen opened calls)
    (unaccepted : .accept (some fd) ∉ calls) :
    calls.count (.close fd) ≤ if fd ∈ opened then 1 else 0 := by
  induction calls generalizing opened with
  | nil =>
      exact Nat.zero_le _
  | cons call calls inductionHypothesis =>
      obtain ⟨now, later⟩ := uses
      obtain ⟨first, rest⟩ := not_or.mp (List.mem_cons.not.mp unaccepted)
      have bound := inductionHypothesis later rest
      by_cases closes : call = .close fd
      · subst call
        have isOpen : fd ∈ opened := now fd rfl
        rw [connectionsAfter, if_neg (Finset.notMem_erase fd opened)]
          at bound
        rw [List.count_cons_self, if_pos isOpen]
        omega
      · have smaller :
            fd ∈ connectionsAfter opened call → fd ∈ opened := by
          intro member
          unfold connectionsAfter at member
          split at member
          · rcases Finset.mem_insert.mp member with rfl | old
            · exact absurd rfl first
            · exact old
          · exact Finset.mem_of_mem_erase member
          · exact member
        rw [List.count_cons_of_ne closes]
        by_cases isOpen : fd ∈ opened
        · rw [if_pos isOpen]
          exact bound.trans (by split <;> omega)
        · rw [if_neg (mt smaller isOpen)] at bound
          rw [if_neg isOpen]
          exact bound

theorem UsesOpen.closedAtMostOnce
    {opened : Finset Nat} {trace : List LoopOutput}
    (uses : UsesOpen opened trace) :
    ClosedAtMostOnce trace := by
  intro fd before during behind split unaccepted
  rw [split, usesOpen_append] at uses
  obtain ⟨_, _, rest⟩ := uses
  have inside := ((usesOpen_append _ during behind).mp rest).1
  exact (inside.count_close unaccepted).trans (by split <;> omega)

/-! ## Accounts

The account of a trace follows `clients_` and `slow_clients_` call by call. -/

structure Account where
  live : Finset Nat
  refused : Finset Nat

namespace Account

def empty : Account := ⟨∅, ∅⟩

def after (account : Account) (call : LoopOutput) : Account where
  live := connectionsAfter account.live call
  refused :=
    match call with
    | .accept (some fd) => account.refused.erase fd
    | .close fd => account.refused.erase fd
    | .send fd _ .wouldBlock => insert fd account.refused
    | _ => account.refused

theorem foldl_live (account : Account) (calls : List LoopOutput) :
    (calls.foldl after account).live =
      calls.foldl connectionsAfter account.live := by
  induction calls generalizing account with
  | nil =>
      rfl
  | cons call calls inductionHypothesis =>
      exact inductionHypothesis (account.after call)

end Account

theorem wasRefused_concat
    (trace : List LoopOutput) (call : LoopOutput) (fd : Nat) :
    WasRefused (trace ++ [call]) fd ↔
      call ≠ .accept (some fd) ∧
        (WasRefused trace fd ∨
          ∃ data, call = .send fd data .wouldBlock) := by
  by_cases accepts : call = .accept (some fd)
  · subst call
    simp [WasRefused]
  · have kept :
        Mealy.since (.accept (some fd)) (trace ++ [call]) =
          Mealy.since (.accept (some fd)) trace ++ [call] :=
      Mealy.since_append (by simpa using Ne.symm accepts) trace
    simp only [WasRefused, kept, List.mem_append, List.mem_singleton,
      exists_or, accepts, ne_eq, not_false_iff, true_and]
    simp only [eq_comm (a := call)]

/-- The account of a trace says which connections were refused. -/
theorem Account.mem_refused
    {trace : List LoopOutput} (uses : UsesOpen ∅ trace) (fd : Nat) :
    fd ∈ (trace.foldl Account.after Account.empty).refused ↔
      fd ∈ acceptedNotClosed trace ∧ WasRefused trace fd := by
  induction trace using List.reverseRecOn with
  | nil =>
      simp [Account.empty, acceptedNotClosed]
  | append_singleton trace call inductionHypothesis =>
      obtain ⟨past, now, _⟩ := (usesOpen_append ∅ trace [call]).mp uses
      have earlier := inductionHypothesis past
      rw [wasRefused_concat, acceptedNotClosed, List.foldl_concat,
        List.foldl_concat]
      change
        fd ∈ (Account.after _ call).refused ↔
          fd ∈ connectionsAfter (acceptedNotClosed trace) call ∧ _
      cases call with
      | accept result =>
          cases result with
          | none =>
              simpa [Account.after, connectionsAfter] using earlier
          | some newcomer =>
              by_cases same : fd = newcomer
              · subst newcomer
                simp [Account.after]
              · simp [Account.after, connectionsAfter, same,
                  Ne.symm same, earlier]
      | close closed =>
          by_cases same : fd = closed
          · subst closed
            simp [Account.after, connectionsAfter]
          · simp [Account.after, connectionsAfter, same, earlier]
      | send sender data answer =>
          -- what is sent on is a connection, so a refusal is accounted to one
          have live : sender ∈ acceptedNotClosed trace := now sender rfl
          cases answer with
          | wouldBlock =>
              by_cases same : fd = sender
              · subst sender
                simp [Account.after, connectionsAfter, live]
              · simp [Account.after, connectionsAfter, same,
                  Ne.symm same, earlier]
          | _ =>
              simpa [Account.after, connectionsAfter] using earlier
      | _ =>
          simpa [Account.after, connectionsAfter] using earlier

/-! ## One part of an iteration -/

/-- The two sets of the loop are those of the account, the kernel knows all
clients, and only they and the listening socket are registered. -/
structure Consistent (serverFd : Nat) (connections : Connections)
    (account : Account) (kernel : Kernel) : Prop where
  clients : ∀ fd, fd ∈ connections.clients ↔ fd ∈ account.live
  slowClients : ∀ fd, fd ∈ connections.slowClients ↔ fd ∈ account.refused
  slowNodup : connections.slowClients.Nodup
  refusedLive : account.refused ⊆ account.live
  opened : account.live ⊆ kernel.opened
  registered :
    ∀ fd ∈ kernel.registered, fd = serverFd ∨ fd ∈ account.live

/-- The calls lead from a consistent state to a consistent state, and are all
on clients. -/
def Accounted (serverFd : Nat) (account : Account) (kernel : Kernel)
    (calls : List LoopOutput) (connections : Connections) : Prop :=
  UsesOpen account.live calls ∧
    Consistent serverFd connections (calls.foldl Account.after account)
      (calls.foldl Kernel.after kernel)

/-- Calls one after the other. -/
theorem Accounted.append
    {serverFd : Nat} {account : Account} {kernel : Kernel}
    {first second : List LoopOutput} {middle final : Connections}
    (accounted : Accounted serverFd account kernel first middle)
    (next :
      Consistent serverFd middle (first.foldl Account.after account)
          (first.foldl Kernel.after kernel) →
        Accounted serverFd (first.foldl Account.after account)
          (first.foldl Kernel.after kernel) second final) :
    Accounted serverFd account kernel (first ++ second) final := by
  obtain ⟨uses, consistent⟩ := accounted
  obtain ⟨laterUses, laterConsistent⟩ := next consistent
  rw [Account.foldl_live] at laterUses
  refine ⟨(usesOpen_append _ _ _).mpr ⟨uses, laterUses⟩, ?_⟩
  rw [List.foldl_append, List.foldl_append]
  exact laterConsistent

namespace Consistent

variable {serverFd : Nat} {connections : Connections}
  {account : Account} {kernel : Kernel}

/-- A call that accepts, closes, registers and refuses nobody. -/
theorem call_quiet
    (consistent : Consistent serverFd connections account kernel)
    {call : LoopOutput}
    (allowed : ∀ fd ∈ call.usedFd, fd ∈ account.live)
    (sameAccount : account.after call = account)
    (sameKernel : kernel.after call = kernel) :
    Accounted serverFd account kernel [call] connections := by
  refine ⟨⟨allowed, trivial⟩, ?_⟩
  rw [List.foldl_cons, List.foldl_nil, List.foldl_cons, List.foldl_nil,
    sameAccount, sameKernel]
  exact consistent

theorem reorder
    (consistent : Consistent serverFd connections account kernel)
    (order : List Nat) :
    Consistent serverFd (connections.reorder order) account kernel := by
  have slow :
      (connections.reorder order).slowClients =
        connections.slowClients := by
    rw [Connections.reorder]
    split <;> rfl
  exact
    { consistent with
      clients := fun fd =>
        Connections.mem_clients_reorder.trans (consistent.clients fd)
      slowClients := fun fd => by
        rw [slow]
        exact consistent.slowClients fd
      slowNodup := by
        rw [slow]
        exact consistent.slowNodup }

theorem accept
    (consistent : Consistent serverFd connections account kernel)
    {fd : Nat} (fresh : fd ∉ kernel.opened) :
    Accounted serverFd account kernel [.accept (some fd), .epollAdd fd]
      (connections.handleNewConnection (some fd)).1 := by
  have notLive : fd ∉ account.live := mt (consistent.opened ·) fresh
  have notRefused : fd ∉ account.refused :=
    mt (consistent.refusedLive ·) notLive
  refine ⟨⟨by simp [LoopOutput.usedFd], by simp [LoopOutput.usedFd],
    trivial⟩, ?_⟩
  refine
    { clients := ?_
      slowClients := ?_
      slowNodup := consistent.slowNodup
      refusedLive := ?_
      opened := ?_
      registered := ?_ }
  · intro other
    simp [Connections.handleNewConnection, Account.after,
      connectionsAfter, consistent.clients]
  · intro other
    simp only [Connections.handleNewConnection, Account.after,
      List.foldl_cons, List.foldl_nil, Finset.erase_eq_of_notMem notRefused]
    exact consistent.slowClients other
  · simp only [Account.after, connectionsAfter, List.foldl_cons,
      List.foldl_nil, Finset.erase_eq_of_notMem notRefused]
    exact consistent.refusedLive.trans (Finset.subset_insert _ _)
  · exact Finset.insert_subset_insert fd consistent.opened
  · intro other member
    simp only [Kernel.after, List.foldl_cons, List.foldl_nil,
      Finset.mem_insert] at member
    simp only [Account.after, connectionsAfter, List.foldl_cons,
      List.foldl_nil, Finset.mem_insert]
    rcases member with rfl | old
    · exact Or.inr (Or.inl rfl)
    · rcases consistent.registered other old with listening | client
      · exact Or.inl listening
      · exact Or.inr (Or.inr client)

theorem disconnect
    (consistent : Consistent serverFd connections account kernel)
    {fd : Nat} (client : fd ∈ connections.clients) :
    Accounted serverFd account kernel (disconnectCalls fd)
      (connections.handleClientDisconnect fd).1 := by
  refine ⟨⟨by simp [LoopOutput.usedFd], ?_, trivial⟩, ?_⟩
  · intro used same
    cases same
    exact (consistent.clients fd).mp client
  refine
    { clients := ?_
      slowClients := ?_
      slowNodup := consistent.slowNodup.erase fd
      refusedLive := Finset.erase_subset_erase fd consistent.refusedLive
      opened := Finset.erase_subset_erase fd consistent.opened
      registered := ?_ }
  · intro other
    simp [Connections.handleClientDisconnect, disconnectCalls,
      Account.after, connectionsAfter, connections.nodup.mem_erase_iff,
      consistent.clients]
  · intro other
    simp [Connections.handleClientDisconnect, disconnectCalls,
      Account.after, consistent.slowNodup.mem_erase_iff,
      consistent.slowClients]
  · intro other member
    simp only [disconnectCalls, Kernel.after, List.foldl_cons,
      List.foldl_nil, Finset.mem_erase] at member
    simp only [disconnectCalls, Account.after, connectionsAfter,
      List.foldl_cons, List.foldl_nil, Finset.mem_erase]
    rcases consistent.registered other member.2 with listening | client
    · exact Or.inl listening
    · exact Or.inr ⟨member.1, client⟩

/-- The loop over `to_drop`. -/
theorem disconnectAll
    (consistent : Consistent serverFd connections account kernel)
    {fds : List Nat} (nodup : fds.Nodup)
    (clients : ∀ fd ∈ fds, fd ∈ connections.clients) :
    Accounted serverFd account kernel (fds.flatMap disconnectCalls)
      (Mealy.run Connections.handleClientDisconnect connections fds).1 := by
  induction fds generalizing connections account kernel with
  | nil =>
      exact ⟨trivial, consistent⟩
  | cons fd fds inductionHypothesis =>
      obtain ⟨fresh, rest⟩ := List.nodup_cons.mp nodup
      rw [List.flatMap_cons, Mealy.run_cons]
      apply (consistent.disconnect (clients fd List.mem_cons_self)).append
      intro next
      apply inductionHypothesis next rest
      intro other member
      apply connections.nodup.mem_erase_iff.mpr
      refine ⟨?_, clients other (List.mem_cons_of_mem fd member)⟩
      intro same
      exact fresh (same ▸ member)

/-- A call that is answered `EAGAIN`. -/
theorem refuse
    (consistent : Consistent serverFd connections account kernel)
    {fd : Nat} (client : fd ∈ connections.clients) (data : List UInt8) :
    Accounted serverFd account kernel [.send fd data .wouldBlock]
      { connections with
        slowClients := connections.slowClients.insert fd } := by
  have live : fd ∈ account.live := (consistent.clients fd).mp client
  refine ⟨⟨?_, trivial⟩, ?_⟩
  · intro used same
    cases same
    exact live
  refine
    { clients := consistent.clients
      slowClients := ?_
      slowNodup := consistent.slowNodup.insert
      refusedLive := Finset.insert_subset live consistent.refusedLive
      opened := consistent.opened
      registered := consistent.registered }
  intro other
  simp [Account.after, consistent.slowClients]

/-- The loop over the calls of `send` for one client. -/
theorem sendAll
    (consistent : Consistent serverFd connections account kernel)
    {fd : Nat} (client : fd ∈ connections.clients)
    (outcomes : List SendOutcome) (data : List UInt8) :
    Accounted serverFd account kernel
      ((sendCalls outcomes data).map fun call => .send fd call.1 call.2)
      { connections with
        slowClients :=
          if (sendLoop outcomes data).2 = .slow then
            connections.slowClients.insert fd
          else
            connections.slowClients } := by
  have quiet :
      ∀ data answer, answer ≠ .wouldBlock →
        Accounted serverFd account kernel [.send fd data answer]
          connections := by
    intro data answer taken
    apply consistent.call_quiet
    · intro used same
      cases same
      exact (consistent.clients fd).mp client
    · cases answer with
      | wouldBlock =>
          exact absurd rfl taken
      | _ =>
          rfl
    · rfl
  fun_induction sendCalls outcomes data with
  | case1 outcomes =>
      cases outcomes <;> exact ⟨trivial, consistent⟩
  | case2 byte rest =>
      exact quiet _ _ (by simp)
  | case3 extra outcomes byte rest inductionHypothesis =>
      exact (quiet (byte :: rest) (.took _) (by simp)).append
        fun _ => inductionHypothesis
  | case4 outcomes byte rest =>
      exact consistent.refuse client _
  | case5 outcomes byte rest =>
      exact quiet _ _ (by simp)

/-- The loop over the clients. -/
theorem serveAll
    (progress : List Nat × List Nat)
    (consistent :
      Consistent serverFd
        { connections with slowClients := progress.1 } account kernel)
    (data : List UInt8) (sends : Nat → List SendOutcome)
    {fds : List Nat} (clients : ∀ fd ∈ fds, fd ∈ connections.clients) :
    Accounted serverFd account kernel (fds.flatMap (clientCalls data sends))
      { connections with
        slowClients :=
          (Mealy.run (Connections.serveClient data sends) progress
            fds).1.1 } := by
  induction fds generalizing progress account kernel with
  | nil =>
      exact ⟨trivial, consistent⟩
  | cons fd fds inductionHypothesis =>
      have served :=
        consistent.sendAll (clients fd List.mem_cons_self) (sends fd) data
      have slow :
          (if (sendLoop (sends fd) data).2 = .slow then
              progress.1.insert fd
            else
              progress.1) =
            (Connections.serveClient data sends progress fd).1.1 := by
        rw [Connections.serveClient]
        cases (sendLoop (sends fd) data).2 <;> rfl
      simp only [slow] at served
      rw [List.flatMap_cons, Mealy.run_cons]
      apply served.append
      intro next
      apply inductionHypothesis _ next
      intro other member
      exact clients other (List.mem_cons_of_mem fd member)

theorem broadcast
    (consistent : Consistent serverFd connections account kernel)
    (data : List UInt8) (sends : Nat → List SendOutcome) :
    Accounted serverFd account kernel
      (broadcastCalls connections.clients data sends)
      (connections.broadcastMessage data sends).1 := by
  have dropped :=
    (Connections.run_serveClient data sends (connections.slowClients, [])
      connections.clients).1
  rw [List.nil_append] at dropped
  rw [broadcastCalls, Connections.broadcastMessage, ← dropped]
  apply
    Accounted.append
      (serveAll (connections.slowClients, []) consistent data sends
        fun _ member => member)
  intro next
  apply next.disconnectAll
  · rw [dropped]
    exact connections.nodup.filter _
  · intro fd member
    rw [dropped] at member
    exact List.mem_of_mem_filter member

end Consistent

namespace RunLoop

variable {G : Type} (process : PriceProcess G) (loop : RunLoop G)
  {account : Account} {kernel : Kernel}

theorem accounted_publishes
    (consistent :
      Consistent loop.serverFd loop.toConnections account kernel)
    {sends : Nat → List SendOutcome}
    {result : RunLoop G × List LoopOutput}
    (publishes : Publishes loop sends result) :
    Accounted loop.serverFd account kernel result.2
      result.1.toConnections := by
  cases publishes with
  | silent =>
      exact ⟨trivial, consistent⟩
  | message seqNo gen data =>
      exact consistent.broadcast data sends

theorem accounted_handleEvent
    (consistent :
      Consistent loop.serverFd loop.toConnections account kernel)
    {event : ReadyEvent}
    (registered : event.fd ∈ kernel.registered)
    (fresh :
      event.fd = loop.serverFd →
        ∀ fd ∈ event.accepted, fd ∉ kernel.opened) :
    Accounted loop.serverFd account kernel (loop.handleEvent event).2
      (loop.handleEvent event).1.toConnections := by
  have client :
      event.fd ≠ loop.serverFd → event.fd ∈ loop.clients := by
    intro other
    have live :=
      (consistent.registered event.fd registered).resolve_left other
    exact (consistent.clients event.fd).mpr live
  have reading {reads : List LoopOutput}
      (other : event.fd ≠ loop.serverFd)
      (shape : reads = [] ∨ reads = [.recv event.fd event.received]) :
      Accounted loop.serverFd account kernel reads
        loop.toConnections := by
    rcases shape with rfl | rfl
    · exact ⟨trivial, consistent⟩
    · apply consistent.call_quiet _ rfl rfl
      intro fd used
      cases used
      exact (consistent.clients event.fd).mp (client other)
  have handles := loop.handles_handleEvent event
  generalize loop.handleEvent event = result at handles ⊢
  cases handles with
  | accepts listening =>
      rw [handleNewConnection]
      cases accepted : event.accepted with
      | none =>
          exact consistent.call_quiet (by simp [LoopOutput.usedFd]) rfl rfl
      | some fd =>
          exact consistent.accept (fresh listening fd accepted)
  | keeps other shape positive =>
      exact reading other shape
  | closes other shape =>
      exact (reading other shape).append fun next =>
        next.disconnect (client other)

/-- One part of an iteration. -/
theorem accounted_step
    (consistent :
      Consistent loop.serverFd loop.toConnections account kernel)
    {part : LoopStep}
    (registered :
      ∀ event, part = .event event → event.fd ∈ kernel.registered)
    (fresh :
      ∀ event, part = .event event →
        event.fd = loop.serverFd →
          ∀ fd ∈ event.accepted, fd ∉ kernel.opened) :
    Accounted loop.serverFd account kernel (loop.step process part).2
      (loop.step process part).1.toConnections := by
  have quiet :
      ∀ call : LoopOutput,
        call = .epollWait ∨ (∃ now, call = .clock now) ∨
            call = .generate ∨ call = .reset →
          Accounted loop.serverFd account kernel [call]
            loop.toConnections := by
    intro call shape
    rcases shape with rfl | ⟨now, rfl⟩ | rfl | rfl <;>
      exact consistent.call_quiet (by simp [LoopOutput.usedFd]) rfl rfl
  cases part with
  | wait =>
      exact quiet _ (Or.inl rfl)
  | event event =>
      exact accounted_handleEvent loop consistent (registered event rfl)
        (fresh event rfl)
  | tick inputs =>
      rw [step, tick]
      split
      · apply (quiet (.clock inputs.now) (Or.inr (Or.inl ⟨_, rfl⟩))).append
        intro _
        apply (quiet .generate (Or.inr (Or.inr (Or.inl rfl)))).append
        intro _
        exact accounted_publishes
          { loop.reorder inputs.tickOrder with
            faultInjection := inputs.faultInjection }
          (consistent.reorder inputs.tickOrder)
          (publishes_generateAndBroadcast process _ _ _)
      · exact quiet _ (Or.inr (Or.inl ⟨_, rfl⟩))
  | second inputs =>
      rw [step, second]
      split
      · apply (quiet .reset (Or.inr (Or.inr (Or.inr rfl)))).append
        intro _
        exact accounted_publishes
          { loop.reorder inputs.heartbeatOrder with
            lastTick := inputs.now
            ticksThisSecond := 0 }
          (consistent.reorder inputs.heartbeatOrder)
          (publishes_broadcastHeartbeat _ _ _)
      · exact ⟨trivial, consistent⟩

end RunLoop

/-! ## Batches of events -/

namespace HostedLoop

variable {G : Type} (process : PriceProcess G)

/-- An event is for a registered descriptor at the moment it is handled. -/
def PartLawful (hosted : HostedLoop G) (part : LoopStep) : Prop :=
  (∀ event, part = .event event →
      event.fd ∈ hosted.kernel.registered) ∧
    hosted.AcceptsFresh part

/-- Handling an event leaves the other descriptors registered. -/
theorem registered_handleEvent
    (loop : RunLoop G) (kernel : Kernel) {event : ReadyEvent}
    {fd : Nat} (other : fd ≠ event.fd) (registered : fd ∈ kernel.registered) :
    fd ∈
      ((loop.handleEvent event).2.foldl Kernel.after kernel).registered := by
  have handles := loop.handles_handleEvent event
  generalize loop.handleEvent event = result at handles ⊢
  cases handles with
  | accepts listening =>
      rw [RunLoop.handleNewConnection]
      cases event.accepted with
      | none =>
          exact registered
      | some newcomer =>
          exact Finset.mem_insert_of_mem registered
  | keeps _ shape positive =>
      rcases shape with rfl | rfl <;> exact registered
  | closes _ shape =>
      rcases shape with rfl | rfl <;>
        exact Finset.mem_erase_of_ne_of_mem other registered

/-- In a batch without repetitions every event is for a descriptor that is
still registered when its turn comes. -/
theorem guarded_events
    {hosted : HostedLoop G} {events : List ReadyEvent}
    (once : (events.map ReadyEvent.fd).Nodup)
    (registered : ∀ event ∈ events, event.fd ∈ hosted.kernel.registered)
    (fresh :
      Mealy.Guarded (step process) AcceptsFresh hosted
        (events.map .event)) :
    Mealy.Guarded (step process) PartLawful hosted
      (events.map .event) := by
  induction events generalizing hosted with
  | nil =>
      exact trivial
  | cons event events inductionHypothesis =>
      obtain ⟨now, later⟩ := fresh
      obtain ⟨different, rest⟩ := List.nodup_cons.mp once
      refine ⟨⟨?_, now⟩, inductionHypothesis rest ?_ later⟩
      · intro handled same
        cases same
        exact registered event List.mem_cons_self
      · intro next member
        apply registered_handleEvent
        · intro same
          exact different (same ▸ List.mem_map_of_mem member)
        · exact registered next (List.mem_cons_of_mem event member)

theorem KernelLawful.guarded
    {hosted : HostedLoop G} {inputs : Iteration}
    (lawful : KernelLawful process hosted inputs) :
    Mealy.Guarded (step process) PartLawful hosted inputs.steps := by
  obtain ⟨once, registered, fresh⟩ := lawful
  rw [Iteration.steps, List.cons_append] at fresh ⊢
  obtain ⟨_, fresh⟩ := fresh
  have wait :
      PartLawful hosted .wait :=
    ⟨by simp, trivial⟩
  refine ⟨wait, ?_⟩
  rw [Mealy.guarded_append] at fresh ⊢
  refine ⟨guarded_events process once registered fresh.1, ?_⟩
  exact ⟨⟨by simp, trivial⟩, ⟨by simp, trivial⟩, trivial⟩

/-! ## Whole runs -/

/-- What every part of an iteration preserves. -/
def Sound (hosted : HostedLoop G) (trace : List LoopOutput) : Prop :=
  UsesOpen ∅ trace ∧
    Consistent hosted.serverFd hosted.toConnections
      (trace.foldl Account.after Account.empty) hosted.kernel

theorem sound_step
    {hosted : HostedLoop G} {past : List LoopOutput} {part : LoopStep}
    (lawful : PartLawful hosted part) (sound : Sound hosted past) :
    Sound (hosted.step process part).1
      (past ++ (hosted.step process part).2) := by
  obtain ⟨uses, consistent⟩ := sound
  have fresh :
      ∀ event, part = .event event →
        event.fd = hosted.serverFd →
          ∀ fd ∈ event.accepted, fd ∉ hosted.kernel.opened := by
    intro event same
    subst part
    exact lawful.2
  obtain ⟨used, next⟩ :=
    RunLoop.accounted_step process hosted.toRunLoop consistent lawful.1
      fresh
  refine ⟨?_, ?_⟩
  · rw [Account.foldl_live] at used
    exact (usesOpen_append _ _ _).mpr ⟨uses, used⟩
  · rw [List.foldl_append]
    change
      Consistent (hosted.toRunLoop.step process part).1.serverFd _ _ _
    rw [RunLoop.step_serverFd]
    exact next

theorem Started.sound
    {hosted : HostedLoop G} (started : Started hosted) :
    Sound hosted [] := by
  refine ⟨trivial, ?_⟩
  refine
    { clients := ?_
      slowClients := ?_
      slowNodup := ?_
      refusedLive := Finset.Subset.refl _
      opened := Finset.empty_subset _
      registered := ?_ }
  · simp [started.clients, Account.empty]
  · simp [started.slowClients, Account.empty]
  · simp [started.slowClients]
  · simp [started.registered]

theorem Sound.bookkeeping
    {hosted : HostedLoop G} {trace : List LoopOutput}
    (sound : Sound hosted trace) (opened : Finset Nat) :
    Bookkeeping opened hosted.toConnections trace := by
  obtain ⟨uses, consistent⟩ := sound
  have clients :
      ∀ fd, fd ∈ hosted.clients ↔ fd ∈ acceptedNotClosed trace := by
    intro fd
    rw [consistent.clients, Account.foldl_live]
    rfl
  refine
    { clients
      slowClients := ?_
      closedAtMostOnce := uses.closedAtMostOnce
      usesOpen := uses.mono (Finset.empty_subset opened) }
  intro fd
  rw [consistent.slowClients, Account.mem_refused uses, clients]

/-- In every state that the run loop reaches, also within an iteration, the
sets of the loop are those of its connections, no connection was closed twice,
and no call was on a descriptor that was not open. -/
theorem bookkeeping_of_kernelLawful
    {hosted : HostedLoop G} (started : Started hosted)
    (iterations : List Iteration) {last : Iteration}
    (lawful :
      Mealy.Guarded (iterate process) (KernelLawful process) hosted
        (iterations ++ [last]))
    {parts : List LoopStep} (reached : parts <+: last.steps) :
    Bookkeeping hosted.kernel.opened
      (Mealy.run (step process) hosted
        (iterations.flatMap Iteration.steps ++ parts)).1.toConnections
      (Mealy.run (step process) hosted
        (iterations.flatMap Iteration.steps ++ parts)).2 := by
  have guarded :=
    Mealy.guarded_flatMap (step process) Iteration.steps
      (fun _ _ => KernelLawful.guarded process) lawful
  obtain ⟨rest, split⟩ := reached
  rw [List.flatMap_append, List.flatMap_singleton, ← split,
    ← List.append_assoc, Mealy.guarded_append] at guarded
  apply Sound.bookkeeping
  exact
    Mealy.run_invariant (step process) Sound
      (fun _ _ _ => sound_step process) started.sound guarded.1

/-- A client connects; then it hangs up, its number is given to another client
in the same batch, and that one would block. -/
theorem bookkeeping_reused_descriptor :
    let hosted : HostedLoop Unit :=
      { RunLoop.idle with kernel := ⟨{3}, {3}⟩ }
    let connect : Iteration :=
      { Iteration.quiet 1000 0 with
        events := [⟨3, false, true, some 5, 0⟩] }
    let reconnect : Iteration :=
      { Iteration.quiet 1000 1000000 with
        events :=
          [⟨5, true, false, none, 0⟩, ⟨3, false, true, some 5, 0⟩]
        tickSends := fun _ => [.wouldBlock] }
    let reached :=
      Mealy.run (step PriceProcess.still) hosted
        ([connect].flatMap Iteration.steps ++ reconnect.steps)
    reached.1.clients = [5] ∧ reached.1.slowClients = [5] ∧
      Bookkeeping {3} reached.1.toConnections reached.2 := by
  intro hosted connect reconnect reached
  have started : Started hosted :=
    { clients := rfl
      slowClients := rfl
      listening := by decide
      registered := rfl }
  have connects : KernelLawful PriceProcess.still hosted connect :=
    { once := by decide
      registered := by decide
      fresh :=
        ⟨trivial, by rintro _ _ ⟨⟩; decide, trivial, trivial, trivial⟩ }
  have reconnects :
      KernelLawful PriceProcess.still
        (hosted.iterate PriceProcess.still connect).1 reconnect :=
    { once := by decide
      registered := by decide
      fresh :=
        ⟨trivial, by rintro _ _ ⟨⟩, by rintro _ _ ⟨⟩; decide, trivial,
          trivial, trivial⟩ }
  refine ⟨by decide, by decide, ?_⟩
  exact
    bookkeeping_of_kernelLawful PriceProcess.still started [connect]
      ⟨connects, reconnects, trivial⟩ (List.prefix_refl _)

end HostedLoop

end MarketDataHandler
