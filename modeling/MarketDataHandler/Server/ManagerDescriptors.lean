import MarketDataHandler.Lib.HandleLedger
import MarketDataHandler.Server.ManagerAccounts

/-!
# The descriptors of the client manager

A descriptor that is handed to `add` belongs to the manager: it is closed when
it cannot be registered, when its client is removed or dropped by a broadcast,
or by the destructor.  Whatever the calls and the answers of the kernel, each
is closed exactly once.
-/

namespace MarketDataHandler

open HandleLedger (Fresh ReleasesOpen replay)

def ManagerOutput.handles :
    ManagerOutput → List (HandleLedger.Event Nat)
  | .close fd => [.release fd]
  | _ => []

/-- The descriptor that a call takes over. -/
def ManagerCall.handedOver : ManagerCall → List Nat
  | .add fd _ _ _ => [fd]
  | _ => []

def managerHandles (outputs : List ManagerOutput) :
    List (HandleLedger.Event Nat) :=
  outputs.flatMap ManagerOutput.handles

/-- A call takes a descriptor over and closes some. -/
def CallRecord.handles (record : CallRecord) :
    List (HandleLedger.Event Nat) :=
  record.call.handedOver.map .acquire ++ managerHandles record.outputs

def logHandles (log : List CallRecord) : List (HandleLedger.Event Nat) :=
  log.flatMap CallRecord.handles

namespace ClientManager

/-- A call takes over only what the manager does not have. -/
def TakesUnmanaged (manager : ClientManager) (call : ManagerCall) : Prop :=
  ∀ fd ∈ call.handedOver, fd ∉ manager.clients

instance (manager : ClientManager) (call : ManagerCall) :
    Decidable (manager.TakesUnmanaged call) :=
  inferInstanceAs (Decidable (∀ fd ∈ call.handedOver, ¬ _))

/-- The calls of the destructor. -/
def destroy (manager : ClientManager) : List ManagerOutput :=
  manager.clients.map .close

/-- A call that starts with the descriptors of the clients open closes open
ones only and ends so. -/
structure KeepsDescriptors (manager next : ClientManager)
    (handles : List (HandleLedger.Event Nat)) : Prop where
  fresh : Fresh manager.clients.toFinset handles
  releases : ReleasesOpen manager.clients.toFinset handles
  opened :
    replay manager.clients.toFinset handles = next.clients.toFinset

variable {manager : ClientManager}

theorem keepsDescriptors_nothing
    {next : ClientManager} (same : next.clients = manager.clients) :
    KeepsDescriptors manager next [] where
  fresh := trivial
  releases := trivial
  opened := by
    rw [same]
    exact List.foldl_nil

theorem managerHandles_broadcast
    (data : List UInt8) (sends : Nat → List SendOutcome) :
    managerHandles (manager.broadcast data sends).2 =
      (manager.clients.filter (dropsClient data sends)).map .release := by
  have unsent (fds : List Nat) :
      managerHandles (fds.flatMap (managerSends data sends)) = [] := by
    apply List.flatMap_eq_nil_iff.mpr
    intro output member
    obtain ⟨fd, _, called⟩ := List.mem_flatMap.mp member
    obtain ⟨call, _, shape⟩ := List.mem_map.mp called
    rw [← shape]
    rfl
  have closes (fds : List Nat) :
      managerHandles (fds.flatMap removeCalls) = fds.map .release := by
    induction fds with
    | nil =>
        exact List.flatMap_nil
    | cons fd fds inductionHypothesis =>
        rw [List.flatMap_cons, managerHandles, List.flatMap_append]
        exact congrArg (List.cons (.release fd)) inductionHypothesis
  rw [broadcast_eq]
  change managerHandles (_ ++ _) = _
  rw [managerHandles, List.flatMap_append]
  change managerHandles _ ++ managerHandles _ = _
  rw [unsent, closes, List.nil_append]

theorem keepsDescriptors_step
    {call : ManagerCall} (unmanaged : manager.TakesUnmanaged call) :
    KeepsDescriptors manager (manager.step call).1
      (CallRecord.handles ⟨call, (manager.step call).2⟩) := by
  cases call with
  | add fd remoteAddr now registered =>
      have unopened : fd ∉ manager.clients.toFinset := by
        rw [List.mem_toFinset]
        exact unmanaged fd (List.mem_singleton_self fd)
      cases registered with
      | true =>
          refine ⟨⟨unopened, trivial⟩, trivial, ?_⟩
          ext other
          change other ∈ insert fd manager.clients.toFinset ↔ _
          rw [Finset.mem_insert, List.mem_toFinset, List.mem_toFinset]
          exact (mem_clients_add remoteAddr now).symm
      | false =>
          refine ⟨⟨unopened, trivial⟩,
            ⟨Finset.mem_insert_self _ _, trivial⟩, ?_⟩
          exact Finset.erase_insert unopened
  | remove fd =>
      change
        KeepsDescriptors manager (manager.remove fd).1
          ([] ++ managerHandles (manager.remove fd).2)
      rw [List.nil_append, remove]
      split
      · rename_i managed
        refine ⟨trivial, ⟨List.mem_toFinset.mpr managed, trivial⟩, ?_⟩
        ext other
        change other ∈ manager.clients.toFinset.erase fd ↔ _
        rw [Finset.mem_erase, List.mem_toFinset, List.mem_toFinset,
          manager.nodup.mem_erase_iff]
      · exact keepsDescriptors_nothing rfl
  | broadcast order data sends =>
      have ordered :
          (manager.reorder order).clients.toFinset =
            manager.clients.toFinset := by
        obtain ⟨clients, nodup, same, shape⟩ := manager.reorder_eq order
        rw [shape]
        exact List.toFinset_eq_of_perm _ _ same
      change
        KeepsDescriptors manager
          ((manager.reorder order).broadcast data sends).1
          ([] ++
            managerHandles
              ((manager.reorder order).broadcast data sends).2)
      rw [List.nil_append, managerHandles_broadcast]
      generalize manager.reorder order = start at ordered ⊢
      obtain ⟨releases, left⟩ :=
        HandleLedger.release_all (start.nodup.filter _)
          (fun fd member =>
            List.mem_toFinset.mpr (List.mem_of_mem_filter member))
      refine ⟨?_, ordered ▸ releases, ?_⟩
      · apply HandleLedger.fresh_of_releases
        intro fd impossible
        obtain ⟨other, _, shape⟩ := List.mem_map.mp impossible
        cases shape
      · rw [← ordered, left, broadcast_eq]
        ext fd
        simp only [Finset.mem_filter, List.mem_toFinset, List.mem_filter]
        grind

theorem run_handles
    {calls : List ManagerCall}
    (unmanaged : Mealy.Guarded logStep TakesUnmanaged initial calls) :
    let result := initial.run calls
    Fresh ∅ (logHandles result.2) ∧
      ReleasesOpen ∅ (logHandles result.2) ∧
      replay ∅ (logHandles result.2) = result.1.clients.toFinset := by
  apply Mealy.run_invariant logStep
    (fun manager log =>
      Fresh ∅ (logHandles log) ∧
        ReleasesOpen ∅ (logHandles log) ∧
        replay ∅ (logHandles log) = manager.clients.toFinset)
    _ ⟨trivial, trivial, rfl⟩ unmanaged
  rintro manager log call now ⟨fresh, releases, opened⟩
  have kept := keepsDescriptors_step now
  change
    Fresh ∅ (logHandles (log ++ [_])) ∧
      ReleasesOpen ∅ (logHandles (log ++ [_])) ∧
      replay ∅ (logHandles (log ++ [_])) = _
  rw [logHandles, List.flatMap_append, List.flatMap_singleton]
  change
    Fresh ∅ (logHandles log ++ _) ∧
      ReleasesOpen ∅ (logHandles log ++ _) ∧
      replay ∅ (logHandles log ++ _) = _
  rw [HandleLedger.fresh_append, HandleLedger.releasesOpen_append,
    HandleLedger.replay_append, opened]
  exact ⟨⟨fresh, kept.fresh⟩, ⟨releases, kept.releases⟩, kept.opened⟩

/-- Between the calls the open descriptors are those of the clients; only open
ones are closed; and behind the destructor each descriptor has been closed as
often as it was handed over. -/
theorem lifetime_descriptors
    {calls : List ManagerCall}
    (unmanaged : Mealy.Guarded logStep TakesUnmanaged initial calls) :
    let result := initial.run calls
    let events :=
      logHandles result.2 ++ managerHandles result.1.destroy
    replay ∅ (logHandles result.2) = result.1.clients.toFinset ∧
      ReleasesOpen ∅ events ∧
      ∀ fd, events.count (.acquire fd) = events.count (.release fd) := by
  intro result events
  obtain ⟨fresh, releases, opened⟩ := run_handles unmanaged
  have closing :
      managerHandles result.1.destroy =
        result.1.clients.map .release := by
    rw [managerHandles, destroy, List.flatMap_map]
    exact List.flatMap_pure_eq_map _ _
  obtain ⟨closed, left⟩ :=
    @HandleLedger.release_all _ _ result.1.clients.toFinset
      result.1.clients result.1.nodup
      (fun fd member => List.mem_toFinset.mpr member)
  have allReleased : ReleasesOpen ∅ events := by
    rw [HandleLedger.releasesOpen_append, opened, closing]
    exact ⟨releases, closed⟩
  refine ⟨opened, allReleased, ?_⟩
  intro fd
  have allFresh : Fresh ∅ events := by
    rw [HandleLedger.fresh_append]
    refine ⟨fresh, HandleLedger.fresh_of_releases ?_ _⟩
    intro other impossible
    rw [closing] at impossible
    obtain ⟨_, _, shape⟩ := List.mem_map.mp impossible
    cases shape
  have balance := HandleLedger.count_acquire allFresh allReleased fd
  have nothing : fd ∉ replay ∅ events := by
    rw [HandleLedger.replay_append, opened, closing, left]
    simp
  rwa [if_neg (Finset.notMem_empty _), if_neg nothing] at balance

/-- One client is dropped and its descriptor handed over again, one descriptor
cannot be registered, a broadcast has nothing to send, and two clients are left
to the destructor. -/
theorem lifetime_descriptors_reused :
    let calls : List ManagerCall :=
      [.add 3 "10.0.0.1" 0 true, .add 4 "10.0.0.2" 0 true,
        .add 5 "10.0.0.3" 0 false,
        .broadcast [4, 3] [1, 2] fun fd =>
          if fd = 3 then [.fail] else [],
        .broadcast [] [] fun _ => [],
        .add 3 "10.0.0.4" 0 true]
    let result := initial.run calls
    let events :=
      logHandles result.2 ++ managerHandles result.1.destroy
    replay ∅ (logHandles result.2) = result.1.clients.toFinset ∧
      ReleasesOpen ∅ events ∧
      ∀ fd, events.count (.acquire fd) = events.count (.release fd) := by
  intro calls
  exact lifetime_descriptors (by decide)

end ClientManager

end MarketDataHandler
