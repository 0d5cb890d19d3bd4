import MarketDataHandler.Client.Socket

/-!
# The attempts of a retry

`RetrySocket::connect_with_retry` makes attempts until one succeeds or
`max_retries_` have failed, and sleeps behind every failed one, the last one
included.  The first pause is the base, which is not capped; each later one is
twice the one before it, up to 30 seconds.
-/

namespace MarketDataHandler

namespace SocketEvent

/-- The event is a call of `socket`, `epoll_create1` or `close`. -/
def usesDescriptor : SocketEvent → Bool
  | .socket _ => true
  | .epollCreate1 _ => true
  | .close _ => true
  | _ => false

/-- The result of an attempt. -/
def attempted : SocketEvent → Option Bool
  | .attempt succeeded => some succeeded
  | _ => none

/-- The length of a pause. -/
def slept : SocketEvent → Option UInt32
  | .sleep ms => some ms
  | _ => none

end SocketEvent

/-- The pause behind the failed attempt of the given number, in
milliseconds. -/
def retryPause (baseBackoffMs : Nat) : Nat → Nat
  | 0 => baseBackoffMs
  | attempt + 1 => min (baseBackoffMs * 2 ^ (attempt + 1)) 30000

namespace MarketDataSocket

theorem doConnect_usesDescriptor (sock : MarketDataSocket)
    (answers : ConnectAnswers) :
    ∀ event ∈ (sock.doConnect answers).2.1,
      event.usesDescriptor = true := by
  have closed : ∀ event ∈ sock.closeOld, event.usesDescriptor = true :=
    forall_mem_optional _ rfl
  have created :
      ∀ event ∈ (sock.createEpoll answers).2,
        event.usesDescriptor = true := by
    intro event member
    rw [sock.createEpoll_events answers event member]
    rfl
  intro event
  rw [doConnect]
  dsimp only [abandon]
  split_ifs <;>
    simp only [List.mem_append, List.mem_singleton] <;>
    grind [SocketEvent.usesDescriptor]

/-- One attempt is one event, and none is a pause. -/
theorem connect_events (sock : MarketDataSocket)
    (answers : ConnectAnswers) :
    (sock.connect answers).2.1.filterMap SocketEvent.attempted =
        [(sock.connect answers).2.2] ∧
      (sock.connect answers).2.1.filterMap SocketEvent.slept = [] := by
  have uses := sock.doConnect_usesDescriptor answers
  have silent :
      (sock.doConnect answers).2.1.filterMap SocketEvent.attempted = [] ∧
        (sock.doConnect answers).2.1.filterMap SocketEvent.slept =
          [] := by
    rw [List.filterMap_eq_nil_iff, List.filterMap_eq_nil_iff]
    constructor
    · intro event member
      have used := uses event member
      cases event <;> first | rfl | cases used
    · intro event member
      have used := uses event member
      cases event <;> first | rfl | cases used
  rw [connect]
  dsimp only
  rw [List.filterMap_append, List.filterMap_append, silent.1, silent.2]
  exact ⟨rfl, rfl⟩

/-- The next pause. -/
def nextBackoff (backoff : UInt32) : UInt32 :=
  min (backoff * 2) 30000

/-- What a call leaves on the trace: failed attempts with a pause behind each,
and then possibly one that succeeds. -/
structure Retried (attempts : Nat) (backoff : UInt32)
    (result : MarketDataSocket × List SocketEvent × Bool)
    (failed : Nat) : Prop where
  attempted :
    result.2.1.filterMap SocketEvent.attempted =
      List.replicate failed false ++ if result.2.2 then [true] else []
  slept :
    result.2.1.filterMap SocketEvent.slept =
      (List.range failed).map fun attempt => nextBackoff^[attempt] backoff
  most :
    failed + result.2.2.toNat ≤ attempts ∧
      (result.2.2 = false → failed = attempts)

theorem retryLoop_retried
    (answers : Nat → ConnectAnswers) (left attempt : Nat)
    (backoff : UInt32) (sock : MarketDataSocket) :
    ∃ failed,
      Retried left backoff
        (retryLoop answers left attempt backoff sock) failed := by
  induction left generalizing attempt backoff sock with
  | zero =>
      exact ⟨0, rfl, rfl, Nat.le_refl _, fun _ => rfl⟩
  | succ left inductionHypothesis =>
      obtain ⟨tried, awake⟩ := sock.connect_events (answers attempt)
      rw [retryLoop]
      dsimp only
      by_cases connected : (sock.connect (answers attempt)).2.2 = true
      · rw [if_pos connected]
        rw [connected] at tried
        exact ⟨0, tried, awake, Nat.le_add_left 1 left,
          fun failed => by cases failed⟩
      · rw [if_neg connected]
        rw [Bool.not_eq_true] at connected
        rw [connected] at tried
        obtain ⟨failed, rest⟩ :=
          inductionHypothesis (attempt + 1) (min (backoff * 2) 30000)
            (sock.connect (answers attempt)).1
        refine ⟨failed + 1, ?_, ?_, ?_⟩
        · have later := rest.attempted
          dsimp only
          rw [List.filterMap_append, tried, List.filterMap_cons]
          change [false] ++ List.filterMap _ _ = _
          rw [later, List.replicate_succ]
          rfl
        · have later := rest.slept
          dsimp only
          rw [List.filterMap_append, awake, List.filterMap_cons]
          change backoff :: List.filterMap _ _ = _
          rw [later, List.range_succ_eq_map, List.map_cons, List.map_map]
          rfl
        · obtain ⟨bound, exact⟩ := rest.most
          dsimp only
          constructor
          · rw [Nat.add_right_comm]
            exact Nat.succ_le_succ bound
          · intro never
            rw [exact never]

theorem toNat_nextBackoff (backoff : UInt32)
    (fits : backoff.toNat < 2 ^ 31) :
    (nextBackoff backoff).toNat = min (backoff.toNat * 2) 30000 := by
  have doubled : (backoff * 2).toNat = backoff.toNat * 2 := by
    rw [UInt32.toNat_mul]
    change backoff.toNat * 2 % 2 ^ 32 = _
    omega
  have either :
      nextBackoff backoff =
        if backoff * 2 ≤ 30000 then backoff * 2 else 30000 :=
    rfl
  rw [either]
  split
  · rename_i small
    rw [UInt32.le_iff_toNat_le, doubled] at small
    rw [doubled]
    exact (Nat.min_eq_left small).symm
  · rename_i large
    rw [UInt32.le_iff_toNat_le, doubled] at large
    exact (Nat.min_eq_right (Nat.le_of_not_le large)).symm

theorem toNat_iterate_nextBackoff
    {baseBackoffMs : UInt32} (fits : baseBackoffMs.toNat < 2 ^ 31)
    (attempt : Nat) :
    (nextBackoff^[attempt] baseBackoffMs).toNat =
      retryPause baseBackoffMs.toNat attempt := by
  induction attempt with
  | zero =>
      rfl
  | succ attempt inductionHypothesis =>
      have stillFits :
          (nextBackoff^[attempt] baseBackoffMs).toNat < 2 ^ 31 := by
        rw [inductionHypothesis]
        cases attempt with
        | zero =>
            exact fits
        | succ attempt =>
            rw [retryPause]
            omega
      rw [Function.iterate_succ_apply', toNat_nextBackoff _ stillFits,
        inductionHypothesis]
      cases attempt with
      | zero =>
          rfl
      | succ attempt =>
          rw [retryPause, retryPause, Nat.pow_succ _ (attempt + 1),
            ← Nat.mul_assoc]
          omega

end MarketDataSocket

end MarketDataHandler
