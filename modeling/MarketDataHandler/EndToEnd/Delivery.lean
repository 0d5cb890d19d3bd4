import MarketDataHandler.EndToEnd.FeedSystem
import MarketDataHandler.EndToEnd.GapReport

/-!
# Delivery and accounts

While the exchange pauses, every arrival and every turn of the feed handler
that does anything brings it closer to the end of the stream: there is a bound
on their number, and when none is left everything has been handled.

And whatever a client was refused or fault injection passed over, the feed
handler's count of gaps is the number of messages it misses between the first
and the latest one that it got, as long as the counter does not wrap.
-/

namespace MarketDataHandler

namespace FeedSystem

variable {fd : Nat} {clock : Nat → UInt64}

/-! ## Progress -/

/-- The feed handler waits for an event, or has come to an end. -/
def Resting (system : FeedSystem) : Prop :=
  (system.client.loop.pc = .waiting ∧ system.running = true ∧
      system.link.raised = false) ∨
    system.client.loop.pc = .stopped ∨
    system.client.loop.pc = .undefined

/-- An arrival of bytes, or a turn that does something. -/
def Delivers (system : FeedSystem) : FeedAction → Prop
  | .arrive _ => system.link.inFlight ≠ []
  | .turn _ => ¬ system.Resting
  | _ => False

instance (system : FeedSystem) : Decidable system.Resting :=
  inferInstanceAs (Decidable (_ ∨ _))

instance (system : FeedSystem) (action : FeedAction) :
    Decidable (system.Delivers action) :=
  match action with
  | .serve _ => inferInstanceAs (Decidable False)
  | .arrive _ =>
      inferInstanceAs (Decidable (system.link.inFlight ≠ []))
  | .turn _ => inferInstanceAs (Decidable (¬ system.Resting))
  | .signal => inferInstanceAs (Decidable False)

/-- How many turns may be left at a place in the program. -/
def turnsLeft (running : Bool) : LoopPc → Nat
  | .connecting => if running then 3 else 1
  | .waiting => if running then 0 else 2
  | .receiving => if running then 1 else 3
  | .stopped => 0
  | .undefined => 0

/-- A bound on the deliveries that are left. -/
def work (system : FeedSystem) : Nat :=
  4 * system.link.inFlight.length + system.link.queue.length +
    2 * system.link.raised.toNat +
    turnsLeft system.running system.client.loop.pc

theorem work_arrive
    {system : FeedSystem} (something : system.link.inFlight ≠ [])
    (extra : Nat) :
    (system.step fd clock (.arrive extra)).1.work < system.work := by
  have positive := List.length_pos_of_ne_nil something
  have raised :=
    Bool.toNat_le
      (system.link.raised || !system.link.inFlight.isEmpty ||
        system.ended fd)
  simp only [step, work, List.length_drop, List.length_append,
    List.length_take]
  omega

theorem work_turned
    {system : FeedSystem} {result : FeedSystem × List SessionEvent}
    (turned : Turned fd clock system result)
    (busy : ¬ system.Resting) : result.1.work < system.work := by
  cases turned with
  | opens pc running =>
      have raised :=
        Bool.toNat_le
          (!system.link.queue.isEmpty || system.ended fd)
      simp only [work, pc, running, turnsLeft, if_true]
      omega
  | rests resting =>
      exact absurd resting busy
  | leaves stopped places =>
      rcases places with ⟨pc, rfl⟩ | ⟨pc, rfl⟩
      · simp [work, pc, stopped, turnsLeft]
      · simp [work, pc, stopped, turnsLeft]
  | wakes pc running raised =>
      simp [work, pc, running, raised, turnsLeft]
  | drained pc empty =>
      cases running : system.running <;>
        simp [work, pc, running, turnsLeft]
  | @parses received _ _ _ pc inside _ _ _ _ =>
      have positive := received.positive
      have fits := inside.length_le
      simp only [work, List.length_drop]
      omega
  | loses pc empty ended =>
      cases running : system.running <;>
        simp [work, pc, running, turnsLeft]

/-- A delivery leaves the wire alone and has less work behind it. -/
theorem deliver
    {origin : MainState} {system : FeedSystem}
    {trace : List (ServerOutput ⊕ SessionEvent)} {frames : List Frame}
    {broken fed : List UInt8}
    (synchronised :
      Synchronised fd clock origin system trace frames broken fed)
    {action : FeedAction} (delivers : system.Delivers action) :
    (system.step fd clock action).1.work < system.work ∧
      (system.step fd clock action).1.server = system.server ∧
      (system.step fd clock action).1.running = system.running ∧
      ∃ nextFed,
        Synchronised fd clock origin (system.step fd clock action).1
          (trace ++ (system.step fd clock action).2) frames broken
          nextFed := by
  cases action with
  | serve action =>
      exact absurd delivers id
  | arrive extra =>
      exact ⟨work_arrive delivers extra, rfl, rfl, fed,
        synchronised.arrive extra⟩
  | turn extra =>
      have turned :=
        @turned_turn fd clock system synchronised.isFed.sound
          synchronised.isFed.connected
          synchronised.canHandle extra
      exact ⟨work_turned turned delivers, rfl, rfl,
        synchronised.turn extra⟩
  | signal =>
      exact absurd delivers id

theorem deliveries
    {origin : MainState} {system : FeedSystem}
    {trace : List (ServerOutput ⊕ SessionEvent)} {frames : List Frame}
    {broken fed : List UInt8}
    (synchronised :
      Synchronised fd clock origin system trace frames broken fed)
    {actions : List FeedAction}
    (delivering :
      Mealy.Guarded (step fd clock) Delivers system actions) :
    actions.length + (system.run fd clock actions).1.work ≤
        system.work ∧
      (system.run fd clock actions).1.server = system.server ∧
      (system.run fd clock actions).1.running = system.running ∧
      ∃ nextTrace nextFed,
        Synchronised fd clock origin (system.run fd clock actions).1
          nextTrace frames broken nextFed := by
  induction actions generalizing system trace fed with
  | nil =>
      exact ⟨by simp [run], rfl, rfl, trace, fed, synchronised⟩
  | cons action actions inductionHypothesis =>
      obtain ⟨now, later⟩ := delivering
      obtain ⟨less, sameServer, sameFlag, nextFed, next⟩ :=
        deliver synchronised now
      obtain ⟨bound, laterServer, laterFlag, finalTrace, finalFed, final⟩ :=
        inductionHypothesis next later
      rw [run, Mealy.run_cons]
      refine ⟨?_, laterServer.trans sameServer,
        laterFlag.trans sameFlag, finalTrace, finalFed, final⟩
      rw [List.length_cons]
      change actions.length + (run fd clock _ actions).1.work ≤ _ at bound
      change actions.length + 1 + (run fd clock _ actions).1.work ≤ _
      omega

/-- Where nothing is left to deliver, everything has been handled. -/
theorem handled_of_nothing_left
    {origin : MainState} {system : FeedSystem}
    {trace : List (ServerOutput ⊕ SessionEvent)} {frames : List Frame}
    {broken fed : List UInt8}
    (synchronised :
      Synchronised fd clock origin system trace frames broken fed)
    (connected : fd ∈ system.server.clients)
    (running : system.running = true)
    (nothingLeft : ∀ action, ¬ system.Delivers action) :
    HasHandled origin system.client frames [] := by
  have arrived : system.link.inFlight = [] :=
    not_not.mp (nothingLeft (.arrive 0))
  have resting : system.Resting := not_not.mp (nothingLeft (.turn 0))
  have whole := synchronised.carries.whole connected
  subst whole
  rcases resting with ⟨waiting, _, unraised⟩ | stopped | undefined
  · exact synchronised.upToDate waiting unraised arrived
  · have halted := synchronised.stopped stopped
    rw [running] at halted
    cases halted
  · exact absurd connected (synchronised.alive undefined)

/-- After any run, while the connection is open and the feed handler is not
stopped, deliveries in any order come to an end within a bound, and there is
one left to make until every message that the kernel took has been handled. -/
theorem run_delivery
    {system : FeedSystem} (starts : system.Starts fd)
    (fewSymbols : system.server.symbolCount ≤ maxSymbols)
    {actions : List FeedAction}
    (keeps :
      Mealy.Guarded (step fd clock) (Keeps fd) system actions)
    (connected :
      fd ∈ (system.run fd clock actions).1.server.clients)
    (running : (system.run fd clock actions).1.running = true)
    {more : List FeedAction}
    (delivering :
      Mealy.Guarded (step fd clock) Delivers
        (system.run fd clock actions).1 more) :
    let reached := system.run fd clock actions
    let final := (reached.1.run fd clock more).1
    more.length ≤ reached.1.work ∧
      ((∃ action, final.Delivers action) ∨
        ∃ frames,
          Carries fd reached.1.server (serverTrace reached.2) frames [] ∧
            HasHandled system.client final.client frames []) := by
  intro reached final
  obtain ⟨frames, broken, fed, synchronised⟩ :=
    run_synchronised starts fewSymbols keeps
  have whole := synchronised.carries.whole connected
  subst whole
  obtain ⟨bound, sameServer, sameFlag, trace, finalFed, settled⟩ :=
    deliveries synchronised delivering
  refine ⟨Nat.le_trans (Nat.le_add_right _ _) bound, ?_⟩
  by_cases left : ∃ action, final.Delivers action
  · exact Or.inl left
  · right
    refine ⟨frames, synchronised.carries, ?_⟩
    apply handled_of_nothing_left settled
    · rw [sameServer]
      exact connected
    · rw [sameFlag]
      exact running
    · exact not_exists.mp left

/-- The heartbeat in two pieces, with the delivery behind its publication. -/
theorem run_delivery_heartbeat :
    let reached :=
      oneClient.run 7 (fun _ => 0) (heartbeatInPieces.take 2)
    let final :=
      (reached.1.run 7 (fun _ => 0) (heartbeatInPieces.drop 2)).1
    (heartbeatInPieces.drop 2).length ≤ reached.1.work ∧
      ∃ frames,
        Carries 7 reached.1.server (serverTrace reached.2) frames [] ∧
          HasHandled oneClient.client final.client frames [] := by
  intro reached final
  have keeps :=
    ((Mealy.guarded_append (step 7 fun _ => 0) oneClient
        (heartbeatInPieces.take 2) (heartbeatInPieces.drop 2)).mp
      (heartbeatInPieces_keeps fun _ => 0)).1
  obtain ⟨bound, left | handled⟩ :=
    run_delivery oneClient_starts (by decide) keeps (by decide +kernel)
      (by decide +kernel)
      (show
        Mealy.Guarded (step 7 fun _ => 0) Delivers reached.1
          (heartbeatInPieces.drop 2)
        from by decide +kernel)
  · obtain ⟨action, delivers⟩ := left
    cases action with
    | serve action =>
        exact absurd delivers id
    | arrive extra =>
        have arrived : final.link.inFlight = [] := by decide +kernel
        exact absurd arrived delivers
    | turn extra =>
        have resting : final.Resting := by decide +kernel
        exact absurd resting delivers
    | signal =>
        exact absurd delivers id
  · exact ⟨bound, handled⟩

end FeedSystem

/-! ## Accounts -/

/-- A number above the latest one adds the numbers between them to the
count. -/
theorem ParseCounters.accept_above
    {counters : ParseCounters} {seq : UInt32}
    (positive : 0 < counters.lastSeq) (above : counters.lastSeq < seq) :
    (counters.accept seq).1.seqGaps =
      counters.seqGaps +
        UInt64.ofNat (seq.toNat - counters.lastSeq.toNat - 1) := by
  have order := UInt32.lt_iff_toNat_lt.mp above
  have bound := seq.toNat_lt
  have small : seq.toNat - counters.lastSeq.toNat - 1 < 2 ^ 32 := by
    omega
  have behind :
      counters.lastSeq + 1 +
          UInt32.ofNat (seq.toNat - counters.lastSeq.toNat - 1) =
        seq := by
    apply UInt32.toNat_inj.mp
    rw [UInt32.toNat_add, UInt32.toNat_add, UInt32.toNat_ofNat']
    change
      ((counters.lastSeq.toNat + 1) % 2 ^ 32 +
        (seq.toNat - counters.lastSeq.toNat - 1) % 2 ^ 32) % 2 ^ 32 = _
    omega
  have countable :
      CountableLoss counters.lastSeq
        (seq.toNat - counters.lastSeq.toNat - 1) := by
    refine Or.inr ⟨?_, Or.inl (by omega)⟩
    intro zero
    rw [zero] at positive
    exact absurd positive (by decide)
  have counted := seqGaps_accept_after_loss counters small
  rw [behind, (countedLoss_eq_iff _ _).mpr countable] at counted
  exact counted

/-- Of messages with growing numbers, those that arrived and those that are
counted as missing make up the numbers from the first to the latest. -/
theorem ParseCounters.deliverAll_accounts
    {frames : List Frame} {first last : Frame}
    (head : frames.head? = some first)
    (tail : frames.getLast? = some last)
    (positive : 0 < first.seqNo)
    (increasing :
      frames.Pairwise fun earlier later => earlier.seqNo < later.seqNo) :
    (zero.deliverAll frames).1.lastSeq = last.seqNo ∧
      first.seqNo ≤ last.seqNo ∧
      (zero.deliverAll frames).1.seqGaps.toNat + frames.length +
          first.seqNo.toNat =
        last.seqNo.toNat + 1 := by
  induction frames using List.reverseRecOn generalizing last with
  | nil =>
      cases head
  | append_singleton frames frame inductionHypothesis =>
      rw [List.getLast?_concat, Option.some.injEq] at tail
      subst tail
      obtain ⟨earlier, _, behind⟩ := List.pairwise_append.mp increasing
      rw [deliverAll_concat, List.length_append, List.length_singleton]
      rcases List.eq_nil_or_concat frames with rfl | ⟨front, final, shape⟩
      · cases head
        refine ⟨rfl, UInt32.le_refl _, ?_⟩
        change 0 + (0 + 1) + _ = _
        omega
      · rw [List.concat_eq_append] at shape
        have before : frames.getLast? = some final := by
          rw [shape, List.getLast?_concat]
        have start : frames.head? = some first := by
          rw [List.head?_append] at head
          cases known : frames.head? with
          | none =>
              rw [List.head?_eq_none_iff] at known
              rw [known] at before
              cases before
          | some other =>
              rw [known] at head
              exact head
        obtain ⟨latest, ordered, counted⟩ :=
          inductionHypothesis start before earlier
        have above : final.seqNo < frame.seqNo :=
          behind final (by rw [shape]; simp) frame (by simp)
        have fromFirst : first.seqNo < frame.seqNo :=
          UInt32.lt_of_le_of_lt ordered above
        have accepted :=
          @accept_above (zero.deliverAll frames).1 frame.seqNo
            (by rw [latest]; exact UInt32.lt_of_lt_of_le positive ordered)
            (by rw [latest]; exact above)
        have aboveNat := UInt32.lt_iff_toNat_lt.mp above
        have bound := frame.seqNo.toNat_lt
        refine ⟨rfl, UInt32.le_of_lt fromFirst, ?_⟩
        rw [accepted, latest, UInt64.toNat_add, UInt64.toNat_ofNat']
        omega

/-- The actions of the server among those of the system. -/
def served (actions : List FeedAction) : List ServerAction :=
  actions.filterMap fun action =>
    match action with
    | .serve action => some action
    | _ => none

namespace FeedSystem

variable {fd : Nat} {clock : Nat → UInt64}

/-- The rest of the system does not act on the server. -/
theorem run_server (system : FeedSystem) (actions : List FeedAction) :
    (system.run fd clock actions).1.server =
        (system.server.run (served actions)).1 ∧
      serverTrace (system.run fd clock actions).2 =
        (system.server.run (served actions)).2 := by
  induction actions generalizing system with
  | nil =>
      exact ⟨rfl, rfl⟩
  | cons action actions inductionHypothesis =>
      obtain ⟨server, trace⟩ :=
        inductionHypothesis (system.step fd clock action).1
      rw [run, Mealy.run_cons]
      change
        ((system.step fd clock action).1.run fd clock actions).1.server =
            _ ∧
          serverTrace
              ((system.step fd clock action).2 ++
                ((system.step fd clock action).1.run fd clock
                  actions).2) =
            _
      rw [serverTrace_append, trace, server]
      cases action with
      | serve action =>
          rw [step, (views_inl _).1]
          exact ⟨rfl, rfl⟩
      | arrive extra =>
          exact ⟨rfl, rfl⟩
      | turn extra =>
          rw [step, (views_inr _).1]
          exact ⟨rfl, rfl⟩
      | signal =>
          exact ⟨rfl, rfl⟩

end FeedSystem

theorem published_numbers (trace : List ServerOutput) :
    ((published trace).map seqNoAt).Sublist (numbers trace) := by
  induction trace with
  | nil =>
      exact List.Sublist.refl _
  | cons output trace inductionHypothesis =>
      cases output with
      | broadcast data =>
          exact inductionHypothesis.cons_cons _
      | skip seq =>
          exact inductionHypothesis.cons _
      | _ =>
          exact inductionHypothesis

/-- Below the wrap the successive values of the counter grow. -/
theorem consecutive_increasing
    {first : UInt32} {count : Nat}
    (noWrap : first.toNat + count ≤ 2 ^ 32) :
    (consecutive first count).Pairwise (· < ·) ∧
      ∀ seq ∈ consecutive first count, first ≤ seq := by
  have value (offset : Nat) (inside : offset < count) :
      (first + UInt32.ofNat offset).toNat = first.toNat + offset := by
    rw [UInt32.toNat_add, UInt32.toNat_ofNat']
    omega
  constructor
  · rw [consecutive, List.pairwise_map]
    refine List.Pairwise.imp_of_mem ?_ List.pairwise_lt_range
    intro left right leftInside rightInside order
    rw [UInt32.lt_iff_toNat_lt, value left (List.mem_range.mp leftInside),
      value right (List.mem_range.mp rightInside)]
    omega
  · intro seq member
    obtain ⟨offset, inside, rfl⟩ := List.mem_map.mp member
    rw [UInt32.le_iff_toNat_le, value offset (List.mem_range.mp inside)]
    omega

/-- Below the wrap the messages on the wire of a connection have growing
numbers, none below the one that the counter starts from. -/
theorem Carries.numbers_increase
    {fd : Nat} {server reached : ExchangeSimulator}
    {actions : List ServerAction} {frames : List Frame}
    {broken : List UInt8}
    (carries :
      Carries fd reached (server.run actions).2 frames broken)
    (noWrap :
      server.seqNo.toNat + (numbers (server.run actions).2).length ≤
        2 ^ 32) :
    (frames.Pairwise fun earlier later => earlier.seqNo < later.seqNo) ∧
      ∀ frame ∈ frames, server.seqNo ≤ frame.seqNo := by
  obtain ⟨count, _, shown, _⟩ := server.consecutive_run actions
  have length : (numbers (server.run actions).2).length = count := by
    rw [shown, consecutive, List.length_map, List.length_range]
  rw [length] at noWrap
  obtain ⟨growing, fromStart⟩ := consecutive_increasing noWrap
  have sequence :
      (frames.map Frame.seqNo).Sublist
        (consecutive server.seqNo count) := by
    have numbered :
        (frames.map Frame.bytes).map seqNoAt = frames.map Frame.seqNo := by
      rw [List.map_map]
      apply List.map_congr_left
      intro frame _
      exact frame.seqNoAt_bytes
    have whole :=
      (carries.offered.map seqNoAt).trans (published_numbers _)
    rw [numbered, shown] at whole
    exact whole
  have increasing := growing.sublist sequence
  rw [List.pairwise_map] at increasing
  refine ⟨increasing, ?_⟩
  intro frame member
  exact fromStart frame.seqNo
    (sequence.subset (List.mem_map_of_mem member))

/-- An exchange with fault injection in front of number 100. -/
def FeedSystem.beforeSkip : FeedSystem :=
  { oneClient with
    server :=
      { oneClient.server with
        faultInjection := true
        seqNo := 99 } }

/-- Number 100 is passed over, number 102 is refused. -/
def FeedSystem.twoLosses : List FeedAction :=
  [.turn 0, .serve anyTick, .serve anyTick,
    .serve (.heartbeat 0 fun _ => [.wouldBlock]), .serve anyTick,
    .arrive 199, .turn 0, .turn 199, .turn 0]

theorem FeedSystem.twoLosses_keeps :
    Mealy.Guarded (step 7 fun _ => 0) (Keeps 7) beforeSkip
      twoLosses := by
  apply Mealy.guarded_of_forall
  intro action member system
  have whole (taken : List SendOutcome) (len : Nat)
      (early : taken = [] ∨ taken = [.wouldBlock]) :
      ¬ BlocksInside taken len := by
    rintro ⟨extras, later, split, nonempty, _⟩
    rcases early with rfl | rfl <;> cases extras <;> simp at split nonempty
  simp only [twoLosses, List.mem_cons, List.not_mem_nil, or_false] at member
  rcases member with rfl | rfl | rfl | rfl | rfl | rfl | rfl | rfl | rfl
  case inr.inl =>
    exact ⟨by simp [anyTick], fun _ _ _ => whole _ _ (Or.inl rfl)⟩
  case inr.inr.inl =>
    exact ⟨by simp [anyTick], fun _ _ _ => whole _ _ (Or.inl rfl)⟩
  case inr.inr.inr.inl =>
    exact ⟨by simp, fun _ _ _ => whole _ _ (Or.inr rfl)⟩
  case inr.inr.inr.inr.inl =>
    exact ⟨by simp [anyTick], fun _ _ _ => whole _ _ (Or.inl rfl)⟩
  all_goals trivial

end MarketDataHandler
