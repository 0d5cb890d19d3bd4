import MarketDataHandler.Client.Snapshot
import MarketDataHandler.Client.Visualizer
import Mathlib.Logic.Function.Iterate

/-!
# The symbol cache as one thread sees it

A symbol holds the last bid, the last ask, the last trade and the last time of
its own updates, whichever methods wrote them, and the number of its updates.
The version is even between two updates, so the loop of `get_snapshot` ends in
its first pass.
-/

namespace MarketDataHandler

namespace CacheUpdate

/-- The price and the quantity of the bid that an update stores. -/
def bidPart : CacheUpdate → Option (UInt64 × UInt32)
  | .bid price qty _ => some (price, qty)
  | .quote bidPrice bqty _ _ _ => some (bidPrice, bqty)
  | .ask _ _ _ => none
  | .trade _ _ _ => none

def askPart : CacheUpdate → Option (UInt64 × UInt32)
  | .ask price qty _ => some (price, qty)
  | .quote _ _ askPrice aqty _ => some (askPrice, aqty)
  | .bid _ _ _ => none
  | .trade _ _ _ => none

def tradePart : CacheUpdate → Option (UInt64 × UInt32)
  | .trade price qty _ => some (price, qty)
  | .bid _ _ _ => none
  | .ask _ _ _ => none
  | .quote _ _ _ _ _ => none

def timePart (update : CacheUpdate) : Option UInt64 :=
  some update.time

end CacheUpdate

/-- What the last update with such a part has there. -/
def lastPart {α β : Type} (part : α → Option β) (default : β)
    (updates : List α) : β :=
  (updates.filterMap part).getLast?.getD default

/-- What a symbol holds after its updates. -/
structure LastWrites (updates : List CacheUpdate) (snap : MarketState) :
    Prop where
  bid :
    (snap.bestBid, snap.bidQuantity) =
      lastPart CacheUpdate.bidPart (0, 0) updates
  ask :
    (snap.bestAsk, snap.askQuantity) =
      lastPart CacheUpdate.askPart (0, 0) updates
  trade :
    (snap.lastTradedPrice, snap.lastTradedQuantity) =
      lastPart CacheUpdate.tradePart (0, 0) updates
  time :
    snap.lastUpdateTime = lastPart CacheUpdate.timePart 0 updates
  counted : snap.updateCount.toNat = updates.length % 2 ^ 64
  version : snap.version.toNat = 2 * snap.updateCount.toNat % 2 ^ 32

namespace SymbolCache

/-- Successive calls of the update methods. -/
def updateAll (cache : SymbolCache) (calls : List (UInt16 × CacheUpdate)) :
    Option SymbolCache :=
  calls.foldlM (fun current call => current.update call.1 call.2) cache

/-- The updates among some calls that are on a symbol. -/
def updatesOf (sym : UInt16) (calls : List (UInt16 × CacheUpdate)) :
    List CacheUpdate :=
  calls.filterMap fun call => if call.1 = sym then some call.2 else none

/-- Where a call of `get_snapshot` is after some accesses, while nobody
writes. -/
def snapshotAfter (cache : SymbolCache) (sym : UInt16) (accesses : Nat) :
    Option ReaderPc :=
  if inside : sym.toNat < maxSymbols then
    some
      ((ReaderPc.step (cache.states ⟨sym.toNat, inside⟩))^[accesses]
        ReaderPc.entry)
  else
    none

/-- The call returns a snapshot. -/
def Returns (cache : SymbolCache) (sym : UInt16) (snap : MarketState) :
    Prop :=
  ∃ enough, ∀ accesses, enough ≤ accesses →
    cache.snapshotAfter sym accesses = some (.returned snap)

/-- The cache with one of its times left out. -/
def forgetTime (sym : UInt16) (cache : SymbolCache) : SymbolCache where
  states := fun index =>
    if index.val = sym.toNat then
      { cache.states index with lastUpdateTime := 0 }
    else
      cache.states index

/-! ## The updates of one symbol -/

/-- An update that nobody interrupts. -/
def written (state : MarketState) (call : CacheUpdate) : MarketState :=
  let begun := beginWrite state
  endWrite
    { begun with
      toMarketData := CacheUpdate.apply begun.toMarketData call }

theorem update_eq
    (cache : SymbolCache) {sym : UInt16} (call : CacheUpdate)
    (inside : sym.toNat < maxSymbols) :
    cache.update sym call =
      some
        { states :=
            Function.update cache.states ⟨sym.toNat, inside⟩
              (written (cache.states ⟨sym.toNat, inside⟩) call) } := by
  rw [update, dif_pos inside]
  rfl

theorem index_ne {first second : UInt16} (different : first ≠ second)
    (insideFirst : first.toNat < maxSymbols)
    (insideSecond : second.toNat < maxSymbols) :
    (⟨first.toNat, insideFirst⟩ : Fin maxSymbols) ≠
      ⟨second.toNat, insideSecond⟩ := by
  intro same
  exact different (UInt16.toNat_inj.mp (Fin.mk.inj same))

theorem updatesOf_cons
    (sym : UInt16) (call : UInt16 × CacheUpdate)
    (calls : List (UInt16 × CacheUpdate)) :
    updatesOf sym (call :: calls) =
      (if call.1 = sym then [call.2] else []) ++ updatesOf sym calls := by
  rw [updatesOf, List.filterMap_cons, updatesOf]
  split
  · rename_i other
    rw [if_neg]
    · rfl
    · intro same
      rw [if_pos same] at other
      cases other
  · rename_i update found
    obtain ⟨same, value⟩ := Option.ite_none_right_eq_some.mp found
    rw [if_pos same, ← Option.some.inj value]
    rfl

/-- A symbol is written by its own updates only. -/
theorem updateAll_states
    (cache : SymbolCache) (calls : List (UInt16 × CacheUpdate))
    (inRange : ∀ call ∈ calls, call.1.toNat < maxSymbols) :
    ∃ final, cache.updateAll calls = some final ∧
      ∀ (sym : UInt16) (inside : sym.toNat < maxSymbols),
        final.states ⟨sym.toNat, inside⟩ =
          (updatesOf sym calls).foldl written
            (cache.states ⟨sym.toNat, inside⟩) := by
  induction calls generalizing cache with
  | nil =>
      exact ⟨cache, rfl, fun _ _ => rfl⟩
  | cons call calls inductionHypothesis =>
      have here := inRange call List.mem_cons_self
      obtain ⟨final, made, states⟩ :=
        inductionHypothesis
          { states :=
              Function.update cache.states ⟨call.1.toNat, here⟩
                (written (cache.states ⟨call.1.toNat, here⟩) call.2) }
          (fun other member => inRange other (List.mem_cons_of_mem _ member))
      refine ⟨final, ?_, ?_⟩
      · rw [updateAll, List.foldlM_cons, cache.update_eq call.2 here]
        exact made
      · intro sym inside
        rw [states, updatesOf_cons, List.foldl_append]
        congr 1
        by_cases same : call.1 = sym
        · subst same
          rw [if_pos rfl]
          exact Function.update_self _ _ _
        · rw [if_neg same]
          apply Function.update_of_ne
          exact index_ne (Ne.symm same) inside here

end SymbolCache

theorem lastPart_concat
    {α β : Type} (part : α → Option β) (default : β)
    (updates : List α) (update : α) :
    lastPart part default (updates ++ [update]) =
      (part update).getD (lastPart part default updates) := by
  rw [lastPart, lastPart, List.filterMap_append]
  cases found : part update with
  | none =>
      simp [found]
  | some value =>
      simp [found]

/-! ### One more update of the symbol -/

section Written

variable (state : MarketState) (update : CacheUpdate)

open SymbolCache (written)

theorem written_bid :
    ((written state update).bestBid,
        (written state update).bidQuantity) =
      update.bidPart.getD (state.bestBid, state.bidQuantity) := by
  cases update <;> rfl

theorem written_ask :
    ((written state update).bestAsk,
        (written state update).askQuantity) =
      update.askPart.getD (state.bestAsk, state.askQuantity) := by
  cases update <;> rfl

theorem written_trade :
    ((written state update).lastTradedPrice,
        (written state update).lastTradedQuantity) =
      update.tradePart.getD
        (state.lastTradedPrice, state.lastTradedQuantity) := by
  cases update <;> rfl

theorem written_time :
    (written state update).lastUpdateTime = update.time := by
  cases update <;> rfl

theorem written_updateCount :
    (written state update).updateCount = state.updateCount + 1 := by
  cases update <;> rfl

theorem written_version :
    (written state update).version = state.version + 1 + 1 :=
  rfl

end Written

theorem LastWrites.concat
    {updates : List CacheUpdate} {state : MarketState}
    (writes : LastWrites updates state) (update : CacheUpdate) :
    LastWrites (updates ++ [update])
      (SymbolCache.written state update) where
  bid := by
    rw [written_bid, lastPart_concat, writes.bid]
  ask := by
    rw [written_ask, lastPart_concat, writes.ask]
  trade := by
    rw [written_trade, lastPart_concat, writes.trade]
  time := by
    rw [written_time, lastPart_concat]
    rfl
  counted := by
    rw [written_updateCount, UInt64.toNat_add, writes.counted,
      List.length_append]
    exact Nat.mod_add_mod _ _ _
  version := by
    rw [written_version, written_updateCount, UInt32.toNat_add,
      UInt32.toNat_add, UInt64.toNat_add, writes.version]
    change ((2 * _ % 2 ^ 32 + 1) % 2 ^ 32 + 1) % 2 ^ 32 =
      2 * ((_ + 1) % 2 ^ 64) % 2 ^ 32
    omega

theorem lastWrites_foldl (updates : List CacheUpdate) :
    LastWrites updates
      (updates.foldl SymbolCache.written MarketState.initial) := by
  induction updates using List.reverseRecOn with
  | nil =>
      constructor <;> rfl
  | append_singleton updates update inductionHypothesis =>
      rw [List.foldl_concat]
      exact inductionHypothesis.concat update

/-! ## The loop of `get_snapshot` -/

namespace ReaderPc

theorem step_iterate_copying
    (shared : MarketState) (v1 : UInt32) (snap : MarketState)
    (fields : List StateField) :
    (step shared)^[fields.length] (.copying v1 snap fields) =
      .copying v1 (StateField.copyAll fields shared snap) [] := by
  induction fields generalizing snap with
  | nil =>
      rfl
  | cons field fields inductionHypothesis =>
      exact inductionHypothesis (field.copy shared snap)

/-- The first pass over a state that nobody writes, with an even version. -/
theorem step_iterate_entry
    {shared : MarketState} (even : shared.version &&& 1 = 0) :
    (step shared)^[StateField.all.length + 2] entry = .returned shared := by
  have first :
      step shared entry =
        .copying shared.version MarketState.initial StateField.all :=
    if_neg (not_not_intro even)
  rw [Function.iterate_succ_apply, first, Function.iterate_succ_apply',
    step_iterate_copying, StateField.copyAll_all]
  exact if_neg (not_not_intro rfl)

end ReaderPc

namespace SymbolCache

/-- Between two updates the loop returns the state in its first pass. -/
theorem returns_of_even
    {cache : SymbolCache} {sym : UInt16} {snap : MarketState}
    (read : cache.getSnapshot sym = some snap)
    (even : snap.version &&& 1 = 0) :
    cache.Returns sym snap := by
  rw [getSnapshot] at read
  split at read
  · rename_i inside
    cases read
    refine ⟨StateField.all.length + 2, ?_⟩
    intro accesses enough
    rw [snapshotAfter, dif_pos inside, ← Nat.sub_add_cancel enough,
      Function.iterate_add_apply, ReaderPc.step_iterate_entry even]
    exact congrArg some (Function.iterate_fixed rfl _)
  · cases read

/-! ## Calls that commute -/

theorem snapshotAfter_update_other
    {cache next : SymbolCache} {sym other : UInt16} {call : CacheUpdate}
    (different : other ≠ sym) (made : cache.update other call = some next) :
    next.snapshotAfter sym = cache.snapshotAfter sym := by
  funext accesses
  rw [snapshotAfter, snapshotAfter]
  by_cases inside : sym.toNat < maxSymbols
  · rw [dif_pos inside, dif_pos inside]
    by_cases here : other.toNat < maxSymbols
    · rw [cache.update_eq call here] at made
      cases made
      simp only [Function.update_of_ne (index_ne different.symm inside here)]
    · rw [update, dif_neg here] at made
      cases made
  · rw [dif_neg inside, dif_neg inside]

theorem update_update_comm
    (cache : SymbolCache) {first second : UInt16}
    (different : first ≠ second) (call other : CacheUpdate) :
    ((cache.update first call).bind fun next => next.update second other) =
      (cache.update second other).bind fun next =>
        next.update first call := by
  by_cases insideFirst : first.toNat < maxSymbols
  · by_cases insideSecond : second.toNat < maxSymbols
    · have apart := index_ne different insideFirst insideSecond
      rw [cache.update_eq call insideFirst,
        cache.update_eq other insideSecond, Option.bind_some,
        Option.bind_some, update_eq _ other insideSecond,
        update_eq _ call insideFirst]
      simp only [Function.update_of_ne apart,
        Function.update_of_ne apart.symm]
      rw [Function.update_comm apart]
    · have absent (current : SymbolCache) :
          current.update second other = none :=
        dif_neg insideSecond
      simp only [absent, Option.bind_none, Option.bind_fun_none]
  · have absent (current : SymbolCache) :
        current.update first call = none :=
      dif_neg insideFirst
    simp only [absent, Option.bind_none, Option.bind_fun_none]

/-- A bid and an ask of one symbol; each leaves its own time. -/
theorem updateBid_updateAsk_comm
    (cache : SymbolCache) (sym : UInt16)
    (bid : UInt64) (bqty : UInt32) (bidTs : UInt64)
    (ask : UInt64) (aqty : UInt32) (askTs : UInt64) :
    ((cache.updateBid sym bid bqty bidTs).bind fun next =>
        next.updateAsk sym ask aqty askTs).map (forgetTime sym) =
      ((cache.updateAsk sym ask aqty askTs).bind fun next =>
        next.updateBid sym bid bqty bidTs).map (forgetTime sym) := by
  by_cases inside : sym.toNat < maxSymbols
  · simp only [updateBid, updateAsk, update_eq _ _ inside,
      Option.bind_some, Option.map_some, Function.update_self,
      Function.update_idem]
    congr 1
    rw [forgetTime, forgetTime]
    congr 1
    funext index
    by_cases here : index = ⟨sym.toNat, inside⟩
    · subst here
      simp only [if_true, Function.update_self]
      rfl
    · simp only [Function.update_of_ne here]
  · simp only [updateBid, updateAsk, update, dif_neg inside,
      Option.bind_none]

/-- What a thread finds in the cache that it alone updates. -/
theorem sequential_semantics
    (calls : List (UInt16 × CacheUpdate))
    (inRange : ∀ call ∈ calls, call.1.toNat < maxSymbols)
    {sym : UInt16} (inside : sym.toNat < maxSymbols) :
    (∃ cache snap,
        initial.updateAll calls = some cache ∧
          cache.Returns sym snap ∧
          LastWrites (updatesOf sym calls) snap ∧
          snap.version.toNat % 2 = 0) ∧
      ∀ cache : SymbolCache,
        (∀ other call next,
            other ≠ sym → cache.update other call = some next →
              next.snapshotAfter sym = cache.snapshotAfter sym) ∧
          (∀ other call otherCall,
            other ≠ sym →
              ((cache.update sym call).bind fun next =>
                  next.update other otherCall) =
                (cache.update other otherCall).bind fun next =>
                  next.update sym call) ∧
          ∀ bid bqty bidTs ask aqty askTs,
            ((cache.updateBid sym bid bqty bidTs).bind fun next =>
                next.updateAsk sym ask aqty askTs).map (forgetTime sym) =
              ((cache.updateAsk sym ask aqty askTs).bind fun next =>
                next.updateBid sym bid bqty bidTs).map
                  (forgetTime sym) := by
  constructor
  · obtain ⟨cache, made, states⟩ := initial.updateAll_states calls inRange
    have writes : LastWrites (updatesOf sym calls)
        (cache.states ⟨sym.toNat, inside⟩) := by
      rw [states sym inside]
      exact lastWrites_foldl _
    have even : (cache.states ⟨sym.toNat, inside⟩).version.toNat % 2 = 0 := by
      rw [writes.version]
      omega
    refine ⟨cache, cache.states ⟨sym.toNat, inside⟩, made, ?_, writes, even⟩
    apply returns_of_even (dif_pos inside)
    rw [← UInt32.toNat_inj, UInt32.toNat_and]
    change _ &&& 1 = 0
    rw [Nat.and_one_is_mod, even]
  · intro cache
    refine ⟨?_, ?_, ?_⟩
    · intro other call next different made
      exact snapshotAfter_update_other different made
    · intro other call otherCall different
      exact cache.update_update_comm different.symm call otherCall
    · intro bid bqty bidTs ask aqty askTs
      exact cache.updateBid_updateAsk_comm sym bid bqty bidTs ask aqty
        askTs

/-- A bid, a quote of another symbol and a trade: the ask is still the one of
the constructor. -/
theorem sequential_semantics_three :
    let calls : List (UInt16 × CacheUpdate) :=
      [(7, .bid 10 1 100), (8, .quote 20 2 30 3 200), (7, .trade 40 4 300)]
    ∃ cache snap,
      initial.updateAll calls = some cache ∧
        cache.Returns 7 snap ∧
        LastWrites [.bid 10 1 100, .trade 40 4 300] snap ∧
        snap.version.toNat % 2 = 0 := by
  intro calls
  have inRange : ∀ call ∈ calls, call.1.toNat < maxSymbols := by
    decide
  have inside : (7 : UInt16).toNat < maxSymbols := by
    decide
  exact (sequential_semantics calls inRange inside).1

end SymbolCache

end MarketDataHandler
