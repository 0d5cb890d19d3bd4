import MarketDataHandler.Client.CacheBounds
import MarketDataHandler.EndToEnd.CacheAgreement

/-!
# What the dashboard shows

`render` selects the symbols with the most updates and shows a row for each of
them that has any.  While the cache stands still, the selection is right: no
symbol that is left out has more updates than one that is shown.  For a client
that is refused nothing and has caught up, the rows are those of the messages
of the exchange.
-/

namespace MarketDataHandler

namespace Visualizer

variable {caches : Nat → SymbolCache} {symbolNames : List String}
  {summary : UInt16 → MarketData}

/-- Every call of `get_snapshot` reads the same of each configured symbol. -/
def ReadsStill (caches : Nat → SymbolCache) (symbolNames : List String)
    (summary : UInt16 → MarketData) : Prop :=
  ∀ call, ∀ id ∈ symbolIds symbolNames,
    ∃ snap,
      (caches call).getSnapshot id = some snap ∧
        snap.toMarketData = summary id

theorem snapshots_of_readsStill
    (still : ReadsStill caches symbolNames summary)
    {β : Type} {use : UInt16 → MarketState → β}
    {shown : UInt16 → MarketData → β}
    (uses : ∀ id snap, use id snap = shown id snap.toMarketData)
    (call : Nat) {ids : List UInt16}
    (configured : ∀ id ∈ ids, id ∈ symbolIds symbolNames) :
    snapshots caches use call ids =
      some (ids.map fun id => shown id (summary id)) := by
  induction ids generalizing call with
  | nil =>
      rfl
  | cons id ids inductionHypothesis =>
      obtain ⟨snap, read, same⟩ :=
        still call id (configured id List.mem_cons_self)
      have later :=
        inductionHypothesis (call + 1) fun other member =>
          configured other (List.mem_cons_of_mem id member)
      rw [snapshots, read, later, List.map_cons, ← same]
      exact congrArg (fun row => some (row :: _)) (uses id snap)

theorem nodup_symbolIds (few : symbolNames.length ≤ 65536) :
    (symbolIds symbolNames).Nodup := by
  apply List.Nodup.map_on _ List.nodup_range
  intro first firstBelow second secondBelow same
  have numbers := congrArg UInt16.toNat same
  rw [UInt16.toNat_ofNat', UInt16.toNat_ofNat'] at numbers
  have firstSmall := List.mem_range.mp firstBelow
  have secondSmall := List.mem_range.mp secondBelow
  omega

/-- A row of the dashboard, if the symbol was ever updated. -/
def rowOf (symbolNames : List String) (id : UInt16) (data : MarketData) :
    Option (String × MarketData) :=
  if data.updateCount = 0 then
    none
  else
    some (displayName symbolNames id, data)

/-- The symbols that are shown lead by their update counts. -/
structure Leads (symbolNames : List String)
    (summary : UInt16 → MarketData) (ids : List UInt16) : Prop where
  nodup : ids.Nodup
  length : ids.length = min 20 symbolNames.length
  configured : ∀ id ∈ ids, id ∈ symbolIds symbolNames
  falling :
    ids.Pairwise fun first second =>
      (summary second).updateCount ≤ (summary first).updateCount
  rest :
    ∀ other ∈ symbolIds symbolNames,
      other ∉ ids →
        ∀ id ∈ ids,
          (summary other).updateCount ≤ (summary id).updateCount

theorem leads_leaders
    (few : symbolNames.length ≤ 65536) (sorting : RankSort) :
    Leads symbolNames summary
      (leaders sorting
        ((symbolIds symbolNames).map fun id =>
          ((summary id).updateCount, id))) := by
  generalize rankedIs :
    (symbolIds symbolNames).map
        (fun id => ((summary id).updateCount, id)) =
      ranked
  have perm := sorting.perm ranked
  have sorted := sorting.sorted ranked
  have symbols : ranked.map Prod.snd = symbolIds symbolNames := by
    rw [← rankedIs, List.map_map]
    exact List.map_id _
  have entry :
      ∀ entry ∈ sorting.sort ranked,
        entry.1 = (summary entry.2).updateCount := by
    intro entry member
    have before := perm.mem_iff.mp member
    rw [← rankedIs] at before
    obtain ⟨id, _, rfl⟩ := List.mem_map.mp before
    rfl
  have distinct : ((sorting.sort ranked).map Prod.snd).Nodup := by
    rw [(perm.map Prod.snd).nodup_iff, symbols]
    exact nodup_symbolIds few
  have parts := List.take_append_drop 20 (sorting.sort ranked)
  have ordered := sorted
  rw [← parts, List.pairwise_append] at ordered
  obtain ⟨front, _, across⟩ := ordered
  have fromSort {id : UInt16}
      (member : id ∈ leaders sorting ranked) :
      ∃ count, (count, id) ∈ (sorting.sort ranked).take 20 := by
    obtain ⟨⟨count, _⟩, inside, rfl⟩ := List.mem_map.mp member
    exact ⟨count, inside⟩
  refine
    { nodup := ?_
      length := ?_
      configured := ?_
      falling := ?_
      rest := ?_ }
  · rw [leaders, List.map_take]
    exact distinct.sublist (List.take_sublist 20 _)
  · rw [leaders, List.length_map, List.length_take, perm.length_eq,
      ← List.length_map Prod.snd, symbols, symbolIds, List.length_map,
      List.length_range]
  · intro id member
    obtain ⟨count, inside⟩ := fromSort member
    rw [← symbols]
    exact List.mem_map_of_mem
      (perm.mem_iff.mp (List.mem_of_mem_take inside))
  · rw [leaders, List.pairwise_map]
    refine front.imp_of_mem ?_
    intro first second firstInside secondInside order
    rw [← entry first (List.mem_of_mem_take firstInside),
      ← entry second (List.mem_of_mem_take secondInside)]
    exact order
  · intro other known leftOut id member
    obtain ⟨count, inside⟩ := fromSort member
    rw [← symbols] at known
    obtain ⟨⟨otherCount, _⟩, before, rfl⟩ := List.mem_map.mp known
    have somewhere := perm.mem_iff.mpr before
    rw [← parts] at somewhere
    rcases List.mem_append.mp somewhere with shown | behind
    · exact absurd (List.mem_map_of_mem shown) leftOut
    · have order := across _ inside _ behind
      rw [entry _ (List.mem_of_mem_drop behind),
        entry _ (List.mem_of_mem_take inside)] at order
      exact order

/-- A dashboard of a cache that stands still. -/
theorem render_still
    (few : symbolNames.length ≤ 65536)
    (still : ReadsStill caches symbolNames summary)
    (sorting : RankSort) :
    ∃ ids,
      Leads symbolNames summary ids ∧
        render sorting caches symbolNames =
          some (ids.filterMap fun id =>
            rowOf symbolNames id (summary id)) := by
  have leads := @leads_leaders symbolNames summary few sorting
  refine ⟨_, leads, ?_⟩
  have ranked :
      rank caches symbolNames =
        some ((symbolIds symbolNames).map fun id =>
          ((summary id).updateCount, id)) :=
    @snapshots_of_readsStill _ _ _ still _ _
      (fun id data => (data.updateCount, id)) (fun _ _ => rfl) 0 _
      fun _ member => member
  have shown :=
    @snapshots_of_readsStill _ _ _ still _
      (fun id snap =>
        if snap.updateCount = 0 then
          none
        else
          some (displayName symbolNames id, snap.toMarketData))
      (rowOf symbolNames) (fun _ _ => rfl) symbolNames.length _
      leads.configured
  rw [render, ranked]
  change ((rows caches symbolNames _).bind fun shown => _) = _
  rw [rows, shown]
  change some (List.filterMap _ (List.map _ _)) = _
  rw [List.filterMap_map]
  rfl

end Visualizer

/-- The dashboard of a client that is refused nothing and has caught up: among
the configured symbols it shows those with the most messages, and of each what
is to be known after the messages of the exchange. -/
theorem FeedSystem.dashboard_shows
    {fd : Nat} {clock : Nat → UInt64} {system : FeedSystem}
    (starts : system.Starts fd)
    (cold : system.client.handler = Handler.initial)
    (fewSymbols : system.server.symbolCount ≤ maxSymbols)
    {actions : List FeedAction}
    (lossless : ∀ action ∈ served actions, Lossless fd action)
    (caughtUp : (system.run fd clock actions).1.CaughtUp)
    {symbolNames : List String}
    (configured : symbolNames.length ≤ maxSymbols)
    (sorting : RankSort) :
    let cache := (system.run fd clock actions).1.client.handler.cache
    let summary (id : UInt16) :=
      symbolSummary id.toNat
        ((system.server.messages (served actions)).map Frame.msg)
    ∃ ids,
      Visualizer.Leads symbolNames summary ids ∧
        Visualizer.render sorting (fun _ => cache) symbolNames =
          some (ids.filterMap fun id =>
            Visualizer.rowOf symbolNames id (summary id)) := by
  intro cache summary
  have handled := lossless_handled starts fewSymbols lossless caughtUp
  have small : maxSymbols = 500 := rfl
  apply Visualizer.render_still (by omega)
  intro _ id member
  obtain ⟨index, inside, rfl⟩ := List.mem_map.mp member
  have below := List.mem_range.mp inside
  have inRange : (UInt16.ofNat index).toNat < maxSymbols := by
    rw [UInt16.toNat_ofNat']
    omega
  refine ⟨cache.states ⟨_, inRange⟩, ?_, ?_⟩
  · rw [SymbolCache.getSnapshot, dif_pos inRange]
  · rw [show cache = _ from handled.cache, cold]
    exact foldl_apply_states _ ⟨_, inRange⟩

theorem FeedSystem.dashboard_shows_tick :
    let cache :=
      (oneOfTwoClients.run 7 (fun _ => 0) tickAtOnce).1.client.handler.cache
    let summary (id : UInt16) :=
      symbolSummary id.toNat
        ((oneOfTwoClients.server.messages (served tickAtOnce)).map
          Frame.msg)
    ∃ ids,
      Visualizer.Leads (makeSymbolNames 100) summary ids ∧
        Visualizer.render RankSort.merge (fun _ => cache)
            (makeSymbolNames 100) =
          some (ids.filterMap fun id =>
            Visualizer.rowOf (makeSymbolNames 100) id (summary id)) :=
  dashboard_shows (oneOfTwoClients_starts (Or.inl rfl)) rfl (by decide)
    (anyTick_lossless 7)
    ⟨by decide +kernel, by decide +kernel, by decide +kernel⟩
    (by
      rw [makeSymbolNames_length]
      decide)
    RankSort.merge

end MarketDataHandler
