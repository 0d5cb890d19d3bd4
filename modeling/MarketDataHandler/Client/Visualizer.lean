import MarketDataHandler.Client.SymbolCache
import Mathlib.Data.List.Basic

/-!
# The visualizer

What `Visualizer::render` reads from the cache: the update counts of all
configured symbols, and the states of the twenty that lead by it.  Like the
update methods, `get_snapshot` has no result for a number that is not below
`maxSymbols`.  The callbacks update the cache while a dashboard is rendered,
so each call of `get_snapshot` meets a cache of its own.
-/

namespace MarketDataHandler

def nseNames : List String :=
  ["RELIANCE", "TCS", "INFY", "HDFC", "ICICIBANK", "HDFCBANK",
    "BAJFINANCE", "WIPRO", "SBIN", "BHARTIARTL", "AXISBANK", "ADANIENT",
    "ADANIPORTS", "ASIANPAINT", "BAJAJFINSV", "BPCL", "BRITANNIA",
    "CIPLA", "COALINDIA", "DIVISLAB", "DRREDDY", "EICHERMOT", "GRASIM",
    "HCLTECH", "HDFCLIFE", "HEROMOTOCO", "HINDALCO", "HINDUNILVR", "ITC",
    "INDUSINDBK", "JSWSTEEL", "KOTAKBANK", "LT", "M&M", "MARUTI",
    "NESTLEIND", "NTPC", "ONGC", "POWERGRID", "SBILIFE", "SHREECEM",
    "SUNPHARMA", "TATACONSUM", "TATAMOTORS", "TATASTEEL", "TECHM",
    "TITAN", "ULTRACEMCO", "UPL", "VEDL"]

/-- The name of a symbol without a known one. -/
def fallbackName (index : Nat) : String :=
  "SYM" ++ toString index

def makeSymbolNames (count : Nat) : List String :=
  (List.range count).map fun index =>
    nseNames.getD index (fallbackName index)

theorem makeSymbolNames_length (count : Nat) :
    (makeSymbolNames count).length = count := by
  rw [makeSymbolNames, List.length_map, List.length_range]

def SymbolCache.getSnapshot (cache : SymbolCache) (sym : UInt16) :
    Option MarketState :=
  if inside : sym.toNat < maxSymbols then
    some (cache.states ⟨sym.toNat, inside⟩)
  else
    none

/-- A sort of ranked symbols by falling update count.  Symbols of the same
count may come out in any order. -/
structure RankSort where
  sort : List (UInt64 × UInt16) → List (UInt64 × UInt16)
  perm : ∀ ranked, (sort ranked).Perm ranked
  sorted :
    ∀ ranked,
      (sort ranked).Pairwise fun first second => second.1 ≤ first.1

namespace Visualizer

/-- The indices of the first loop. -/
def symbolIds (symbolNames : List String) : List UInt16 :=
  (List.range symbolNames.length).map UInt16.ofNat

/-- A loop that takes one snapshot of each symbol.  `caches` is the cache at
each call of `get_snapshot`, and `call` the number of the first. -/
def snapshots {β : Type} (caches : Nat → SymbolCache)
    (use : UInt16 → MarketState → β) :
    Nat → List UInt16 → Option (List β)
  | _, [] => some []
  | call, id :: ids => do
      let snap ← (caches call).getSnapshot id
      let later ← snapshots caches use (call + 1) ids
      some (use id snap :: later)

/-- The first loop: every symbol with its update count. -/
def rank (caches : Nat → SymbolCache) (symbolNames : List String) :
    Option (List (UInt64 × UInt16)) :=
  snapshots caches (fun id snap => (snap.updateCount, id)) 0
    (symbolIds symbolNames)

/-- The symbols of the second loop. -/
def leaders (sorting : RankSort) (ranked : List (UInt64 × UInt16)) :
    List UInt16 :=
  ((sorting.sort ranked).take 20).map Prod.snd

def displayName (symbolNames : List String) (id : UInt16) : String :=
  String.ofList
    ((symbolNames.getD id.toNat (fallbackName id.toNat)).toList.take 12)

/-- The second loop.  A symbol that was never updated has no row. -/
def rows (caches : Nat → SymbolCache) (symbolNames : List String)
    (ids : List UInt16) : Option (List (Option (String × MarketData))) :=
  snapshots caches
    (fun id snap =>
      if snap.updateCount = 0 then
        none
      else
        some (displayName symbolNames id, snap.toMarketData))
    symbolNames.length ids

/-- The rows of the dashboard. -/
def render (sorting : RankSort) (caches : Nat → SymbolCache)
    (symbolNames : List String) : Option (List (String × MarketData)) := do
  let ranked ← rank caches symbolNames
  let shown ← rows caches symbolNames (leaders sorting ranked)
  some (shown.filterMap fun row => row)

/-- All numbers with which `render` indexes the cache, in order.  The second
loop is reached when the first one has read all its symbols. -/
def indices (sorting : RankSort) (caches : Nat → SymbolCache)
    (symbolNames : List String) : List UInt16 :=
  symbolIds symbolNames ++
    match rank caches symbolNames with
    | none => []
    | some ranked => leaders sorting ranked

/-! ## Calls of `get_snapshot` -/

/-- A loop ends exactly when all its indices are in range. -/
theorem snapshots_isSome_iff
    {β : Type} (caches : Nat → SymbolCache)
    (use : UInt16 → MarketState → β) (call : Nat) (ids : List UInt16) :
    (snapshots caches use call ids).isSome ↔
      ∀ id ∈ ids, id.toNat < maxSymbols := by
  induction ids generalizing call with
  | nil =>
      simp [snapshots]
  | cons id ids inductionHypothesis =>
      rw [snapshots, List.forall_mem_cons, ← inductionHypothesis (call + 1),
        SymbolCache.getSnapshot]
      split
      · rename_i inside
        simp only [inside, Option.bind_eq_bind, Option.bind_some, true_and]
        cases snapshots caches use (call + 1) ids <;> simp
      · rename_i outside
        simp [outside]

/-- If the results name their symbols, these are the symbols of the loop. -/
theorem snapshots_map
    {β : Type} {caches : Nat → SymbolCache}
    {use : UInt16 → MarketState → β} {symbol : β → UInt16}
    (kept : ∀ id snap, symbol (use id snap) = id)
    {call : Nat} {ids : List UInt16} {results : List β}
    (read : snapshots caches use call ids = some results) :
    results.map symbol = ids := by
  induction ids generalizing call results with
  | nil =>
      cases read
      rfl
  | cons id ids inductionHypothesis =>
      simp only [snapshots, Option.bind_eq_bind,
        Option.bind_eq_some_iff] at read
      obtain ⟨snap, _, later, rest, collected⟩ := read
      cases collected
      rw [List.map_cons, kept, inductionHypothesis rest]

/-- A dashboard is rendered exactly when all indices are in range. -/
theorem render_isSome_iff
    (sorting : RankSort) (caches : Nat → SymbolCache)
    (symbolNames : List String) :
    (render sorting caches symbolNames).isSome ↔
      ∀ id ∈ indices sorting caches symbolNames,
        id.toNat < maxSymbols := by
  have first :
      (rank caches symbolNames).isSome ↔
        ∀ id ∈ symbolIds symbolNames, id.toNat < maxSymbols :=
    snapshots_isSome_iff caches _ 0 _
  rw [render, indices]
  cases read : rank caches symbolNames with
  | none =>
      rw [read] at first
      simpa using first
  | some ranked =>
      have second :
          (rows caches symbolNames (leaders sorting ranked)).isSome ↔
            ∀ id ∈ leaders sorting ranked, id.toNat < maxSymbols :=
        snapshots_isSome_iff caches _ _ _
      rw [read] at first
      simp only [Option.bind_eq_bind, Option.bind_some, List.mem_append,
        or_imp, forall_and, ← first, ← second]
      cases rows caches symbolNames (leaders sorting ranked) <;> simp

/-- The first loop ranks the configured symbols. -/
theorem rank_symbolIds
    {caches : Nat → SymbolCache} {symbolNames : List String}
    {ranked : List (UInt64 × UInt16)}
    (read : rank caches symbolNames = some ranked) :
    ranked.map Prod.snd = symbolIds symbolNames :=
  snapshots_map (fun _ _ => rfl) read

/-- The second loop reads no symbol that the first has not read. -/
theorem leaders_mem_symbolIds
    (sorting : RankSort) {caches : Nat → SymbolCache}
    {symbolNames : List String} {ranked : List (UInt64 × UInt16)}
    (read : rank caches symbolNames = some ranked)
    {id : UInt16} (leads : id ∈ leaders sorting ranked) :
    id ∈ symbolIds symbolNames := by
  rw [leaders, List.mem_map] at leads
  obtain ⟨entry, shown, rfl⟩ := leads
  have sorted : entry ∈ sorting.sort ranked := List.mem_of_mem_take shown
  rw [← rank_symbolIds read]
  exact List.mem_map_of_mem ((sorting.perm ranked).mem_iff.mp sorted)

/-- All indices are in range exactly when no more symbols are configured than
the cache has. -/
theorem indices_inRange_iff
    (sorting : RankSort) (caches : Nat → SymbolCache)
    (symbolNames : List String) :
    (∀ id ∈ indices sorting caches symbolNames,
        id.toNat < maxSymbols) ↔
      symbolNames.length ≤ maxSymbols := by
  constructor
  · intro inRange
    by_contra many
    have configured : UInt16.ofNat maxSymbols ∈ symbolIds symbolNames :=
      List.mem_map_of_mem (List.mem_range.mpr (Nat.lt_of_not_le many))
    have bounded :=
      inRange _ (List.mem_append_left _ configured)
    exact absurd bounded (by decide)
  · intro few id member
    have configured : id ∈ symbolIds symbolNames := by
      rcases List.mem_append.mp member with first | second
      · exact first
      · split at second
        · exact absurd second List.not_mem_nil
        · rename_i ranked read
          exact leaders_mem_symbolIds sorting read second
    rw [symbolIds, List.mem_map] at configured
    obtain ⟨index, counted, rfl⟩ := configured
    have below := List.mem_range.mp counted
    have small : maxSymbols = 500 := rfl
    rw [UInt16.toNat_ofNat']
    omega

end Visualizer

end MarketDataHandler
