import MarketDataHandler.Server.SymbolSchedule

/-!
# Quotes and trades of a symbol

Symbol and kind of a tick come from one number, the symbol modulo the number of
symbols and the kind modulo ten.  If the number of symbols is a multiple of
five, the symbol already fixes the kind up to the ones that it shares its
residue modulo five with, and symbol 3 has only quotes.  Otherwise the two
residues have at most their parity in common, and every symbol gets both.
-/

namespace MarketDataHandler

/-- Every symbol has a trade and a quote among the tick messages. -/
def MixesKinds (n : Nat) (trace : List ServerOutput) : Prop :=
  ∀ sym < n,
    (∃ header ∈ tickHeaders trace,
      header.msgType = msgTrade ∧ header.symbolId.toNat = sym) ∧
    ∃ header ∈ tickHeaders trace,
      header.msgType = msgQuote ∧ header.symbolId.toNat = sym

/-- Ticks for at least one client, without heartbeats and fault injection
between them. -/
def OnlyTicks (server : ExchangeSimulator) : ServerAction → Prop
  | .tick _ _ => server.clients.isEmpty = false
  | .heartbeat _ _ => False
  | .enableFaultInjection enable => enable = false
  | _ => True

instance (server : ExchangeSimulator) (action : ServerAction) :
    Decidable (OnlyTicks server action) :=
  match action with
  | .tick _ _ => inferInstanceAs (Decidable (_ = _))
  | .heartbeat _ _ => inferInstanceAs (Decidable False)
  | .enableFaultInjection _ => inferInstanceAs (Decidable (_ = _))
  | .newConnection _ => isTrue trivial
  | .clientDisconnect _ => isTrue trivial
  | .reorder _ => isTrue trivial

/-! ## The numbers of the ticks -/

namespace ExchangeSimulator

theorem step_faultInjection
    {server : ExchangeSimulator} {action : ServerAction}
    (only : OnlyTicks server action)
    (disabled : server.faultInjection = false) :
    (server.step action).1.faultInjection = false := by
  cases action with
  | enableFaultInjection enable =>
      exact only
  | tick draw sends =>
      rw [step, generateAndBroadcast]
      split <;> exact disabled
  | heartbeat nowNs sends =>
      exact absurd only id
  | _ =>
      exact disabled

/-- A tick uses one number, for its symbol and for its message. -/
theorem numbersUsed_onlyTicks
    {server : ExchangeSimulator} {action : ServerAction}
    (only : OnlyTicks server action)
    (disabled : server.faultInjection = false) :
    server.numbersUsed action =
      if action.isTick then
        [.tick server.seqNo.toNat server.seqNo]
      else
        [] := by
  cases action with
  | tick draw sends =>
      have kept : server.skips = false := by
        rw [skips, disabled]
        rfl
      have connected : server.clients.isEmpty = false := only
      rw [numbersUsed, connected, nextSeq, kept]
      rfl
  | heartbeat nowNs sends =>
      exact absurd only id
  | _ =>
      rfl

theorem numbersUsedIn_onlyTicks
    {server : ExchangeSimulator} {actions : List ServerAction}
    (only : Mealy.Guarded step OnlyTicks server actions)
    (disabled : server.faultInjection = false) :
    (server.numbersUsedIn actions).length =
        actions.countP ServerAction.isTick ∧
      ∀ use ∈ server.numbersUsedIn actions,
        ∃ seq : UInt32, use = .tick seq.toNat seq := by
  induction actions generalizing server with
  | nil =>
      exact ⟨rfl, by simp [numbersUsedIn]⟩
  | cons action actions inductionHypothesis =>
      obtain ⟨now, later⟩ := only
      obtain ⟨count, ticks⟩ :=
        inductionHypothesis later (step_faultInjection now disabled)
      rw [numbersUsedIn_cons, numbersUsed_onlyTicks now disabled]
      refine ⟨?_, ?_⟩
      · rw [List.length_append, count, List.countP_cons]
        split <;> simp [Nat.add_comm]
      · intro use member
        rcases List.mem_append.mp member with first | rest
        · split at first
          · exact ⟨server.seqNo, List.mem_singleton.mp first⟩
          · cases first
        · exact ticks use rest

end ExchangeSimulator

theorem tickType_eq_trade_iff (seq : UInt32) :
    tickType seq = msgTrade ↔ seq.toNat % 10 < 3 := by
  have small : seq % 10 < 3 ↔ seq.toNat % 10 < 3 := by
    rw [UInt32.lt_iff_toNat_lt, UInt32.toNat_mod]
    rfl
  rw [tickType, ← small]
  split <;> simp_all [msgTrade, msgQuote]

theorem tickType_eq_quote_iff (seq : UInt32) :
    tickType seq = msgQuote ↔ 3 ≤ seq.toNat % 10 := by
  have other : tickType seq = msgQuote ↔ tickType seq ≠ msgTrade := by
    rw [tickType]
    split <;> decide
  rw [other, Ne, tickType_eq_trade_iff, Nat.not_lt]

/-- The numbers that a run of ticks draws are consecutive. -/
theorem mem_numbersUsedIn_iff
    {server : ExchangeSimulator} {actions : List ServerAction}
    (disabled : server.faultInjection = false)
    (only :
      Mealy.Guarded ExchangeSimulator.step OnlyTicks server actions)
    (noWrap :
      server.seqNo.toNat + actions.countP ServerAction.isTick < 2 ^ 32)
    (seq : UInt32) :
    .tick seq.toNat seq ∈ server.numbersUsedIn actions ↔
      server.seqNo.toNat ≤ seq.toNat ∧
        seq.toNat <
          server.seqNo.toNat + actions.countP ServerAction.isTick := by
  obtain ⟨length, ticks⟩ :=
    ExchangeSimulator.numbersUsedIn_onlyTicks only disabled
  rw [← length] at noWrap ⊢
  have numbers := (ExchangeSimulator.run_schedule noWrap).1
  rw [← List.mem_range'_1, ← numbers, List.mem_map]
  constructor
  · intro used
    exact ⟨_, used, rfl⟩
  · intro found
    obtain ⟨use, used, number⟩ := found
    obtain ⟨other, rfl⟩ := ticks use used
    have same : other = seq := UInt32.toNat_inj.mp number
    subst other
    exact used

/-- Which messages are among those of a run of ticks. -/
theorem exists_tickHeader_iff
    {server : ExchangeSimulator} {actions : List ServerAction}
    (small : server.symbolCount ≤ 2 ^ 16)
    (disabled : server.faultInjection = false)
    (only :
      Mealy.Guarded ExchangeSimulator.step OnlyTicks server actions)
    (noWrap :
      server.seqNo.toNat + actions.countP ServerAction.isTick < 2 ^ 32)
    (type : UInt16) (sym : Nat) :
    (∃ header ∈ tickHeaders (server.run actions).2,
        header.msgType = type ∧ header.symbolId.toNat = sym) ↔
      ∃ seq : UInt32,
        server.seqNo.toNat ≤ seq.toNat ∧
          seq.toNat <
            server.seqNo.toNat + actions.countP ServerAction.isTick ∧
          tickType seq = type ∧ seq.toNat % server.symbolCount = sym := by
  have drawn := mem_numbersUsedIn_iff disabled only noWrap
  obtain ⟨length, ticks⟩ :=
    ExchangeSimulator.numbersUsedIn_onlyTicks only disabled
  rw [← length] at noWrap
  have messages := (ExchangeSimulator.run_schedule noWrap).2
  constructor
  · intro found
    obtain ⟨header, member, rfl, rfl⟩ := found
    have listed :
        (header.msgType, header.symbolId) ∈
          (server.numbersUsedIn actions).filterMap
            (NumberUse.message server.symbolCount) := by
      rw [← messages]
      exact List.mem_map_of_mem member
    obtain ⟨use, used, message⟩ := List.mem_filterMap.mp listed
    obtain ⟨seq, rfl⟩ := ticks use used
    obtain ⟨low, high⟩ := (drawn seq).mp used
    simp only [NumberUse.message, Option.some.injEq,
      Prod.mk.injEq] at message
    obtain ⟨type, symbol⟩ := message
    refine ⟨seq, low, high, type, ?_⟩
    rw [← symbol, ExchangeSimulator.toNat_symbol small]
  · intro found
    obtain ⟨seq, low, high, rfl, rfl⟩ := found
    have listed :
        (tickType seq, UInt16.ofNat (seq.toNat % server.symbolCount)) ∈
          (tickHeaders (server.run actions).2).map
            (fun header => (header.msgType, header.symbolId)) := by
      rw [messages]
      exact List.mem_filterMap.mpr
        ⟨_, (drawn seq).mpr ⟨low, high⟩, rfl⟩
    obtain ⟨header, member, fields⟩ := List.mem_map.mp listed
    obtain ⟨type, symbol⟩ := Prod.mk.injEq _ _ _ _ ▸ fields
    refine ⟨header, member, type, ?_⟩
    rw [symbol, ExchangeSimulator.toNat_symbol small]

/-! ## Residues modulo the number of symbols and modulo ten -/

/-- Unless five divides it, a number has at most a factor two in common with
ten. -/
theorem gcd_ten_dvd_two {n : Nat} (notFive : ¬ 5 ∣ n) :
    Nat.gcd n 10 ∣ 2 := by
  have divisors : ∀ d ≤ 10, d ∣ 10 → ¬ 5 ∣ d → d ∣ 2 := by decide
  have divides : Nat.gcd n 10 ∣ 10 := Nat.gcd_dvd_right n 10
  apply divisors _ (Nat.le_of_dvd (by decide) divides) divides
  intro five
  exact notFive (five.trans (Nat.gcd_dvd_left n 10))

/-- Every symbol meets every residue modulo ten of its own parity. -/
theorem exists_kind
    {n sym kind : Nat} (notFive : ¬ 5 ∣ n) (inside : sym < n)
    (decimal : kind < 10) (parity : sym % 2 = kind % 2) (start : Nat) :
    ∃ offset < 10 * n,
      (start + offset) % n = sym ∧ (start + offset) % 10 = kind := by
  have even : sym ≡ kind [MOD 2] := parity
  rw [Nat.mul_comm]
  exact ResidueWindow.exists_residues inside decimal
    (even.of_dvd (gcd_ten_dvd_two notFive)) start

/-- A multiple of five symbols: symbol 3 has no number of a trade. -/
theorem not_trade_of_five_dvd
    {n number : Nat} (five : 5 ∣ n) (symbol : number % n = 3) :
    ¬ number % 10 < 3 := by
  have residue : number % 5 = 3 := by
    rw [← Nat.mod_mod_of_dvd number five, symbol]
  omega

theorem mixesKinds_of_not_five_dvd
    {server : ExchangeSimulator} {actions : List ServerAction}
    (small : server.symbolCount ≤ 2 ^ 16)
    (disabled : server.faultInjection = false)
    (only :
      Mealy.Guarded ExchangeSimulator.step OnlyTicks server actions)
    (enough :
      10 * server.symbolCount ≤ actions.countP ServerAction.isTick)
    (noWrap :
      server.seqNo.toNat + actions.countP ServerAction.isTick < 2 ^ 32)
    (notFive : ¬ 5 ∣ server.symbolCount) :
    MixesKinds server.symbolCount (server.run actions).2 := by
  -- the number of a tick of this symbol with the given last digit
  have reaches :
      ∀ sym < server.symbolCount, ∀ kind < 10, sym % 2 = kind % 2 →
        ∃ seq : UInt32,
          server.seqNo.toNat ≤ seq.toNat ∧
            seq.toNat <
              server.seqNo.toNat + actions.countP ServerAction.isTick ∧
            seq.toNat % server.symbolCount = sym ∧
            seq.toNat % 10 = kind := by
    intro sym inside kind decimal parity
    obtain ⟨offset, near, symbol, digit⟩ :=
      exists_kind notFive inside decimal parity server.seqNo.toNat
    have number :
        (UInt32.ofNat (server.seqNo.toNat + offset)).toNat =
          server.seqNo.toNat + offset :=
      UInt32.toNat_ofNat_of_lt (by
        have size : UInt32.size = 2 ^ 32 := rfl
        omega)
    refine ⟨UInt32.ofNat (server.seqNo.toNat + offset), ?_⟩
    rw [number]
    exact ⟨Nat.le_add_right _ _, by omega, symbol, digit⟩
  intro sym inside
  simp only [exists_tickHeader_iff small disabled only noWrap]
  obtain ⟨trade, tradeLow, tradeHigh, tradeSymbol, tradeDigit⟩ :=
    reaches sym inside (sym % 2) (by omega) (by omega)
  obtain ⟨quote, quoteLow, quoteHigh, quoteSymbol, quoteDigit⟩ :=
    reaches sym inside (4 + sym % 2) (by omega) (by omega)
  refine ⟨⟨trade, tradeLow, tradeHigh, ?_, tradeSymbol⟩,
    ⟨quote, quoteLow, quoteHigh, ?_, quoteSymbol⟩⟩
  · rw [tickType_eq_trade_iff]
    omega
  · rw [tickType_eq_quote_iff]
    omega

theorem not_mixesKinds_of_five_dvd
    {server : ExchangeSimulator} {actions : List ServerAction}
    (small : server.symbolCount ≤ 2 ^ 16)
    (disabled : server.faultInjection = false)
    (only :
      Mealy.Guarded ExchangeSimulator.step OnlyTicks server actions)
    (noWrap :
      server.seqNo.toNat + actions.countP ServerAction.isTick < 2 ^ 32)
    (five : 5 ∣ server.symbolCount) :
    ¬ MixesKinds server.symbolCount (server.run actions).2 := by
  intro mixes
  have inside : 3 < server.symbolCount := by
    have many := Nat.le_of_dvd server.symbolCount_pos five
    omega
  obtain ⟨seq, _, _, type, symbol⟩ :=
    (exists_tickHeader_iff small disabled only noWrap msgTrade 3).mp
      (mixes 3 inside).1
  rw [tickType_eq_trade_iff] at type
  exact not_trade_of_five_dvd five symbol type

/-- A run of at least `10 * n` ticks brings every symbol a trade and a quote
exactly when the number of symbols is not a multiple of five. -/
theorem mixesKinds_iff_not_five_dvd
    {server : ExchangeSimulator} {actions : List ServerAction}
    (small : server.symbolCount ≤ 2 ^ 16)
    (disabled : server.faultInjection = false)
    (only :
      Mealy.Guarded ExchangeSimulator.step OnlyTicks server actions)
    (enough :
      10 * server.symbolCount ≤ actions.countP ServerAction.isTick)
    (noWrap :
      server.seqNo.toNat + actions.countP ServerAction.isTick < 2 ^ 32) :
    MixesKinds server.symbolCount (server.run actions).2 ↔
      ¬ 5 ∣ server.symbolCount := by
  constructor
  · intro mixes five
    exact not_mixesKinds_of_five_dvd small disabled only noWrap five mixes
  · intro notFive
    exact mixesKinds_of_not_five_dvd small disabled only enough noWrap
      notFive

/-- Twenty ticks for two symbols. -/
theorem mixesKinds_two_symbols :
    MixesKinds 2
      (twoSymbolServer.run (List.replicate 20 anyTick)).2 := by
  apply
    (mixesKinds_iff_not_five_dvd
      (show twoSymbolServer.symbolCount ≤ 2 ^ 16 by decide) rfl
      (by decide) (by decide) (by decide)).mpr
  decide

/-- Fifty ticks for five symbols. -/
theorem not_mixesKinds_five_symbols :
    ¬ ∀ (server : ExchangeSimulator) (actions : List ServerAction),
      server.symbolCount ≤ 2 ^ 16 →
      server.faultInjection = false →
      Mealy.Guarded ExchangeSimulator.step OnlyTicks server actions →
      10 * server.symbolCount ≤ actions.countP ServerAction.isTick →
      server.seqNo.toNat + actions.countP ServerAction.isTick <
        2 ^ 32 →
        MixesKinds server.symbolCount (server.run actions).2 := by
  intro mixes
  let fiveSymbolServer : ExchangeSimulator :=
    { twoSymbolServer with
      symbolCount := 5
      symbolCount_pos := by decide }
  have only :
      Mealy.Guarded ExchangeSimulator.step OnlyTicks fiveSymbolServer
        (List.replicate 50 anyTick) := by
    decide
  exact
    not_mixesKinds_of_five_dvd (by decide) rfl only (by decide) (by decide)
      (mixes fiveSymbolServer _ (by decide) rfl only (by decide)
        (by decide))

end MarketDataHandler
