import Mathlib.Algebra.GroupWithZero.Nat
import MarketDataHandler.Lib.Mealy
import MarketDataHandler.MemoryPool

/-!
# Histories of the memory pool

A call of `acquire` or `release` takes effect with its last step.  In the order
of these steps the calls of all threads answer like those of one stack, as long
as no exchange of `pop` installs an outdated successor.  It never does where a
single thread acquires, however many threads release.

A call repeats its loop only if the head has changed or its exchange failed
spuriously, and the head changes only when another call returns.  So threads
that take steps make calls return.
-/

namespace MarketDataHandler

open Interleaving

variable {poolSize : Nat}

/-! ## What the calls return -/

/-- The end of a call. -/
inductive PoolReturn (poolSize : Nat) where
  /-- `acquire` returns a block. -/
  | block (blk : Fin poolSize)
  /-- `acquire` returns a null pointer. -/
  | null
  | released (blk : Fin poolSize)
  deriving DecidableEq, Repr

/-- The call that a step of a thread ends. -/
def PoolThread.returned (before after : PoolThread poolSize) :
    Option (PoolReturn poolSize) :=
  match before.pc, after.pc with
  | .popLoad, .idle => some .null
  | .popExchange head _, .idle =>
      if after.held = before.held then some .null
      else some (.block head)
  | .pushExchange blk _, .idle => some (.released blk)
  | _, _ => none

/-- The call on a stack of the free blocks, if it may return so. -/
def PoolReturn.onStack :
    List (Fin poolSize) → PoolReturn poolSize →
      Option (List (Fin poolSize))
  | [], .null => some []
  | head :: free, .block blk => if head = blk then some free else none
  | free, .released blk => some (blk :: free)
  | _, _ => none

def PoolReturn.runOnStack :
    List (Fin poolSize) → List (PoolReturn poolSize) →
      Option (List (Fin poolSize))
  | free, [] => some free
  | free, returned :: later =>
      (returned.onStack free).bind (runOnStack · later)

theorem PoolReturn.runOnStack_append
    (free : List (Fin poolSize)) (first second : List (PoolReturn poolSize)) :
    runOnStack free (first ++ second) =
      (runOnStack free first).bind (runOnStack · second) := by
  induction first generalizing free with
  | nil =>
      rfl
  | cons returned first inductionHypothesis =>
      rw [List.cons_append, runOnStack, runOnStack, Option.bind_assoc]
      exact congrArg _ (funext inductionHypothesis)

/-- A thread takes its next step, or gives a block that it holds to another
one. -/
inductive PoolAction (τ : Type*) (poolSize : Nat) where
  | move (thread : τ) (input : PoolInput poolSize)
  | handOver (giver taker : τ) (blk : Fin poolSize)
  deriving DecidableEq, Repr

namespace Pool

variable {τ : Type*} [DecidableEq τ]

def handOver (pool : Pool τ poolSize) (giver taker : τ)
    (blk : Fin poolSize) : Pool τ poolSize :=
  if (pool.locals giver).held.contains blk then
    let given :=
      Function.update pool.locals giver
        { pc := (pool.locals giver).pc
          held := (pool.locals giver).held.erase blk }
    { shared := pool.shared
      locals :=
        Function.update given taker
          { pc := (given taker).pc
            held := blk :: (given taker).held } }
  else
    pool

/-- The pool behind an action, and the call that the action ends. -/
def act (pool : Pool τ poolSize) :
    PoolAction τ poolSize → Pool τ poolSize × List (PoolReturn poolSize)
  | .move thread input =>
      let later := Interleaving.step PoolThread.step pool (thread, input)
      (later,
        ((pool.locals thread).returned (later.locals thread)).toList)
  | .handOver giver taker blk => (pool.handOver giver taker blk, [])

/-- No exchange of `pop` installs an outdated successor. -/
def IsCurrent (pool : Pool τ poolSize) :
    PoolAction τ poolSize → Prop
  | .move thread input => ¬ pool.InstallsOutdated (thread, input)
  | .handOver _ _ _ => True

instance (pool : Pool τ poolSize) (action : PoolAction τ poolSize) :
    Decidable (pool.IsCurrent action) :=
  match action with
  | .move _ _ => inferInstanceAs (Decidable (¬ _))
  | .handOver _ _ _ => isTrue trivial

end Pool

/-- A thread in the middle of a call ignores what it is called for next. -/
theorem PoolThread.step_waits
    {input : PoolInput poolSize}
    (waits : ∀ spurious, input ≠ .proceed spurious)
    (memory : PoolMemory poolSize) {thread : PoolThread poolSize}
    (busy : thread.pc ≠ .idle) :
    thread.step input memory = (memory, thread) := by
  obtain ⟨pc, held⟩ := thread
  cases input with
  | proceed spurious =>
      exact absurd rfl (waits spurious)
  | acquire =>
      cases pc with
      | idle =>
          exact absurd rfl busy
      | _ =>
          rfl
  | release ptr =>
      cases pc with
      | idle =>
          exact absurd rfl busy
      | _ =>
          rfl

/-- The four kinds of steps, by what they return. -/
theorem PoolThread.step_returned
    (input : PoolInput poolSize) (memory : PoolMemory poolSize)
    (thread : PoolThread poolSize) :
    let result := thread.step input memory
    (thread.returned result.2 = none ∧
        result.1.freeHead = memory.freeHead) ∨
      (thread.returned result.2 = some .null ∧
        memory.freeHead = none ∧ result.1.freeHead = none) ∨
      (∃ head next,
        thread.pc = .popExchange head next ∧
          input = .proceed false ∧
          thread.returned result.2 = some (.block head) ∧
          memory.freeHead = some head ∧ result.1.freeHead = next) ∨
      ∃ blk,
        thread.pc = .pushExchange blk memory.freeHead ∧
          thread.returned result.2 = some (.released blk) ∧
          result.1.freeHead = some blk ∧
          result.1.next = memory.next := by
  obtain ⟨pc, held⟩ := thread
  intro result
  cases pc with
  | idle =>
      refine Or.inl ⟨rfl, ?_⟩
      cases input with
      | release ptr =>
          cases ptr with
          | none => rfl
          | some blk =>
              simp only [result, PoolThread.step]
              split <;> rfl
      | _ => rfl
  | popLoad =>
      cases input with
      | proceed spurious =>
          cases head : memory.freeHead with
          | none =>
              refine Or.inr (Or.inl ⟨?_, rfl, head⟩)
              simp [result, PoolThread.step, PoolThread.returned, head,
                popTest]
          | some first =>
              refine Or.inl ⟨?_, head⟩
              simp [result, PoolThread.step, PoolThread.returned, head,
                popTest]
      | _ => exact Or.inl ⟨rfl, rfl⟩
  | popExchange head next =>
      cases input with
      | proceed spurious =>
          simp only [result, PoolThread.step]
          rcases compareExchangeWeak_cases memory.freeHead (some head)
            next spurious with ⟨found, sure, swapped⟩ | failed
          · rw [swapped, sure]
            refine Or.inr (Or.inr (Or.inl ⟨head, next, rfl, rfl, ?_⟩))
            exact ⟨by simp [PoolThread.returned], found, rfl⟩
          · rw [failed]
            cases found : memory.freeHead with
            | none =>
                refine Or.inr (Or.inl ⟨?_, rfl, rfl⟩)
                simp [PoolThread.returned, popTest]
            | some first =>
                exact Or.inl ⟨rfl, rfl⟩
      | _ => exact Or.inl ⟨rfl, rfl⟩
  | pushExchange blk expected =>
      cases input with
      | proceed spurious =>
          simp only [result, PoolThread.step]
          rcases compareExchangeWeak_cases memory.freeHead expected
            (some blk) spurious with ⟨found, _, swapped⟩ | failed
          · rw [swapped]
            refine Or.inr (Or.inr (Or.inr ⟨blk, ?_, rfl, rfl, rfl⟩))
            rw [found]
          · rw [failed]
            exact Or.inl ⟨rfl, rfl⟩
      | _ => exact Or.inl ⟨rfl, rfl⟩
  | _ =>
      cases input <;> exact Or.inl ⟨rfl, rfl⟩

/-- A step that ends no call leaves the head as it is. -/
theorem PoolThread.freeHead_of_silent
    {input : PoolInput poolSize} {memory : PoolMemory poolSize}
    {thread : PoolThread poolSize}
    (silent :
      thread.returned (thread.step input memory).2 = none) :
    (thread.step input memory).1.freeHead = memory.freeHead := by
  rcases PoolThread.step_returned input memory thread with
    ⟨_, head⟩ | ⟨ended, _⟩ | ⟨_, _, _, _, ended, _⟩ | ⟨_, _, ended, _⟩
  · exact head
  all_goals
    rw [silent] at ended
    cases ended

/-! ## The calls answer like those of a stack -/

theorem ThreadOwns.loses
    {τ : Type*} {memory : PoolMemory poolSize}
    {owner : Fin poolSize → BlockOwner τ} {thread : τ}
    {own : PoolThread poolSize}
    (owns : ThreadOwns memory owner thread own) {blk : Fin poolSize}
    (belongs : owner blk = .holder thread) :
    ThreadOwns memory (Function.update owner blk .freeList) thread
      { pc := own.pc
        held := own.held.erase blk } := by
  refine ⟨?_, owns.nodup.erase blk, ?_, owns.linked⟩
  · intro target
    rw [owns.nodup.mem_erase_iff, owns.mem_held]
    by_cases same : target = blk <;> simp [same]
  · intro target
    rw [owns.pushing]
    by_cases same : target = blk
    · simp [same, belongs]
    · simp [same]

theorem ThreadOwns.gains
    {τ : Type*} {memory : PoolMemory poolSize}
    {owner : Fin poolSize → BlockOwner τ} {thread : τ}
    {own : PoolThread poolSize}
    (owns : ThreadOwns memory owner thread own) {blk : Fin poolSize}
    (unowned : owner blk = .freeList) :
    ThreadOwns memory (Function.update owner blk (.holder thread)) thread
      { pc := own.pc
        held := blk :: own.held } := by
  have outside : blk ∉ own.held := by
    rw [owns.mem_held, unowned]
    exact nofun
  refine ⟨?_, List.nodup_cons.mpr ⟨outside, owns.nodup⟩, ?_, owns.linked⟩
  · intro target
    rw [List.mem_cons, owns.mem_held]
    by_cases same : target = blk <;> simp [same]
  · intro target
    rw [owns.pushing]
    by_cases same : target = blk
    · simp [same, unowned]
    · simp [same]

namespace Pool

variable {τ : Type*} [DecidableEq τ]
variable {pool : Pool τ poolSize} {owner : Fin poolSize → BlockOwner τ}
variable {free : List (Fin poolSize)} {move : τ × PoolInput poolSize}

/-- A thread writes the link of the block that it pushes only. -/
theorem Owned.next_of_unpushed
    (owned : pool.Owned owner free) (move : τ × PoolInput poolSize)
    {blk : Fin poolSize} (unpushed : owner blk ≠ .pusher move.1) :
    (Interleaving.step PoolThread.step pool move).shared.next blk =
      pool.shared.next blk := by
  have effect :=
    PoolThread.step_effect move.2 pool.shared (pool.locals move.1)
  change
    (PoolThread.step move.2 pool.shared (pool.locals move.1)).1.next
        blk =
      _
  generalize
    PoolThread.step move.2 pool.shared (pool.locals move.1) = result
    at effect
  cases effect with
  | @stores target value storing =>
      have pushed :=
        ((owned.threads move.1).pushing target).mp (by rw [storing]; rfl)
      apply Function.update_of_ne
      intro same
      exact unpushed (same ▸ pushed)
  | _ =>
      rfl

theorem Owned.step_next
    (owned : pool.Owned owner free) (move : τ × PoolInput poolSize)
    {blk : Fin poolSize} (isFree : blk ∈ free) :
    (Interleaving.step PoolThread.step pool move).shared.next blk =
      pool.shared.next blk := by
  apply owned.next_of_unpushed
  rw [(owned.mem_free blk).mp isFree]
  exact nofun

/-- The free blocks after a step are those of the stack. -/
def Commits (free : List (Fin poolSize)) :
    Option (PoolReturn poolSize) → List (Fin poolSize) → Prop
  | none, remaining => remaining = free
  | some returned, remaining => returned.onStack free = some remaining

theorem Commits.runOnStack
    {ended : Option (PoolReturn poolSize)}
    {remaining : List (Fin poolSize)}
    (commits : Commits free ended remaining) :
    PoolReturn.runOnStack free ended.toList = some remaining := by
  cases ended with
  | none =>
      exact congrArg some commits.symm
  | some returned =>
      change (returned.onStack free).bind some = some remaining
      rw [show returned.onStack free = some remaining from commits]
      rfl

theorem Owned.step_commits
    (owned : pool.Owned owner free)
    (current : ¬ pool.InstallsOutdated move) :
    ∃ owner remaining,
      let later := Interleaving.step PoolThread.step pool move
      Owned later owner remaining ∧
        Commits free
          ((pool.locals move.1).returned (later.locals move.1))
          remaining := by
  obtain ⟨laterOwner, remaining, laterOwned⟩ := owned.step current
  refine ⟨laterOwner, remaining, laterOwned, ?_⟩
  have chain := laterOwned.chain
  have memory :
      (Interleaving.step PoolThread.step pool move).shared =
        (PoolThread.step move.2 pool.shared (pool.locals move.1)).1 :=
    rfl
  have unwritten {start : Option (Fin poolSize)}
      {blks : List (Fin poolSize)}
      (old : PointerChain pool.shared.next start blks)
      (inside : blks ⊆ free) :
      PointerChain
        (Interleaving.step PoolThread.step pool move).shared.next start
        blks :=
    old.congr fun blk member => owned.step_next move (inside member)
  have cases :=
    PoolThread.step_returned move.2 pool.shared (pool.locals move.1)
  have own :
      (Interleaving.step PoolThread.step pool move).locals move.1 =
        (PoolThread.step move.2 pool.shared (pool.locals move.1)).2 :=
    Config.after_self _ _ _
  rw [own]
  rcases cases with
    ⟨nothing, same⟩ | ⟨null, empty, still⟩ |
      ⟨head, next, exchanging, sure, popped, first, taken⟩ |
      ⟨blk, exchanging, released, first, links⟩
  · rw [nothing]
    rw [memory, same, ← memory] at chain
    exact chain.unique (unwritten owned.chain (List.Subset.refl _))
  · rw [null]
    have before := owned.chain
    rw [empty] at before
    rw [memory, still] at chain
    cases before
    cases chain
    exact rfl
  · rw [popped]
    have before := owned.chain
    rw [first] at before
    obtain ⟨rest, split, behind⟩ := before.front
    have successor : pool.shared.next head = next := by
      by_contra outdated
      exact current ⟨head, next, exchanging, sure, first, outdated⟩
    rw [successor] at behind
    rw [memory, taken, ← memory] at chain
    have same :=
      chain.unique
        (unwritten behind (split ▸ List.subset_cons_self head rest))
    rw [same, split]
    exact if_pos rfl
  · rw [released]
    have linked := (owned.threads move.1).linked blk _ exchanging
    rw [memory, first] at chain
    obtain ⟨rest, split, behind⟩ := chain.front
    rw [links, linked] at behind
    rw [split, behind.unique owned.chain]
    cases free <;> rfl

/-- A block goes from one holder to another: it is nobody's in between. -/
theorem Owned.handOver
    (owned : pool.Owned owner free) (giver taker : τ)
    (blk : Fin poolSize) :
    ∃ owner, (pool.handOver giver taker blk).Owned owner free := by
  rw [Pool.handOver]
  split
  case isFalse =>
    exact ⟨owner, owned⟩
  case isTrue held =>
    have belongs := ((owned.threads giver).mem_held blk).mp
        (List.contains_iff_mem.mp held)
    refine ⟨Function.update owner blk (.holder taker), owned.chain,
      owned.nodup, ?_, ?_⟩
    · intro target
      by_cases same : target = blk
      · subst target
        simp [owned.mem_free, belongs]
      · simp [owned.mem_free, same]
    · have given (thread : τ) :
          ThreadOwns pool.shared (Function.update owner blk .freeList)
            thread
            (Function.update pool.locals giver
              { pc := (pool.locals giver).pc
                held := (pool.locals giver).held.erase blk } thread) := by
        by_cases gives : thread = giver
        · subst thread
          rw [Function.update_self]
          exact (owned.threads giver).loses belongs
        · rw [Function.update_of_ne gives]
          exact (owned.threads thread).transfer gives
            (belongs ▸ BlockOwner.nobodyElse_holder giver)
            (BlockOwner.nobodyElse_freeList giver) fun _ _ => rfl
      have unowned :
          Function.update owner blk .freeList blk =
            (.freeList : BlockOwner τ) :=
        Function.update_self _ _ _
      have twice :
          Function.update owner blk (.holder taker) =
            Function.update (Function.update owner blk .freeList) blk
              (.holder taker) :=
        (Function.update_idem _ _ _).symm
      intro thread
      rw [twice]
      by_cases takes : thread = taker
      · subst thread
        dsimp only
        rw [Function.update_self]
        exact (given taker).gains unowned
      · dsimp only
        rw [Function.update_of_ne takes]
        have nobody := BlockOwner.nobodyElse_freeList taker
        rw [← unowned] at nobody
        exact (given thread).transfer takes nobody
          (BlockOwner.nobodyElse_holder taker) fun _ _ => rfl

/-- What an action leaves of the free blocks. -/
theorem Owned.act_onStack
    (owned : pool.Owned owner free) {action : PoolAction τ poolSize}
    (current : pool.IsCurrent action) :
    ∃ owner remaining,
      (pool.act action).1.Owned owner remaining ∧
        PoolReturn.runOnStack free (pool.act action).2 =
          some remaining := by
  cases action with
  | handOver giver taker blk =>
      obtain ⟨later, laterOwned⟩ := owned.handOver giver taker blk
      exact ⟨later, free, laterOwned, rfl⟩
  | move thread input =>
      obtain ⟨later, remaining, laterOwned, commits⟩ :=
        owned.step_commits current
      exact ⟨later, remaining, laterOwned, commits.runOnStack⟩

/-- The free blocks are those that the calls so far leave of all. -/
structure OnStack (pool : Pool τ poolSize)
    (returned : List (PoolReturn poolSize))
    (owner : Fin poolSize → BlockOwner τ)
    (free : List (Fin poolSize)) : Prop where
  owned : pool.Owned owner free
  ran :
    PoolReturn.runOnStack (List.finRange poolSize).reverse returned =
      some free

omit [DecidableEq τ] in
theorem onStack_start :
    (start τ poolSize).OnStack [] (fun _ => .freeList)
      (List.finRange poolSize).reverse where
  owned := owned_start
  ran := rfl

omit [DecidableEq τ] in
theorem OnStack.next
    {returned ended : List (PoolReturn poolSize)}
    (onStack : pool.OnStack returned owner free)
    {later : Pool τ poolSize} {laterOwner : Fin poolSize → BlockOwner τ}
    {remaining : List (Fin poolSize)}
    (owned : later.Owned laterOwner remaining)
    (ran : PoolReturn.runOnStack free ended = some remaining) :
    later.OnStack (returned ++ ended) laterOwner remaining := by
  refine ⟨owned, ?_⟩
  rw [PoolReturn.runOnStack_append, onStack.ran]
  exact ran

theorem OnStack.act
    {returned : List (PoolReturn poolSize)}
    (onStack : pool.OnStack returned owner free)
    {action : PoolAction τ poolSize} (current : pool.IsCurrent action) :
    ∃ owner remaining,
      (pool.act action).1.OnStack (returned ++ (pool.act action).2) owner
        remaining := by
  obtain ⟨later, remaining, laterOwned, ran⟩ :=
    onStack.owned.act_onStack current
  exact ⟨later, remaining, onStack.next laterOwned ran⟩

theorem exists_onStack
    {actions : List (PoolAction τ poolSize)}
    (current :
      Mealy.Guarded act IsCurrent (start τ poolSize) actions) :
    let result := Mealy.run act (start τ poolSize) actions
    ∃ owner free, result.1.OnStack result.2 owner free := by
  intro result
  apply Mealy.run_invariant act
    (fun pool returned => ∃ owner free, OnStack pool returned owner free)
    _ _ current
  · rintro pool returned action guard ⟨owner, free, onStack⟩
    exact onStack.act guard
  · exact ⟨_, _, onStack_start⟩

/-- The calls of all threads answer like those of one stack, in the order in
which they return; the free list spells what is left on the stack, and nobody
holds any of it. -/
theorem run_onStack
    {actions : List (PoolAction τ poolSize)}
    (current :
      Mealy.Guarded act IsCurrent (start τ poolSize) actions) :
    let result := Mealy.run act (start τ poolSize) actions
    ∃ free,
      PoolReturn.runOnStack (List.finRange poolSize).reverse result.2 =
          some free ∧
        PointerChain result.1.shared.next result.1.shared.freeHead
          free ∧
        free.Nodup ∧
        ∀ thread, ∀ blk ∈ (result.1.locals thread).held, blk ∉ free := by
  intro result
  obtain ⟨owner, free, owned, ran⟩ := exists_onStack current
  refine ⟨free, ran, owned.chain, owned.nodup, ?_⟩
  intro thread blk held isFree
  rw [(owned.threads thread).mem_held] at held
  rw [owned.mem_free, held] at isFree
  cases isFree

/-- A call of `acquire` from its start to its end. -/
def acquireAlone (thread : τ) : List (PoolAction τ poolSize) :=
  .move thread .acquire ::
    List.replicate 3 (.move thread (.proceed false))

/-- One thread is in front of its exchange when the other takes the head and
gives it to the first, which then gets the next block and puts the first one
back. -/
theorem run_onStack_overtaken :
    let actions : List (PoolAction Bool 2) :=
      (acquireAlone false).take 3 ++ acquireAlone true ++
        [.handOver true false 1] ++
        List.replicate 3 (.move false (.proceed false)) ++
        .move false (.release (some 1)) ::
          List.replicate 4 (.move false (.proceed false))
    let result := Mealy.run act (start Bool 2) actions
    result.2 = [.block 1, .block 0, .released 1] ∧
      ∃ free,
        PoolReturn.runOnStack (List.finRange 2).reverse result.2 =
            some free ∧
          PointerChain result.1.shared.next result.1.shared.freeHead
            free ∧
          free.Nodup ∧
          ∀ thread, ∀ blk ∈ (result.1.locals thread).held,
            blk ∉ free := by
  intro actions result
  exact ⟨by decide, run_onStack (by decide)⟩

end Pool

/-! ## One thread acquires -/

/-- In `pop`. -/
def PoolPc.Popping : PoolPc poolSize → Prop
  | .popLoad => True
  | .popNext _ => True
  | .popExchange _ _ => True
  | _ => False

/-- Where a thread is in `pop` behind a step. -/
inductive PopStep (input : PoolInput poolSize)
    (memory : PoolMemory poolSize) (before : PoolPc poolSize) :
    PoolPc poolSize → Prop
  | stays : PopStep input memory before before
  | called : input = .acquire → PopStep input memory before .popLoad
  | found {head : Fin poolSize} :
      before.Popping →
      memory.freeHead = some head →
      PopStep input memory before (.popNext head)
  | linked {head : Fin poolSize} :
      before = .popNext head →
      PopStep input memory before (.popExchange head (memory.next head))
  | elsewhere {after : PoolPc poolSize} :
      ¬ after.Popping →
      PopStep input memory before after

theorem PopStep.popping
    {input : PoolInput poolSize} {memory : PoolMemory poolSize}
    {before after : PoolPc poolSize}
    (popStep : PopStep input memory before after)
    (popping : after.Popping) : before.Popping ∨ input = .acquire := by
  cases popStep with
  | stays =>
      exact Or.inl popping
  | called acquires =>
      exact Or.inr acquires
  | found earlier _ =>
      exact Or.inl earlier
  | linked earlier =>
      rw [earlier]
      exact Or.inl trivial
  | elsewhere never =>
      exact absurd popping never

theorem PopStep.popNext
    {input : PoolInput poolSize} {memory : PoolMemory poolSize}
    {before : PoolPc poolSize} {head : Fin poolSize}
    (popStep : PopStep input memory before (.popNext head)) :
    before = .popNext head ∨ memory.freeHead = some head := by
  cases popStep with
  | stays =>
      exact Or.inl rfl
  | found _ first =>
      exact Or.inr first
  | elsewhere never =>
      exact absurd trivial never

theorem PopStep.popExchange
    {input : PoolInput poolSize} {memory : PoolMemory poolSize}
    {before : PoolPc poolSize} {head : Fin poolSize}
    {next : Option (Fin poolSize)}
    (popStep : PopStep input memory before (.popExchange head next)) :
    before = .popExchange head next ∨
      before = .popNext head ∧ memory.next head = next := by
  cases popStep with
  | stays =>
      exact Or.inl rfl
  | linked earlier =>
      exact Or.inr ⟨earlier, rfl⟩
  | elsewhere never =>
      exact absurd trivial never

theorem PoolThread.step_pop
    (input : PoolInput poolSize) (memory : PoolMemory poolSize)
    (thread : PoolThread poolSize) :
    PopStep input memory thread.pc (thread.step input memory).2.pc := by
  obtain ⟨pc, held⟩ := thread
  have tested (head : Option (Fin poolSize)) (popping : pc.Popping)
      (found : memory.freeHead = head) :
      PopStep input memory pc (popTest head) := by
    cases head with
    | none =>
        exact .elsewhere id
    | some head =>
        exact .found popping found
  by_cases idle : pc = .idle
  · subst idle
    cases input with
    | acquire =>
        exact .called rfl
    | release ptr =>
        cases ptr with
        | none =>
            exact .stays
        | some blk =>
            simp only [PoolThread.step]
            split
            · exact .elsewhere id
            · exact .stays
    | proceed spurious =>
        exact .stays
  · cases input with
    | proceed spurious =>
        cases pc with
        | idle =>
            exact absurd rfl idle
        | popLoad =>
            exact tested memory.freeHead trivial rfl
        | popNext head =>
            exact .linked rfl
        | popExchange head next =>
            simp only [PoolThread.step]
            rcases compareExchangeWeak_cases memory.freeHead (some head)
              next spurious with ⟨_, _, swapped⟩ | failed
            · rw [swapped]
              exact .elsewhere id
            · rw [failed]
              exact tested memory.freeHead trivial rfl
        | pushExchange blk expected =>
            simp only [PoolThread.step]
            rcases compareExchangeWeak_cases memory.freeHead expected
              (some blk) spurious with ⟨_, _, swapped⟩ | failed
            · rw [swapped]
              exact .elsewhere id
            · rw [failed]
              exact .elsewhere id
        | _ =>
            exact .elsewhere id
    | _ =>
        rw [PoolThread.step_waits (fun _ same => by cases same) memory
          idle]
        exact .stays

namespace Pool

variable {τ : Type*} [DecidableEq τ]
variable {pool : Pool τ poolSize} {owner : Fin poolSize → BlockOwner τ}
variable {free : List (Fin poolSize)} {acquirer : τ}

/-- Nobody but the acquirer is in `pop`, and what it has read there is still
so. -/
structure SoleAcquirer (pool : Pool τ poolSize)
    (free : List (Fin poolSize)) (acquirer : τ) : Prop where
  others :
    ∀ thread, (pool.locals thread).pc.Popping → thread = acquirer
  reads :
    ∀ head, (pool.locals acquirer).pc = .popNext head → head ∈ free
  exchanges :
    ∀ head next,
      (pool.locals acquirer).pc = .popExchange head next →
        head ∈ free ∧ pool.shared.next head = next

omit [DecidableEq τ] in
theorem SoleAcquirer.current
    (sole : pool.SoleAcquirer free acquirer)
    (move : τ × PoolInput poolSize) : ¬ pool.InstallsOutdated move := by
  rintro ⟨head, next, exchanging, _, _, outdated⟩
  have mine := sole.others move.1 (by rw [exchanging]; trivial)
  rw [mine] at exchanging
  exact outdated (sole.exchanges head next exchanging).2

/-- Only a call that leaves `pop` takes a block off the stack. -/
theorem Commits.keeps
    {before after : PoolThread poolSize} {remaining : List (Fin poolSize)}
    (commits : Commits free (before.returned after) remaining)
    (elsewhere : ¬ before.pc.Popping ∨ after.pc.Popping) :
    free ⊆ remaining := by
  cases ended : before.returned after with
  | none =>
      rw [ended] at commits
      rw [show remaining = free from commits]
      exact List.Subset.refl free
  | some returned =>
      rw [ended] at commits
      change returned.onStack free = some remaining at commits
      cases returned with
      | null =>
          cases free with
          | nil => exact List.nil_subset _
          | cons head free => cases commits
      | released blk =>
          have pushed : blk :: free = remaining := by
            cases free <;> exact Option.some.inj commits
          rw [← pushed]
          exact List.subset_cons_self blk free
      | block blk =>
          rw [PoolThread.returned] at ended
          split at ended
          · cases ended
          · rename_i head next popping returning
            rw [popping, returning] at elsewhere
            rcases elsewhere with never | never
            · exact absurd trivial never
            · exact absurd never id
          · cases ended
          · cases ended

/-- A step of a run in which nobody else acquires. -/
theorem SoleAcquirer.step
    (owned : pool.Owned owner free)
    (sole : pool.SoleAcquirer free acquirer)
    {move : τ × PoolInput poolSize}
    (alone : move.2 = .acquire → move.1 = acquirer)
    {remaining : List (Fin poolSize)}
    (commits :
      Commits free
        ((pool.locals move.1).returned
          ((Interleaving.step PoolThread.step pool move).locals move.1))
        remaining) :
    SoleAcquirer (Interleaving.step PoolThread.step pool move) remaining
      acquirer := by
  have popStep :=
    PoolThread.step_pop move.2 pool.shared (pool.locals move.1)
  have own :
      (Interleaving.step PoolThread.step pool move).locals move.1 =
        (PoolThread.step move.2 pool.shared (pool.locals move.1)).2 :=
    Config.after_self _ _ _
  have other (thread : τ) (different : thread ≠ move.1) :
      (Interleaving.step PoolThread.step pool move).locals thread =
        pool.locals thread :=
    Config.after_other pool different _
  rw [← own] at popStep
  have others (thread : τ)
      (popping :
        ((Interleaving.step PoolThread.step pool move).locals
          thread).pc.Popping) :
      thread = acquirer := by
    by_cases moved : thread = move.1
    · rw [moved] at popping ⊢
      rcases popStep.popping popping with earlier | called
      · exact sole.others move.1 earlier
      · exact alone called
    · rw [other thread moved] at popping
      exact sole.others thread popping
  by_cases mine : move.1 = acquirer
  · rw [mine] at popStep commits
    refine ⟨others, ?_, ?_⟩
    · intro head reached
      apply commits.keeps (Or.inr (by rw [reached]; trivial))
      rw [reached] at popStep
      rcases popStep.popNext with earlier | first
      · exact sole.reads head earlier
      · have chain := owned.chain
        rw [first] at chain
        obtain ⟨rest, split, _⟩ := chain.front
        rw [split]
        exact List.mem_cons_self
    · intro head next reached
      have kept := commits.keeps (Or.inr (by rw [reached]; trivial))
      rw [reached] at popStep
      have before : head ∈ free ∧ pool.shared.next head = next := by
        rcases popStep.popExchange with earlier | ⟨earlier, linked⟩
        · exact sole.exchanges head next earlier
        · exact ⟨sole.reads head earlier, linked⟩
      exact ⟨kept before.1,
        (owned.step_next move before.1).trans before.2⟩
  · have idle : ¬ (pool.locals move.1).pc.Popping := fun popping =>
      mine (sole.others move.1 popping)
    have kept := commits.keeps (Or.inl idle)
    refine ⟨others, ?_, ?_⟩
    · intro head reached
      rw [other acquirer (Ne.symm mine)] at reached
      exact kept (sole.reads head reached)
    · intro head next reached
      rw [other acquirer (Ne.symm mine)] at reached
      obtain ⟨isFree, linked⟩ := sole.exchanges head next reached
      exact ⟨kept isFree, (owned.step_next move isFree).trans linked⟩

omit [DecidableEq τ] in
theorem soleAcquirer_start (acquirer : τ) :
    (start τ poolSize).SoleAcquirer (List.finRange poolSize).reverse
      acquirer where
  others := fun _ popping => absurd popping id
  reads := fun _ reached => by cases reached
  exchanges := fun _ _ reached => by cases reached

omit [DecidableEq τ] in
theorem handOver_shared [DecidableEq τ] (giver taker : τ)
    (blk : Fin poolSize) :
    (pool.handOver giver taker blk).shared = pool.shared := by
  rw [handOver]
  split <;> rfl

theorem handOver_pc (giver taker : τ) (blk : Fin poolSize)
    (thread : τ) :
    ((pool.handOver giver taker blk).locals thread).pc =
      (pool.locals thread).pc := by
  rw [handOver]
  split
  · dsimp only
    by_cases takes : thread = taker
    · subst thread
      rw [Function.update_self]
      by_cases gives : taker = giver
      · subst taker
        rw [Function.update_self]
      · rw [Function.update_of_ne gives]
    · rw [Function.update_of_ne takes]
      by_cases gives : thread = giver
      · subst thread
        rw [Function.update_self]
      · rw [Function.update_of_ne gives]
  · rfl

theorem SoleAcquirer.handOver
    (sole : pool.SoleAcquirer free acquirer) (giver taker : τ)
    (blk : Fin poolSize) :
    (pool.handOver giver taker blk).SoleAcquirer free acquirer := by
  refine ⟨?_, ?_, ?_⟩
  · intro thread
    rw [handOver_pc]
    exact sole.others thread
  · intro head
    rw [handOver_pc]
    exact sole.reads head
  · intro head next
    rw [handOver_pc, handOver_shared]
    exact sole.exchanges head next

/-- Nobody else calls `acquire`. -/
def OnlyAcquires (acquirer : τ) : PoolAction τ poolSize → Prop
  | .move thread .acquire => thread = acquirer
  | _ => True

theorem SoleAcquirer.act
    {returned : List (PoolReturn poolSize)}
    (onStack : pool.OnStack returned owner free)
    (sole : pool.SoleAcquirer free acquirer)
    {action : PoolAction τ poolSize}
    (alone : OnlyAcquires acquirer action) :
    ∃ owner remaining,
      (pool.act action).1.OnStack (returned ++ (pool.act action).2) owner
          remaining ∧
        (pool.act action).1.SoleAcquirer remaining acquirer := by
  cases action with
  | handOver giver taker blk =>
      obtain ⟨later, laterOwned⟩ := onStack.owned.handOver giver taker blk
      exact ⟨later, free, onStack.next laterOwned rfl,
        sole.handOver giver taker blk⟩
  | move thread input =>
      have mine : input = .acquire → thread = acquirer := by
        intro acquires
        rw [acquires] at alone
        exact alone
      obtain ⟨later, remaining, laterOwned, commits⟩ :=
        onStack.owned.step_commits (sole.current (thread, input))
      exact ⟨later, remaining, onStack.next laterOwned commits.runOnStack,
        sole.step onStack.owned mine commits⟩

/-- With one thread that acquires, any number of threads that release and
blocks that go from hand to hand, every run keeps the blocks apart and answers
like a stack. -/
theorem soleAcquirer_onStack
    {actions : List (PoolAction τ poolSize)}
    (alone : ∀ action ∈ actions, OnlyAcquires acquirer action) :
    let result := Mealy.run act (start τ poolSize) actions
    result.1.ExclusiveOwnership ∧
      ∃ free,
        PoolReturn.runOnStack (List.finRange poolSize).reverse
              result.2 =
            some free ∧
          PointerChain result.1.shared.next result.1.shared.freeHead
            free := by
  intro result
  obtain ⟨owner, free, onStack, _⟩ :
      ∃ owner free,
        result.1.OnStack result.2 owner free ∧
          result.1.SoleAcquirer free acquirer := by
    apply Mealy.run_invariant act
      (fun pool returned =>
        ∃ owner free,
          OnStack pool returned owner free ∧
            SoleAcquirer pool free acquirer)
      _ _ (Mealy.guarded_of_forall act
        (fun action member _ => alone action member) _)
    · rintro pool returned action guard ⟨owner, free, onStack, sole⟩
      exact sole.act onStack guard
    · exact ⟨_, _, onStack_start, soleAcquirer_start acquirer⟩
  exact ⟨onStack.owned.exclusiveOwnership, free, onStack.ran,
    onStack.owned.chain⟩

/-- The acquirer is in front of its exchange when another thread puts a block
back that it was given. -/
theorem soleAcquirer_onStack_returned :
    let actions : List (PoolAction Bool 3) :=
      acquireAlone false ++ [.handOver false true 2] ++
        (acquireAlone false).take 3 ++
        .move true (.release (some 2)) ::
          List.replicate 4 (.move true (.proceed false)) ++
        List.replicate 3 (.move false (.proceed false))
    let result := Mealy.run act (start Bool 3) actions
    result.1.ExclusiveOwnership ∧
      ∃ free,
        PoolReturn.runOnStack (List.finRange 3).reverse result.2 =
            some free ∧
          PointerChain result.1.shared.next result.1.shared.freeHead
            free := by
  intro actions result
  have alone :
      ∀ action ∈ actions, OnlyAcquires false action := by
    simp [actions, acquireAlone, OnlyAcquires]
  exact soleAcquirer_onStack alone

/-! ## Some call always returns -/

end Pool

/-- How many steps a thread may still take in its call, as long as the head
stays as it is and no exchange fails spuriously. -/
def PoolThread.remaining (memory : PoolMemory poolSize)
    (thread : PoolThread poolSize) : Nat :=
  match thread.pc with
  | .idle => 0
  | .popLoad => 3
  | .popNext head => if memory.freeHead = some head then 2 else 4
  | .popExchange head _ => if memory.freeHead = some head then 1 else 3
  | .pushLoad _ => 4
  | .pushStore _ value => if memory.freeHead = value then 3 else 6
  | .pushExpected blk =>
      if memory.freeHead = memory.next blk then 2 else 5
  | .pushExchange _ expected =>
      if memory.freeHead = expected then 1 else 4

theorem PoolThread.remaining_pos
    {thread : PoolThread poolSize} (busy : thread.pc ≠ .idle)
    (memory : PoolMemory poolSize) : 0 < thread.remaining memory := by
  rw [PoolThread.remaining]
  split
  · rename_i idle
    exact absurd idle busy
  all_goals first | omega | (split <;> omega)

theorem PoolThread.remaining_le
    (memory : PoolMemory poolSize) (thread : PoolThread poolSize) :
    thread.remaining memory ≤ 6 := by
  rw [PoolThread.remaining]
  split
  all_goals first | omega | (split <;> omega)

/-! What each place in the two loops is worth. -/

theorem PoolThread.remaining_popTest
    {memory : PoolMemory poolSize} {found : Option (Fin poolSize)}
    (first : memory.freeHead = found) (goesOn : popTest found ≠ .idle)
    (held : List (Fin poolSize)) :
    PoolThread.remaining memory ⟨popTest found, held⟩ = 2 := by
  cases found with
  | none =>
      exact absurd rfl goesOn
  | some head =>
      exact if_pos first

theorem PoolThread.remaining_popNext
    (memory : PoolMemory poolSize) (head : Fin poolSize)
    (held : List (Fin poolSize)) :
    PoolThread.remaining memory
          ⟨.popExchange head (memory.next head), held⟩ + 1 =
      PoolThread.remaining memory ⟨.popNext head, held⟩ := by
  simp only [PoolThread.remaining]
  split <;> rfl

theorem PoolThread.remaining_pushStore
    (memory : PoolMemory poolSize) (blk : Fin poolSize)
    (value : Option (Fin poolSize)) (held : List (Fin poolSize)) :
    PoolThread.remaining
          { memory with next := Function.update memory.next blk value }
          ⟨.pushExpected blk, held⟩ + 1 =
      PoolThread.remaining memory ⟨.pushStore blk value, held⟩ := by
  simp only [PoolThread.remaining, Function.update_self]
  split <;> rfl

theorem PoolThread.remaining_pushExpected
    (memory : PoolMemory poolSize) (blk : Fin poolSize)
    (held : List (Fin poolSize)) :
    PoolThread.remaining memory
          ⟨.pushExchange blk (memory.next blk), held⟩ + 1 =
      PoolThread.remaining memory ⟨.pushExpected blk, held⟩ := by
  simp only [PoolThread.remaining]
  split <;> rfl

/-- An exchange fails because the cell holds another value, or spuriously. -/
theorem le_of_failed_exchange
    {cell expected : Option (Fin poolSize)} {spurious : Bool}
    (failed : ¬ (cell = expected ∧ spurious = false))
    {near far : Nat} (close : far ≤ near + 3) :
    far ≤
      (if cell = expected then near else far) +
        if spurious then 3 else 0 := by
  by_cases same : cell = expected
  · cases spurious with
    | true =>
        simpa [same] using close
    | false =>
        exact absurd ⟨same, rfl⟩ failed
  · rw [if_neg same]
    exact Nat.le_add_right far _

/-- A failed exchange of `pop` leads back to the test of its loop. -/
theorem PoolThread.remaining_popExchange
    {memory : PoolMemory poolSize} {head : Fin poolSize}
    {spurious : Bool}
    (failed : ¬ (memory.freeHead = some head ∧ spurious = false))
    (goesOn : popTest memory.freeHead ≠ .idle)
    (next : Option (Fin poolSize)) (held : List (Fin poolSize)) :
    PoolThread.remaining memory ⟨popTest memory.freeHead, held⟩ + 1 ≤
      PoolThread.remaining memory ⟨.popExchange head next, held⟩ +
        if spurious then 3 else 0 := by
  rw [PoolThread.remaining_popTest rfl goesOn]
  exact le_of_failed_exchange failed (Nat.le_succ 3)

/-- A failed exchange of `push` leaves the head it found in the link. -/
theorem PoolThread.remaining_pushExchange
    {memory : PoolMemory poolSize} {expected : Option (Fin poolSize)}
    {spurious : Bool}
    (failed : ¬ (memory.freeHead = expected ∧ spurious = false))
    (blk : Fin poolSize) (held : List (Fin poolSize)) :
    PoolThread.remaining memory
          ⟨.pushStore blk memory.freeHead, held⟩ + 1 ≤
      PoolThread.remaining memory ⟨.pushExchange blk expected, held⟩ +
        if spurious then 3 else 0 := by
  have fresh :
      PoolThread.remaining memory
        ⟨.pushStore blk memory.freeHead, held⟩ = 3 :=
    if_pos rfl
  rw [fresh]
  exact le_of_failed_exchange failed (Nat.le_refl 4)

/-- A step that ends no call brings its thread closer to the end of its call;
a spurious failure takes it two steps back. -/
theorem PoolThread.remaining_step
    (spurious : Bool) (memory : PoolMemory poolSize)
    {thread : PoolThread poolSize} (busy : thread.pc ≠ .idle)
    (goesOn :
      thread.returned (thread.step (.proceed spurious) memory).2 = none) :
    (thread.step (.proceed spurious) memory).2.remaining
          (thread.step (.proceed spurious) memory).1 + 1 ≤
        thread.remaining memory + (if spurious then 3 else 0) ∧
      (thread.step (.proceed spurious) memory).2.pc ≠ .idle := by
  obtain ⟨pc, held⟩ := thread
  have closer {before after : Nat} (next : after + 1 = before) :
      after + 1 ≤ before + if spurious then 3 else 0 :=
    Nat.le_trans (Nat.le_of_eq next) (Nat.le_add_right _ _)
  cases pc with
  | idle =>
      exact absurd rfl busy
  | popLoad =>
      have found : popTest memory.freeHead ≠ .idle := by
        intro idle
        simp [PoolThread.step, PoolThread.returned, idle] at goesOn
      refine ⟨closer ?_, found⟩
      exact congrArg (· + 1) (PoolThread.remaining_popTest rfl found held)
  | popNext head =>
      exact ⟨closer (PoolThread.remaining_popNext memory head held),
        fun idle => by cases idle⟩
  | popExchange head next =>
      simp only [PoolThread.step] at goesOn ⊢
      by_cases succeeds : memory.freeHead = some head ∧ spurious = false
      · rw [compareExchangeWeak, if_pos succeeds] at goesOn
        simp [PoolThread.returned] at goesOn
      · rw [compareExchangeWeak, if_neg succeeds] at goesOn ⊢
        have found : popTest memory.freeHead ≠ .idle := by
          intro idle
          simp [PoolThread.returned, idle] at goesOn
        exact ⟨PoolThread.remaining_popExchange succeeds found next held,
          found⟩
  | pushLoad blk =>
      refine ⟨closer ?_, fun idle => by cases idle⟩
      exact congrArg (· + 1) (if_pos rfl)
  | pushStore blk value =>
      exact ⟨closer (PoolThread.remaining_pushStore memory blk value held),
        fun idle => by cases idle⟩
  | pushExpected blk =>
      exact ⟨closer (PoolThread.remaining_pushExpected memory blk held),
        fun idle => by cases idle⟩
  | pushExchange blk expected =>
      simp only [PoolThread.step] at goesOn ⊢
      by_cases succeeds : memory.freeHead = expected ∧ spurious = false
      · rw [compareExchangeWeak, if_pos succeeds] at goesOn
        simp [PoolThread.returned] at goesOn
      · rw [compareExchangeWeak, if_neg succeeds]
        exact ⟨PoolThread.remaining_pushExchange succeeds blk held,
          fun idle => by cases idle⟩

/-- Of the memory only the head and the link of the pushed block matter. -/
theorem PoolThread.remaining_congr
    {memory later : PoolMemory poolSize} {thread : PoolThread poolSize}
    (head : later.freeHead = memory.freeHead)
    (link :
      ∀ blk, thread.pc = .pushExpected blk →
        later.next blk = memory.next blk) :
    thread.remaining later = thread.remaining memory := by
  rw [PoolThread.remaining, PoolThread.remaining, head]
  split
  case h_7 blk pushing =>
    rw [link blk pushing]
  all_goals rfl

namespace Pool

variable {τ : Type*} [DecidableEq τ]
variable {pool : Pool τ poolSize} {owner : Fin poolSize → BlockOwner τ}
variable {free : List (Fin poolSize)}

/-- A thread that another one overtakes without ending a call is as far from
its end as before. -/
theorem Owned.remaining_other
    (owned : pool.Owned owner free) {thread other : τ}
    (different : thread ≠ other) (input : PoolInput poolSize)
    (goesOn : (pool.act (.move other input)).2 = []) :
    ((pool.act (.move other input)).1.locals thread).remaining
        (pool.act (.move other input)).1.shared =
      (pool.locals thread).remaining pool.shared := by
  have same :
      (pool.act (.move other input)).1.locals thread =
        pool.locals thread :=
    Config.after_other pool different _
  have own :
      (pool.act (.move other input)).1.locals other =
        (PoolThread.step input pool.shared (pool.locals other)).2 :=
    Config.after_self _ _ _
  have silent :
      (pool.locals other).returned
          (PoolThread.step input pool.shared (pool.locals other)).2 =
        none := by
    rw [← own]
    exact Option.toList_eq_nil_iff.mp goesOn
  rw [same]
  apply PoolThread.remaining_congr
  · exact PoolThread.freeHead_of_silent silent
  · intro blk pushes
    have belongs :=
      ((owned.threads thread).pushing blk).mp (by rw [pushes]; rfl)
    apply owned.next_of_unpushed (other, input)
    rw [belongs]
    intro confused
    exact different (BlockOwner.pusher.inj confused)

end Pool

namespace PoolAction

variable {τ : Type*} [DecidableEq τ]

/-- Whether the thread takes a step in its call. -/
def steps (thread : τ) : PoolAction τ poolSize → Nat
  | .move other (.proceed _) => if other = thread then 1 else 0
  | _ => 0

/-- Whether the thread is told to fail spuriously. -/
def failures (thread : τ) : PoolAction τ poolSize → Nat
  | .move other (.proceed true) => if other = thread then 1 else 0
  | _ => 0

theorem steps_of_waits {input : PoolInput poolSize}
    (waits : ∀ spurious, input ≠ .proceed spurious)
    {thread other : τ} : steps thread (.move other input) = 0 := by
  cases input with
  | proceed spurious =>
      exact absurd rfl (waits spurious)
  | _ =>
      rfl

theorem steps_of_other {thread other : τ} (different : other ≠ thread)
    {input : PoolInput poolSize} :
    steps thread (.move other input) = 0 := by
  cases input with
  | proceed spurious =>
      exact if_neg different
  | _ =>
      rfl

end PoolAction

namespace Pool

variable {τ : Type*} [DecidableEq τ]
variable {pool : Pool τ poolSize} {owner : Fin poolSize → BlockOwner τ}
variable {free : List (Fin poolSize)} {thread : τ}

/-- An action that ends no call. -/
theorem Owned.remaining_act
    (owned : pool.Owned owner free)
    (busy : (pool.locals thread).pc ≠ .idle)
    {action : PoolAction τ poolSize}
    (silent : (pool.act action).2 = []) :
    let later := (pool.act action).1
    (later.locals thread).pc ≠ .idle ∧
      (later.locals thread).remaining later.shared +
          action.steps thread ≤
        (pool.locals thread).remaining pool.shared +
          3 * action.failures thread := by
  cases action with
  | handOver giver taker blk =>
      have same :
          ((pool.handOver giver taker blk).locals thread).pc =
            (pool.locals thread).pc :=
        handOver_pc giver taker blk thread
      refine ⟨same ▸ busy, ?_⟩
      change
        ((pool.handOver giver taker blk).locals thread).remaining
            (pool.handOver giver taker blk).shared ≤
          _
      rw [handOver_shared, PoolThread.remaining, same]
      exact le_rfl
  | move other input =>
      by_cases mine : other = thread
      · subst other
        change
          (pool.act (.move thread input)).2 = [] at silent
        have own :
            (pool.act (.move thread input)).1.locals thread =
              (PoolThread.step input pool.shared
                (pool.locals thread)).2 :=
          Config.after_self _ _ _
        have memory :
            (pool.act (.move thread input)).1.shared =
              (PoolThread.step input pool.shared
                (pool.locals thread)).1 :=
          rfl
        have goesOn :
            (pool.locals thread).returned
                ((pool.act (.move thread input)).1.locals thread) =
              none :=
          Option.toList_eq_nil_iff.mp silent
        dsimp only
        rw [own] at goesOn
        rw [own, memory]
        by_cases proceeds : ∃ spurious, input = .proceed spurious
        · obtain ⟨spurious, rfl⟩ := proceeds
          obtain ⟨bound, stillBusy⟩ :=
            PoolThread.remaining_step spurious pool.shared busy goesOn
          refine ⟨stillBusy, ?_⟩
          rw [PoolAction.steps, if_pos rfl]
          cases spurious with
          | true =>
              rw [PoolAction.failures, if_pos rfl]
              exact bound
          | false =>
              exact bound
        · have waits : ∀ spurious, input ≠ .proceed spurious :=
            fun spurious same => proceeds ⟨spurious, same⟩
          rw [PoolThread.step_waits waits pool.shared busy,
            PoolAction.steps_of_waits waits]
          exact ⟨busy, Nat.le_add_right _ _⟩
      · have same :
            (pool.act (.move other input)).1.locals thread =
              pool.locals thread :=
          Config.after_other pool (Ne.symm mine) _
        have still := owned.remaining_other (Ne.symm mine) input silent
        refine ⟨by rwa [same], ?_⟩
        rw [still, PoolAction.steps_of_other mine]
        exact Nat.le_add_right _ _

/-- A stretch of a run in which no call ends. -/
theorem Owned.remaining_run
    {actions : List (PoolAction τ poolSize)}
    (owned : pool.Owned owner free)
    (busy : (pool.locals thread).pc ≠ .idle)
    (current : Mealy.Guarded act IsCurrent pool actions)
    (silent : (Mealy.run act pool actions).2 = []) :
    let later := (Mealy.run act pool actions).1
    (later.locals thread).pc ≠ .idle ∧
      (later.locals thread).remaining later.shared +
          (actions.map (PoolAction.steps thread)).sum ≤
        (pool.locals thread).remaining pool.shared +
          3 * (actions.map (PoolAction.failures thread)).sum := by
  induction actions generalizing pool owner free with
  | nil =>
      exact ⟨busy, le_rfl⟩
  | cons action actions inductionHypothesis =>
      obtain ⟨now, later⟩ := current
      rw [Mealy.run_cons] at silent ⊢
      obtain ⟨silentNow, silentLater⟩ := List.append_eq_nil_iff.mp silent
      obtain ⟨_, _, laterOwned, _⟩ := owned.act_onStack now
      obtain ⟨stillBusy, first⟩ := owned.remaining_act busy silentNow
      obtain ⟨lastBusy, rest⟩ :=
        inductionHypothesis laterOwned stillBusy later silentLater
      refine ⟨lastBusy, ?_⟩
      rw [List.map_cons, List.map_cons, List.sum_cons, List.sum_cons]
      dsimp only at first rest ⊢
      omega

/-- The pool is lock-free: in every stretch of a run in which a thread in the
middle of a call takes more than five steps, and three for each of its spurious
failures, some call returns. -/
theorem run_lockFree
    {before stretch : List (PoolAction τ poolSize)}
    (current :
      Mealy.Guarded act IsCurrent (start τ poolSize) (before ++ stretch))
    (busy :
      ((Mealy.run act (start τ poolSize) before).1.locals thread).pc ≠
        .idle)
    (steps :
      5 + 3 * (stretch.map (PoolAction.failures thread)).sum <
        (stretch.map (PoolAction.steps thread)).sum) :
    (Mealy.run act (Mealy.run act (start τ poolSize) before).1
      stretch).2 ≠ [] := by
  intro silent
  obtain ⟨first, second⟩ :=
    (Mealy.guarded_append act _ before stretch).mp current
  obtain ⟨owner, free, onStack⟩ := exists_onStack first
  obtain ⟨stillBusy, bound⟩ :=
    onStack.owned.remaining_run busy second silent
  have atLeast :=
    PoolThread.remaining_pos stillBusy
      (Mealy.run act (Mealy.run act (start τ poolSize) before).1
        stretch).1.shared
  have atMost :=
    PoolThread.remaining_le
      (Mealy.run act (start τ poolSize) before).1.shared
      ((Mealy.run act (start τ poolSize) before).1.locals thread)
  omega

/-- A thread has read the head to push a block in front of it when another one
takes the head: it stores twice. -/
theorem run_lockFree_overtaken :
    let before : List (PoolAction Bool 2) :=
      acquireAlone false ++
        [.move false (.release (some 1)),
          .move false (.proceed false)] ++
        acquireAlone true
    let stretch : List (PoolAction Bool 2) :=
      List.replicate 6 (.move false (.proceed false))
    (Mealy.run act (Mealy.run act (start Bool 2) before).1
      stretch).2 ≠ [] := by
  intro before stretch
  exact @run_lockFree 2 Bool _ false before stretch (by decide)
    (by decide) (by decide)

end Pool

end MarketDataHandler
