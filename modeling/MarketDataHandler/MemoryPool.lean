import MarketDataHandler.Lib.Interleaving
import MarketDataHandler.Lib.PointerChain
import Mathlib.Data.Fintype.Option

/-!
# The memory pool

`MemoryPool` of `include/memory_pool.h`: a stack of free blocks linked through
their `next` fields, with any number of threads that acquire and release.  A
step of a thread is one access to `free_head_` or to a `next` field, in a
sequentially consistent interleaving.

`pop` reads the successor of the head before its compare-exchange, and the
exchange compares the head only.  If the head was popped and pushed back in
between, its successor may be another one, and the exchange installs a block
that somebody holds.  As long as no exchange succeeds with an outdated
successor every block has one owner.
-/

namespace MarketDataHandler

open Interleaving

/-! ## The threads -/

/-- The pointer to the first free block, and the link of every block. -/
structure PoolMemory (poolSize : Nat) where
  freeHead : Option (Fin poolSize)
  next : Fin poolSize → Option (Fin poolSize)

/-- Where a thread is, with its local variables. -/
inductive PoolPc (poolSize : Nat) where
  /-- Between two calls. -/
  | idle
  /-- In `pop`, in front of the load of `free_head_`. -/
  | popLoad
  /-- In front of the read of `head->next`. -/
  | popNext (head : Fin poolSize)
  | popExchange (head : Fin poolSize) (next : Option (Fin poolSize))
  /-- In `push`, in front of the load of `free_head_`. -/
  | pushLoad (blk : Fin poolSize)
  /-- In front of the write of `blk->next`, which is also where a failed
  exchange puts the value it found. -/
  | pushStore (blk : Fin poolSize) (value : Option (Fin poolSize))
  /-- In front of the read of `blk->next` as the expected value. -/
  | pushExpected (blk : Fin poolSize)
  | pushExchange (blk : Fin poolSize) (expected : Option (Fin poolSize))
  deriving DecidableEq, Repr

structure PoolThread (poolSize : Nat) where
  pc : PoolPc poolSize
  held : List (Fin poolSize)
  deriving DecidableEq, Repr

/-- What a thread that is between two calls calls next, or whether the next
step, if it is an exchange, fails spuriously. -/
inductive PoolInput (poolSize : Nat) where
  | acquire
  | release (ptr : Option (Fin poolSize))
  | proceed (spurious : Bool)
  deriving DecidableEq, Repr

variable {poolSize : Nat}

/-- The test of the loop in `pop`. -/
def popTest : Option (Fin poolSize) → PoolPc poolSize
  | none => .idle
  | some head => .popNext head

/-- One step of a thread.  It releases blocks that it holds only. -/
def PoolThread.step (input : PoolInput poolSize)
    (memory : PoolMemory poolSize) (thread : PoolThread poolSize) :
    PoolMemory poolSize × PoolThread poolSize :=
  match thread.pc, input with
  | .idle, .acquire => (memory, { thread with pc := .popLoad })
  | .idle, .release (some blk) =>
      if blk ∈ thread.held then
        (memory,
          { pc := .pushLoad blk
            held := thread.held.erase blk })
      else
        (memory, thread)
  | .popLoad, .proceed _ =>
      (memory, { thread with pc := popTest memory.freeHead })
  | .popNext head, .proceed _ =>
      (memory,
        { thread with pc := .popExchange head (memory.next head) })
  | .popExchange head next, .proceed spurious =>
      match compareExchangeWeak memory.freeHead (some head) next
          spurious with
      | (cell, none) =>
          ({ memory with freeHead := cell },
            { pc := .idle
              held := head :: thread.held })
      | (cell, some found) =>
          ({ memory with freeHead := cell },
            { thread with pc := popTest found })
  | .pushLoad blk, .proceed _ =>
      (memory, { thread with pc := .pushStore blk memory.freeHead })
  | .pushStore blk value, .proceed _ =>
      ({ memory with next := Function.update memory.next blk value },
        { thread with pc := .pushExpected blk })
  | .pushExpected blk, .proceed _ =>
      (memory,
        { thread with pc := .pushExchange blk (memory.next blk) })
  | .pushExchange blk expected, .proceed spurious =>
      match compareExchangeWeak memory.freeHead expected (some blk)
          spurious with
      | (cell, none) =>
          ({ memory with freeHead := cell }, { thread with pc := .idle })
      | (cell, some found) =>
          ({ memory with freeHead := cell },
            { thread with pc := .pushStore blk found })
  | _, _ => (memory, thread)

/-- A push that nobody interrupts. -/
def PoolMemory.push (memory : PoolMemory poolSize)
    (blk : Fin poolSize) : PoolMemory poolSize where
  freeHead := some blk
  next := Function.update memory.next blk memory.freeHead

/-- The constructor: all blocks are pushed in the order of the array. -/
def PoolMemory.constructed (poolSize : Nat) : PoolMemory poolSize :=
  (List.finRange poolSize).foldl PoolMemory.push
    { freeHead := none
      next := fun _ => none }

/-! ## Pools -/

variable {τ : Type*} [DecidableEq τ]

/-- The memory and the threads. -/
abbrev Pool (τ : Type*) (poolSize : Nat) :=
  Config τ (PoolMemory poolSize) (PoolThread poolSize)

namespace Pool

/-- A new pool, with threads that hold nothing. -/
def start (τ : Type*) (poolSize : Nat) : Pool τ poolSize where
  shared := PoolMemory.constructed poolSize
  locals := fun _ =>
    { pc := .idle
      held := [] }

def run (pool : Pool τ poolSize)
    (schedule : List (τ × PoolInput poolSize)) : Pool τ poolSize :=
  Interleaving.run PoolThread.step pool schedule

/-- No two acquirers hold one block, no block that is held is found from
`free_head_`, and between all calls the free list ends, without repetition,
and consists of the blocks that nobody holds. -/
structure ExclusiveOwnership (pool : Pool τ poolSize) : Prop where
  unshared :
    ∀ first second blk,
      blk ∈ (pool.locals first).held →
      blk ∈ (pool.locals second).held →
        first = second
  once : ∀ thread, (pool.locals thread).held.Nodup
  unreachable :
    ∀ thread, ∀ blk ∈ (pool.locals thread).held,
      ¬ PointsTo pool.shared.next pool.shared.freeHead blk
  complete :
    (∀ thread, (pool.locals thread).pc = .idle) →
      ∃ free : List (Fin poolSize),
        PointerChain pool.shared.next pool.shared.freeHead free ∧
          free.Nodup ∧
          ∀ blk,
            blk ∈ free ↔ ¬ ∃ thread, blk ∈ (pool.locals thread).held

/-- The next step is an exchange of `pop` that will succeed, but the head no
longer has the successor that was read. -/
def InstallsOutdated (pool : Pool τ poolSize)
    (move : τ × PoolInput poolSize) : Prop :=
  ∃ head next,
    (pool.locals move.1).pc = .popExchange head next ∧
      move.2 = .proceed false ∧
      pool.shared.freeHead = some head ∧
      pool.shared.next head ≠ next

instance (pool : Pool τ poolSize) (move : τ × PoolInput poolSize) :
    Decidable (pool.InstallsOutdated move) :=
  inferInstanceAs (Decidable (∃ _ _, _ ∧ _ ∧ _ ∧ _))

end Pool

/-! ## What a step can do -/

/-- The block that a thread is pushing. -/
def PoolPc.pushing : PoolPc poolSize → Option (Fin poolSize)
  | .pushLoad blk => some blk
  | .pushStore blk _ => some blk
  | .pushExpected blk => some blk
  | .pushExchange blk _ => some blk
  | _ => none

/-- The effects of a step on the memory, the blocks that the thread holds and
the block that it pushes. -/
inductive PoolEffect (input : PoolInput poolSize)
    (memory : PoolMemory poolSize) (thread : PoolThread poolSize) :
    PoolMemory poolSize × PoolThread poolSize → Prop
  | moves {pc : PoolPc poolSize} :
      pc.pushing = thread.pc.pushing →
      (∀ blk expected, pc = .pushExchange blk expected →
        memory.next blk = expected ∨ thread.pc = pc) →
      PoolEffect input memory thread (memory, { thread with pc := pc })
  | releases {blk : Fin poolSize} :
      thread.pc = .idle →
      blk ∈ thread.held →
      PoolEffect input memory thread
        (memory,
          { pc := .pushLoad blk
            held := thread.held.erase blk })
  | stores {blk : Fin poolSize} {value : Option (Fin poolSize)} :
      thread.pc = .pushStore blk value →
      PoolEffect input memory thread
        ({ memory with next := Function.update memory.next blk value },
          { thread with pc := .pushExpected blk })
  | pops {head : Fin poolSize} {next : Option (Fin poolSize)} :
      thread.pc = .popExchange head next →
      input = .proceed false →
      memory.freeHead = some head →
      PoolEffect input memory thread
        ({ memory with freeHead := next },
          { pc := .idle
            held := head :: thread.held })
  | pushes {blk : Fin poolSize} {expected : Option (Fin poolSize)} :
      thread.pc = .pushExchange blk expected →
      memory.freeHead = expected →
      PoolEffect input memory thread
        ({ memory with freeHead := some blk },
          { thread with pc := .idle })

theorem pushing_popTest (head : Option (Fin poolSize)) :
    (popTest head).pushing = none := by
  cases head <;> rfl

theorem popTest_ne_pushExchange
    (head : Option (Fin poolSize)) (blk : Fin poolSize)
    (expected : Option (Fin poolSize)) :
    popTest head ≠ .pushExchange blk expected := by
  cases head <;> simp [popTest]

theorem PoolThread.step_effect
    (input : PoolInput poolSize) (memory : PoolMemory poolSize)
    (thread : PoolThread poolSize) :
    PoolEffect input memory thread (thread.step input memory) := by
  obtain ⟨pc, held⟩ := thread
  have waits : PoolEffect input memory ⟨pc, held⟩ (memory, ⟨pc, held⟩) :=
    .moves rfl fun _ _ _ => Or.inr rfl
  cases input with
  | acquire =>
      cases pc with
      | idle =>
          exact .moves rfl fun _ _ impossible => by cases impossible
      | _ =>
          exact waits
  | release ptr =>
      cases ptr with
      | none =>
          cases pc <;> exact waits
      | some blk =>
          cases pc with
          | idle =>
              simp only [PoolThread.step]
              split
              · rename_i mine
                exact .releases rfl mine
              · exact waits
          | _ =>
              exact waits
  | proceed spurious =>
      cases pc with
      | idle =>
          exact waits
      | popLoad =>
          exact .moves (pushing_popTest _) fun blk expected impossible =>
            absurd impossible (popTest_ne_pushExchange _ _ _)
      | popNext head =>
          exact .moves rfl fun _ _ impossible => by cases impossible
      | popExchange head next =>
          simp only [PoolThread.step]
          rcases compareExchangeWeak_cases memory.freeHead (some head)
            next spurious with ⟨found, sure, swapped⟩ | failed
          · rw [swapped, sure]
            exact .pops rfl rfl found
          · rw [failed]
            exact .moves (pushing_popTest _)
              fun blk expected impossible =>
                absurd impossible (popTest_ne_pushExchange _ _ _)
      | pushLoad blk =>
          exact .moves rfl fun _ _ impossible => by cases impossible
      | pushStore blk value =>
          exact .stores rfl
      | pushExpected blk =>
          refine .moves rfl fun other expected reached => ?_
          cases reached
          exact Or.inl rfl
      | pushExchange blk expected =>
          simp only [PoolThread.step]
          rcases compareExchangeWeak_cases memory.freeHead expected
            (some blk) spurious with ⟨found, _, swapped⟩ | failed
          · rw [swapped]
            exact .pushes rfl found
          · rw [failed]
            exact .moves rfl fun _ _ impossible => by cases impossible

/-! ## Every block has one owner -/

/-- Who a block belongs to. -/
inductive BlockOwner (τ : Type*) where
  | freeList
  | holder (thread : τ)
  | pusher (thread : τ)
  deriving DecidableEq

/-- The block belongs to no thread but the given one. -/
def BlockOwner.NobodyElse (thread : τ) (owner : BlockOwner τ) : Prop :=
  ∀ other, owner = .holder other ∨ owner = .pusher other → other = thread

omit [DecidableEq τ] in
theorem BlockOwner.nobodyElse_freeList (thread : τ) :
    (freeList : BlockOwner τ).NobodyElse thread := by
  intro other belongs
  rcases belongs with held | pushed
  · cases held
  · cases pushed

omit [DecidableEq τ] in
theorem BlockOwner.nobodyElse_holder (thread : τ) :
    (holder thread).NobodyElse thread := by
  intro other belongs
  rcases belongs with held | pushed
  · exact (BlockOwner.holder.inj held).symm
  · cases pushed

omit [DecidableEq τ] in
theorem BlockOwner.nobodyElse_pusher (thread : τ) :
    (pusher thread).NobodyElse thread := by
  intro other belongs
  rcases belongs with held | pushed
  · cases held
  · exact (BlockOwner.pusher.inj pushed).symm

/-- What a thread holds and pushes agrees with the owners, and in front of its
exchange it has linked its block to the head that it expects. -/
structure ThreadOwns (memory : PoolMemory poolSize)
    (owner : Fin poolSize → BlockOwner τ) (thread : τ)
    (own : PoolThread poolSize) : Prop where
  mem_held : ∀ blk, blk ∈ own.held ↔ owner blk = .holder thread
  nodup : own.held.Nodup
  pushing :
    ∀ blk, own.pc.pushing = some blk ↔ owner blk = .pusher thread
  linked :
    ∀ blk expected, own.pc = .pushExchange blk expected →
      memory.next blk = expected

omit [DecidableEq τ] in
/-- A block that another thread moves is not seen. -/
theorem ThreadOwns.transfer
    {memory later : PoolMemory poolSize}
    {owner : Fin poolSize → BlockOwner τ} {thread other : τ}
    {own : PoolThread poolSize}
    (owns : ThreadOwns memory owner other own)
    (different : other ≠ thread)
    {blk : Fin poolSize} {recipient : BlockOwner τ}
    (before : (owner blk).NobodyElse thread)
    (behind : recipient.NobodyElse thread)
    (links : ∀ target, target ≠ blk →
      later.next target = memory.next target) :
    ThreadOwns later (Function.update owner blk recipient) other own := by
  have unheld : owner blk ≠ .holder other := fun belongs =>
    different (before other (Or.inl belongs))
  have unpushed : owner blk ≠ .pusher other := fun belongs =>
    different (before other (Or.inr belongs))
  have unheldBehind : recipient ≠ .holder other := fun belongs =>
    different (behind other (Or.inl belongs))
  have unpushedBehind : recipient ≠ .pusher other := fun belongs =>
    different (behind other (Or.inr belongs))
  refine
    { mem_held := ?_
      nodup := owns.nodup
      pushing := ?_
      linked := ?_ }
  · intro target
    rw [owns.mem_held]
    by_cases same : target = blk
    · subst target
      simp [unheld, unheldBehind]
    · simp [same]
  · intro target
    rw [owns.pushing]
    by_cases same : target = blk
    · subst target
      simp [unpushed, unpushedBehind]
    · simp [same]
  · intro target expected reached
    have belongs := (owns.pushing target).mp (by rw [reached]; rfl)
    have same : target ≠ blk := by
      intro same
      exact unpushed (same ▸ belongs)
    rw [links target same]
    exact owns.linked target expected reached

namespace Pool

/-- The owner of every block agrees with the free list and with what the
threads hold and push. -/
structure Owned (pool : Pool τ poolSize)
    (owner : Fin poolSize → BlockOwner τ)
    (free : List (Fin poolSize)) : Prop where
  chain : PointerChain pool.shared.next pool.shared.freeHead free
  nodup : free.Nodup
  mem_free : ∀ blk, blk ∈ free ↔ owner blk = .freeList
  threads :
    ∀ thread,
      ThreadOwns pool.shared owner thread (pool.locals thread)

omit [DecidableEq τ] in
theorem Owned.exclusiveOwnership
    {pool : Pool τ poolSize} {owner : Fin poolSize → BlockOwner τ}
    {free : List (Fin poolSize)} (owned : pool.Owned owner free) :
    pool.ExclusiveOwnership where
  unshared := by
    intro first second blk mine yours
    rw [(owned.threads first).mem_held] at mine
    rw [(owned.threads second).mem_held, mine] at yours
    injection yours
  once := fun thread => (owned.threads thread).nodup
  unreachable := by
    intro thread blk held points
    have isFree := owned.chain.mem_of_pointsTo points
    rw [owned.mem_free] at isFree
    rw [(owned.threads thread).mem_held, isFree] at held
    cases held
  complete := by
    intro idle
    refine ⟨free, owned.chain, owned.nodup, ?_⟩
    intro blk
    rw [owned.mem_free]
    constructor
    · intro isFree isHeld
      obtain ⟨thread, held⟩ := isHeld
      rw [(owned.threads thread).mem_held, isFree] at held
      cases held
    · intro unheld
      cases belongs : owner blk with
      | freeList =>
          rfl
      | holder thread =>
          exact absurd
            ⟨thread, ((owned.threads thread).mem_held blk).mpr belongs⟩
            unheld
      | pusher thread =>
          have pushes := ((owned.threads thread).pushing blk).mpr belongs
          rw [idle thread] at pushes
          cases pushes

section Effects

variable {pool : Pool τ poolSize}
variable {owner : Fin poolSize → BlockOwner τ}
variable {free : List (Fin poolSize)} {thread : τ}

/-- A step that takes a block from the stepping thread or the free list to one
of these. -/
theorem Owned.transfer
    (owned : pool.Owned owner free)
    {blk : Fin poolSize} {recipient : BlockOwner τ}
    {result : PoolMemory poolSize × PoolThread poolSize}
    {remaining : List (Fin poolSize)}
    (before : (owner blk).NobodyElse thread)
    (behind : recipient.NobodyElse thread)
    (links : ∀ target, target ≠ blk →
      result.1.next target = pool.shared.next target)
    (chain : PointerChain result.1.next result.1.freeHead remaining)
    (nodup : remaining.Nodup)
    (mem_free : ∀ target,
      target ∈ remaining ↔
        Function.update owner blk recipient target = .freeList)
    (own :
      ThreadOwns result.1 (Function.update owner blk recipient) thread
        result.2) :
    Owned (pool.after thread result)
      (Function.update owner blk recipient) remaining := by
  refine ⟨chain, nodup, mem_free, ?_⟩
  intro other
  by_cases mine : other = thread
  · subst other
    rw [Config.after_self]
    exact own
  · rw [Config.after_other pool mine]
    exact (owned.threads other).transfer mine before behind links

/-- A step that moves no block. -/
theorem Owned.moves
    (owned : pool.Owned owner free) {pc : PoolPc poolSize}
    (same : pc.pushing = (pool.locals thread).pc.pushing)
    (linked :
      ∀ blk expected, pc = .pushExchange blk expected →
        pool.shared.next blk = expected ∨
          (pool.locals thread).pc = pc) :
    Owned
      (pool.after thread
        (pool.shared, { pool.locals thread with pc := pc }))
      owner free := by
  have owns := owned.threads thread
  refine ⟨owned.chain, owned.nodup, owned.mem_free, ?_⟩
  intro other
  by_cases mine : other = thread
  · subst other
    rw [Config.after_self]
    refine ⟨owns.mem_held, owns.nodup, ?_, ?_⟩
    · intro blk
      rw [same]
      exact owns.pushing blk
    · intro blk expected reached
      rcases linked blk expected reached with now | earlier
      · exact now
      · exact owns.linked blk expected (earlier.trans reached)
  · rw [Config.after_other pool mine]
    exact owned.threads other

/-- A block goes from its holder to the thread that pushes it. -/
theorem Owned.releases
    (owned : pool.Owned owner free) {blk : Fin poolSize}
    (idle : (pool.locals thread).pc = .idle)
    (held : blk ∈ (pool.locals thread).held) :
    Owned
      (pool.after thread
        (pool.shared,
          { pc := .pushLoad blk
            held := (pool.locals thread).held.erase blk }))
      (Function.update owner blk (.pusher thread)) free := by
  have owns := owned.threads thread
  have belongs := (owns.mem_held blk).mp held
  have resting (target : Fin poolSize) :
      owner target ≠ .pusher thread := by
    intro pushes
    have pushing := (owns.pushing target).mpr pushes
    rw [idle] at pushing
    cases pushing
  apply owned.transfer
  · rw [belongs]
    exact BlockOwner.nobodyElse_holder thread
  · exact BlockOwner.nobodyElse_pusher thread
  · exact fun _ _ => rfl
  · exact owned.chain
  · exact owned.nodup
  · intro target
    by_cases same : target = blk
    · subst target
      simp [owned.mem_free, belongs]
    · simp [owned.mem_free, same]
  · refine ⟨?_, owns.nodup.erase blk, ?_, ?_⟩
    · intro target
      rw [owns.nodup.mem_erase_iff, owns.mem_held]
      by_cases same : target = blk <;> simp [same]
    · intro target
      by_cases same : target = blk
      · simp [same, PoolPc.pushing]
      · simp [same, PoolPc.pushing, resting target, Ne.symm same]
    · intro target expected reached
      cases reached

/-- The link of a block that is being pushed is written. -/
theorem Owned.stores
    (owned : pool.Owned owner free) {blk : Fin poolSize}
    {value : Option (Fin poolSize)}
    (storing : (pool.locals thread).pc = .pushStore blk value) :
    Owned
      (pool.after thread
        ({ pool.shared with
            next := Function.update pool.shared.next blk value },
          { pool.locals thread with pc := .pushExpected blk }))
      owner free := by
  have owns := owned.threads thread
  have belongs := (owns.pushing blk).mp (by rw [storing]; rfl)
  have unchanged :
      Function.update owner blk (.pusher thread) = owner := by
    rw [← belongs, Function.update_eq_self]
  have outside : blk ∉ free := by
    rw [owned.mem_free, belongs]
    exact nofun
  rw [← unchanged]
  apply owned.transfer
  · rw [belongs]
    exact BlockOwner.nobodyElse_pusher thread
  · exact BlockOwner.nobodyElse_pusher thread
  · intro target different
    exact Function.update_of_ne different _ _
  · exact owned.chain.update outside value
  · exact owned.nodup
  · rw [unchanged]
    exact owned.mem_free
  · rw [unchanged]
    refine ⟨owns.mem_held, owns.nodup, ?_, ?_⟩
    · intro target
      rw [← owns.pushing, storing]
      rfl
    · intro target expected reached
      cases reached

/-- The head of the free list goes to the thread whose exchange takes it off
with its present successor. -/
theorem Owned.pops
    (owned : pool.Owned owner free) {head : Fin poolSize}
    {next : Option (Fin poolSize)}
    (exchanging : (pool.locals thread).pc = .popExchange head next)
    (first : pool.shared.freeHead = some head)
    (current : pool.shared.next head = next) :
    ∃ remaining,
      Owned
        (pool.after thread
          ({ pool.shared with freeHead := next },
            { pc := .idle
              held := head :: (pool.locals thread).held }))
        (Function.update owner head (.holder thread)) remaining := by
  have owns := owned.threads thread
  have chain := owned.chain
  rw [first] at chain
  obtain ⟨remaining, split, rest⟩ := chain.front
  obtain ⟨gone, nodup⟩ := List.nodup_cons.mp (split ▸ owned.nodup)
  have belongs : owner head = .freeList := by
    rw [← owned.mem_free, split]
    exact List.mem_cons_self
  have resting (target : Fin poolSize) :
      owner target ≠ .pusher thread := by
    intro pushes
    have pushing := (owns.pushing target).mpr pushes
    rw [exchanging] at pushing
    cases pushing
  refine ⟨remaining, ?_⟩
  apply owned.transfer
  · rw [belongs]
    exact BlockOwner.nobodyElse_freeList thread
  · exact BlockOwner.nobodyElse_holder thread
  · exact fun _ _ => rfl
  · exact current ▸ rest
  · exact nodup
  · intro target
    by_cases same : target = head
    · subst target
      simp [gone]
    · rw [Function.update_of_ne same, ← owned.mem_free, split]
      simp [same]
  · have unheld : head ∉ (pool.locals thread).held := by
      rw [owns.mem_held, belongs]
      exact nofun
    refine ⟨?_, List.nodup_cons.mpr ⟨unheld, owns.nodup⟩, ?_, ?_⟩
    · intro target
      rw [List.mem_cons, owns.mem_held]
      by_cases same : target = head <;> simp [same]
    · intro target
      by_cases same : target = head
      · simp [same, PoolPc.pushing]
      · simp [same, PoolPc.pushing, resting target]
    · intro target expected reached
      cases reached

/-- A linked block goes in front of the free list. -/
theorem Owned.pushes
    (owned : pool.Owned owner free) {blk : Fin poolSize}
    {expected : Option (Fin poolSize)}
    (exchanging : (pool.locals thread).pc = .pushExchange blk expected)
    (found : pool.shared.freeHead = expected) :
    Owned
      (pool.after thread
        ({ pool.shared with freeHead := some blk },
          { pool.locals thread with pc := .idle }))
      (Function.update owner blk .freeList) (blk :: free) := by
  have owns := owned.threads thread
  have belongs := (owns.pushing blk).mp (by rw [exchanging]; rfl)
  have linked := owns.linked blk expected exchanging
  have outside : blk ∉ free := by
    rw [owned.mem_free, belongs]
    exact nofun
  apply owned.transfer
  · rw [belongs]
    exact BlockOwner.nobodyElse_pusher thread
  · exact BlockOwner.nobodyElse_freeList thread
  · exact fun _ _ => rfl
  · exact owned.chain.push (linked.trans found.symm)
  · exact List.nodup_cons.mpr ⟨outside, owned.nodup⟩
  · intro target
    rw [List.mem_cons, owned.mem_free]
    by_cases same : target = blk <;> simp [same]
  · refine ⟨?_, owns.nodup, ?_, ?_⟩
    · intro target
      rw [owns.mem_held]
      by_cases same : target = blk
      · subst target
        simp [belongs]
      · simp [same]
    · intro target
      by_cases same : target = blk
      · simp [same, PoolPc.pushing]
      · have resting : owner target ≠ .pusher thread := by
          intro pushes
          have pushing := (owns.pushing target).mpr pushes
          rw [exchanging] at pushing
          exact same (Option.some.inj pushing).symm
        simp [same, PoolPc.pushing, resting]
    · intro target expected reached
      cases reached

end Effects

/-- A step that does not install an outdated successor leaves every block with
one owner. -/
theorem Owned.step
    {pool : Pool τ poolSize} {owner : Fin poolSize → BlockOwner τ}
    {free : List (Fin poolSize)} (owned : pool.Owned owner free)
    {move : τ × PoolInput poolSize}
    (current : ¬ pool.InstallsOutdated move) :
    ∃ owner free,
      Owned (Interleaving.step PoolThread.step pool move) owner
        free := by
  obtain ⟨thread, input⟩ := move
  change
    ∃ owner free,
      Owned
        (pool.after thread
          (PoolThread.step input pool.shared (pool.locals thread)))
        owner free
  have effect :=
    PoolThread.step_effect input pool.shared (pool.locals thread)
  generalize
    PoolThread.step input pool.shared (pool.locals thread) = result
    at effect
  cases effect with
  | moves same linked =>
      exact ⟨owner, free, owned.moves same linked⟩
  | releases idle held =>
      exact ⟨_, free, owned.releases idle held⟩
  | stores storing =>
      exact ⟨owner, free, owned.stores storing⟩
  | @pops head next exchanging sure first =>
      have successor : pool.shared.next head = next := by
        by_contra outdated
        exact current ⟨head, next, exchanging, sure, first, outdated⟩
      obtain ⟨remaining, popped⟩ :=
        owned.pops exchanging first successor
      exact ⟨_, remaining, popped⟩
  | pushes exchanging found =>
      exact ⟨_, _, owned.pushes exchanging found⟩

/-! ## A new pool -/

end Pool

/-- The four steps of a push that nobody interrupts. -/
theorem PoolMemory.push_alone
    (memory : PoolMemory poolSize) (blk : Fin poolSize)
    (held : List (Fin poolSize)) :
    Interleaving.run PoolThread.step
        { shared := memory
          locals := fun _ : Unit =>
            { pc := .pushLoad blk
              held := held } }
        (List.replicate 4 ((), .proceed false)) =
      { shared := memory.push blk
        locals := fun _ =>
          { pc := .idle
            held := held } } := by
  simp [Interleaving.run, Interleaving.step, Config.after,
    PoolThread.step, PoolMemory.push, compareExchangeWeak,
    List.replicate_succ]
  rfl

/-- Pushing different blocks one after the other. -/
theorem PoolMemory.chain_push
    {memory : PoolMemory poolSize} {blks free : List (Fin poolSize)}
    (chain : PointerChain memory.next memory.freeHead free)
    (nodup : (blks ++ free).Nodup) :
    PointerChain (blks.foldl push memory).next
      (blks.foldl push memory).freeHead (blks.reverse ++ free) := by
  induction blks generalizing memory free with
  | nil =>
      exact chain
  | cons blk blks inductionHypothesis =>
      have distinct : (blks ++ blk :: free).Nodup :=
        (List.perm_middle.nodup_iff).mpr nodup
      have outside : blk ∉ free := by
        have rest := (List.nodup_append.mp distinct).2.1
        exact (List.nodup_cons.mp rest).1
      have pushed :
          PointerChain (memory.push blk).next (memory.push blk).freeHead
            (blk :: free) :=
        (chain.update outside memory.freeHead).push
          (Function.update_self _ _ _)
      rw [List.reverse_cons, List.append_assoc]
      exact inductionHypothesis pushed distinct

namespace Pool

omit [DecidableEq τ] in
theorem owned_start :
    (start τ poolSize).Owned (fun _ => .freeList)
      (List.finRange poolSize).reverse := by
  have nodup := List.nodup_finRange poolSize
  have empty :
      PointerChain (fun _ : Fin poolSize => none) none [] :=
    .null
  have chain :
      PointerChain (start τ poolSize).shared.next
        (start τ poolSize).shared.freeHead
        ((List.finRange poolSize).reverse ++ []) :=
    PoolMemory.chain_push empty (by rwa [List.append_nil])
  rw [List.append_nil] at chain
  refine ⟨chain, List.nodup_reverse.mpr nodup, ?_, ?_⟩
  · intro blk
    simp
  · intro thread
    refine ⟨?_, List.nodup_nil, ?_, ?_⟩
    · simp [start]
    · simp [start, PoolPc.pushing]
    · intro blk expected reached
      cases reached

/-- In every run in which no exchange installs an outdated successor, no block
ever has two owners. -/
theorem exclusiveOwnership_of_current
    {schedule : List (τ × PoolInput poolSize)}
    (current :
      Guarded PoolThread.step
        (fun pool move => ¬ Pool.InstallsOutdated pool move)
        (start τ poolSize) schedule) :
    ((start τ poolSize).run schedule).ExclusiveOwnership := by
  have owned :
      ∃ owner free, ((start τ poolSize).run schedule).Owned owner free := by
    apply run_invariant PoolThread.step
      (fun pool => ∃ owner free, Pool.Owned pool owner free) _ _ current
    · intro pool move guard ownership
      obtain ⟨owner, free, owned⟩ := ownership
      exact owned.step guard
    · exact ⟨_, _, owned_start⟩
  obtain ⟨owner, free, owned⟩ := owned
  exact owned.exclusiveOwnership

/-- A whole call of `acquire` without failures. -/
def acquireMoves (thread : τ) : List (τ × PoolInput poolSize) :=
  [(thread, .acquire), (thread, .proceed false), (thread, .proceed false),
    (thread, .proceed false)]

/-- A whole call of `release` without failures. -/
def releaseMoves (thread : τ) (blk : Fin poolSize) :
    List (τ × PoolInput poolSize) :=
  [(thread, .release (some blk)), (thread, .proceed false),
    (thread, .proceed false), (thread, .proceed false),
    (thread, .proceed false)]

/-- One thread is in front of its exchange when the other takes the head; the
exchange fails and is tried again on the next block. -/
theorem exclusiveOwnership_overtaken :
    let schedule : List (Bool × PoolInput 2) :=
      [(false, .acquire), (false, .proceed false),
        (false, .proceed false)] ++
        acquireMoves true ++
        [(false, .proceed false), (false, .proceed false),
          (false, .proceed true), (false, .proceed false),
          (false, .proceed false)]
    let pool := (start Bool 2).run schedule
    pool.ExclusiveOwnership ∧
      (pool.locals true).held = [1] ∧ (pool.locals false).held = [0] := by
  intro schedule pool
  refine ⟨?_, ?_, ?_⟩
  · apply exclusiveOwnership_of_current
    decide
  · decide
  · decide

/-- One thread is in front of its exchange when the other takes both blocks
and gives the first one back: the head is the same, its successor is held. -/
theorem not_exclusiveOwnership_head_returns :
    ¬ ∀ (poolSize : Nat) (τ : Type) [DecidableEq τ]
        (schedule : List (τ × PoolInput poolSize)),
      ((start τ poolSize).run schedule).ExclusiveOwnership := by
  intro exclusive
  have owned :=
    exclusive 2 Bool
      ([(false, .acquire), (false, .proceed false),
          (false, .proceed false)] ++
        acquireMoves true ++ acquireMoves true ++ releaseMoves true 1 ++
        [(false, .proceed false)])
  apply owned.unreachable true 0 (by decide)
  have first :
      ((start Bool 2).run
        ([(false, .acquire), (false, .proceed false),
            (false, .proceed false)] ++
          acquireMoves true ++ acquireMoves true ++
          releaseMoves true 1 ++
          [(false, .proceed false)])).shared.freeHead = some 0 := by
    decide
  rw [first]
  exact .here 0

end Pool

end MarketDataHandler
