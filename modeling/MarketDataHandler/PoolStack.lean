import MarketDataHandler.MemoryPool

/-!
# The memory pool as a stack

One thread that acquires blocks, writes their bytes and releases them.  The
links of the free blocks spell a list without repetition, and the pool answers
like a stack of blocks; the links that are left in held blocks are outdated,
and nothing follows them.

An exchange may fail spuriously.  A call gets a list that says which of its
exchanges do; it has no result if the loop goes on beyond the list.
-/

namespace MarketDataHandler

open Interleaving (compareExchangeWeak)

/-! ## The pool -/

structure Block (blockSize poolSize : Nat) where
  data : Fin blockSize → UInt8
  next : Option (Fin poolSize)

/-- A pointer to a block, or to its data, is the index of the block. -/
structure MemoryPool (blockSize poolSize : Nat) where
  storage : Fin poolSize → Block blockSize poolSize
  freeHead : Option (Fin poolSize)

variable {blockSize poolSize : Nat}

namespace MemoryPool

/-- The write of `blk->next`. -/
def setNext (pool : MemoryPool blockSize poolSize) (blk : Fin poolSize)
    (value : Option (Fin poolSize)) : MemoryPool blockSize poolSize where
  storage :=
    Function.update pool.storage blk
      { pool.storage blk with next := value }
  freeHead := pool.freeHead

/-- The loop in `push`.  A failed exchange puts the value it found into
`blk->next`. -/
def pushLoop (pool : MemoryPool blockSize poolSize) (blk : Fin poolSize) :
    List Bool → Option (MemoryPool blockSize poolSize)
  | [] => none
  | spurious :: attempts =>
      match compareExchangeWeak pool.freeHead (pool.storage blk).next
          (some blk) spurious with
      | (cell, none) => some { pool with freeHead := cell }
      | (cell, some found) =>
          pushLoop ({ pool with freeHead := cell }.setNext blk found) blk
            attempts

def push (pool : MemoryPool blockSize poolSize) (blk : Fin poolSize)
    (attempts : List Bool) : Option (MemoryPool blockSize poolSize) :=
  (pool.setNext blk pool.freeHead).pushLoop blk attempts

/-- The loop in `pop`.  A failed exchange puts the value it found into
`head`. -/
def popLoop (pool : MemoryPool blockSize poolSize) :
    Option (Fin poolSize) → List Bool →
      Option (MemoryPool blockSize poolSize × Option (Fin poolSize))
  | none, _ => some (pool, none)
  | some _, [] => none
  | some head, spurious :: attempts =>
      match compareExchangeWeak pool.freeHead (some head)
          (pool.storage head).next spurious with
      | (cell, none) => some ({ pool with freeHead := cell }, some head)
      | (cell, some found) =>
          popLoop { pool with freeHead := cell } found attempts

def pop (pool : MemoryPool blockSize poolSize) (attempts : List Bool) :
    Option (MemoryPool blockSize poolSize × Option (Fin poolSize)) :=
  pool.popLoop pool.freeHead attempts

def acquire (pool : MemoryPool blockSize poolSize)
    (attempts : List Bool) :
    Option (MemoryPool blockSize poolSize × Option (Fin poolSize)) :=
  pool.pop attempts

def release (pool : MemoryPool blockSize poolSize)
    (ptr : Option (Fin poolSize)) (attempts : List Bool) :
    Option (MemoryPool blockSize poolSize) :=
  match ptr with
  | none => some pool
  | some blk => pool.push blk attempts

/-- A holder writes a byte of its block. -/
def write (pool : MemoryPool blockSize poolSize) (blk : Fin poolSize)
    (offset : Fin blockSize) (byte : UInt8) :
    MemoryPool blockSize poolSize where
  storage :=
    Function.update pool.storage blk
      { pool.storage blk with
        data := Function.update (pool.storage blk).data offset byte }
  freeHead := pool.freeHead

/-- The constructor.  Nothing initialises the bytes of the blocks. -/
def constructed (bytes : Fin poolSize → Fin blockSize → UInt8)
    (attempts : Fin poolSize → List Bool) :
    Option (MemoryPool blockSize poolSize) :=
  (List.finRange poolSize).foldlM
    (fun pool blk => pool.push blk (attempts blk))
    { storage := fun blk =>
        { data := bytes blk
          next := none }
      freeHead := none }

end MemoryPool

/-! ## The calls of one thread -/

inductive PoolCall (blockSize poolSize : Nat) where
  | acquire (attempts : List Bool)
  | release (ptr : Option (Fin poolSize)) (attempts : List Bool)
  | write (blk : Fin poolSize) (offset : Fin blockSize) (byte : UInt8)
  deriving DecidableEq, Repr

/-- The pool and the blocks that the thread holds. -/
structure PoolUser (blockSize poolSize : Nat) where
  pool : MemoryPool blockSize poolSize
  held : List (Fin poolSize)

/-- The thread releases and writes only what it holds, and of the exchanges of
a call one does not fail spuriously. -/
def PoolCall.Allowed (held : List (Fin poolSize)) :
    PoolCall blockSize poolSize → Prop
  | .acquire attempts => false ∈ attempts
  | .release none _ => True
  | .release (some blk) attempts => blk ∈ held ∧ false ∈ attempts
  | .write blk _ _ => blk ∈ held

instance PoolCall.decidableAllowed (held : List (Fin poolSize))
    (call : PoolCall blockSize poolSize) :
    Decidable (call.Allowed held) :=
  match call with
  | .acquire _ => inferInstanceAs (Decidable (_ ∈ _))
  | .release none _ => isTrue trivial
  | .release (some _) _ => inferInstanceAs (Decidable (_ ∧ _))
  | .write _ _ _ => inferInstanceAs (Decidable (_ ∈ _))

namespace PoolUser

/-- One call, with the pointer that `acquire` returns. -/
def step (user : PoolUser blockSize poolSize) :
    PoolCall blockSize poolSize →
      Option (PoolUser blockSize poolSize × Option (Fin poolSize))
  | .acquire attempts =>
      (user.pool.acquire attempts).map fun result =>
        ({ pool := result.1
           held := result.2.toList ++ user.held }, result.2)
  | .release ptr attempts =>
      (user.pool.release ptr attempts).map fun pool =>
        ({ pool := pool
           held := ptr.elim user.held user.held.erase }, none)
  | .write blk offset byte =>
      some ({ user with pool := user.pool.write blk offset byte }, none)

/-- Successive calls, with what they return. -/
def run (user : PoolUser blockSize poolSize) :
    List (PoolCall blockSize poolSize) →
      Option (PoolUser blockSize poolSize × List (Option (Fin poolSize)))
  | [] => some (user, [])
  | call :: calls =>
      (user.step call).bind fun result =>
        (result.1.run calls).map fun rest =>
          (rest.1, result.2 :: rest.2)

/-- Every call is allowed where it is made. -/
def AllowedRun (user : PoolUser blockSize poolSize) :
    List (PoolCall blockSize poolSize) → Prop
  | [] => True
  | call :: calls =>
      call.Allowed user.held ∧
        ∀ result ∈ user.step call, result.1.AllowedRun calls

instance decidableAllowedRun :
    (user : PoolUser blockSize poolSize) →
      (calls : List (PoolCall blockSize poolSize)) →
      Decidable (user.AllowedRun calls)
  | _, [] => isTrue trivial
  | _, _ :: calls =>
      have (result : PoolUser blockSize poolSize × Option (Fin poolSize)) :=
        decidableAllowedRun result.1 calls
      inferInstanceAs (Decidable (_ ∧ _))

end PoolUser

/-! ## The stack -/

namespace PoolCall

/-- What a call does to a stack of free blocks, and what it returns. -/
def onStack (free : List (Fin poolSize)) :
    PoolCall blockSize poolSize →
      List (Fin poolSize) × Option (Fin poolSize)
  | .acquire _ => (free.tail, free.head?)
  | .release ptr _ => (ptr.toList ++ free, none)
  | .write _ _ _ => (free, none)

def runOnStack (free : List (Fin poolSize)) :
    List (PoolCall blockSize poolSize) →
      List (Fin poolSize) × List (Option (Fin poolSize))
  | [] => (free, [])
  | call :: calls =>
      let result := call.onStack free
      let rest := runOnStack result.1 calls
      (rest.1, result.2 :: rest.2)

end PoolCall

/-- The pool's links are those of the stack, and the stack consists of the
blocks that are not held. -/
structure PoolUser.Represents (user : PoolUser blockSize poolSize)
    (free : List (Fin poolSize)) : Prop where
  chain :
    PointerChain (fun blk => (user.pool.storage blk).next)
      user.pool.freeHead free
  nodup : free.Nodup
  free_iff : ∀ blk, blk ∈ free ↔ blk ∉ user.held
  heldOnce : user.held.Nodup

/-! ## One call -/

namespace MemoryPool

/-- The pointers of the pool, without the bytes. -/
def links (pool : MemoryPool blockSize poolSize) : PoolMemory poolSize where
  freeHead := pool.freeHead
  next := fun blk => (pool.storage blk).next

theorem setNext_links
    (pool : MemoryPool blockSize poolSize) (blk : Fin poolSize)
    (value : Option (Fin poolSize)) :
    (pool.setNext blk value).links.next =
      Function.update pool.links.next blk value := by
  funext other
  by_cases same : other = blk
  · subst same
    simp only [links, setNext, Function.update_self]
  · simp only [links, setNext, Function.update_of_ne same]

theorem setNext_self
    {pool : MemoryPool blockSize poolSize} {blk : Fin poolSize}
    {value : Option (Fin poolSize)}
    (linked : (pool.storage blk).next = value) :
    pool.setNext blk value = pool := by
  subst linked
  rw [setNext, Function.update_eq_self]

/-- Nobody else changes `free_head_`, so an exchange fails spuriously only. -/
theorem pushLoop_eq
    {pool : MemoryPool blockSize poolSize} {blk : Fin poolSize}
    (linked : (pool.storage blk).next = pool.freeHead)
    {attempts : List Bool} (sure : false ∈ attempts) :
    pool.pushLoop blk attempts = some { pool with freeHead := some blk } := by
  induction attempts with
  | nil =>
      cases sure
  | cons spurious attempts inductionHypothesis =>
      rw [pushLoop]
      cases spurious with
      | false =>
          simp [compareExchangeWeak, linked]
      | true =>
          have later : false ∈ attempts := by
            simpa using sure
          simp only [compareExchangeWeak, Bool.true_eq_false, and_false,
            if_false]
          -- The failed exchange writes back the link that is there already.
          rw [setNext_self linked]
          exact inductionHypothesis later

theorem push_eq
    (pool : MemoryPool blockSize poolSize) (blk : Fin poolSize)
    {attempts : List Bool} (sure : false ∈ attempts) :
    pool.push blk attempts =
      some
        { pool.setNext blk pool.freeHead with freeHead := some blk } := by
  apply pushLoop_eq _ sure
  simp only [setNext, Function.update_self]

/-- The links after a push are those of a push that nobody interrupts. -/
theorem push_links
    (pool : MemoryPool blockSize poolSize) (blk : Fin poolSize)
    {attempts : List Bool} (sure : false ∈ attempts) :
    ∃ next, pool.push blk attempts = some next ∧
      next.links = pool.links.push blk := by
  refine ⟨_, pool.push_eq blk sure, ?_⟩
  exact congrArg (PoolMemory.mk (some blk))
    (pool.setNext_links blk pool.freeHead)

theorem popLoop_eq
    {pool : MemoryPool blockSize poolSize} {head : Fin poolSize}
    (found : pool.freeHead = some head)
    {attempts : List Bool} (sure : false ∈ attempts) :
    pool.popLoop (some head) attempts =
      some
        ({ pool with freeHead := (pool.storage head).next },
          some head) := by
  induction attempts with
  | nil =>
      cases sure
  | cons spurious attempts inductionHypothesis =>
      rw [popLoop]
      cases spurious with
      | false =>
          simp [compareExchangeWeak, found]
      | true =>
          have later : false ∈ attempts := by
            simpa using sure
          simp only [compareExchangeWeak, Bool.true_eq_false, and_false,
            if_false]
          change pool.popLoop pool.freeHead attempts = _
          rw [found]
          exact inductionHypothesis later

/-- The list of pushes in the constructor. -/
theorem foldlM_push_links
    (pool : MemoryPool blockSize poolSize) (blks : List (Fin poolSize))
    {attempts : Fin poolSize → List Bool}
    (sure : ∀ blk, false ∈ attempts blk) :
    ∃ final,
      blks.foldlM (fun pool blk => pool.push blk (attempts blk)) pool =
          some final ∧
        final.links = blks.foldl PoolMemory.push pool.links := by
  induction blks generalizing pool with
  | nil =>
      exact ⟨pool, rfl, rfl⟩
  | cons blk blks inductionHypothesis =>
      obtain ⟨next, pushed, same⟩ := pool.push_links blk (sure blk)
      obtain ⟨final, made, links⟩ := inductionHypothesis next
      refine ⟨final, ?_, ?_⟩
      · rw [List.foldlM_cons, pushed]
        exact made
      · rw [links, same, List.foldl_cons]

theorem write_links
    (pool : MemoryPool blockSize poolSize) (blk : Fin poolSize)
    (offset : Fin blockSize) (byte : UInt8) :
    (pool.write blk offset byte).links = pool.links := by
  apply congrArg (PoolMemory.mk pool.freeHead)
  funext other
  by_cases same : other = blk
  · subst same
    simp only [write, Function.update_self]
  · simp only [write, Function.update_of_ne same]

end MemoryPool

namespace PoolUser

variable {user : PoolUser blockSize poolSize}
  {free : List (Fin poolSize)}

/-- A new pool. -/
theorem represents_constructed
    (bytes : Fin poolSize → Fin blockSize → UInt8)
    {attempts : Fin poolSize → List Bool}
    (sure : ∀ blk, false ∈ attempts blk) :
    ∃ pool, MemoryPool.constructed bytes attempts = some pool ∧
      Represents ⟨pool, []⟩ (List.finRange poolSize).reverse := by
  obtain ⟨pool, made, links⟩ :=
    MemoryPool.foldlM_push_links
      { storage := fun blk =>
          { data := bytes blk
            next := none }
        freeHead := none }
      (List.finRange poolSize) sure
  have nodup := List.nodup_finRange poolSize
  have empty :
      PointerChain (fun _ : Fin poolSize => none) none [] :=
    .null
  have chain :
      PointerChain pool.links.next pool.links.freeHead
        ((List.finRange poolSize).reverse ++ []) := by
    rw [links]
    exact PoolMemory.chain_push empty (by rwa [List.append_nil])
  rw [List.append_nil] at chain
  refine ⟨pool, made, chain, List.nodup_reverse.mpr nodup, ?_,
    List.nodup_nil⟩
  intro blk
  simp

/-- Together the stack and the held blocks are all blocks. -/
theorem Represents.length
    (represents : user.Represents free) :
    free.length + user.held.length = poolSize := by
  have apart : List.Disjoint free user.held := by
    intro blk inFree inHeld
    exact (represents.free_iff blk).mp inFree inHeld
  have all : (free ++ user.held).Perm (List.finRange poolSize) := by
    apply (List.perm_ext_iff_of_nodup
      (represents.nodup.append represents.heldOnce apart)
      (List.nodup_finRange poolSize)).mpr
    intro blk
    refine ⟨fun _ => List.mem_finRange blk, fun _ => ?_⟩
    rw [List.mem_append, represents.free_iff]
    exact Decidable.not_or_of_imp id
  rw [← List.length_append, all.length_eq, List.length_finRange]

theorem Represents.acquire
    (represents : user.Represents free)
    {attempts : List Bool} (sure : false ∈ attempts) :
    ∃ next, user.step (.acquire attempts) = some (next, free.head?) ∧
      next.Represents free.tail := by
  cases found : user.pool.freeHead with
  | none =>
      have chain := represents.chain
      rw [found] at chain
      cases chain with
      | null =>
          refine ⟨user, ?_, represents⟩
          rw [step, MemoryPool.acquire, MemoryPool.pop, found,
            MemoryPool.popLoop]
          rfl
  | some head =>
      have chain := represents.chain
      rw [found] at chain
      obtain ⟨rest, same, behind⟩ := chain.front
      subst same
      refine
        ⟨⟨{ user.pool with freeHead := (user.pool.storage head).next },
          head :: user.held⟩, ?_, ?_⟩
      · rw [step, MemoryPool.acquire, MemoryPool.pop, found,
          MemoryPool.popLoop_eq found sure]
        rfl
      · obtain ⟨fresh, distinct⟩ := List.nodup_cons.mp represents.nodup
        refine ⟨behind, distinct, ?_, ?_⟩
        · intro blk
          have iff := represents.free_iff blk
          rw [List.mem_cons] at iff
          rw [List.tail_cons, List.mem_cons, not_or, ← iff]
          constructor
          · intro member
            exact ⟨ne_of_mem_of_not_mem member fresh, Or.inr member⟩
          · intro both
            exact both.2.resolve_left both.1
        · apply List.nodup_cons.mpr
          refine ⟨?_, represents.heldOnce⟩
          exact (represents.free_iff head).mp List.mem_cons_self

theorem Represents.release
    (represents : user.Represents free)
    {blk : Fin poolSize} (holds : blk ∈ user.held)
    {attempts : List Bool} (sure : false ∈ attempts) :
    ∃ next, user.step (.release (some blk) attempts) = some (next, none) ∧
      next.Represents (blk :: free) := by
  obtain ⟨pool, pushed, links⟩ := user.pool.push_links blk sure
  have outside : blk ∉ free := by
    rw [represents.free_iff]
    exact not_not_intro holds
  refine ⟨⟨pool, user.held.erase blk⟩, ?_, ?_, ?_, ?_, ?_⟩
  · rw [step, MemoryPool.release, pushed]
    rfl
  · change PointerChain pool.links.next pool.links.freeHead _
    rw [links]
    exact (represents.chain.update outside user.pool.freeHead).push
      (Function.update_self _ _ _)
  · exact List.nodup_cons.mpr ⟨outside, represents.nodup⟩
  · intro other
    rw [List.mem_cons, represents.free_iff,
      represents.heldOnce.mem_erase_iff, not_and_or, not_not]
  · exact represents.heldOnce.erase blk

theorem Represents.write
    (represents : user.Represents free)
    (blk : Fin poolSize) (offset : Fin blockSize) (byte : UInt8) :
    ∃ next, user.step (.write blk offset byte) = some (next, none) ∧
      next.Represents free := by
  refine ⟨_, rfl, ?_, represents.nodup, represents.free_iff,
    represents.heldOnce⟩
  have same := user.pool.write_links blk offset byte
  change PointerChain (user.pool.write blk offset byte).links.next
    (user.pool.write blk offset byte).links.freeHead free
  rw [same]
  exact represents.chain

/-- The pool answers a call as the stack does. -/
theorem Represents.step
    (represents : user.Represents free)
    {call : PoolCall blockSize poolSize} (allowed : call.Allowed user.held) :
    ∃ next, user.step call = some (next, (call.onStack free).2) ∧
      next.Represents (call.onStack free).1 := by
  cases call with
  | acquire attempts =>
      exact represents.acquire allowed
  | release ptr attempts =>
      cases ptr with
      | none =>
          exact ⟨user, rfl, represents⟩
      | some blk =>
          exact represents.release allowed.1 allowed.2
  | write blk offset byte =>
      exact represents.write blk offset byte

theorem Represents.run
    (represents : user.Represents free)
    {calls : List (PoolCall blockSize poolSize)}
    (allowed : user.AllowedRun calls) :
    ∃ final,
      user.run calls = some (final, (PoolCall.runOnStack free calls).2) ∧
        final.Represents (PoolCall.runOnStack free calls).1 := by
  induction calls generalizing user free with
  | nil =>
      exact ⟨user, rfl, represents⟩
  | cons call calls inductionHypothesis =>
      obtain ⟨now, later⟩ := allowed
      obtain ⟨next, made, represented⟩ := represents.step now
      obtain ⟨final, rest, finally_⟩ :=
        inductionHypothesis represented (later _ made)
      refine ⟨final, ?_, finally_⟩
      rw [PoolUser.run, made, Option.bind_some, rest]
      rfl

theorem Represents.free_nil_iff
    (represents : user.Represents free) :
    free = [] ↔ user.held.length = poolSize := by
  have length := represents.length
  rw [← List.length_eq_zero_iff]
  omega

/-- What a call on the pool does where the free list is the given one. -/
structure AnswersFrom (user : PoolUser blockSize poolSize)
    (free : List (Fin poolSize)) : Prop where
  represents : user.Represents free
  acquire :
    ∀ attempts, false ∈ attempts →
      ∃ pool ptr,
        user.pool.acquire attempts = some (pool, ptr) ∧
          (ptr = none ↔ user.held.length = poolSize) ∧
          ptr = free.head? ∧
          PoolUser.Represents ⟨pool, ptr.toList ++ user.held⟩ free.tail
  release :
    ∀ blk ∈ user.held, ∀ attempts, false ∈ attempts →
      ∃ pool,
        user.pool.release (some blk) attempts = some pool ∧
          PoolUser.Represents ⟨pool, user.held.erase blk⟩ (blk :: free)
  releaseNull :
    ∀ attempts, user.pool.release none attempts = some user.pool
  write :
    ∀ blk offset byte,
      (user.pool.write blk offset byte).links = user.pool.links

theorem Represents.answersFrom
    (represents : user.Represents free) :
    user.AnswersFrom free where
  represents := represents
  acquire := by
    intro attempts sure
    obtain ⟨next, made, represented⟩ := represents.acquire sure
    obtain ⟨⟨pool, ptr⟩, acquired, same⟩ := Option.map_eq_some_iff.mp made
    cases same
    refine ⟨pool, free.head?, acquired, ?_, rfl, represented⟩
    rw [List.head?_eq_none_iff]
    exact represents.free_nil_iff
  release := by
    intro blk holds attempts sure
    obtain ⟨next, made, represented⟩ := represents.release holds sure
    obtain ⟨pool, released, same⟩ := Option.map_eq_some_iff.mp made
    cases same
    exact ⟨pool, released, represented⟩
  releaseNull := fun _ => rfl
  write := user.pool.write_links

/-- A pool of any size is a stack of its free blocks, at first the blocks of
the array from the last one down, after every sequence of allowed calls. -/
theorem run_refines_stack
    (bytes : Fin poolSize → Fin blockSize → UInt8)
    (attempts : Fin poolSize → List Bool)
    (sure : ∀ blk, false ∈ attempts blk) :
    ∃ pool, MemoryPool.constructed bytes attempts = some pool ∧
      ∀ calls, AllowedRun ⟨pool, []⟩ calls →
        let stack :=
          PoolCall.runOnStack (List.finRange poolSize).reverse calls
        ∃ user,
          run ⟨pool, []⟩ calls = some (user, stack.2) ∧
            user.AnswersFrom stack.1 := by
  obtain ⟨pool, made, represents⟩ := represents_constructed bytes sure
  refine ⟨pool, made, ?_⟩
  intro calls allowed stack
  obtain ⟨user, ran, represented⟩ := represents.run allowed
  exact ⟨user, ran, represented.answersFrom⟩

/-- Two blocks: one is acquired, written and released again, after which it is
the next one to be acquired. -/
theorem run_refines_stack_two :
    let calls : List (PoolCall 8 2) :=
      [.acquire [false], .write 1 3 7, .release (some 1) [false],
        .release none [], .acquire [true, false], .acquire [false],
        .acquire [false]]
    ∃ pool user,
      MemoryPool.constructed (fun _ _ => 0) (fun _ => [true, false]) =
          some pool ∧
        run ⟨pool, []⟩ calls =
          some (user, [some 1, none, none, none, some 1, some 0, none]) ∧
        user.AnswersFrom [] := by
  intro calls
  obtain ⟨pool, made, refines⟩ :=
    run_refines_stack (fun (_ : Fin 2) (_ : Fin 8) => 0)
      (fun _ => [true, false]) (by decide)
  have allowed :
      ∀ pool ∈ MemoryPool.constructed (fun (_ : Fin 2) (_ : Fin 8) => 0)
          (fun _ => [true, false]),
        AllowedRun ⟨pool, []⟩ calls := by
    decide
  obtain ⟨user, ran, answers⟩ := refines calls (allowed pool made)
  exact ⟨pool, user, made, ran, answers⟩

end PoolUser

end MarketDataHandler
