import MarketDataHandler.Client.SymbolCache
import MarketDataHandler.Lib.VersionedWriter
import Mathlib.Algebra.Ring.Nat
import Mathlib.Data.List.Induction

/-!
# Snapshots under a concurrent writer

`SymbolCache::get_snapshot` against one writer on the same symbol, as a
sequentially consistent interleaving of single accesses.

The loop of the reader is `do … while (v1 != v2)`, and its `continue` at an
odd first version goes to the loop test.  There `v2` still is the version
that the preceding pass loaded last.  If that was inside an update and the
same update is still in progress, the test finds two equal versions and the
reader returns what it had copied in the preceding pass.  Apart from this case
the snapshot is that of a whole number of updates.
-/

namespace MarketDataHandler

/-! ## The reader -/

/-- A member of `MarketState`, as its copy assignment goes through them. -/
inductive StateField where
  | version
  | bestBid
  | bestAsk
  | bidQuantity
  | askQuantity
  | lastTradedPrice
  | lastTradedQuantity
  | lastUpdateTime
  | updateCount
  deriving DecidableEq, Repr

namespace StateField

/-- The members in the order of the copy assignment. -/
def all : List StateField :=
  [.version, .bestBid, .bestAsk, .bidQuantity, .askQuantity,
    .lastTradedPrice, .lastTradedQuantity, .lastUpdateTime,
    .updateCount]

/-- Copy one member. -/
def copy (field : StateField) (source snap : MarketState) : MarketState :=
  match field with
  | .version => { snap with version := source.version }
  | .bestBid => { snap with bestBid := source.bestBid }
  | .bestAsk => { snap with bestAsk := source.bestAsk }
  | .bidQuantity => { snap with bidQuantity := source.bidQuantity }
  | .askQuantity => { snap with askQuantity := source.askQuantity }
  | .lastTradedPrice =>
      { snap with lastTradedPrice := source.lastTradedPrice }
  | .lastTradedQuantity =>
      { snap with lastTradedQuantity := source.lastTradedQuantity }
  | .lastUpdateTime =>
      { snap with lastUpdateTime := source.lastUpdateTime }
  | .updateCount => { snap with updateCount := source.updateCount }

/-- Copy the members one after the other from a state that does not
change. -/
def copyAll (fields : List StateField) (source snap : MarketState) :
    MarketState :=
  fields.foldl (fun current field => field.copy source current) snap

theorem copyAll_all (source snap : MarketState) :
    copyAll all source snap = source := by
  simp only [copyAll, all, List.foldl_cons, List.foldl_nil, copy]

end StateField

/-- Where the reader is, with its local variables that are still needed. -/
inductive ReaderPc where
  /-- In front of the first load of a pass. -/
  | loadFirst (v2 : UInt32) (snap : MarketState)
  /-- Inside the copy, or at its end in front of the second load. -/
  | copying (v1 : UInt32) (snap : MarketState)
      (fields : List StateField)
  | returned (snap : MarketState)
  deriving DecidableEq, Repr

namespace ReaderPc

/-- The start of a call. -/
def entry : ReaderPc :=
  .loadFirst 0 MarketState.initial

def atFirstLoad : ReaderPc → Bool
  | .loadFirst _ _ => true
  | _ => false

def step (shared : MarketState) : ReaderPc → ReaderPc
  | .loadFirst v2 snap =>
      let v1 := shared.version
      if v1 &&& 1 ≠ 0 then
        if v1 ≠ v2 then .loadFirst v2 snap else .returned snap
      else
        .copying v1 snap StateField.all
  | .copying v1 snap (field :: fields) =>
      .copying v1 (field.copy shared snap) fields
  | .copying v1 snap [] =>
      let v2 := shared.version
      if v1 ≠ v2 then .loadFirst v2 snap else .returned snap
  | .returned snap => .returned snap

end ReaderPc

/-! ## The two threads -/

inductive Actor where
  | writer
  | reader
  deriving DecidableEq, Repr

/-- Both threads and the memory.  `secondLoad` records how many version
increments there had been at the reader's last second load. -/
structure SnapshotSystem where
  writer : VersionedWriter.State FieldAccess UInt64 MarketData
  reader : ReaderPc
  secondLoad : Option Nat

namespace SnapshotSystem

def shared (system : SnapshotSystem) : MarketState where
  toMarketData := system.writer.data
  version := system.writer.version

def step (system : SnapshotSystem) : Actor → SnapshotSystem
  | .writer =>
      { system with
        writer :=
          VersionedWriter.step FieldAccess.perform system.writer }
  | .reader =>
      { system with
        reader := system.reader.step system.shared
        secondLoad :=
          match system.reader with
          | .copying _ _ [] => some system.writer.bumps
          | _ => system.secondLoad }

def run (system : SnapshotSystem) (schedule : List Actor) :
    SnapshotSystem :=
  schedule.foldl step system

/-- The moment of a call, after the writer has taken some steps on its
own. -/
def call (initial : MarketState) (register : UInt64)
    (updates : List CacheUpdate) (elapsed : Nat) : SnapshotSystem :=
  run
    { writer :=
        VersionedWriter.start initial.version register
          initial.toMarketData (updates.map CacheUpdate.accesses)
      reader := ReaderPc.entry
      secondLoad := none }
    (List.replicate elapsed .writer)

/-- The number of updates that have been started. -/
def started (system : SnapshotSystem) : Nat :=
  (system.writer.bumps + 1) / 2

/-- The reader is about to load the version at the start of a pass, and the
update that was in progress when the preceding pass ended still is. -/
def RereadsUpdate (system : SnapshotSystem) : Prop :=
  system.reader.atFirstLoad ∧
    system.writer.bumps % 2 = 1 ∧
    system.secondLoad = some system.writer.bumps

instance (system : SnapshotSystem) : Decidable system.RereadsUpdate :=
  inferInstanceAs (Decidable (_ ∧ _ ∧ _))

/-- The reader never loads the version twice within one update in this
way. -/
def AvoidsRereads : SnapshotSystem → List Actor → Prop
  | _, [] => True
  | system, actor :: schedule =>
      (actor = .reader → ¬ system.RereadsUpdate) ∧
        (system.step actor).AvoidsRereads schedule

instance decidableAvoidsRereads :
    (system : SnapshotSystem) → (schedule : List Actor) →
      Decidable (system.AvoidsRereads schedule)
  | _, [] => isTrue trivial
  | system, actor :: schedule =>
      have := decidableAvoidsRereads (system.step actor) schedule
      inferInstanceAs (Decidable (_ ∧ _))

theorem run_concat
    (system : SnapshotSystem) (schedule : List Actor) (actor : Actor) :
    system.run (schedule ++ [actor]) = (system.run schedule).step actor :=
  List.foldl_concat _ _ _ _

theorem run_reader_writer
    (system : SnapshotSystem) (schedule : List Actor) :
    (system.run (schedule ++ [.reader])).writer =
      (system.run schedule).writer := by
  rw [run_concat]
  rfl

theorem avoidsRereads_concat
    {system : SnapshotSystem} {schedule : List Actor} {actor : Actor}
    (avoids : system.AvoidsRereads (schedule ++ [actor])) :
    system.AvoidsRereads schedule ∧
      (actor = .reader → ¬ (system.run schedule).RereadsUpdate) := by
  induction schedule generalizing system with
  | nil =>
      exact ⟨trivial, avoids.1⟩
  | cons first schedule inductionHypothesis =>
      obtain ⟨now, later⟩ := avoids
      obtain ⟨earlier, last⟩ := inductionHypothesis later
      exact ⟨⟨now, earlier⟩, last⟩

theorem bumps_le_step (system : SnapshotSystem) (actor : Actor) :
    system.writer.bumps ≤ (system.step actor).writer.bumps := by
  cases actor with
  | writer =>
      exact VersionedWriter.bumps_le_step system.writer
  | reader =>
      exact Nat.le_refl _

theorem bumps_le_run (system : SnapshotSystem) (schedule : List Actor) :
    system.writer.bumps ≤ (system.run schedule).writer.bumps := by
  induction schedule using List.reverseRecOn with
  | nil =>
      exact Nat.le_refl _
  | append_singleton schedule actor inductionHypothesis =>
      rw [run_concat]
      exact Nat.le_trans inductionHypothesis (bumps_le_step _ actor)

/-! ## The version word and the number of increments -/

theorem version_odd_iff
    {first : UInt32} (unlocked : first &&& 1 = 0) (bumps : Nat) :
    (first + UInt32.ofNat bumps) &&& 1 ≠ 0 ↔ bumps % 2 = 1 := by
  have parity (word : UInt32) : word &&& 1 = 0 ↔ word.toNat % 2 = 0 := by
    rw [← UInt32.toNat_inj, UInt32.toNat_and]
    change word.toNat &&& 1 = 0 ↔ _
    rw [Nat.and_one_is_mod]
  rw [parity] at unlocked
  rw [Ne, parity, UInt32.toNat_add, UInt32.toNat_ofNat']
  omega

/-- Fewer increments than the word has values cannot bring a value back. -/
theorem bumps_eq_of_version_eq
    {first : UInt32} {earlier later : Nat}
    (ordered : earlier ≤ later) (near : later < earlier + 2 ^ 32)
    (same : first + UInt32.ofNat earlier = first + UInt32.ofNat later) :
    earlier = later := by
  have words := congrArg UInt32.toNat same
  have bound := first.toNat_lt
  rw [UInt32.toNat_add, UInt32.toNat_add, UInt32.toNat_ofNat',
    UInt32.toNat_ofNat'] at words
  omega

/-! ## The invariant of a call -/

/-- The writer is in one of its two phases and the word counts them. -/
structure WriterSound (initial : MarketState) (register : UInt64)
    (updates : List CacheUpdate) (system : SnapshotSystem) : Prop where
  phase :
    VersionedWriter.AtUpdate FieldAccess.perform
      (updates.map CacheUpdate.accesses)
      (register, initial.toMarketData) system.writer
  counted :
    system.writer.version =
      initial.version + UInt32.ofNat system.writer.bumps

theorem WriterSound.step
    {initial : MarketState} {register : UInt64}
    {updates : List CacheUpdate} {system : SnapshotSystem}
    (sound : WriterSound initial register updates system)
    (actor : Actor) :
    WriterSound initial register updates (system.step actor) := by
  cases actor with
  | writer =>
      exact ⟨sound.phase.step,
        VersionedWriter.version_step sound.counted⟩
  | reader =>
      exact ⟨sound.phase, sound.counted⟩

theorem WriterSound.run
    {initial : MarketState} {register : UInt64}
    {updates : List CacheUpdate} {system : SnapshotSystem}
    (sound : WriterSound initial register updates system)
    (schedule : List Actor) :
    WriterSound initial register updates (system.run schedule) := by
  induction schedule using List.reverseRecOn with
  | nil =>
      exact sound
  | append_singleton schedule actor inductionHypothesis =>
      rw [run_concat]
      exact inductionHypothesis.step actor

theorem writerSound_call
    (initial : MarketState) (register : UInt64)
    (updates : List CacheUpdate) (elapsed : Nat) :
    WriterSound initial register updates
      (call initial register updates elapsed) := by
  apply WriterSound.run
  refine ⟨⟨0, Or.inl ?_⟩, ?_⟩
  · exact VersionedWriter.quiescent_start _ _ _ _
  · exact (UInt32.add_zero _).symm

theorem effects_accesses
    (updates : List CacheUpdate) (register : UInt64)
    (data : MarketData) :
    (VersionedWriter.effects FieldAccess.perform
        (updates.map CacheUpdate.accesses) (register, data)).2 =
      updates.foldl CacheUpdate.apply data := by
  induction updates generalizing register data with
  | nil =>
      rfl
  | cons update updates inductionHypothesis =>
      rw [List.foldl_cons, ← update.perform_accesses register data]
      exact inductionHypothesis _ _

/-- Between two updates the fields are those after the completed ones. -/
theorem WriterSound.data_eq
    {initial : MarketState} {register : UInt64}
    {updates : List CacheUpdate} {system : SnapshotSystem}
    (sound : WriterSound initial register updates system)
    (even : system.writer.bumps % 2 = 0) :
    system.writer.bumps / 2 ≤ updates.length ∧
      system.writer.data =
        (updates.take (system.writer.bumps / 2)).foldl
          CacheUpdate.apply initial.toMarketData := by
  have quiescent := sound.phase.quiescent even
  have bounded := quiescent.bounded
  rw [List.length_map] at bounded
  refine ⟨bounded, ?_⟩
  have data := congrArg Prod.snd quiescent.cells
  rw [← List.map_take, effects_accesses] at data
  exact data

/-- At some moment before the reader returned no update was in progress and
the fields were the given ones. -/
def Current (start : SnapshotSystem) (schedule : List Actor)
    (data : MarketData) : Prop :=
  ∃ early late,
    schedule = early ++ late ∧
      (∀ snap, (start.run early).reader ≠ .returned snap) ∧
      (start.run early).writer.bumps % 2 = 0 ∧
      (start.run early).writer.data = data

theorem Current.concat
    {start : SnapshotSystem} {schedule : List Actor} {data : MarketData}
    (current : Current start schedule data) (actor : Actor) :
    Current start (schedule ++ [actor]) data := by
  obtain ⟨early, late, split, moment⟩ := current
  refine ⟨early, late ++ [actor], ?_, moment⟩
  rw [split, List.append_assoc]

/-- What the local variables of the reader tell.  `v2` is zero or the version
at the last second load.  `v1` is the version at a first load that found no
update in progress; as long as that version has not moved, finishing the copy
gives the present state.  A returned snapshot was current. -/
def ReaderSound (first : UInt32) (start : SnapshotSystem)
    (schedule : List Actor) : ReaderPc → Prop
  | .loadFirst v2 _ =>
      (v2 = 0 ∧ (start.run schedule).secondLoad = none) ∨
        ∃ seen,
          (start.run schedule).secondLoad = some seen ∧
            start.writer.bumps ≤ seen ∧
            seen ≤ (start.run schedule).writer.bumps ∧
            v2 = first + UInt32.ofNat seen
  | .copying v1 snap fields =>
      ∃ seen,
        seen % 2 = 0 ∧
          start.writer.bumps ≤ seen ∧
          seen ≤ (start.run schedule).writer.bumps ∧
          v1 = first + UInt32.ofNat seen ∧
          ((start.run schedule).writer.bumps = seen →
            StateField.copyAll fields (start.run schedule).shared snap =
              (start.run schedule).shared)
  | .returned snap => Current start schedule snap.toMarketData

theorem ReaderSound.writer_step
    {initial : MarketState} {register : UInt64}
    {updates : List CacheUpdate} {start : SnapshotSystem}
    {schedule : List Actor} {pc : ReaderPc}
    (writerSound :
      WriterSound initial register updates (start.run schedule))
    (sound : ReaderSound initial.version start schedule pc) :
    ReaderSound initial.version start (schedule ++ [.writer]) pc := by
  have moved := bumps_le_step (start.run schedule) .writer
  rw [← run_concat] at moved
  cases pc with
  | loadFirst v2 snap =>
      have sameRecord :
          (start.run (schedule ++ [.writer])).secondLoad =
            (start.run schedule).secondLoad := by
        rw [run_concat]
        rfl
      rcases sound with
        ⟨zero, nothing⟩ | ⟨seen, recorded, low, high, word⟩
      · exact Or.inl ⟨zero, sameRecord.trans nothing⟩
      · exact Or.inr ⟨seen, sameRecord.trans recorded, low,
          Nat.le_trans high moved, word⟩
  | copying v1 snap fields =>
      obtain ⟨seen, even, low, high, word, finishes⟩ := sound
      refine ⟨seen, even, low, Nat.le_trans high moved, word, ?_⟩
      intro still
      have unmoved : (start.run schedule).writer.bumps = seen := by
        omega
      have quiescent :=
        writerSound.phase.quiescent (by rw [unmoved, even])
      rw [run_concat] at still ⊢
      rcases quiescent.step_cases with unchanged | ⟨bumped, _⟩
      · have sameShared :
            ((start.run schedule).step .writer).shared =
              (start.run schedule).shared := by
          rw [SnapshotSystem.step, unchanged]
        rw [sameShared]
        exact finishes unmoved
      · change
          (VersionedWriter.step FieldAccess.perform
            (start.run schedule).writer).bumps = seen at still
        omega
  | returned snap =>
      exact sound.concat .writer

/-- The first load of a pass does not end the call, unless it is inside the
update in which the preceding pass ended. -/
theorem ReaderSound.loadFirst_step
    {initial : MarketState} {register : UInt64}
    {updates : List CacheUpdate} {start : SnapshotSystem}
    {schedule : List Actor} {v2 : UInt32} {snap : MarketState}
    (unlocked : initial.version &&& 1 = 0)
    (near :
      (start.run schedule).writer.bumps < start.writer.bumps + 2 ^ 32)
    (avoids : ¬ (start.run schedule).RereadsUpdate)
    (writerSound :
      WriterSound initial register updates (start.run schedule))
    (pc : (start.run schedule).reader = .loadFirst v2 snap)
    (sound :
      ReaderSound initial.version start schedule (.loadFirst v2 snap)) :
    ReaderSound initial.version start (schedule ++ [.reader])
      ((ReaderPc.loadFirst v2 snap).step
        (start.run schedule).shared) := by
  have word : (start.run schedule).shared.version = _ :=
    writerSound.counted
  have sameRecord :
      (start.run (schedule ++ [.reader])).secondLoad =
        (start.run schedule).secondLoad := by
    rw [run_concat, SnapshotSystem.step, pc]
  have sameWriter := start.run_reader_writer schedule
  rw [ReaderPc.step, word]
  by_cases odd : (start.run schedule).writer.bumps % 2 = 1
  · have differs :
        initial.version +
            UInt32.ofNat (start.run schedule).writer.bumps ≠ v2 := by
      intro same
      rcases sound with ⟨rfl, _⟩ | ⟨seen, recorded, low, high, rfl⟩
      · have oddWord := (version_odd_iff unlocked _).mpr odd
        rw [same] at oddWord
        exact oddWord rfl
      · have equal :=
          bumps_eq_of_version_eq high (by omega) same.symm
        rw [equal] at recorded
        exact avoids ⟨by rw [pc]; rfl, odd, recorded⟩
    simp only [if_pos ((version_odd_iff unlocked _).mpr odd),
      if_pos differs]
    rcases sound with
      ⟨zero, nothing⟩ | ⟨seen, recorded, low, high, v2Word⟩
    · exact Or.inl ⟨zero, sameRecord.trans nothing⟩
    · refine Or.inr ⟨seen, sameRecord.trans recorded, low, ?_, v2Word⟩
      rw [sameWriter]
      exact high
  · simp only [if_neg ((version_odd_iff unlocked _).not.mpr odd)]
    refine ⟨(start.run schedule).writer.bumps, by omega,
      bumps_le_run start schedule, ?_, rfl, ?_⟩
    · exact Nat.le_of_eq (congrArg _ sameWriter.symm)
    · intro _
      exact StateField.copyAll_all _ _

/-- One member is copied. -/
theorem ReaderSound.copy_step
    {first : UInt32} {start : SnapshotSystem} {schedule : List Actor}
    {v1 : UInt32} {snap : MarketState} {field : StateField}
    {fields : List StateField}
    (sound :
      ReaderSound first start schedule
        (.copying v1 snap (field :: fields))) :
    ReaderSound first start (schedule ++ [.reader])
      (.copying v1 (field.copy (start.run schedule).shared snap)
        fields) := by
  obtain ⟨seen, even, low, high, word, finishes⟩ := sound
  have sameWriter := start.run_reader_writer schedule
  have sameShared :
      (start.run (schedule ++ [.reader])).shared =
        (start.run schedule).shared := by
    rw [shared, sameWriter, shared]
  refine ⟨seen, even, low, ?_, word, ?_⟩
  · rw [sameWriter]
    exact high
  · rw [sameWriter, sameShared]
    exact finishes

/-- The second load ends the call if the version has not moved since the
first one, and then the copy is the present state. -/
theorem ReaderSound.loadSecond_step
    {initial : MarketState} {register : UInt64}
    {updates : List CacheUpdate} {start : SnapshotSystem}
    {schedule : List Actor} {v1 : UInt32} {snap : MarketState}
    (near :
      (start.run schedule).writer.bumps < start.writer.bumps + 2 ^ 32)
    (writerSound :
      WriterSound initial register updates (start.run schedule))
    (pc : (start.run schedule).reader = .copying v1 snap [])
    (sound :
      ReaderSound initial.version start schedule
        (.copying v1 snap [])) :
    ReaderSound initial.version start (schedule ++ [.reader])
      ((ReaderPc.copying v1 snap []).step
        (start.run schedule).shared) := by
  have word : (start.run schedule).shared.version = _ :=
    writerSound.counted
  obtain ⟨seen, even, low, high, v1Word, finishes⟩ := sound
  rw [ReaderPc.step, word]
  by_cases moved :
      v1 ≠
        initial.version +
          UInt32.ofNat (start.run schedule).writer.bumps
  · simp only [if_pos moved]
    refine Or.inr ⟨(start.run schedule).writer.bumps, ?_,
      bumps_le_run start schedule, ?_, rfl⟩
    · rw [run_concat, SnapshotSystem.step, pc]
    · rw [run_concat]
      exact bumps_le_step _ .reader
  · simp only [if_neg moved]
    rw [not_not, v1Word] at moved
    have unmoved := bumps_eq_of_version_eq high (by omega) moved
    refine ⟨schedule, [.reader], rfl, ?_, ?_, ?_⟩
    · intro other returned
      rw [pc] at returned
      cases returned
    · rw [← unmoved, even]
    · have finished := finishes unmoved.symm
      change snap = (start.run schedule).shared at finished
      rw [finished]
      rfl

theorem ReaderSound.reader_step
    {initial : MarketState} {register : UInt64}
    {updates : List CacheUpdate} {start : SnapshotSystem}
    {schedule : List Actor}
    (unlocked : initial.version &&& 1 = 0)
    (near :
      (start.run schedule).writer.bumps < start.writer.bumps + 2 ^ 32)
    (avoids : ¬ (start.run schedule).RereadsUpdate)
    (writerSound :
      WriterSound initial register updates (start.run schedule))
    (sound :
      ReaderSound initial.version start schedule
        (start.run schedule).reader) :
    ReaderSound initial.version start (schedule ++ [.reader])
      ((start.run schedule).reader.step
        (start.run schedule).shared) := by
  cases pc : (start.run schedule).reader with
  | loadFirst v2 snap =>
      rw [pc] at sound
      exact loadFirst_step unlocked near avoids writerSound pc sound
  | copying v1 snap fields =>
      rw [pc] at sound
      cases fields with
      | nil =>
          exact loadSecond_step near writerSound pc sound
      | cons field fields =>
          exact sound.copy_step
  | returned snap =>
      rw [pc] at sound
      exact sound.concat .reader

/-- The invariant along a call. -/
theorem readerSound_run
    {initial : MarketState} {register : UInt64}
    {updates : List CacheUpdate} {start : SnapshotSystem}
    (unlocked : initial.version &&& 1 = 0)
    (writerSound : WriterSound initial register updates start)
    (entry : start.reader = ReaderPc.entry)
    (unrecorded : start.secondLoad = none)
    {schedule : List Actor}
    (near :
      (start.run schedule).writer.bumps < start.writer.bumps + 2 ^ 32)
    (avoids : start.AvoidsRereads schedule) :
    ReaderSound initial.version start schedule
      (start.run schedule).reader := by
  induction schedule using List.reverseRecOn with
  | nil =>
      change ReaderSound _ _ _ start.reader
      rw [entry]
      exact Or.inl ⟨rfl, unrecorded⟩
  | append_singleton schedule actor inductionHypothesis =>
      obtain ⟨earlier, last⟩ := avoidsRereads_concat avoids
      have grown := bumps_le_step (start.run schedule) actor
      rw [← run_concat] at grown
      have earlierNear := Nat.lt_of_le_of_lt grown near
      have sound := inductionHypothesis earlierNear earlier
      have soundWriter := writerSound.run schedule
      cases actor with
      | writer =>
          have next := sound.writer_step soundWriter
          rw [run_concat]
          exact next
      | reader =>
          have next :=
            sound.reader_step unlocked earlierNear (last rfl) soundWriter
          rw [run_concat]
          exact next

theorem call_reader
    (initial : MarketState) (register : UInt64)
    (updates : List CacheUpdate) (elapsed : Nat) :
    (call initial register updates elapsed).reader = ReaderPc.entry ∧
      (call initial register updates elapsed).secondLoad = none := by
  induction elapsed with
  | zero =>
      exact ⟨rfl, rfl⟩
  | succ elapsed inductionHypothesis =>
      rw [call, List.replicate_succ', run_concat]
      exact inductionHypothesis

end SnapshotSystem

/-! ## Consistency -/

/-- What a call that starts here returns, if it has returned at the end of
the schedule: the fields after a whole number of completed updates, which were
the fields in memory at some moment of the call at which no update was in
progress. -/
def SnapshotConsistent (initial : MarketState)
    (updates : List CacheUpdate) (start : SnapshotSystem)
    (schedule : List Actor) : Prop :=
  ∀ snap,
    (start.run schedule).reader = .returned snap →
      ∃ completed ≤ updates.length,
        snap.toMarketData =
            (updates.take completed).foldl CacheUpdate.apply
              initial.toMarketData ∧
          ∃ early late,
            schedule = early ++ late ∧
              (∀ other, (start.run early).reader ≠ .returned other) ∧
              (start.run early).writer.bumps = 2 * completed ∧
              (start.run early).writer.data = snap.toMarketData

/-- A call during which fewer than 2³¹ updates are started is consistent if
the reader does not read the version again inside the update in which its
preceding pass ended. -/
theorem snapshotConsistent_of_avoidsRereads
    (initial : MarketState) (unlocked : initial.version &&& 1 = 0)
    (register : UInt64) (updates : List CacheUpdate) (elapsed : Nat)
    (schedule : List Actor)
    (few :
      ((SnapshotSystem.call initial register updates elapsed).run
          schedule).started -
        (SnapshotSystem.call initial register updates elapsed).started <
          2 ^ 31)
    (avoids :
      (SnapshotSystem.call initial register updates
        elapsed).AvoidsRereads schedule) :
    SnapshotConsistent initial updates
      (SnapshotSystem.call initial register updates elapsed)
      schedule := by
  intro snap returned
  have writerSound :=
    SnapshotSystem.writerSound_call initial register updates elapsed
  obtain ⟨entry, unrecorded⟩ :=
    SnapshotSystem.call_reader initial register updates elapsed
  generalize
    SnapshotSystem.call initial register updates elapsed = start at *
  have near :
      (start.run schedule).writer.bumps <
        start.writer.bumps + 2 ^ 32 := by
    rw [SnapshotSystem.started, SnapshotSystem.started] at few
    omega
  have sound :=
    SnapshotSystem.readerSound_run unlocked writerSound entry unrecorded
      near avoids
  rw [returned] at sound
  obtain ⟨early, late, split, unfinished, even, data⟩ := sound
  obtain ⟨bounded, value⟩ := (writerSound.run early).data_eq even
  refine ⟨_, bounded, data.symm.trans value, early, late, split,
    unfinished, ?_, data⟩
  omega

/-- A quote is written in the middle of the first pass; the second pass
returns both updates. -/
theorem snapshotConsistent_second_pass :
    let updates : List CacheUpdate :=
      [.trade 11 12 13, .quote 21 22 23 24 25]
    let start := SnapshotSystem.call MarketState.initial 0 updates 7
    let schedule :=
      List.replicate 4 .reader ++ List.replicate 9 .writer ++
        List.replicate 18 .reader
    (start.run schedule).reader =
        .returned
          { bestBid := 21
            bestAsk := 23
            bidQuantity := 22
            askQuantity := 24
            lastTradedPrice := 11
            lastTradedQuantity := 12
            lastUpdateTime := 25
            updateCount := 2
            version := 4 } ∧
      SnapshotConsistent MarketState.initial updates start schedule := by
  intro updates start schedule
  refine ⟨by decide, ?_⟩
  exact snapshotConsistent_of_avoidsRereads _ (by decide) _ _ _ _
    (by decide) (by decide)

/-- A trade is being written when the reader copies the traded quantity and
still is when the reader looks at the version again. -/
theorem not_snapshotConsistent_torn_trade :
    ¬ ∀ (initial : MarketState) (register : UInt64)
        (updates : List CacheUpdate) (elapsed : Nat)
        (schedule : List Actor),
      initial.version &&& 1 = 0 →
      ((SnapshotSystem.call initial register updates elapsed).run
          schedule).started -
        (SnapshotSystem.call initial register updates elapsed).started <
          2 ^ 31 →
        SnapshotConsistent initial updates
          (SnapshotSystem.call initial register updates elapsed)
          schedule := by
  intro consistent
  let updates : List CacheUpdate := [.trade 11 12 13]
  let schedule : List Actor :=
    List.replicate 7 .reader ++ List.replicate 3 .writer ++
      List.replicate 5 .reader
  obtain ⟨completed, bounded, value, _⟩ :=
    consistent MarketState.initial 0 updates 0 schedule (by decide)
      (by decide)
      { MarketState.initial with lastTradedQuantity := 12 } (by decide)
  have torn :
      ∀ completed ≤ 1,
        { MarketData.initial with lastTradedQuantity := 12 } ≠
          (updates.take completed).foldl CacheUpdate.apply
            MarketData.initial := by
    decide
  exact torn completed bounded value

end MarketDataHandler
