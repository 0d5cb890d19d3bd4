import Mathlib.Data.Finset.Basic
import Mathlib.Data.Finset.Lattice.Lemmas
import Mathlib.Tactic.Tauto

/-!
# Handles that are acquired and released

A system hands out handles and takes them back.  The system promises to hand
out no handle that is open (`Fresh`); the program is to release open handles
only (`ReleasesOpen`).  Then every handle is released exactly as often as it
was acquired, up to whether it is open in the end.
-/

namespace HandleLedger

variable {α : Type*} [DecidableEq α]

inductive Event (α : Type*) where
  | acquire (handle : α)
  | release (handle : α)
  deriving DecidableEq, Repr

/-- The open handles behind an event. -/
def after (opened : Finset α) : Event α → Finset α
  | .acquire handle => insert handle opened
  | .release handle => opened.erase handle

def replay (opened : Finset α) (events : List (Event α)) : Finset α :=
  events.foldl after opened

/-- No handle is acquired that is open. -/
def Fresh : Finset α → List (Event α) → Prop
  | _, [] => True
  | opened, .acquire handle :: events =>
      handle ∉ opened ∧ Fresh (insert handle opened) events
  | opened, .release handle :: events => Fresh (opened.erase handle) events

instance decidableFresh :
    (opened : Finset α) → (events : List (Event α)) →
      Decidable (Fresh opened events)
  | _, [] => isTrue trivial
  | opened, .acquire handle :: events =>
      have := decidableFresh (insert handle opened) events
      inferInstanceAs (Decidable (_ ∧ _))
  | opened, .release handle :: events =>
      decidableFresh (opened.erase handle) events

/-- Only open handles are released. -/
def ReleasesOpen : Finset α → List (Event α) → Prop
  | _, [] => True
  | opened, .acquire handle :: events =>
      ReleasesOpen (insert handle opened) events
  | opened, .release handle :: events =>
      handle ∈ opened ∧ ReleasesOpen (opened.erase handle) events

theorem replay_append (opened : Finset α)
    (first second : List (Event α)) :
    replay opened (first ++ second) =
      replay (replay opened first) second :=
  List.foldl_append

theorem fresh_append (opened : Finset α)
    (first second : List (Event α)) :
    Fresh opened (first ++ second) ↔
      Fresh opened first ∧ Fresh (replay opened first) second := by
  induction first generalizing opened with
  | nil =>
      simp [Fresh, replay]
  | cons event first inductionHypothesis =>
      cases event with
      | acquire handle =>
          rw [List.cons_append, Fresh, Fresh, inductionHypothesis,
            and_assoc]
          rfl
      | release handle =>
          exact inductionHypothesis _

theorem fresh_of_releases {events : List (Event α)}
    (releases : ∀ handle, .acquire handle ∉ events) (opened : Finset α) :
    Fresh opened events := by
  induction events generalizing opened with
  | nil =>
      trivial
  | cons event events inductionHypothesis =>
      have later (handle : α) : Event.acquire handle ∉ events :=
        fun member => releases handle (List.mem_cons_of_mem _ member)
      cases event with
      | acquire handle =>
          exact absurd List.mem_cons_self (releases handle)
      | release handle =>
          exact inductionHypothesis later _

theorem releasesOpen_append (opened : Finset α)
    (first second : List (Event α)) :
    ReleasesOpen opened (first ++ second) ↔
      ReleasesOpen opened first ∧
        ReleasesOpen (replay opened first) second := by
  induction first generalizing opened with
  | nil =>
      simp [ReleasesOpen, replay]
  | cons event first inductionHypothesis =>
      cases event with
      | acquire handle =>
          exact inductionHypothesis _
      | release handle =>
          rw [List.cons_append, ReleasesOpen, ReleasesOpen,
            inductionHypothesis, and_assoc]
          rfl

/-- Distinct open handles are released one after the other. -/
theorem release_all
    {opened : Finset α} {handles : List α} (nodup : handles.Nodup)
    (areOpen : ∀ handle ∈ handles, handle ∈ opened) :
    ReleasesOpen opened (handles.map .release) ∧
      replay opened (handles.map .release) =
        opened.filter (· ∉ handles) := by
  induction handles generalizing opened with
  | nil =>
      refine ⟨trivial, ?_⟩
      ext handle
      simp [replay]
  | cons handle handles inductionHypothesis =>
      obtain ⟨different, rest⟩ := List.nodup_cons.mp nodup
      have stillOpen :
          ∀ other ∈ handles, other ∈ opened.erase handle := by
        intro other member
        refine Finset.mem_erase.mpr ⟨?_, ?_⟩
        · rintro rfl
          exact different member
        · exact areOpen other (List.mem_cons_of_mem _ member)
      obtain ⟨releases, left⟩ := inductionHypothesis rest stillOpen
      refine ⟨⟨areOpen handle List.mem_cons_self, releases⟩, ?_⟩
      change replay (opened.erase handle) (handles.map .release) = _
      rw [left]
      ext other
      simp only [Finset.mem_filter, Finset.mem_erase, List.mem_cons]
      tauto

/-- Every handle is released as often as it is acquired, but for those open at
the start or at the end. -/
theorem count_acquire
    {opened : Finset α} {events : List (Event α)}
    (fresh : Fresh opened events) (releases : ReleasesOpen opened events)
    (handle : α) :
    events.count (.acquire handle) +
        (if handle ∈ opened then 1 else 0) =
      events.count (.release handle) +
        (if handle ∈ replay opened events then 1 else 0) := by
  induction events generalizing opened with
  | nil =>
      rfl
  | cons event events inductionHypothesis =>
      cases event with
      | acquire other =>
          obtain ⟨unopened, later⟩ := fresh
          have rest := inductionHypothesis later releases
          change _ = _ + if handle ∈ replay (insert other opened) events
            then 1 else 0
          have unreleased :
              (Event.acquire other :: events).count (.release handle) =
                events.count (.release handle) :=
            List.count_cons_of_ne fun same => by cases same
          rw [unreleased]
          by_cases same : other = handle
          · subst other
            rw [if_pos (Finset.mem_insert_self _ _)] at rest
            rw [List.count_cons_self, if_neg unopened, ← rest]
          · have inside : handle ∈ insert other opened ↔ handle ∈ opened :=
              Finset.mem_insert.trans
                (or_iff_right fun found => same found.symm)
            rw [if_congr inside rfl rfl] at rest
            rw [List.count_cons_of_ne fun found =>
              same (Event.acquire.inj found), rest]
      | release other =>
          obtain ⟨isOpen, later⟩ := releases
          have rest := inductionHypothesis fresh later
          change _ = _ + if handle ∈ replay (opened.erase other) events
            then 1 else 0
          have unacquired :
              (Event.release other :: events).count (.acquire handle) =
                events.count (.acquire handle) :=
            List.count_cons_of_ne fun same => by cases same
          rw [unacquired]
          by_cases same : other = handle
          · subst other
            rw [if_neg (Finset.notMem_erase _ _)] at rest
            rw [Nat.add_zero] at rest
            rw [List.count_cons_self, if_pos isOpen, rest,
              Nat.add_right_comm]
          · have inside : handle ∈ opened.erase other ↔ handle ∈ opened :=
              Finset.mem_erase.trans
                (and_iff_right fun found => same found.symm)
            rw [if_congr inside rfl rfl] at rest
            rw [List.count_cons_of_ne fun found =>
              same (Event.release.inj found), rest]

/-- Handles that others hold open are left alone: the open handles are still
theirs and those of the program, and none is both. -/
theorem replay_union
    {others live : Finset α} {events : List (Event α)}
    (apart : Disjoint others live) (fresh : Fresh (others ∪ live) events)
    (releases : ReleasesOpen live events) :
    replay (others ∪ live) events = others ∪ replay live events ∧
      Disjoint others (replay live events) := by
  induction events generalizing live with
  | nil =>
      exact ⟨rfl, apart⟩
  | cons event events inductionHypothesis =>
      cases event with
      | acquire handle =>
          obtain ⟨unopened, later⟩ := fresh
          rw [← Finset.union_insert] at later
          have stillApart : Disjoint others (insert handle live) := by
            refine Finset.disjoint_insert_right.mpr ⟨?_, apart⟩
            exact fun member =>
              unopened (Finset.mem_union_left live member)
          have rest := inductionHypothesis stillApart later releases
          rw [Finset.union_insert] at rest
          exact rest
      | release handle =>
          obtain ⟨isOpen, later⟩ := releases
          have notTheirs : handle ∉ others := fun member =>
            Finset.disjoint_left.mp apart member isOpen
          have erased :
              (others ∪ live).erase handle = others ∪ live.erase handle := by
            rw [Finset.erase_union_distrib,
              Finset.erase_eq_of_notMem notTheirs]
          change Fresh ((others ∪ live).erase handle) events at fresh
          rw [erased] at fresh
          have stillApart : Disjoint others (live.erase handle) :=
            Finset.disjoint_of_subset_right (Finset.erase_subset _ _) apart
          have rest := inductionHypothesis stillApart fresh later
          rw [← erased] at rest
          exact rest

/-- With fewer open handles the same handles may be acquired. -/
theorem Fresh.anti
    {small large : Finset α} (included : small ⊆ large)
    {events : List (Event α)} (fresh : Fresh large events) :
    Fresh small events := by
  induction events generalizing small large with
  | nil =>
      trivial
  | cons event events inductionHypothesis =>
      cases event with
      | acquire handle =>
          exact ⟨fun member => fresh.1 (included member),
            inductionHypothesis (Finset.insert_subset_insert _ included)
              fresh.2⟩
      | release handle =>
          exact inductionHypothesis (Finset.erase_subset_erase _ included)
            fresh

/-- With more open handles the same releases are allowed. -/
theorem ReleasesOpen.mono
    {small large : Finset α} (included : small ⊆ large)
    {events : List (Event α)} (releases : ReleasesOpen small events) :
    ReleasesOpen large events := by
  induction events generalizing small large with
  | nil =>
      trivial
  | cons event events inductionHypothesis =>
      cases event with
      | acquire handle =>
          exact inductionHypothesis (Finset.insert_subset_insert _ included)
            releases
      | release handle =>
          exact ⟨included releases.1,
            inductionHypothesis (Finset.erase_subset_erase _ included)
              releases.2⟩

end HandleLedger
