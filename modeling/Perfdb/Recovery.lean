import Mathlib
import Perfdb.EventEffects
import Perfdb.SnapshotRestore

set_option autoImplicit false

namespace Perfdb

/-- What is done with a running database; a snapshot lists its tables in some order. -/
inductive Action where
  | event (indexed : IndexedEvent)
  | tick (tick : PriceTick)
  | snapshot (order : Iteration)

namespace Action

def run (fmts : Formats) : Action → EngineM Unit
  | .event indexed => PerfDb.processEvent fmts.wal indexed
  | .tick sample => do
      let _ ← PerfDb.ingestTick fmts.wal sample
      pure ()
  | .snapshot order => do
      let _ ← PerfDb.snapshot fmts.snapshot order
      pure ()

/-- What it appends to the log. -/
def entry : Action → Option WalEntry
  | .event indexed => some (.indexedEvent indexed)
  | .tick sample => some (.priceTick sample.timestampNs sample.marketId sample.price)
  | .snapshot _ => none

/-- Ticks are of known markets, and the log takes what is logged. -/
def Valid (fmt : Wal.Format) (action : Action) : Prop :=
  (∀ sample, action = .tick sample → sample.marketId.toNat < marketCount) ∧
    ∀ entry, action.entry = some entry → fmt.Fits entry

end Action

def runActions (fmts : Formats) : List Action → EngineM Unit
  | [] => pure ()
  | action :: actions => do
      action.run fmts
      runActions fmts actions

/-- A run as history has it: the live database, the last snapshot, and what was logged
before it and since. -/
structure Course where
  db : PerfDb
  latest : Option StateSnapshot
  head : List WalEntry
  tail : List WalEntry

namespace Course

def start (db : PerfDb) : Course := ⟨db, none, [], []⟩

def step (c : Course) : Action → Course
  | .event indexed =>
      { c with db := c.db.applyEvent indexed, tail := c.tail ++ [.indexedEvent indexed] }
  | .tick sample =>
      { c with
        db := c.db.setTickPrice sample
        tail := c.tail ++ [.priceTick sample.timestampNs sample.marketId sample.price] }
  | .snapshot order =>
      { c with latest := some (c.db.stateSnapshot order), head := c.head ++ c.tail, tail := [] }

def log (c : Course) : List WalEntry := c.head ++ c.tail

/-- A snapshot is of a block that is not older than the last one's. -/
def Ascends (c : Course) : Action → Prop
  | .snapshot _ => ∀ old, c.latest = some old →
      old.checkpoint.lastBlock ≤ c.db.checkpoint.lastBlock
  | .event _ | .tick _ => True

/-- The stores that opening the database again rebuilds. -/
def reopened (c : Course) : Stores := recovered c.latest c.log

end Course

/-- The history of a run from a database on. -/
def course (db : PerfDb) (actions : List Action) : Course :=
  actions.foldl Course.step (Course.start db)

theorem course_append_one (db : PerfDb) (front : List Action) (action : Action) :
    course db (front ++ [action]) = (course db front).step action := by
  rw [course, List.foldl_append]
  rfl

/-- A running database has the stores of its history, and its disk holds the log and the
last snapshot. -/
structure Follows (fmts : Formats) (c : Course) (r : Running) : Prop where
  stores : r.db.toStores = c.db.toStores
  logged : r.Logged fmts.wal c.log
  files : Snapshot.Latest fmts.snapshot r.snapshots.dir c.latest

section Follow

variable {fmts : Formats} {c : Course} {r t : Running} {action : Action}

/-- Every action returns and is followed by the history. -/
theorem Follows.step (follows : Follows fmts c r) (inverse : fmts.wal.RoundTrips)
    (valid : action.Valid fmts.wal) (ascends : c.Ascends action) :
    ∃ t, action.run fmts r = .ok () t ∧ Follows fmts (c.step action) t := by
  obtain ⟨stores, logged, files⟩ := follows
  cases action with
  | event indexed =>
      obtain ⟨s, appended, keep⟩ := logged.logs (inverse.sound (valid.2 _ rfl))
      obtain ⟨t, run, log, snapshots, _, applied⟩ := PerfDb.processEvent_of_log appended
      refine ⟨t, run, ?_, ?_, snapshots ▸ files⟩
      · rw [applied]
        exact PerfDb.applyEvent_toStores indexed stores
      · have grown := keep t log snapshots
        rwa [Course.log, List.append_assoc] at grown
  | tick sample =>
      obtain ⟨s, appended, keep⟩ := logged.logs (inverse.sound (valid.2 _ rfl))
      obtain ⟨t, run, log, snapshots, ticked⟩ :=
        PerfDb.ingestTick_of_log appended (valid.1 _ rfl)
      refine ⟨t, (bind_of_ok run).trans rfl, ?_, ?_, snapshots ▸ files⟩
      · rw [ticked.stores]
        exact PerfDb.setTickPrice_toStores sample stores
      · have grown := keep t log snapshots
        rwa [Course.log, List.append_assoc] at grown
  | snapshot order =>
      obtain ⟨path, world, written, calm⟩ :=
        PerfDb.snapshot_returns (r := r) fmts.snapshot order logged.snapshots
      have dir := PerfDb.snapshot_dir written
      refine ⟨_, (bind_of_ok written).trans rfl, stores, ?_, ?_⟩
      · refine ⟨?_, logged.log, calm⟩
        have holds := logged.holds
        rwa [Course.log, ← List.append_nil (c.head ++ c.tail)] at holds
      · rw [dir, stores]
        exact files.write (c.db.stateSnapshot order) ascends

theorem runActions_follows (inverse : fmts.wal.RoundTrips) (actions : List Action)
    (follows : Follows fmts c r) (valid : ∀ action ∈ actions, action.Valid fmts.wal)
    (ascends : ∀ front action, front ++ [action] <+: actions →
      (front.foldl Course.step c).Ascends action) :
    ∃ t, runActions fmts actions r = .ok () t ∧ Follows fmts (actions.foldl Course.step c) t := by
  induction actions generalizing c r with
  | nil => exact ⟨r, rfl, follows⟩
  | cons action actions ih =>
      obtain ⟨t, first, next⟩ := follows.step inverse (valid action List.mem_cons_self)
        (ascends [] action ⟨actions, rfl⟩)
      obtain ⟨u, rest, last⟩ := ih next
        (fun other member => valid other (List.mem_cons_of_mem action member))
        fun front other inside =>
          ascends (action :: front) other (List.cons_prefix_cons.mpr ⟨rfl, inside⟩)
      exact ⟨u, (bind_of_ok first).trans rest, last⟩

theorem runActions_of_append {front back : List Action} {u : Running}
    (first : runActions fmts front r = .ok () u) (rest : runActions fmts back u = .ok () t) :
    runActions fmts (front ++ back) r = .ok () t := by
  induction front generalizing r with
  | nil =>
      obtain ⟨_, rfl⟩ : () = () ∧ r = u := EStateM.Result.ok.inj first
      exact rest
  | cons action front ih =>
      obtain ⟨_, v, head, tail⟩ := bind_ok first
      exact (bind_of_ok head).trans (ih tail)

/-- Opening a closed database again rebuilds what its history says. -/
theorem Follows.reopen (follows : Follows fmts c r) (inverse : fmts.snapshot.RoundTrips)
    (order : Iteration) (config : PerfDbConfig) :
    ∃ db later, PerfDb.open_ fmts order config r.close = .ok db later ∧
      db.toStores = c.reopened := by
  obtain ⟨db, later, opened, stores, _⟩ := PerfDb.open_returns order config
    (follows.logged.close follows.files) fun snap _ => inverse snap
  exact ⟨db, later, opened, stores⟩

end Follow

namespace Action

def block : Action → Option UInt64
  | .event indexed => some indexed.blockNumber
  | .tick _ | .snapshot _ => none

end Action

/-- Blocks do not decrease from event to event. -/
def Ordered (actions : List Action) : Prop :=
  (actions.filterMap Action.block).Pairwise (· ≤ ·)

/-- What a history in block order keeps. -/
structure Course.Dated (front : List Action) (c : Course) : Prop where
  log : c.log = front.filterMap Action.entry
  block : c.db.checkpoint.lastBlock = 0 ∨
    c.db.checkpoint.lastBlock ∈ front.filterMap Action.block
  top : ∀ block ∈ front.filterMap Action.block, block ≤ c.db.checkpoint.lastBlock
  saved : ∀ snap, c.latest = some snap → snap.checkpoint.lastBlock ≤ c.db.checkpoint.lastBlock
  keyed : c.db.toStores.Keyed

section Dated

variable {front : List Action} {action : Action} {c : Course}

theorem dated_start {db : PerfDb} (empty : db.toStores = .new) :
    Course.Dated [] (Course.start db) := by
  refine ⟨rfl, Or.inl ?_, by simp, fun snap some => by contradiction, ?_⟩
  · change db.checkpoint.lastBlock = 0
    rw [empty]
    rfl
  · change db.toStores.Keyed
    rw [empty]
    exact Stores.keyed_new

theorem blocks_of_none (front : List Action) {action : Action} (none : action.block = none) :
    (front ++ [action]).filterMap Action.block = front.filterMap Action.block := by
  rw [List.filterMap_append, List.filterMap_cons, none]
  exact List.append_nil _

theorem Course.Dated.step (dated : Course.Dated front c) (ordered : Ordered (front ++ [action])) :
    Course.Dated (front ++ [action]) (c.step action) := by
  obtain ⟨log, block, top, saved, keyed⟩ := dated
  have grown : (c.step action).log = c.log ++ action.entry.toList := by
    cases action <;> simp [Course.step, Course.log, Action.entry]
  have whole : (c.step action).log = (front ++ [action]).filterMap Action.entry := by
    rw [grown, log, List.filterMap_append]
    cases entry : action.entry <;> simp [entry]
  rw [Ordered, List.filterMap_append, List.pairwise_append] at ordered
  obtain ⟨_, _, later⟩ := ordered
  cases action with
  | event indexed =>
      have last : (c.step (.event indexed)).db.checkpoint.lastBlock = indexed.blockNumber := by
        change (c.db.applyEvent indexed).checkpoint.lastBlock = _
        rw [(applyEvent_effects indexed c.db).checkpoint]
        rfl
      have above : ∀ block ∈ front.filterMap Action.block, block ≤ indexed.blockNumber :=
        fun block member => later block member indexed.blockNumber (by simp [Action.block])
      have ahead : c.db.checkpoint.lastBlock ≤ indexed.blockNumber := by
        rcases block with zero | member
        · rw [zero]
          exact UInt64.le_iff_toNat_le.mpr (Nat.zero_le _)
        · exact above _ member
      refine ⟨whole, Or.inr ?_, fun block member => ?_, fun snap some => ?_, keyed.event indexed⟩
      · rw [last]
        simp [Action.block]
      · rw [last]
        rw [List.filterMap_append, List.mem_append] at member
        rcases member with old | new
        · exact above block old
        · simp only [List.filterMap_cons, Action.block, List.filterMap_nil,
            List.mem_singleton] at new
          exact new ▸ UInt64.le_refl _
      · rw [last]
        exact UInt64.le_trans (saved snap some) ahead
  | tick sample =>
      refine ⟨whole, ?_, ?_, saved, keyed.tick sample⟩ <;> rw [blocks_of_none front rfl]
      · exact block
      · exact top
  | snapshot order =>
      refine ⟨whole, ?_, ?_, ?_, keyed⟩
      · rw [blocks_of_none front rfl]
        exact block
      · rw [blocks_of_none front rfl]
        exact top
      · rintro snap some
        obtain rfl := Option.some.inj some
        exact UInt64.le_refl _

theorem Course.Dated.ascends (dated : Course.Dated front c) (action : Action) :
    c.Ascends action := by
  cases action with
  | snapshot order => exact dated.saved
  | event indexed => trivial
  | tick sample => trivial

theorem Ordered.of_prefix {actions : List Action} (ordered : Ordered actions)
    (inside : front <+: actions) : Ordered front :=
  List.Pairwise.sublist (inside.sublist.filterMap _) ordered

theorem course_dated {db : PerfDb} (empty : db.toStores = .new) {actions : List Action}
    (ordered : Ordered actions) : Course.Dated actions (course db actions) :=
  foldl_holds Course.Dated (dated_start empty) fun _ _ _ inside dated =>
    dated.step (ordered.of_prefix inside)

end Dated

/-- A new database is followed by the empty history. -/
theorem follows_blank (fmts : Formats) (order : Iteration) (config : PerfDbConfig) {disk : Disk}
    (blank : disk.Blank) :
    ∃ db later, PerfDb.open_ fmts order config disk = .ok db later ∧ db.toStores = .new ∧
      Follows fmts (Course.start db) (later.running db) := by
  obtain ⟨db, later, run, stores, _, _, _, snapshots, logged⟩ :=
    PerfDb.open_returns order config (blank.stands fmts) fun snap some => by contradiction
  refine ⟨db, later, run, stores, rfl, logged, ?_⟩
  change Snapshot.Latest fmts.snapshot later.snapshots.dir none
  rw [snapshots]
  exact Snapshot.latest_of_fresh _ blank.snapshots

/-- Whatever part of an ordered run on a new database is taken, it returns, and the history
follows it. -/
theorem ordered_follows {fmts : Formats} (inverse : fmts.wal.RoundTrips) {actions : List Action}
    (valid : ∀ action ∈ actions, action.Valid fmts.wal) (ordered : Ordered actions)
    {db : PerfDb} (empty : db.toStores = .new) {r : Running}
    (follows : Follows fmts (Course.start db) r) {front : List Action} (inside : front <+: actions) :
    ∃ t, runActions fmts front r = .ok () t ∧ Follows fmts (course db front) t :=
  runActions_follows inverse front follows
    (fun action member => valid action (inside.subset member)) fun _ action within =>
      (course_dated empty (ordered.of_prefix (((List.prefix_append _ _).trans within).trans
        inside))).ascends action

end Perfdb
