import Mathlib
import Perfdb.Restarts

set_option autoImplicit false

namespace Perfdb

namespace RestartStep

/-- The open candles may be stored ones afterwards. -/
def Restarts : RestartStep → Prop
  | .tick _ => False
  | .shutdown _ | .reopen _ => True

/-- The step closes no candle of a series whose open candle is `last`. -/
def Within (marketId : MarketId) (tf : Timeframe) (last : CandleRecord) : RestartStep → Prop
  | .tick sample =>
      sample.marketId = marketId → tf.bucketStartNs sample.timestampNs = last.timestampNs
  | .shutdown _ => False
  | .reopen _ => True

end RestartStep

/-- Whatever candle is the last one stored in a series after a shutdown or a restart, from then
on there is no shutdown and no tick of its market outside its bucket. -/
def StaysWithin (fmts : Formats) (steps : List RestartStep) (r : Running) : Prop :=
  ∀ front step back middle, steps = front ++ step :: back → step.Restarts →
    runSteps fmts (front ++ [step]) r = .ok () middle →
      ∀ marketId tf last, (middle.db.candles marketId tf).getLast? = some last →
        ∀ later ∈ back, later.Within marketId tf last

/-- The stored candles of a series are strictly ordered by their timestamps. -/
def PerfDb.Ordered (db : PerfDb) : Prop :=
  ∀ marketId tf, (db.candles marketId tf).Pairwise fun a b => a.timestampNs < b.timestampNs

section Moves

variable {fmts : Formats} {r t : Running} {steps : List RestartStep}

theorem PerfDb.ordered_iff (db : PerfDb) :
    db.Ordered ↔ ∀ marketId tf, (db.series marketId tf).stored.Pairwise (· < ·) := by
  simp only [Ordered, series, List.pairwise_map, UInt64.lt_iff_toNat_lt]

theorem RestartStep.restarts_iff {step : RestartStep} {move : Series.Move Nat}
    {marketId : MarketId} {tf : Timeframe} (moved : step.move marketId tf = some move) :
    step.Restarts ↔ move.Restarts := by
  cases step with
  | tick sample =>
      simp only [RestartStep.move] at moved
      split at moved
      · rw [← Option.some.inj moved]
        exact Iff.rfl
      · contradiction
  | shutdown order | reopen order =>
      rw [← Option.some.inj moved]
      exact Iff.rfl

theorem RestartStep.within_iff {step : RestartStep} {marketId : MarketId} {tf : Timeframe}
    {last : CandleRecord} : step.Within marketId tf last ↔
      ∀ move ∈ step.move marketId tf, move = .touch last.timestampNs.toNat ∨ move = .reseed := by
  cases step with
  | tick sample =>
      simp only [RestartStep.Within, RestartStep.move]
      split
      · rename_i market
        simp [market, UInt64.toNat_inj]
      · rename_i market
        simp [market]
  | shutdown order => simp [RestartStep.Within, RestartStep.move]
  | reopen order => simp [RestartStep.Within, RestartStep.move]

theorem runSteps_front {front back : List RestartStep}
    (run : runSteps fmts (front ++ back) r = .ok () t) :
    ∃ middle, runSteps fmts front r = .ok () middle := by
  obtain ⟨middle, early, _⟩ := runSteps_append.mp run
  exact ⟨middle, early⟩

theorem series_last {marketId : MarketId} {tf : Timeframe} (db : PerfDb) {key : Nat} :
    (db.series marketId tf).stored.getLast? = some key ↔
      ∃ last, (db.candles marketId tf).getLast? = some last ∧ last.timestampNs.toNat = key := by
  rw [PerfDb.series, List.getLast?_map, Option.map_eq_some_iff]

/-- The steps stay within the stored candles when the moves of every series do. -/
theorem staysWithin_iff (run : runSteps fmts steps r = .ok () t) :
    StaysWithin fmts steps r ↔ ∀ marketId tf,
      (r.db.series marketId tf).Guarded (steps.filterMap (RestartStep.move marketId tf)) := by
  constructor
  · intro within marketId tf front move back key split restarts stored
    obtain ⟨early, late, rfl, rfl, tail⟩ := List.filterMap_eq_append_iff.mp split
    obtain ⟨silent, step, later, rfl, quiet, moved, rfl⟩ := List.filterMap_eq_cons_iff.mp tail
    have whole : early ++ (silent ++ step :: later) = (early ++ silent) ++ step :: later := by simp
    have parts : (early ++ silent) ++ step :: later = (early ++ silent ++ [step]) ++ later := by simp
    obtain ⟨middle, reached⟩ := runSteps_front (parts ▸ whole ▸ run)
    have moves : (early ++ silent ++ [step]).filterMap (RestartStep.move marketId tf) =
        early.filterMap (RestartStep.move marketId tf) ++ [move] := by
      have none : silent.filterMap (RestartStep.move marketId tf) = [] :=
        List.filterMap_eq_nil_iff.mpr quiet
      simp [none, moved]
    rw [← moves, ← runSteps_series reached, series_last] at stored
    obtain ⟨last, found, rfl⟩ := stored
    intro other member
    obtain ⟨step', inside, moved'⟩ := List.mem_filterMap.mp member
    exact RestartStep.within_iff.mp (within _ step later middle whole
      ((RestartStep.restarts_iff moved).mpr restarts) reached marketId tf last found step' inside)
      other moved'
  · intro guarded front step back middle split restarts reached marketId tf last found later member
    subst split
    have moves : (front ++ step :: back).filterMap (RestartStep.move marketId tf) =
        front.filterMap (RestartStep.move marketId tf) ++
          ((step.move marketId tf).toList ++ back.filterMap (RestartStep.move marketId tf)) := by
      rw [List.filterMap_append, List.filterMap_cons]
      cases step.move marketId tf <;> rfl
    obtain ⟨move, moved⟩ : ∃ move, step.move marketId tf = some move := by
      cases step with
      | tick sample => exact restarts.elim
      | shutdown order => exact ⟨_, rfl⟩
      | reopen order => exact ⟨_, rfl⟩
    have stored := (series_last middle.db).mpr ⟨last, found, rfl⟩
    rw [runSteps_series reached, List.filterMap_append, List.filterMap_cons_some moved] at stored
    have still := guarded marketId tf _ move _ last.timestampNs.toNat
      (by rw [moves, moved]; rfl) ((RestartStep.restarts_iff moved).mp restarts) stored
    exact RestartStep.within_iff.mpr fun other moved' =>
      still other (List.mem_filterMap.mpr ⟨later, member, moved'⟩)

/-- The keys that a series is touched with do not go down. -/
theorem touches_ordered (ordered : Chronological (samplesOf steps)) (marketId : MarketId)
    (tf : Timeframe) : ((steps.filterMap (RestartStep.move marketId tf)).filterMap
      Series.Move.key).Pairwise (· ≤ ·) := by
  have keys : (steps.filterMap (RestartStep.move marketId tf)).filterMap Series.Move.key =
      (ticksOf marketId (samplesOf steps)).map fun sample =>
        (tf.bucketStartNs sample.timestampNs).toNat := by
    induction steps with
    | nil => rfl
    | cons step steps ih =>
        cases step with
        | tick sample =>
            obtain ⟨_, rest⟩ := List.pairwise_cons.mp ordered
            by_cases market : sample.marketId = marketId
            · simpa [RestartStep.move, market, samplesOf, RestartStep.sample, ticksOf,
                Series.Move.key] using ih rest
            · simpa [RestartStep.move, market, samplesOf, RestartStep.sample, ticksOf] using ih rest
        | shutdown order | reopen order => exact ih ordered
  rw [keys, List.pairwise_map, ticksOf, List.pairwise_filter]
  refine ordered.imp fun {a b} later same other => ?_
  have market : a.marketId = b.marketId :=
    (of_decide_eq_true same).trans (of_decide_eq_true other).symm
  rw [tf.bucketStartNs_toNat, tf.bucketStartNs_toNat]
  exact Nat.mul_le_mul_right _ (Nat.div_le_div_right (UInt64.le_iff_toNat_le.mp (later market)))

end Moves

theorem series_new {fmts : Formats} {order : Iteration} {config : PerfDbConfig}
    {disk opened : Disk} {db : PerfDb} (blank : disk.candles = .new)
    (start : PerfDb.open_ fmts order config disk = .ok db opened) (marketId : MarketId)
    (tf : Timeframe) : (opened.running db).db.series marketId tf = ⟨[], none⟩ := by
  obtain ⟨_, candles, builder⟩ := PerfDb.open_files start
  change db.series marketId tf = _
  simp only [PerfDb.series, PerfDb.candles, candles, builder, blank, candles_new,
    seedBuilder_new, buffer_new]
  rfl

/-- In a new database, the stored candles of every series are strictly ordered after a run
exactly when the run stays within the candles that restarts leave stored. -/
theorem candles_unique_iff (fmts : Formats) (order : Iteration) (config : PerfDbConfig)
    (disk opened : Disk) (db : PerfDb) (blank : disk.candles = .new)
    (start : PerfDb.open_ fmts order config disk = .ok db opened) (steps : List RestartStep)
    (ordered : Chronological (samplesOf steps)) (r : Running)
    (run : runSteps fmts steps (opened.running db) = .ok () r) :
    r.db.Ordered ↔ StaysWithin fmts steps (opened.running db) := by
  rw [staysWithin_iff run, PerfDb.ordered_iff]
  refine forall_congr' fun marketId => forall_congr' fun tf => ?_
  rw [runSteps_series run, series_new blank start]
  exact Series.growing_new.run (touches_ordered ordered marketId tf) nofun

section Returns

variable {fmts : Formats} {r : Running}

/-- A database with a log and without a snapshot, where no call will fail. -/
structure Running.Unsnapped (fmts : Formats) (r : Running) : Prop where
  logged : ∃ entries, r.Logged fmts.wal entries
  files : Snapshot.Latest fmts.snapshot r.snapshots.dir none

def RestartStep.Taken (fmt : Wal.Format) : RestartStep → Prop
  | .tick sample => sample.marketId.toNat < marketCount ∧
      fmt.Fits (.priceTick sample.timestampNs sample.marketId sample.price)
  | .shutdown _ => False
  | .reopen _ => True

theorem RestartStep.returns (inverse : fmts.wal.RoundTrips) (unsnapped : r.Unsnapped fmts)
    {step : RestartStep} (taken : step.Taken fmts.wal) :
    ∃ t, step.run fmts r = .ok () t ∧ t.Unsnapped fmts := by
  obtain ⟨⟨entries, logged⟩, files⟩ := unsnapped
  cases step with
  | tick sample =>
      obtain ⟨s, appended, keep⟩ := logged.logs (inverse.sound taken.2)
      obtain ⟨t, run, log, snapshots, _⟩ := PerfDb.ingestTick_of_log appended taken.1
      exact ⟨t, (bind_of_ok run).trans rfl, ⟨_, keep t log snapshots⟩, snapshots ▸ files⟩
  | shutdown order => exact taken.elim
  | reopen order =>
      obtain ⟨db, disk, opened, _, _, _, _, snapshots, again⟩ := PerfDb.open_returns order
        r.db.config (logged.close files) fun snap some => by contradiction
      have kept : (disk.running db).snapshots = r.snapshots := snapshots
      refine ⟨disk.running db, ?_, ⟨_, again⟩, kept ▸ files⟩
      simp only [RestartStep.run, PerfDb.reopen, opened]

theorem runSteps_returns (inverse : fmts.wal.RoundTrips) (unsnapped : r.Unsnapped fmts)
    {steps : List RestartStep} (taken : ∀ step ∈ steps, step.Taken fmts.wal) :
    ∃ t, runSteps fmts steps r = .ok () t := by
  induction steps generalizing r with
  | nil => exact ⟨r, rfl⟩
  | cons step steps ih =>
      obtain ⟨middle, first, unsnapped⟩ :=
        RestartStep.returns inverse unsnapped (taken step List.mem_cons_self)
      obtain ⟨t, rest⟩ := ih unsnapped fun other member =>
        taken other (List.mem_cons_of_mem _ member)
      exact ⟨t, (bind_of_ok first).trans rest⟩

theorem steps_return (steps : List RestartStep)
    (taken : ∀ step ∈ steps, step.Taken Bincode.format) :
    ∃ db opened r, PerfDb.open_ Bincode.formats .stored ⟨"data", "wal", 1024, .none⟩ .fresh =
        .ok db opened ∧
      runSteps Bincode.formats steps (opened.running db) = .ok () r := by
  obtain ⟨db, opened, start, _, _, _, _, snapshots, logged⟩ :=
    PerfDb.open_returns .stored ⟨"data", "wal", 1024, .none⟩
      (Disk.fresh_blank.stands Bincode.formats) fun snap some => by contradiction
  have kept : (opened.running db).snapshots = Disk.fresh.snapshots := snapshots
  obtain ⟨r, run⟩ := @runSteps_returns Bincode.formats _ Bincode.format_roundTrips
    ⟨⟨_, logged⟩, kept ▸ Snapshot.latest_of_fresh _ Disk.fresh_blank.snapshots⟩ _ taken
  exact ⟨db, opened, r, start, run⟩

end Returns

def secondTick (second : UInt64) : PriceTick :=
  ⟨second * 1000000000, 0, Vector.replicate 6 0, ⟨0x4059000000000000⟩⟩

theorem secondTick_taken (second : UInt64) :
    RestartStep.Taken Bincode.format (.tick (secondTick second)) := by
  have size : (Bincode.format.serialize (.priceTick (secondTick second).timestampNs
      (secondTick second).marketId (secondTick second).price)).length = 22 := rfl
  refine ⟨show 0 < marketCount by decide, ?_⟩
  rw [Wal.Format.Fits, size]
  decide

/-- A tick, and a restart behind it. -/
theorem candles_unique_iff_tick :
    ∃ db opened r, PerfDb.open_ Bincode.formats .stored ⟨"data", "wal", 1024, .none⟩ .fresh =
        .ok db opened ∧
      runSteps Bincode.formats [.tick (secondTick 1), .reopen .stored] (opened.running db) =
        .ok () r ∧
      (r.db.Ordered ↔ StaysWithin Bincode.formats [.tick (secondTick 1), .reopen .stored]
        (opened.running db)) := by
  obtain ⟨db, opened, r, start, run⟩ := steps_return [.tick (secondTick 1), .reopen .stored] <| by
    simp only [List.forall_mem_cons]
    exact ⟨secondTick_taken 1, trivial, nofun⟩
  exact ⟨db, opened, r, start, run, candles_unique_iff Bincode.formats .stored _ .fresh opened db
    rfl start _ (by unfold Chronological samplesOf; decide) r run⟩

/-- The second of a candle is stored again when a restart goes on from it and the next tick is
in another second. -/
theorem bucket_stored_twice :
    ∃ db opened r, PerfDb.open_ Bincode.formats .stored ⟨"data", "wal", 1024, .none⟩ .fresh =
        .ok db opened ∧
      Chronological [secondTick 1, secondTick 2, secondTick 3] ∧
      runSteps Bincode.formats [.tick (secondTick 1), .tick (secondTick 2), .reopen .stored,
        .tick (secondTick 3)] (opened.running db) = .ok () r ∧
      (r.db.candles 0 .sec1).map (fun candle => candle.timestampNs.toNat) =
        [1000000000, 1000000000] ∧ ¬ r.db.Ordered := by
  obtain ⟨db, opened, r, start, run⟩ := steps_return [.tick (secondTick 1),
    .tick (secondTick 2), .reopen .stored, .tick (secondTick 3)] <| by
      simp only [List.forall_mem_cons]
      exact ⟨secondTick_taken 1, secondTick_taken 2, trivial, secondTick_taken 3, nofun⟩
  have stored := congrArg Series.stored (@runSteps_series _ _ _ 0 .sec1 _ run)
  rw [series_new rfl start] at stored
  have twice : (r.db.candles 0 .sec1).map (fun candle => candle.timestampNs.toNat) =
      [1000000000, 1000000000] := stored.trans (by decide)
  have chronological : Chronological [secondTick 1, secondTick 2, secondTick 3] := by
    unfold Chronological
    decide
  refine ⟨db, opened, r, start, chronological, run, twice, fun ordered => ?_⟩
  have strictly := (PerfDb.ordered_iff r.db).mp ordered 0 .sec1
  rw [show (r.db.series 0 .sec1).stored = _ from twice] at strictly
  exact absurd strictly (by decide)

end Perfdb
