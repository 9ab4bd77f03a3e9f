import Mathlib
import Perfdb.CandleHistory
import Perfdb.Rollover

set_option autoImplicit false

/-! Ticks with shutdowns and restarts in between. The stored candles of a series and its buffer
move as a series of keys does: a tick touches its bucket, a shutdown flushes the open one, and
opening the database again goes on from the last one stored. -/

namespace Perfdb

/-- A tick, a call of `shutdown`, or the database dropped and opened again. -/
inductive RestartStep where
  | tick (sample : PriceTick)
  | shutdown (order : Iteration)
  | reopen (order : Iteration)

namespace RestartStep

def run (fmts : Formats) : RestartStep → EngineM Unit
  | .tick sample => do
      let _ ← PerfDb.ingestTick fmts.wal sample
      pure ()
  | .shutdown order => PerfDb.shutdown fmts order
  | .reopen order => PerfDb.reopen fmts order

/-- What the step does to a series. -/
def move (marketId : MarketId) (tf : Timeframe) : RestartStep → Option (Series.Move Nat)
  | .tick sample =>
      if sample.marketId = marketId then
        some (.touch (tf.bucketStartNs sample.timestampNs).toNat)
      else none
  | .shutdown _ => some .flush
  | .reopen _ => some .reseed

def sample : RestartStep → Option PriceTick
  | .tick sample => some sample
  | .shutdown _ | .reopen _ => none

end RestartStep

def runSteps (fmts : Formats) : List RestartStep → EngineM Unit
  | [] => pure ()
  | step :: steps => do
      step.run fmts
      runSteps fmts steps

/-- The ticks of a run. -/
def samplesOf (steps : List RestartStep) : List PriceTick := steps.filterMap RestartStep.sample

/-- The stored timestamps of a series, and that of its buffer. -/
def PerfDb.series (db : PerfDb) (marketId : MarketId) (tf : Timeframe) : Series Nat where
  stored := (db.candles marketId tf).map fun candle => candle.timestampNs.toNat
  current := (db.candleBuilder.buffer marketId tf).map fun buf => buf.bucketStartNs.toNat

section Flush

variable (builder : CandleBuilder) (marketId : MarketId) (tf : Timeframe)

theorem CandleBuilder.current_eq : builder.current marketId tf =
    (builder.buffer marketId tf).map fun buf => buf.toRecord marketId tf := rfl

theorem flatIndex_ge {marketId : MarketId} (outside : marketCount ≤ marketId.toNat)
    (tf : Timeframe) : marketCount * tfCount ≤ flatIndex marketId tf :=
  Nat.le_trans (Nat.mul_le_mul_right tfCount outside) (Nat.le_add_right _ _)

theorem CandleBuilder.buffer_outside (outside : marketCount ≤ marketId.toNat) :
    builder.buffer marketId tf = none := by
  rw [buffer, Vector.getElem?_eq_none (flatIndex_ge outside tf)]
  rfl

theorem CandleBuilder.flushAll_eq :
    builder.flushAll = allSeries.filterMap fun pair => builder.current pair.1 pair.2 := by
  simp only [flushAll, allSeries, List.filterMap_flatMap, List.filterMap_map]
  rfl

theorem CandleBuilder.flushAll_closed :
    (builder.flushAll.map CandleOutput.closed).filterMap
        (CandleOutput.closedFor marketId tf) = (builder.current marketId tf).toList := by
  have pick (pair : MarketId × Timeframe) (other : pair ≠ (marketId, tf)) :
      (builder.current pair.1 pair.2).bind (fun candle =>
        (CandleOutput.closed candle).closedFor marketId tf) = none := by
    rw [current_eq]
    cases builder.buffer pair.1 pair.2 with
    | none => rfl
    | some buf =>
        refine if_neg fun same => other ?_
        exact Prod.ext same.1 (Timeframe.toU8_injective same.2)
  have own : (builder.current marketId tf).bind (fun candle =>
      (CandleOutput.closed candle).closedFor marketId tf) = builder.current marketId tf := by
    rw [current_eq]
    cases builder.buffer marketId tf with
    | none => rfl
    | some buf => exact if_pos ⟨rfl, rfl⟩
  rw [flushAll_eq, List.filterMap_map, List.filterMap_filterMap]
  by_cases known : marketId.toNat < marketCount
  · refine (filterMap_of_unique allSeries_nodup (mem_allSeries.mpr known)
      fun pair _ other => pick pair other).trans ?_
    exact congrArg Option.toList own
  · rw [current_eq, builder.buffer_outside marketId tf (Nat.le_of_not_lt known)]
    refine List.filterMap_eq_nil_iff.mpr fun pair member => pick pair ?_
    rintro rfl
    exact known (mem_allSeries.mp member)

theorem CandleBuilder.flushAll_storable :
    ∀ output ∈ builder.flushAll.map CandleOutput.closed, output.Storable := by
  intro output member
  obtain ⟨candle, flushed, rfl⟩ := List.mem_map.mp member
  rw [flushAll_eq] at flushed
  obtain ⟨pair, inside, current⟩ := List.mem_filterMap.mp flushed
  obtain ⟨buf, _, rfl⟩ := Option.map_eq_some_iff.mp current
  exact ⟨mem_allSeries.mp inside, pair.2, rfl⟩

theorem PerfDb.appendCandles_eq (candles : List CandleRecord) :
    appendCandles candles = appendClosed (candles.map CandleOutput.closed) := by
  induction candles with
  | nil => rfl
  | cons candle candles ih => rw [appendCandles, ih, List.map_cons, appendClosed]

end Flush

section Seed

variable {store : CandleStore}

def seedPair (store : CandleStore) (builder : CandleBuilder) (pair : MarketId × Timeframe) :
    CandleBuilder :=
  match store.latest pair.1 pair.2 with
  | some last => builder.seed pair.1 pair.2 last
  | none => builder

theorem seedBuilder_eq : seedBuilder store = allSeries.foldl (seedPair store) .new := by
  simp only [seedBuilder, allSeries, List.foldl_flatMap, List.foldl_map]
  rfl

def CandleBuffer.ofCandle (candle : CandleRecord) : CandleBuffer :=
  ⟨candle.timestampNs, candle.open_, candle.high, candle.low, candle.close, candle.volume, 0⟩

theorem seedPair_buffer (builder : CandleBuilder) {pair : MarketId × Timeframe}
    (known : pair.1.toNat < marketCount) (marketId : MarketId) (tf : Timeframe) :
    (seedPair store builder pair).buffer marketId tf =
      if pair = (marketId, tf) then
        ((store.latest marketId tf).map CandleBuffer.ofCandle).or (builder.buffer marketId tf)
      else builder.buffer marketId tf := by
  obtain ⟨other, frame⟩ := pair
  cases stored : store.latest other frame with
  | none =>
      have idle : seedPair store builder (other, frame) = builder := by
        simp only [seedPair, stored]
      rw [idle]
      split
      · rename_i same
        obtain ⟨rfl, rfl⟩ := Prod.mk.inj same
        rw [stored]
        rfl
      · rfl
  | some last =>
      have seeded : seedPair store builder (other, frame) = builder.seed other frame last := by
        simp only [seedPair, stored]
      rw [seeded]
      refine (builder.buffer_set marketId tf frame (CandleBuffer.ofCandle last) known).trans ?_
      simp only [Prod.mk.injEq]
      split
      · rename_i same
        obtain ⟨rfl, rfl⟩ := same
        rw [stored]
        rfl
      · rfl

theorem foldl_seedPair_buffer (pairs : List (MarketId × Timeframe))
    (known : ∀ pair ∈ pairs, pair.1.toNat < marketCount) (builder : CandleBuilder)
    (marketId : MarketId) (tf : Timeframe) :
    (pairs.foldl (seedPair store) builder).buffer marketId tf =
      if (marketId, tf) ∈ pairs then
        ((store.latest marketId tf).map CandleBuffer.ofCandle).or (builder.buffer marketId tf)
      else builder.buffer marketId tf := by
  induction pairs generalizing builder with
  | nil => rfl
  | cons pair pairs ih =>
      rw [List.foldl_cons, ih fun other member => known other (List.mem_cons_of_mem _ member),
        seedPair_buffer builder (known pair List.mem_cons_self)]
      by_cases here : pair = (marketId, tf)
      · subst here
        simp only [if_true, List.mem_cons, true_or]
        split
        · cases store.latest marketId tf <;> rfl
        · rfl
      · simp only [if_neg here, List.mem_cons, Ne.symm here, false_or]

/-- Every buffer goes on from the last candle stored in its series. -/
theorem seedBuilder_buffer (store : CandleStore) (marketId : MarketId) (tf : Timeframe) :
    (seedBuilder store).buffer marketId tf =
      (store.latest marketId tf).map CandleBuffer.ofCandle := by
  by_cases known : marketId.toNat < marketCount
  · rw [seedBuilder_eq, foldl_seedPair_buffer _ fun pair member => mem_allSeries.mp member,
      if_pos (mem_allSeries.mpr known), buffer_new, Option.or_none]
  · have outside := Nat.le_of_not_lt known
    have none : store.latest marketId tf = .none := by
      rw [CandleStore.latest, CandleStore.candles, Vector.getElem?_eq_none (flatIndex_ge outside tf)]
      rfl
    rw [CandleBuilder.buffer_outside _ marketId tf outside, none]
    rfl

end Seed

section Step

variable {fmts : Formats} {r t : Running} {marketId : MarketId} {tf : Timeframe}

theorem PerfDb.Ticked.series {sample : PriceTick} {before after : PerfDb}
    (ticked : PerfDb.Ticked sample before after) (known : sample.marketId.toNat < marketCount) :
    after.series marketId tf =
      if sample.marketId = marketId then
        (before.series marketId tf).step (.touch (tf.bucketStartNs sample.timestampNs).toNat)
      else before.series marketId tf := by
  obtain ⟨buffer, closed, _⟩ := before.candleBuilder.onTick_spec sample marketId tf known
  rw [PerfDb.series, ticked.candles, ticked.candleBuilder, closed, buffer]
  by_cases market : sample.marketId = marketId
  · subst market
    simp only [if_true, PerfDb.series]
    cases held : before.candleBuilder.buffer sample.marketId tf with
    | none =>
        rw [CandleBuilder.closedBy_none, List.append_nil]
        rfl
    | some buf =>
        by_cases same : buf.bucketStartNs = tf.bucketStartNs sample.timestampNs
        · rw [CandleBuilder.closedBy_same sample tf same, List.append_nil]
          simp only [CandleBuilder.tickBuffer, same, if_true, Option.map_some, Series.step,
            CandleBuffer.update]
        · have apart : buf.bucketStartNs.toNat ≠ (tf.bucketStartNs sample.timestampNs).toNat :=
            fun equal => same (UInt64.toNat_inj.mp equal)
          rw [CandleBuilder.closedBy_next sample tf same, List.map_append]
          simp only [CandleBuilder.tickBuffer, same, if_false, Option.map_some, Series.step, apart,
            CandleBuffer.new, List.map_singleton, CandleBuffer.toRecord]
  · simp only [if_neg market, List.append_nil, PerfDb.series]

/-- A shutdown stores the open candles, and keeps the buffers. -/
theorem PerfDb.shutdown_series {order : Iteration} (run : shutdown fmts order r = .ok () t) :
    t.db.series marketId tf = (r.db.series marketId tf).step .flush := by
  obtain ⟨_, _, got, run⟩ := bind_ok run
  obtain ⟨rfl, rfl⟩ := EStateM.Result.ok.inj got
  obtain ⟨_, u, flushed, rest⟩ := bind_ok run
  obtain ⟨_, v, synced, rest⟩ := bind_ok rest
  obtain ⟨_, w, written, returned⟩ := bind_ok rest
  obtain ⟨s, _, rfl⟩ := onWal_ok synced
  obtain rfl := (EStateM.Result.ok.inj returned).2
  have same : w.db = (u.setWalState s).db := by
    unfold snapshot onSnapshots at written
    split at written
    · rw [← (EStateM.Result.ok.inj written).2]
    · contradiction
  rw [appendCandles_eq] at flushed
  obtain ⟨store, returns, grown⟩ := appendClosed_returns _
    (CandleBuilder.flushAll_storable r.db.candleBuilder) r
  obtain rfl := (EStateM.Result.ok.inj (returns.symm.trans flushed)).2
  rw [PerfDb.series, same]
  change Series.mk ((store.candles marketId tf).map _)
    ((r.db.candleBuilder.buffer marketId tf).map _) = _
  rw [grown, CandleBuilder.flushAll_closed, List.map_append]
  simp only [PerfDb.series, Series.step, CandleBuilder.current_eq]
  cases r.db.candleBuilder.buffer marketId tf <;> rfl

/-- After a restart every series goes on from its last stored candle. -/
theorem PerfDb.reopen_series {order : Iteration} (run : reopen fmts order r = .ok () t) :
    t.db.series marketId tf = (r.db.series marketId tf).step .reseed := by
  unfold reopen at run
  split at run
  · rename_i db disk opened
    obtain rfl := (EStateM.Result.ok.inj run).2
    obtain ⟨_, candles, builder⟩ := PerfDb.open_files opened
    have store : (disk.running db).db.candleStore = r.db.candleStore := candles
    simp only [PerfDb.series, PerfDb.candles, store]
    rw [show (disk.running db).db.candleBuilder = seedBuilder r.db.candleStore from builder,
      seedBuilder_buffer, CandleStore.latest, Series.step, List.getLast?_map, Option.map_map]
    rfl
  · contradiction

theorem RestartStep.run_series {step : RestartStep} (run : step.run fmts r = .ok () t) :
    t.db.series marketId tf =
      (r.db.series marketId tf).run (step.move marketId tf).toList := by
  cases step with
  | tick sample =>
      obtain ⟨_, u, ingested, returned⟩ := bind_ok run
      obtain rfl := (EStateM.Result.ok.inj returned).2
      obtain ⟨_, _, _, _, known, ticked⟩ := PerfDb.ingestTick_ok ingested
      rw [ticked.series known, RestartStep.move]
      split <;> rfl
  | shutdown order => exact PerfDb.shutdown_series run
  | reopen order => exact PerfDb.reopen_series run

theorem runSteps_series {steps : List RestartStep} (run : runSteps fmts steps r = .ok () t) :
    t.db.series marketId tf =
      (r.db.series marketId tf).run (steps.filterMap (RestartStep.move marketId tf)) := by
  induction steps generalizing r with
  | nil =>
      obtain rfl := (EStateM.Result.ok.inj run).2
      rfl
  | cons step steps ih =>
      obtain ⟨_, middle, first, rest⟩ := bind_ok run
      rw [ih rest, RestartStep.run_series first, ← Series.run_append, List.filterMap_cons]
      cases step.move marketId tf <;> rfl

theorem runSteps_append {front back : List RestartStep} :
    runSteps fmts (front ++ back) r = .ok () t ↔
      ∃ middle, runSteps fmts front r = .ok () middle ∧ runSteps fmts back middle = .ok () t := by
  induction front generalizing r with
  | nil =>
      constructor
      · exact fun run => ⟨r, rfl, run⟩
      · rintro ⟨middle, same, run⟩
        obtain rfl := (EStateM.Result.ok.inj same).2
        exact run
  | cons step front ih =>
      constructor
      · intro run
        obtain ⟨_, u, first, rest⟩ := bind_ok run
        obtain ⟨middle, early, late⟩ := ih.mp rest
        exact ⟨middle, (bind_of_ok first).trans early, late⟩
      · rintro ⟨middle, early, late⟩
        obtain ⟨_, u, first, rest⟩ := bind_ok early
        exact (bind_of_ok first).trans (ih.mpr ⟨middle, rest, late⟩)

end Step

end Perfdb
