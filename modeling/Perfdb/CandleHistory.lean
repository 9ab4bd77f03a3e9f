import Mathlib
import Perfdb.Grouping
import Perfdb.Opening
import Perfdb.SnapshotBincode

set_option autoImplicit false

namespace Perfdb

def Timeframe.durationNs (tf : Timeframe) : Nat := (tf.durationMs * 1000000).toNat

/-- The number of the bucket that contains a tick. -/
def Timeframe.bucket (tf : Timeframe) (tick : PriceTick) : Nat :=
  tick.timestampNs.toNat / tf.durationNs

/-- One of the prices, on the far side of all of them. -/
structure Extreme (within : Int → Int → Prop) (prices : List F64) (x : F64) : Prop where
  attained : x ∈ prices
  bounds : ∀ price ∈ prices, within price.key x.key

/-- The candle of a group of ticks in one bucket. -/
structure IsCandle (marketId : MarketId) (tf : Timeframe) (bucket : Nat)
    (group : List PriceTick) (candle : CandleRecord) : Prop where
  market : candle.marketId = marketId
  timeframe : candle.timeframe = tf.toU8
  start : candle.timestampNs.toNat = bucket * tf.durationNs
  opens : group.head?.map PriceTick.price = some candle.open_
  closes : group.getLast?.map PriceTick.price = some candle.close
  highest : Extreme (· ≤ ·) (group.map PriceTick.price) candle.high
  lowest : Extreme (· ≥ ·) (group.map PriceTick.price) candle.low

/-- `candles` followed by the open candle is one candle for each bucket with a tick, in
the order of the buckets. -/
def Aggregates (marketId : MarketId) (tf : Timeframe) (ticks : List PriceTick)
    (candles : List CandleRecord) (live : Option CandleRecord) : Prop :=
  (live = none ↔ ticks = []) ∧
    ∃ buckets, Grouped tf.bucket (IsCandle marketId tf) ticks buckets (candles ++ live.toList)

/-- So is it for another summary of the groups. -/
def Charted (summary : Nat → List PriceTick → CandleRecord → Prop) (tf : Timeframe)
    (ticks : List PriceTick) (candles : List CandleRecord) (live : Option CandleRecord) : Prop :=
  (live = none ↔ ticks = []) ∧
    ∃ buckets, Grouped tf.bucket summary ticks buckets (candles ++ live.toList)

namespace Timeframe

variable (tf : Timeframe) (timestampNs : UInt64)

theorem durationNs_pos : 0 < tf.durationNs := by
  cases tf <;> decide

theorem bucketStartNs_toNat : (tf.bucketStartNs timestampNs).toNat =
    timestampNs.toNat / tf.durationNs * tf.durationNs := by
  have whole := Nat.div_add_mod' timestampNs.toNat tf.durationNs
  have smaller : timestampNs % (tf.durationMs * 1000000) ≤ timestampNs := by
    rw [UInt64.le_iff_toNat_le, UInt64.toNat_mod]
    exact Nat.mod_le _ _
  rw [bucketStartNs, UInt64.toNat_sub_of_le _ _ smaller, UInt64.toNat_mod]
  rw [durationNs] at whole ⊢
  omega

end Timeframe

/-- A further price takes over when it is beyond the extreme so far. -/
theorem Extreme.push {within : Int → Int → Prop} [IsTrans Int within] [Std.Total within]
    {prices : List F64} {x : F64} (extreme : Extreme within prices x) (price : F64)
    {beyond : Prop} [Decidable beyond] (rule : beyond ↔ ¬ within price.key x.key) :
    Extreme within (prices ++ [price]) (if beyond then price else x) := by
  by_cases replaced : beyond
  · rw [if_pos replaced]
    have outside := rule.mp replaced
    refine ⟨List.mem_append_right _ (List.mem_singleton_self _), fun other member => ?_⟩
    rcases List.mem_append.mp member with old | new
    · have inside := (Std.Total.total price.key x.key).resolve_left outside
      exact IsTrans.trans _ _ _ (extreme.bounds other old) inside
    · rw [List.mem_singleton.mp new]
      exact (Std.Total.total (r := within) price.key price.key).elim id id
  · rw [if_neg replaced]
    refine ⟨List.mem_append_left _ extreme.attained, fun other member => ?_⟩
    rcases List.mem_append.mp member with old | new
    · exact extreme.bounds other old
    · rw [List.mem_singleton.mp new]
      exact not_not.mp fun outside => replaced (rule.mpr outside)

section Buffer

variable {marketId : MarketId} {tf : Timeframe} {bucket : Nat} {group : List PriceTick}
  {buffer : CandleBuffer}

theorem isCandle_new (tick : PriceTick) :
    IsCandle tick.marketId tf (tf.bucket tick) [tick]
      ((CandleBuffer.new (tf.bucketStartNs tick.timestampNs) tick.price).toRecord
        tick.marketId tf) := by
  refine ⟨rfl, rfl, tf.bucketStartNs_toNat tick.timestampNs, rfl, rfl, ⟨?_, ?_⟩, ⟨?_, ?_⟩⟩ <;>
    simp [CandleBuffer.new, CandleBuffer.toRecord]

/-- A tick that updates the buffer joins its group. -/
theorem IsCandle.update (candle : IsCandle marketId tf bucket group (buffer.toRecord marketId tf))
    (tick : PriceTick) (numbers : ∀ other ∈ group ++ [tick], other.price.isNaN = false) :
    IsCandle marketId tf bucket (group ++ [tick])
      ((buffer.update tick.price).toRecord marketId tf) := by
  obtain ⟨market, timeframe, start, opens, closes, highest, lowest⟩ := candle
  have number := numbers tick (List.mem_append_right _ (List.mem_singleton_self _))
  have numberOf (price : F64) (member : price ∈ group.map PriceTick.price) :
      price.isNaN = false := by
    obtain ⟨other, inside, rfl⟩ := List.mem_map.mp member
    exact numbers other (List.mem_append_left _ inside)
  refine ⟨rfl, rfl, start, ?_, ?_, ?_, ?_⟩
  · rw [List.head?_append]
    cases front : group.head? with
    | none => simp [front] at opens
    | some first =>
        rw [front] at opens
        exact opens
  · simp [CandleBuffer.update, CandleBuffer.toRecord]
  · rw [List.map_append]
    refine highest.push tick.price ?_
    rw [not_le]
    exact F64.lt_iff (numberOf _ highest.attained) number
  · rw [List.map_append]
    refine lowest.push tick.price ?_
    rw [ge_iff_le, not_le]
    exact F64.lt_iff number (numberOf _ lowest.attained)

end Buffer

/-- A tick that is not older than the ones before takes a series one step on. -/
theorem Charted.tick {summary : Nat → List PriceTick → CandleRecord → Prop} {tf : Timeframe}
    {ticks : List PriceTick} {candles : List CandleRecord} {buffer : Option CandleBuffer}
    (tick : PriceTick)
    (charted : Charted summary tf ticks candles
      (buffer.map fun buf => buf.toRecord tick.marketId tf))
    (starts : ∀ bucket group candle, summary bucket group candle →
      candle.timestampNs.toNat = bucket * tf.durationNs)
    (opens : summary (tf.bucket tick) [tick]
      ((CandleBuffer.new (tf.bucketStartNs tick.timestampNs) tick.price).toRecord
        tick.marketId tf))
    (updates : ∀ bucket group (buf : CandleBuffer), (∀ other ∈ group, other ∈ ticks) →
      summary bucket group (buf.toRecord tick.marketId tf) →
      summary bucket (group ++ [tick]) ((buf.update tick.price).toRecord tick.marketId tf))
    (later : ∀ other ∈ ticks, other.timestampNs ≤ tick.timestampNs) :
    Charted summary tf (ticks ++ [tick]) (candles ++ CandleBuilder.closedBy tick tf buffer)
      (some ((CandleBuilder.tickBuffer tick tf buffer).1.toRecord tick.marketId tf)) := by
  obtain ⟨started, buckets, grouped⟩ := charted
  have noEarlier (other : PriceTick) (member : other ∈ ticks) : tf.bucket other ≤ tf.bucket tick :=
    Nat.div_le_div_right (UInt64.le_iff_toNat_le.mp (later other member))
  refine ⟨by simp, ?_⟩
  cases buffer with
  | none =>
      obtain rfl := started.mp rfl
      refine ⟨buckets ++ [tf.bucket tick], ?_⟩
      have opened := grouped.start (by simp) opens
      rwa [CandleBuilder.closedBy_none]
  | some buf =>
      simp only [Option.map_some, Option.toList_some] at grouped
      have nonempty : buckets ≠ [] := by
        rintro rfl
        have length := grouped.records.length_eq
        simp at length
      obtain ⟨past, last, rfl⟩ := List.eq_nil_or_concat buckets |>.resolve_left nonempty
      rw [List.concat_eq_append] at grouped
      have candle := grouped.split.2
      have start : buf.bucketStartNs.toNat = last * tf.durationNs := starts _ _ _ candle
      have tickStart := tf.bucketStartNs_toNat tick.timestampNs
      by_cases same : buf.bucketStartNs = tf.bucketStartNs tick.timestampNs
      · have bucket : tf.bucket tick = last := by
          rw [same, tickStart] at start
          exact Nat.eq_of_mul_eq_mul_right tf.durationNs_pos start
        refine ⟨past ++ [last], ?_⟩
        have extended := grouped.extend bucket
          (updates last _ buf (fun other member => List.mem_of_mem_filter member) candle)
        rw [CandleBuilder.closedBy_same tick tf same, List.append_nil]
        simpa only [CandleBuilder.tickBuffer, same, ↓reduceIte, Option.toList_some] using extended
      · have apart : tf.bucket tick ≠ last := by
          rintro rfl
          exact same (UInt64.toNat_inj.mp (start.trans tickStart.symm))
        obtain ⟨newest, inside, here⟩ := (grouped.complete last).mp
          (List.mem_append_right _ (List.mem_singleton_self _))
        have ahead : last < tf.bucket tick :=
          (here ▸ noEarlier newest inside).lt_of_ne apart.symm
        refine ⟨past ++ [last] ++ [tf.bucket tick], ?_⟩
        have opened := grouped.start
          (fun other member => (grouped.le_last member).trans_lt ahead) opens
        rw [CandleBuilder.closedBy_next tick tf same]
        simpa only [CandleBuilder.tickBuffer, same, ↓reduceIte, Option.toList_some] using opened

/-- Calls of `ingest_tick`, one after the other. -/
def ingestAll (fmt : Wal.Format) : List PriceTick → EngineM Unit
  | [] => pure ()
  | tick :: ticks => do
      let _ ← PerfDb.ingestTick fmt tick
      ingestAll fmt ticks

def ticksOf (marketId : MarketId) (ticks : List PriceTick) : List PriceTick :=
  ticks.filter fun tick => tick.marketId = marketId

theorem ticksOf_append (marketId : MarketId) (front back : List PriceTick) :
    ticksOf marketId (front ++ back) = ticksOf marketId front ++ ticksOf marketId back :=
  List.filter_append ..

/-- Every series of a database stands for the ticks of its market. -/
def PerfDb.Charts (db : PerfDb) (ticks : List PriceTick) : Prop :=
  ∀ marketId tf, Aggregates marketId tf (ticksOf marketId ticks) (db.candles marketId tf)
    (db.liveCandle marketId tf)

/-- Timestamps never go down in a market. -/
def Chronological (ticks : List PriceTick) : Prop :=
  ticks.Pairwise fun a b => a.marketId = b.marketId → a.timestampNs ≤ b.timestampNs

/-- Every tick takes the series of its market one step on, and leaves the others. -/
theorem charted_onTick {summary : Nat → List PriceTick → CandleRecord → Prop}
    (builder : CandleBuilder) {ticks : List PriceTick} {candles : List CandleRecord}
    {tick : PriceTick} {marketId : MarketId} {tf : Timeframe}
    (charted : Charted summary tf (ticksOf marketId ticks) candles
      ((builder.buffer marketId tf).map fun buf => buf.toRecord marketId tf))
    (valid : tick.marketId.toNat < marketCount)
    (starts : ∀ bucket group candle, summary bucket group candle →
      candle.timestampNs.toNat = bucket * tf.durationNs)
    (opens : tick.marketId = marketId → summary (tf.bucket tick) [tick]
      ((CandleBuffer.new (tf.bucketStartNs tick.timestampNs) tick.price).toRecord marketId tf))
    (updates : ∀ bucket group (buf : CandleBuffer), (∀ other ∈ group, other ∈ ticks) →
      summary bucket group (buf.toRecord marketId tf) →
      summary bucket (group ++ [tick]) ((buf.update tick.price).toRecord marketId tf))
    (ordered : Chronological (ticks ++ [tick])) :
    Charted summary tf (ticksOf marketId (ticks ++ [tick]))
      (candles ++ (builder.onTick tick).2.filterMap (CandleOutput.closedFor marketId tf))
      (((builder.onTick tick).1.buffer marketId tf).map fun buf => buf.toRecord marketId tf) := by
  obtain ⟨buffer, closed, _⟩ := builder.onTick_spec tick marketId tf valid
  rw [closed, buffer, ticksOf_append]
  by_cases market : tick.marketId = marketId
  · subst market
    have own : ticksOf tick.marketId [tick] = [tick] := by simp [ticksOf]
    simp only [↓reduceIte, Option.map_some, own]
    refine Charted.tick tick charted starts (opens rfl) (fun bucket group buf known => ?_)
      fun other member => ?_
    · exact updates bucket group buf fun other inside => List.mem_of_mem_filter (known other inside)
    · obtain ⟨inside, same⟩ := List.mem_filter.mp member
      exact (List.pairwise_append.mp ordered).2.2 other inside tick
        (List.mem_singleton_self _) (of_decide_eq_true same)
  · have others : ticksOf marketId [tick] = [] := by simp [ticksOf, market]
    simp only [market, ↓reduceIte, others, List.append_nil]
    exact charted

theorem PerfDb.Charts.tick {before after : PerfDb} {ticks : List PriceTick} {tick : PriceTick}
    (charts : before.Charts ticks) (valid : tick.marketId.toNat < marketCount)
    (numbers : ∀ other ∈ ticks ++ [tick], other.price.isNaN = false)
    (ordered : Chronological (ticks ++ [tick])) (ticked : PerfDb.Ticked tick before after) :
    after.Charts (ticks ++ [tick]) := by
  intro marketId tf
  have live : after.liveCandle marketId tf =
      (after.candleBuilder.buffer marketId tf).map fun buf => buf.toRecord marketId tf := rfl
  rw [live, ticked.candles, ticked.candleBuilder]
  refine charted_onTick before.candleBuilder (charts marketId tf) valid
    (fun _ _ _ candle => candle.start) (fun market => market ▸ isCandle_new tick)
    (fun bucket group buf known candle => candle.update tick fun other member => ?_) ordered
  rcases List.mem_append.mp member with old | new
  · exact numbers other (List.mem_append_left _ (known other old))
  · exact numbers other (List.mem_append_right _ new)

theorem ingestAll_charts (fmt : Wal.Format) (ticks : List PriceTick) {past : List PriceTick}
    {r : Running} (ready : r.Ready) (charts : r.db.Charts past)
    (valid : ∀ tick ∈ ticks, tick.marketId.toNat < marketCount)
    (numbers : ∀ tick ∈ past ++ ticks, tick.price.isNaN = false)
    (ordered : Chronological (past ++ ticks)) :
    ∃ later, ingestAll fmt ticks r = .ok () later ∧ later.db.Charts (past ++ ticks) := by
  induction ticks generalizing past r with
  | nil => exact ⟨r, rfl, by rwa [List.append_nil]⟩
  | cons tick ticks ih =>
      obtain ⟨s, logged, keep⟩ :=
        ready.logs fmt (.priceTick tick.timestampNs tick.marketId tick.price)
      obtain ⟨middle, run, log, snapshots, ticked⟩ :=
        PerfDb.ingestTick_of_log logged (valid tick List.mem_cons_self)
      have split : past ++ tick :: ticks = past ++ [tick] ++ ticks := by simp
      rw [split] at numbers ordered ⊢
      have step := charts.tick (valid tick List.mem_cons_self)
        (fun other member => numbers other (List.mem_append_left _ member))
        (List.pairwise_append.mp ordered).1 ticked
      obtain ⟨later, rest, final⟩ := ih (keep middle log snapshots) step
        (fun other member => valid other (List.mem_cons_of_mem tick member)) numbers ordered
      exact ⟨later, by rw [ingestAll, bind_of_ok run, rest], final⟩

theorem charts_new {db : PerfDb} (store : db.candleStore = .new)
    (builder : db.candleBuilder = .new) : db.Charts [] := by
  intro marketId tf
  have candles : db.candles marketId tf = [] := by
    rw [PerfDb.candles, store, candles_new]
  have live : db.liveCandle marketId tf = none := by
    have buffer := buffer_new marketId tf
    rw [CandleBuilder.buffer] at buffer
    rw [PerfDb.liveCandle, CandleBuilder.current, builder, buffer, Option.map_none]
  rw [candles, live]
  exact ⟨by simp [ticksOf], [], Grouped.nil⟩

/-- In an empty database the stored candles and the live one of each series are the
groups of the ticks it has been given. -/
theorem candles_aggregate (fmts : Formats) (order : Iteration) (config : PerfDbConfig)
    (disk : Disk) (blank : disk.Blank) (ticks : List PriceTick)
    (valid : ∀ tick ∈ ticks, tick.marketId.toNat < marketCount)
    (numbers : ∀ tick ∈ ticks, tick.price.isNaN = false) (ordered : Chronological ticks) :
    ∃ db opened r, PerfDb.open_ fmts order config disk = .ok db opened ∧
      ingestAll fmts.wal ticks (opened.running db) = .ok () r ∧
      ∀ marketId tf, Aggregates marketId tf (ticksOf marketId ticks) (r.db.candles marketId tf)
        (r.db.liveCandle marketId tf) := by
  obtain ⟨db, opened, run, _, _, store, builder, _, logged⟩ :=
    PerfDb.open_returns order config (blank.stands fmts) (fun snap some => by contradiction)
  rw [blank.candles] at store builder
  obtain ⟨r, ingested, charts⟩ := ingestAll_charts fmts.wal ticks logged.ready
    (charts_new store (builder.trans seedBuilder_new)) valid numbers ordered
  exact ⟨db, opened, r, run, ingested, charts⟩

/-- Two markets in turn, with a bucket boundary of the first between its ticks. -/
theorem candles_aggregate_two_markets :
    ∃ db opened r, PerfDb.open_ Bincode.formats .stored ⟨"data", "wal", 1024, .none⟩ .fresh =
        .ok db opened ∧
      ingestAll Bincode.format
        [⟨1000000000, 0, Vector.replicate 6 0, ⟨0x4059000000000000⟩⟩,
          ⟨500000000, 17, Vector.replicate 6 0, ⟨0x3FF0000000000000⟩⟩,
          ⟨2000000000, 0, Vector.replicate 6 0, ⟨0x4058000000000000⟩⟩] (opened.running db) =
        .ok () r ∧
      ∀ marketId tf, Aggregates marketId tf (ticksOf marketId
        [⟨1000000000, 0, Vector.replicate 6 0, ⟨0x4059000000000000⟩⟩,
          ⟨500000000, 17, Vector.replicate 6 0, ⟨0x3FF0000000000000⟩⟩,
          ⟨2000000000, 0, Vector.replicate 6 0, ⟨0x4058000000000000⟩⟩])
        (r.db.candles marketId tf) (r.db.liveCandle marketId tf) :=
  candles_aggregate Bincode.formats .stored _ .fresh Disk.fresh_blank _ (by decide) (by decide)
    (by unfold Chronological; decide)

end Perfdb
