import Mathlib
import Perfdb.FaultyCandles
import Perfdb.UniqueBuckets

set_option autoImplicit false

namespace Perfdb

/-- The candle of ticks in one bucket: the first price, the last one, and the ones that no
other has been found to be beyond. -/
structure IsOhlc (marketId : MarketId) (tf : Timeframe) (bucket : Nat) (group : List PriceTick)
    (candle : CandleRecord) : Prop where
  market : candle.marketId = marketId
  timeframe : candle.timeframe = tf.toU8
  start : candle.timestampNs.toNat = bucket * tf.durationNs
  opens : group.head?.map PriceTick.price = some candle.open_
  closes : group.getLast?.map PriceTick.price = some candle.close
  highest : candle.high = (group.map PriceTick.price).foldl
    (fun high price => if high < price then price else high) candle.open_
  lowest : candle.low = (group.map PriceTick.price).foldl
    (fun low price => if price < low then price else low) candle.open_

/-- The ticks of a market that are in a bucket. -/
def ticksIn (tf : Timeframe) (bucket : Nat) (ticks : List PriceTick) : List PriceTick :=
  ticks.filter fun tick => tf.bucket tick = bucket

/-- The live candle of every series is that of the stored ticks in the bucket of its latest
tick. -/
def PerfDb.LiveFromTicks (db : PerfDb) : Prop :=
  ∀ marketId tf latest, (db.tickStore.ticks marketId).getLast? = some latest →
    ∃ candle, db.liveCandle marketId tf = some candle ∧
      IsOhlc marketId tf (tf.bucket latest)
        (ticksIn tf (tf.bucket latest) (db.tickStore.ticks marketId)) candle

/-- Every bucket left behind has a stored candle, and every stored candle is that of all ticks
in its bucket. -/
structure PerfDb.ClosedFromTicks (db : PerfDb) : Prop where
  stored : ∀ marketId tf bucket, LeftBehind tf (db.tickStore.ticks marketId) bucket →
    ∃ candle ∈ db.candles marketId tf,
      IsOhlc marketId tf bucket (ticksIn tf bucket (db.tickStore.ticks marketId)) candle
  whole : ∀ marketId tf, ∀ candle ∈ db.candles marketId tf, ∃ bucket,
    IsOhlc marketId tf bucket (ticksIn tf bucket (db.tickStore.ticks marketId)) candle

/-- A run loses no tick's contribution: the live candles are right after every restart, and the
closed ones all along. -/
structure LosesNothing (fmts : Formats) (steps : List RestartStep) (r : Running) : Prop where
  live : ∀ front order middle, front ++ [.reopen order] <+: steps →
    runSteps fmts (front ++ [.reopen order]) r = .ok () middle → middle.db.LiveFromTicks
  closed : ∀ front middle, front <+: steps →
    runSteps fmts front r = .ok () middle → middle.db.ClosedFromTicks

/-- The database is dropped and opened again, but never shut down. -/
def RestartStep.Drops : RestartStep → Prop
  | .tick _ | .reopen _ => True
  | .shutdown _ => False

section Ohlc

variable {marketId : MarketId} {tf : Timeframe} {bucket : Nat} {group : List PriceTick}
  {buffer : CandleBuffer}

theorem F64.not_lt_self (x : F64) : ¬ x < x := fun less => Int.lt_irrefl x.key less.2.2

/-- A new buffer is the candle of its first tick. -/
theorem isOhlc_new (tick : PriceTick) :
    IsOhlc tick.marketId tf (tf.bucket tick) [tick]
      ((CandleBuffer.new (tf.bucketStartNs tick.timestampNs) tick.price).toRecord
        tick.marketId tf) := by
  refine ⟨rfl, rfl, tf.bucketStartNs_toNat tick.timestampNs, rfl, rfl, ?_, ?_⟩
  · exact (if_neg (F64.not_lt_self tick.price)).symm
  · exact (if_neg (F64.not_lt_self tick.price)).symm

/-- A tick that updates the buffer joins its group. -/
theorem IsOhlc.update (candle : IsOhlc marketId tf bucket group (buffer.toRecord marketId tf))
    (tick : PriceTick) :
    IsOhlc marketId tf bucket (group ++ [tick])
      ((buffer.update tick.price).toRecord marketId tf) := by
  obtain ⟨market, timeframe, start, opens, closes, highest, lowest⟩ := candle
  refine ⟨rfl, rfl, start, ?_, ?_, ?_, ?_⟩
  · rw [List.head?_append]
    cases front : group.head? with
    | none => simp [front] at opens
    | some first =>
        rw [front] at opens
        exact opens
  · simp [CandleBuffer.update, CandleBuffer.toRecord]
  · change _ = List.foldl _ (buffer.toRecord marketId tf).open_ _
    rw [List.map_append, List.foldl_append, ← highest]
    rfl
  · change _ = List.foldl _ (buffer.toRecord marketId tf).open_ _
    rw [List.map_append, List.foldl_append, ← lowest]
    rfl

end Ohlc

section Charts

variable {ticks : List PriceTick} {db : PerfDb}

/-- Every series stands for the stored ticks of its market. -/
structure PerfDb.Whole (db : PerfDb) (ticks : List PriceTick) : Prop where
  kept : ∀ marketId, db.tickStore.ticks marketId = ticksOf marketId ticks
  charted : ∀ marketId tf, Charted (IsOhlc marketId tf) tf (ticksOf marketId ticks)
    (db.candles marketId tf) (db.liveCandle marketId tf)

theorem forall₂_exists_left {α β : Type} {R : α → β → Prop} {as : List α} {bs : List β}
    (related : List.Forall₂ R as bs) {a : α} (member : a ∈ as) : ∃ b ∈ bs, R a b := by
  induction related with
  | nil => cases member
  | cons head tail ih =>
      rcases List.mem_cons.mp member with rfl | inside
      · exact ⟨_, List.mem_cons_self, head⟩
      · obtain ⟨b, within, here⟩ := ih inside
        exact ⟨b, List.mem_cons_of_mem _ within, here⟩

theorem Charted.nothing {summary : Nat → List PriceTick → CandleRecord → Prop} {tf : Timeframe}
    {candles : List CandleRecord} {live : Option CandleRecord}
    (charted : Charted summary tf [] candles live) : candles = [] ∧ live = none := by
  obtain ⟨started, buckets, grouped⟩ := charted
  obtain rfl := started.mpr rfl
  refine ⟨List.eq_nil_iff_forall_not_mem.mpr fun candle member => ?_, rfl⟩
  obtain ⟨bucket, inside, _⟩ := forall₂_exists_left grouped.records.flip
    (List.mem_append_left _ member)
  obtain ⟨_, absurd_, _⟩ := (grouped.complete bucket).mp inside
  cases absurd_

theorem Charted.live_last {summary : Nat → List PriceTick → CandleRecord → Prop} {tf : Timeframe}
    {candles : List CandleRecord} {live : Option CandleRecord} {latest : PriceTick}
    (charted : Charted summary tf ticks candles live) (last : ticks.getLast? = some latest)
    (ordered : ticks.Pairwise fun a b => a.timestampNs ≤ b.timestampNs) :
    ∃ past candle, live = some candle ∧
      Grouped tf.bucket summary ticks (past ++ [tf.bucket latest]) (candles ++ [candle]) := by
  obtain ⟨started, buckets, grouped⟩ := charted
  cases live with
  | none =>
      rw [started.mp rfl] at last
      contradiction
  | some candle =>
      rw [Option.toList_some] at grouped
      have nonempty : buckets ≠ [] := by
        rintro rfl
        have length := grouped.records.length_eq
        simp at length
      obtain ⟨past, newest, rfl⟩ := List.eq_nil_or_concat buckets |>.resolve_left nonempty
      rw [List.concat_eq_append] at grouped
      obtain ⟨item, inside, rfl⟩ := (grouped.complete newest).mp
        (List.mem_append_right _ (List.mem_singleton_self _))
      have upper := grouped.le_last (List.mem_of_getLast? last)
      have lower : tf.bucket item ≤ tf.bucket latest := by
        refine Nat.div_le_div_right (UInt64.le_iff_toNat_le.mp ?_)
        obtain ⟨front, rfl⟩ := List.getLast?_eq_some_iff.mp last
        rcases List.mem_append.mp inside with before | here
        · exact (List.pairwise_append.mp ordered).2.2 item before latest
            (List.mem_singleton_self _)
        · rw [List.mem_singleton.mp here]
          exact UInt64.le_refl _
      rw [Nat.le_antisymm lower upper] at grouped
      exact ⟨past, candle, rfl, grouped⟩

theorem chronological_ticksOf (ordered : Chronological ticks) (marketId : MarketId) :
    (ticksOf marketId ticks).Pairwise fun a b => a.timestampNs ≤ b.timestampNs := by
  rw [ticksOf, List.pairwise_filter]
  exact ordered.imp fun {a b} later same other =>
    later ((of_decide_eq_true same).trans (of_decide_eq_true other).symm)

theorem PerfDb.Whole.liveFromTicks (whole : db.Whole ticks) (ordered : Chronological ticks) :
    db.LiveFromTicks := by
  intro marketId tf latest last
  rw [whole.kept] at last ⊢
  obtain ⟨past, candle, live, grouped⟩ := (whole.charted marketId tf).live_last last
    (chronological_ticksOf ordered marketId)
  exact ⟨candle, live, grouped.split.2⟩

theorem PerfDb.Whole.closedFromTicks (whole : db.Whole ticks) (ordered : Chronological ticks) :
    db.ClosedFromTicks := by
  refine ⟨fun marketId tf bucket behind => ?_, fun marketId tf candle member => ?_⟩
  · rw [whole.kept] at behind ⊢
    obtain ⟨occurs, later, inside, beyond⟩ := behind
    obtain ⟨latest, last⟩ : ∃ latest, (ticksOf marketId ticks).getLast? = some latest :=
      Option.ne_none_iff_exists'.mp (mt List.getLast?_eq_none_iff.mp (List.ne_nil_of_mem inside))
    obtain ⟨past, candle, _, grouped⟩ := (whole.charted marketId tf).live_last last
      (chronological_ticksOf ordered marketId)
    have before : bucket ∈ past := by
      refine (List.mem_append.mp ((grouped.complete bucket).mpr occurs)).resolve_right ?_
      intro here
      have upper := grouped.le_last inside
      rw [← List.mem_singleton.mp here] at upper
      omega
    exact forall₂_exists_left grouped.split.1 before
  · rw [whole.kept]
    obtain ⟨_, buckets, grouped⟩ := whole.charted marketId tf
    obtain ⟨bucket, _, here⟩ := forall₂_exists_left grouped.records.flip
      (List.mem_append_left _ member)
    exact ⟨bucket, here⟩

end Charts

section Run

variable {fmts : Formats} {r t : Running} {steps : List RestartStep}

theorem PerfDb.Whole.tick {before after : PerfDb} {ticks : List PriceTick} {tick : PriceTick}
    (whole : before.Whole ticks) (valid : tick.marketId.toNat < marketCount)
    (ordered : Chronological (ticks ++ [tick])) (ticked : PerfDb.Ticked tick before after) :
    after.Whole (ticks ++ [tick]) := by
  refine ⟨fun marketId => ?_, fun marketId tf => ?_⟩
  · rw [ticked.ticks, whole.kept, ticksOf_append]
    by_cases market : tick.marketId = marketId <;> simp [ticksOf, market]
  · have live : after.liveCandle marketId tf =
        (after.candleBuilder.buffer marketId tf).map fun buf => buf.toRecord marketId tf := rfl
    rw [live, ticked.candles, ticked.candleBuilder]
    exact charted_onTick before.candleBuilder (whole.charted marketId tf) valid
      (fun _ _ _ candle => candle.start) (fun market => market ▸ isOhlc_new tick)
      (fun bucket group buf known candle => candle.update tick) ordered

/-- A restart keeps the stored ticks and candles, and goes on from the last candles. -/
theorem PerfDb.reopen_keeps {order : Iteration} (run : PerfDb.reopen fmts order r = .ok () t)
    (marketId : MarketId) (tf : Timeframe) :
    t.db.tickStore.ticks marketId = r.db.tickStore.ticks marketId ∧
      t.db.candles marketId tf = r.db.candles marketId tf ∧
      t.db.liveCandle marketId tf = (r.db.candles marketId tf).getLast?.map fun last =>
        (CandleBuffer.ofCandle last).toRecord marketId tf := by
  unfold PerfDb.reopen at run
  split at run
  · rename_i db disk opened
    obtain rfl := (EStateM.Result.ok.inj run).2
    obtain ⟨ticks, candles, builder⟩ := PerfDb.open_files opened
    refine ⟨congrArg (fun store => store.ticks marketId) ticks,
      congrArg (fun store => store.candles marketId tf) candles, ?_⟩
    rw [PerfDb.liveCandle, CandleBuilder.current_eq,
      show (disk.running db).db.candleBuilder = seedBuilder r.db.candleStore from builder,
      seedBuilder_buffer, Option.map_map]
    rfl
  · contradiction

/-- A restart without ticks leaves nothing to be lost. -/
theorem PerfDb.Whole.reopen {order : Iteration} (whole : r.db.Whole [])
    (run : PerfDb.reopen fmts order r = .ok () t) : t.db.Whole [] := by
  refine ⟨fun marketId => (reopen_keeps run marketId .sec1).1.trans (whole.kept marketId),
    fun marketId tf => ?_⟩
  obtain ⟨_, candles, live⟩ := reopen_keeps run marketId tf
  obtain ⟨stored, open_⟩ := (whole.charted marketId tf).nothing
  rw [stored, List.getLast?_nil, Option.map_none] at live
  rw [candles, live, ← open_]
  exact whole.charted marketId tf

/-- A restart behind a tick leaves a live candle of an earlier bucket, or none. -/
theorem PerfDb.Whole.reopen_loses {ticks : List PriceTick} {order : Iteration}
    (whole : r.db.Whole ticks) (ordered : Chronological ticks) (some_tick : ticks ≠ [])
    (run : PerfDb.reopen fmts order r = .ok () t) : ¬ t.db.LiveFromTicks := by
  intro live
  obtain ⟨sample, inside⟩ := List.exists_mem_of_ne_nil ticks some_tick
  have own : sample ∈ ticksOf sample.marketId ticks := by simp [ticksOf, inside]
  obtain ⟨latest, last⟩ : ∃ latest, (ticksOf sample.marketId ticks).getLast? = some latest :=
    Option.ne_none_iff_exists'.mp (mt List.getLast?_eq_none_iff.mp (List.ne_nil_of_mem own))
  obtain ⟨past, _, _, grouped⟩ := (whole.charted sample.marketId .sec1).live_last last
    (chronological_ticksOf ordered sample.marketId)
  obtain ⟨kept, _, seeded⟩ := reopen_keeps run sample.marketId .sec1
  obtain ⟨candle, found, ohlc⟩ := live sample.marketId .sec1 latest
    ((congrArg List.getLast? (kept.trans (whole.kept _))).trans last)
  rw [seeded] at found
  obtain ⟨stored, ends, rfl⟩ := Option.map_eq_some_iff.mp found
  obtain ⟨bucket, before, earlier⟩ := forall₂_exists_left grouped.split.1.flip
    (List.mem_of_getLast? ends)
  have less : bucket < Timeframe.sec1.bucket latest :=
    (List.pairwise_append.mp grouped.increasing).2.2 bucket before _ (List.mem_singleton_self _)
  have same : bucket * Timeframe.sec1.durationNs =
      Timeframe.sec1.bucket latest * Timeframe.sec1.durationNs :=
    earlier.start.symm.trans ohlc.start
  exact less.ne (Nat.eq_of_mul_eq_mul_right Timeframe.sec1.durationNs_pos same)

def RestartsFirst (steps : List RestartStep) : Prop :=
  ∀ front order, front ++ [.reopen order] <+: steps → samplesOf front = []

theorem samplesOf_append_one (front : List RestartStep) (step : RestartStep) :
    samplesOf (front ++ [step]) = samplesOf front ++ step.sample.toList := by
  rw [samplesOf, List.filterMap_append, ← samplesOf]
  cases sampled : step.sample <;> simp [sampled]

theorem Chronological.front {front : List RestartStep}
    (ordered : Chronological (samplesOf steps)) (prefixed : front <+: steps) :
    Chronological (samplesOf front) := by
  obtain ⟨back, rfl⟩ := prefixed
  rw [samplesOf, List.filterMap_append] at ordered
  exact (List.pairwise_append.mp ordered).1

theorem runSteps_whole (whole : r.db.Whole []) (drops : ∀ step ∈ steps, step.Drops)
    (first : RestartsFirst steps) (ordered : Chronological (samplesOf steps))
    (run : runSteps fmts steps r = .ok () t) : t.db.Whole (samplesOf steps) := by
  induction steps using List.reverseRecOn generalizing t with
  | nil =>
      obtain rfl := (EStateM.Result.ok.inj run).2
      exact whole
  | append_singleton front step ih =>
      obtain ⟨middle, early, late⟩ := runSteps_append.mp run
      obtain ⟨_, u, last, returned⟩ := bind_ok late
      obtain rfl := (EStateM.Result.ok.inj returned).2
      have before := ih (fun other member => drops other (List.mem_append_left _ member))
        (fun earlier order inside => first earlier order (inside.trans (List.prefix_append _ _)))
        (ordered.front (List.prefix_append _ _)) early
      rw [samplesOf_append_one] at ordered ⊢
      cases step with
      | tick sample =>
          obtain ⟨_, v, ingested, returned⟩ := bind_ok last
          obtain rfl := (EStateM.Result.ok.inj returned).2
          obtain ⟨_, _, _, _, known, ticked⟩ := PerfDb.ingestTick_ok ingested
          exact before.tick known ordered ticked
      | shutdown order => exact (drops _ (List.mem_append_right _ (List.mem_singleton_self _))).elim
      | reopen order =>
          have none := first front order (List.prefix_refl _)
          rw [none] at before ⊢
          exact before.reopen last

theorem LosesNothing.restartsFirst (keeps : LosesNothing fmts steps r) (whole : r.db.Whole [])
    (drops : ∀ step ∈ steps, step.Drops) (ordered : Chronological (samplesOf steps))
    (run : runSteps fmts steps r = .ok () t) : RestartsFirst steps := by
  induction steps using List.reverseRecOn generalizing t with
  | nil =>
      intro front order inside
      have length := inside.length_le
      simp at length
  | append_singleton front step ih =>
      obtain ⟨middle, early, late⟩ := runSteps_append.mp run
      obtain ⟨_, u, last, returned⟩ := bind_ok late
      obtain rfl := (EStateM.Result.ok.inj returned).2
      have shorter : LosesNothing fmts front r :=
        ⟨fun earlier order state inside => keeps.live earlier order state
          (inside.trans (List.prefix_append _ _)),
        fun earlier state inside => keeps.closed earlier state
          (inside.trans (List.prefix_append _ _))⟩
      have calm := fun other member => drops other (List.mem_append_left [step] member)
      have first := ih shorter calm (ordered.front (List.prefix_append _ _)) early
      intro earlier order inside
      rcases List.prefix_concat_iff.mp inside with whole' | within
      · obtain ⟨rfl, same⟩ := List.append_inj' whole' rfl
        obtain rfl := List.singleton_inj.mp same
        by_contra some_tick
        have before := runSteps_whole whole calm first (ordered.front (List.prefix_append _ _)) early
        exact before.reopen_loses (ordered.front (List.prefix_append _ _)) some_tick last
          (keeps.live earlier order u (List.prefix_refl _) run)
      · exact first earlier order within

end Run

theorem whole_new {fmts : Formats} {order : Iteration} {config : PerfDbConfig}
    {disk opened : Disk} {db : PerfDb} (ticks : disk.ticks = .new) (candles : disk.candles = .new)
    (start : PerfDb.open_ fmts order config disk = .ok db opened) :
    (opened.running db).db.Whole [] := by
  obtain ⟨kept, stored, builder⟩ := PerfDb.open_files start
  refine ⟨fun marketId => ?_, fun marketId tf => ?_⟩
  · change db.tickStore.ticks marketId = _
    rw [kept, ticks, TickStore.ticks_new]
    rfl
  · have charts := charts_new (stored.trans candles)
      (builder.trans ((congrArg seedBuilder candles).trans seedBuilder_new)) marketId tf
    obtain ⟨none, live⟩ := Charted.nothing charts
    change Charted _ tf _ (db.candles marketId tf) (db.liveCandle marketId tf)
    rw [none, live]
    exact ⟨by simp [ticksOf], [], Grouped.nil⟩

/-- In a new database that is never shut down, restarts lose no tick's contribution exactly
when all of them come before the first tick. -/
theorem restarts_keep_ticks_iff (fmts : Formats) (order : Iteration) (config : PerfDbConfig)
    (disk opened : Disk) (db : PerfDb) (ticks : disk.ticks = .new) (candles : disk.candles = .new)
    (start : PerfDb.open_ fmts order config disk = .ok db opened) (steps : List RestartStep)
    (drops : ∀ step ∈ steps, step.Drops) (ordered : Chronological (samplesOf steps)) (r : Running)
    (run : runSteps fmts steps (opened.running db) = .ok () r) :
    LosesNothing fmts steps (opened.running db) ↔ RestartsFirst steps := by
  have whole := whole_new ticks candles start
  refine ⟨fun keeps => keeps.restartsFirst whole drops ordered run, fun first => ?_⟩
  have reached (front : List RestartStep) (middle : Running) (inside : front <+: steps)
      (early : runSteps fmts front (opened.running db) = .ok () middle) :
      middle.db.Whole (samplesOf front) :=
    runSteps_whole whole (fun step member => drops step (inside.subset member))
      (fun earlier order within => first earlier order (within.trans inside))
      (ordered.front inside) early
  exact ⟨fun front order middle inside early =>
      (reached _ middle inside early).liveFromTicks (ordered.front inside),
    fun front middle inside early =>
      (reached _ middle inside early).closedFromTicks (ordered.front inside)⟩

/-- A restart, and a tick behind it. -/
theorem restarts_keep_ticks_iff_tick :
    ∃ db opened r, PerfDb.open_ Bincode.formats .stored ⟨"data", "wal", 1024, .none⟩ .fresh =
        .ok db opened ∧
      runSteps Bincode.formats [.reopen .stored, .tick (secondTick 1)] (opened.running db) =
        .ok () r ∧
      (LosesNothing Bincode.formats [.reopen .stored, .tick (secondTick 1)]
        (opened.running db) ↔ RestartsFirst [.reopen .stored, .tick (secondTick 1)]) := by
  obtain ⟨db, opened, r, start, run⟩ := steps_return [.reopen .stored, .tick (secondTick 1)] <| by
    simp only [List.forall_mem_cons]
    exact ⟨trivial, secondTick_taken 1, nofun⟩
  exact ⟨db, opened, r, start, run, restarts_keep_ticks_iff Bincode.formats .stored _ .fresh opened
    db rfl rfl start _ (by simp [RestartStep.Drops]) (by unfold Chronological samplesOf; decide) r
    run⟩

/-- A tick is stored, and after a restart its series has no live candle. -/
theorem tick_lost_in_restart :
    ∃ db opened r, PerfDb.open_ Bincode.formats .stored ⟨"data", "wal", 1024, .none⟩ .fresh =
        .ok db opened ∧
      runSteps Bincode.formats [.tick (secondTick 1), .reopen .stored] (opened.running db) =
        .ok () r ∧
      r.db.tickStore.ticks 0 = [secondTick 1] ∧ r.db.liveCandle 0 .sec1 = none ∧
      ¬ LosesNothing Bincode.formats [.tick (secondTick 1), .reopen .stored]
        (opened.running db) := by
  obtain ⟨db, opened, r, start, run⟩ := steps_return [.tick (secondTick 1), .reopen .stored] <| by
    simp only [List.forall_mem_cons]
    exact ⟨secondTick_taken 1, trivial, nofun⟩
  obtain ⟨middle, early, late⟩ := runSteps_append.mp
    (show runSteps Bincode.formats ([.tick (secondTick 1)] ++ [.reopen .stored]) _ = _ from run)
  obtain ⟨_, u, last, returned⟩ := bind_ok late
  obtain rfl := (EStateM.Result.ok.inj returned).2
  have chronological : Chronological [secondTick 1] := List.pairwise_singleton _ _
  have whole : middle.db.Whole (samplesOf [.tick (secondTick 1)]) := by
    refine runSteps_whole (whole_new rfl rfl start) (by simp [RestartStep.Drops])
      (fun front order inside => ?_) chronological early
    obtain ⟨back, split⟩ := inside
    cases front with
    | nil => simp at split
    | cons step front => simp at split
  have stored := congrArg Series.stored (@runSteps_series _ _ _ 0 .sec1 _ early)
  rw [series_new rfl start] at stored
  have empty : middle.db.candles 0 .sec1 = [] := List.map_eq_nil_iff.mp (stored.trans (by decide))
  obtain ⟨kept, _, live⟩ := PerfDb.reopen_keeps last 0 .sec1
  rw [empty] at live
  refine ⟨db, opened, u, start, run, (kept.trans (whole.kept 0)).trans (by decide), live,
    fun keeps => ?_⟩
  exact whole.reopen_loses chronological (List.cons_ne_nil _ _) last
    (keeps.live [.tick (secondTick 1)] .stored u (List.prefix_refl _) run)

end Perfdb
