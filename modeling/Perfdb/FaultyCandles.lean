import Mathlib
import Perfdb.CandleHistory
import Perfdb.Histories

set_option autoImplicit false

namespace Perfdb

/-- An I/O error while a candle is stored: its file does not open, or it opens and does not
take the record. -/
structure AppendFault where
  context : String
  opens : Bool

/-- `CandleStore::append` on a disk that refuses the candles of some timeframes. -/
def CandleStore.appendFaulty (faults : Timeframe → Option AppendFault) (store : CandleStore)
    (candle : CandleRecord) : Option PerfDbError × CandleStore :=
  match store.append candle, Timeframe.fromU8 candle.timeframe with
  | .error reason, _ => (some reason, store)
  | .ok later, none => (none, later)
  | .ok later, some tf =>
      match faults tf with
      | none => (none, later)
      | some fault =>
          (some (.io fault.context),
            if fault.opens then
              ⟨modifySlot store.files (flatIndex candle.marketId tf) fun file =>
                some (file.getD [])⟩
            else store)

namespace PerfDb

def appendCandleFaulty (faults : Timeframe → Option AppendFault) (candle : CandleRecord) :
    EngineM Unit := fun r =>
  match r.db.candleStore.appendFaulty faults candle with
  | (none, store) => .ok () (r.mapDb fun db => { db with candleStore := store })
  | (some reason, store) =>
      .error (.error reason) (r.mapDb fun db => { db with candleStore := store })

/-- The loop over the outputs, which stops at the first error. -/
def appendClosedFaulty (faults : Timeframe → Option AppendFault) : List CandleOutput → EngineM Unit
  | [] => pure ()
  | .closed candle :: outputs => do
      appendCandleFaulty faults candle
      appendClosedFaulty faults outputs
  | .live _ :: outputs => appendClosedFaulty faults outputs

/-- `ingest_tick` on such a disk. -/
def ingestTickFaulty (fmt : Wal.Format) (faults : Timeframe → Option AppendFault)
    (tick : PriceTick) : EngineM (List CandleOutput) := do
  onWal (Wal.append fmt (.priceTick tick.timestampNs tick.marketId tick.price))
  tryDb (appendTick tick)
  modify (Running.mapDb (setTickPrice tick))
  let outputs ← buildCandles tick
  appendClosedFaulty faults outputs
  modify (Running.mapDb fun db => db.publish .prices
    (.priceUpdate tick.marketId tick.price tick.timestampNs))
  pure outputs

theorem appendClosedFaulty_none (outputs : List CandleOutput) :
    appendClosedFaulty (fun _ => none) outputs = appendClosed outputs := by
  induction outputs with
  | nil => rfl
  | cons output outputs ih =>
      cases output with
      | live candle => exact ih
      | closed candle =>
          have one : appendCandleFaulty (fun _ => none) candle = tryDb (appendCandle candle) := by
            funext r
            simp only [appendCandleFaulty, CandleStore.appendFaulty, tryDb, appendCandle]
            cases r.db.candleStore.append candle with
            | error reason => rfl
            | ok later => cases Timeframe.fromU8 candle.timeframe <;> rfl
          rw [appendClosedFaulty, one, ih, appendClosed]

/-- A disk that refuses nothing is the one of `ingest_tick`. -/
theorem ingestTickFaulty_none (fmt : Wal.Format) (tick : PriceTick) :
    ingestTickFaulty fmt (fun _ => none) tick = ingestTick fmt tick := by
  simp only [ingestTickFaulty, ingestTick, appendClosedFaulty_none]

end PerfDb

/-- A tick, and the timeframes whose candles the disk refuses meanwhile. -/
structure FaultyTick where
  tick : PriceTick
  faults : Timeframe → Option AppendFault

/-- The database after the call; the caller goes on whether or not it failed. -/
def Running.ingestFaulty (fmt : Wal.Format) (r : Running) (call : FaultyTick) : Running :=
  stateOf (PerfDb.ingestTickFaulty fmt call.faults call.tick r)

def CandleOutput.Refused (faults : Timeframe → Option AppendFault) : CandleOutput → Prop
  | .closed candle => ∃ tf : Timeframe, candle.timeframe = tf.toU8 ∧ (faults tf).isSome
  | .live _ => False

theorem CandleStore.appendFaulty_spec (faults : Timeframe → Option AppendFault)
    (store : CandleStore) {candle : CandleRecord}
    (storable : (CandleOutput.closed candle).Storable) :
    (∃ later, store.appendFaulty faults candle = (none, later) ∧
      ¬ (CandleOutput.closed candle).Refused faults ∧
      ∀ marketId tf, later.candles marketId tf = store.candles marketId tf ++
        ((CandleOutput.closed candle).closedFor marketId tf).toList) ∨
    ∃ reason later, store.appendFaulty faults candle = (some reason, later) ∧
      (CandleOutput.closed candle).Refused faults ∧
      ∀ marketId tf, later.candles marketId tf = store.candles marketId tf := by
  obtain ⟨valid, tf, frame⟩ := storable
  obtain ⟨later, stored, grown⟩ := store.append_ok valid frame
  have refused : (CandleOutput.closed candle).Refused faults ↔ (faults tf).isSome := by
    constructor
    · rintro ⟨other, same, fails⟩
      rwa [Timeframe.toU8_injective (frame.symm.trans same)]
    · exact fun fails => ⟨tf, frame, fails⟩
  rw [refused]
  simp only [appendFaulty, stored, frame, Timeframe.fromU8_toU8]
  cases faults tf with
  | none => exact Or.inl ⟨later, rfl, by simp, grown⟩
  | some fault =>
      refine Or.inr ⟨_, _, rfl, rfl, fun marketId other => ?_⟩
      cases fault.opens with
      | false => rfl
      | true =>
          simp only [if_true, candles, getElem?_modifySlot]
          split
          · rename_i same
            rw [← same]
            cases store.files[flatIndex candle.marketId tf]? with
            | none => rfl
            | some file => cases file <;> rfl
          · rfl

/-- The loop stores the candles up to the first refused one, and no other. -/
theorem PerfDb.appendClosedFaulty_spec (faults : Timeframe → Option AppendFault)
    (outputs : List CandleOutput) (storable : ∀ output ∈ outputs, output.Storable) (r : Running) :
    ∃ store done left, outputs = done ++ left ∧
      (appendClosedFaulty faults outputs r =
          .ok () (r.mapDb fun db => { db with candleStore := store }) ∧ left = [] ∨
        ∃ reason candle rest, appendClosedFaulty faults outputs r =
          .error (.error reason) (r.mapDb fun db => { db with candleStore := store }) ∧
          left = .closed candle :: rest ∧ (CandleOutput.closed candle).Refused faults) ∧
      (∀ output ∈ done, ¬ output.Refused faults) ∧
      ∀ marketId tf, store.candles marketId tf = r.db.candles marketId tf ++
        done.filterMap (CandleOutput.closedFor marketId tf) := by
  induction outputs generalizing r with
  | nil =>
      exact ⟨r.db.candleStore, [], [], rfl, Or.inl ⟨rfl, rfl⟩, by simp, fun marketId tf =>
        (List.append_nil _).symm⟩
  | cons output outputs ih =>
      have rest := fun other member => storable other (List.mem_cons_of_mem output member)
      cases output with
      | live candle =>
          obtain ⟨store, done, left, rfl, run, fine, grown⟩ := ih rest r
          refine ⟨store, .live candle :: done, left, rfl, run, fun output member => ?_, grown⟩
          rcases List.mem_cons.mp member with rfl | inside
          · exact id
          · exact fine output inside
      | closed candle =>
          rcases r.db.candleStore.appendFaulty_spec faults (storable _ List.mem_cons_self) with
            ⟨first, stored, accepted, one⟩ | ⟨reason, later, stored, refused, same⟩
          · have step : appendCandleFaulty faults candle r =
                .ok () (r.mapDb fun db => { db with candleStore := first }) := by
              simp only [appendCandleFaulty, stored]
            obtain ⟨store, done, left, rfl, run, fine, grown⟩ :=
              ih rest (r.mapDb fun db => { db with candleStore := first })
            refine ⟨store, .closed candle :: done, left, rfl, ?_, fun output member => ?_,
              fun marketId tf => ?_⟩
            · rw [appendClosedFaulty, bind_of_ok step]
              exact run
            · rcases List.mem_cons.mp member with rfl | inside
              · exact accepted
              · exact fine output inside
            · rw [grown]
              change first.candles marketId tf ++ _ = _
              rw [one, List.append_assoc, candles, List.filterMap_cons]
              cases CandleOutput.closedFor marketId tf (.closed candle) <;> rfl
          · refine ⟨later, [], .closed candle :: outputs, rfl, Or.inr ⟨reason, candle, outputs, ?_,
              rfl, refused⟩, by simp, fun marketId tf => ?_⟩
            · rw [appendClosedFaulty]
              refine bind_of_error ?_
              simp only [appendCandleFaulty, stored]
            · rw [same]
              exact (List.append_nil _).symm

/-- A call stores the candles it closes up to the first refused one, and the rest is as if
it had stored them all. -/
theorem Running.ingestFaulty_spec (fmt : Wal.Format) {r : Running} (ready : r.Ready)
    (call : FaultyTick) (valid : call.tick.marketId.toNat < marketCount) :
    (r.ingestFaulty fmt call).Ready ∧
      (r.ingestFaulty fmt call).db.candleBuilder = (r.db.candleBuilder.onTick call.tick).1 ∧
      ∃ done left, (r.db.candleBuilder.onTick call.tick).2 = done ++ left ∧
        (left = [] ∨ ∃ candle rest, left = .closed candle :: rest ∧
          (CandleOutput.closed candle).Refused call.faults) ∧
        (∀ output ∈ done, ¬ output.Refused call.faults) ∧
        ∀ marketId tf, (r.ingestFaulty fmt call).db.candles marketId tf =
          r.db.candles marketId tf ++ done.filterMap (CandleOutput.closedFor marketId tf) := by
  obtain ⟨tick, faults⟩ := call
  obtain ⟨s, logged, keep⟩ := ready.logs fmt (.priceTick tick.timestampNs tick.marketId tick.price)
  obtain ⟨ticks, kept, _⟩ := (r.setWalState s).db.tickStore.append_ok valid
  have stored : tryDb (PerfDb.appendTick tick) (r.setWalState s) =
      .ok () ((r.setWalState s).mapDb fun db => { db with tickStore := ticks }) := by
    simp only [tryDb, PerfDb.appendTick, kept]
    rfl
  let priced := ((r.setWalState s).mapDb fun db => { db with tickStore := ticks }).mapDb
    (PerfDb.setTickPrice tick)
  let built := priced.mapDb fun db =>
    { db with candleBuilder := (db.candleBuilder.onTick tick).1 }
  have storable := (r.db.candleBuilder.onTick_spec tick tick.marketId .sec1 valid).2.2
  obtain ⟨store, done, left, split, run, fine, grown⟩ :=
    PerfDb.appendClosedFaulty_spec faults (r.db.candleBuilder.onTick tick).2 storable built
  have set : (modify (Running.mapDb (PerfDb.setTickPrice tick)) : EngineM Unit)
      ((r.setWalState s).mapDb fun db => { db with tickStore := ticks }) = .ok () priced := rfl
  have build : PerfDb.buildCandles tick priced =
      .ok (r.db.candleBuilder.onTick tick).2 built := rfl
  rw [Running.ingestFaulty, PerfDb.ingestTickFaulty, bind_of_ok (onWal_of_ok logged),
    bind_of_ok stored, bind_of_ok set, bind_of_ok build]
  rcases run with ⟨stops, rfl⟩ | ⟨reason, candle, rest, stops, rfl, refused⟩
  · rw [bind_of_ok stops]
    exact ⟨keep _ rfl rfl, rfl, done, [], split, Or.inl rfl, fine, grown⟩
  · rw [bind_of_error stops]
    exact ⟨keep _ rfl rfl, rfl, done, _, split, Or.inr ⟨candle, rest, rfl, refused⟩, fine, grown⟩

/-- A tick of the market falls into the bucket, and one into a later bucket. -/
def LeftBehind (tf : Timeframe) (ticks : List PriceTick) (bucket : Nat) : Prop :=
  (∃ tick ∈ ticks, tf.bucket tick = bucket) ∧ ∃ tick ∈ ticks, bucket < tf.bucket tick

def PerfDb.StoredOnce (db : PerfDb) (ticks : List PriceTick) : Prop :=
  ∀ marketId tf bucket, LeftBehind tf (ticksOf marketId ticks) bucket →
    (db.candles marketId tf).countP
      (fun candle => candle.timestampNs.toNat = bucket * tf.durationNs) = 1

/-- The disk refuses no candle that the tick closes: none of a timeframe in which the last
tick of its market was in another bucket. -/
def FaultyTick.Harmless (call : FaultyTick) (front : List PriceTick) : Prop :=
  ∀ tf last, (ticksOf call.tick.marketId front).getLast? = some last →
    tf.bucket last ≠ tf.bucket call.tick → call.faults tf = none

/-- A candle with the start of its bucket. -/
def Starts (tf : Timeframe) (bucket : Nat) (_ : List PriceTick) (candle : CandleRecord) : Prop :=
  candle.timestampNs.toNat = bucket * tf.durationNs

section Sorted

variable {tf : Timeframe} {ticks : List PriceTick} {full stored : List CandleRecord}
  {live : Option CandleRecord}

/-- The closed candles are those of the buckets left behind. -/
theorem Charted.left_behind (charted : Charted (Starts tf) tf ticks full live) :
    ∃ past : List Nat, past.Nodup ∧ (∀ bucket, LeftBehind tf ticks bucket ↔ bucket ∈ past) ∧
      full.map (fun candle => candle.timestampNs.toNat) =
        past.map fun bucket => bucket * tf.durationNs := by
  obtain ⟨started, buckets, grouped⟩ := charted
  cases live with
  | none =>
      obtain rfl := started.mp rfl
      have nothing : buckets = [] := by
        rcases buckets with _ | ⟨bucket, buckets⟩
        · rfl
        · obtain ⟨tick, inside, _⟩ := (grouped.complete bucket).mp List.mem_cons_self
          cases inside
      subst nothing
      have records := grouped.records
      rw [Option.toList_none, List.append_nil] at records
      cases records
      exact ⟨[], List.nodup_nil, fun bucket => by simp [LeftBehind], rfl⟩
  | some last =>
      have nonempty : buckets ≠ [] := by
        rintro rfl
        have length := grouped.records.length_eq
        simp at length
      obtain ⟨past, newest, rfl⟩ := List.eq_nil_or_concat buckets |>.resolve_left nonempty
      rw [List.concat_eq_append, Option.toList_some] at grouped
      have increasing := List.pairwise_append.mp grouped.increasing
      refine ⟨past, increasing.1.imp Nat.ne_of_lt, fun bucket => ?_, ?_⟩
      · constructor
        · rintro ⟨occurs, tick, inside, later⟩
          rcases List.mem_append.mp ((grouped.complete bucket).mpr occurs) with before | here
          · exact before
          · have ahead := grouped.le_last inside
            rw [← List.mem_singleton.mp here] at ahead
            omega
        · intro member
          refine ⟨(grouped.complete bucket).mp (List.mem_append_left _ member), ?_⟩
          obtain ⟨tick, inside, same⟩ := (grouped.complete newest).mp
            (List.mem_append_right _ (List.mem_singleton_self _))
          exact ⟨tick, inside, same ▸ increasing.2.2 bucket member newest
            (List.mem_singleton_self _)⟩
      · have starts := grouped.split.1
        clear grouped increasing nonempty started
        induction starts with
        | nil => rfl
        | cons start rest ih => rw [List.map_cons, List.map_cons, ih, start]

/-- Part of the closed candles has every bucket left behind once exactly when it is all of
them. -/
theorem Charted.stored_once_iff (charted : Charted (Starts tf) tf ticks full live)
    (part : stored.Sublist full) :
    (∀ bucket, LeftBehind tf ticks bucket → stored.countP
      (fun candle => candle.timestampNs.toNat = bucket * tf.durationNs) = 1) ↔ stored = full := by
  obtain ⟨past, distinct, behind, starts⟩ := charted.left_behind
  have nodup : (full.map fun candle => candle.timestampNs.toNat).Nodup := by
    rw [starts]
    exact distinct.map fun _ _ same => Nat.eq_of_mul_eq_mul_right tf.durationNs_pos same
  have counted (candles : List CandleRecord) (bucket : Nat) :
      candles.countP (fun candle => candle.timestampNs.toNat = bucket * tf.durationNs) =
        (candles.map fun candle => candle.timestampNs.toNat).count (bucket * tf.durationNs) := by
    rw [List.count, List.countP_map]
    exact List.countP_congr fun candle _ => by simp
  simp only [counted, behind]
  constructor
  · intro once
    refine part.eq_of_length_le ?_
    have every : full.map (fun candle => candle.timestampNs.toNat) ⊆
        stored.map fun candle => candle.timestampNs.toNat := by
      intro start member
      rw [starts] at member
      obtain ⟨bucket, inside, rfl⟩ := List.mem_map.mp member
      exact List.count_pos_iff.mp (by rw [once bucket inside]; exact Nat.one_pos)
    simpa only [List.length_map] using (nodup.subperm every).length_le
  · rintro rfl bucket inside
    refine List.count_eq_one_of_mem nodup ?_
    rw [starts]
    exact List.mem_map_of_mem inside

end Sorted

theorem bucketStartNs_eq_iff (tf : Timeframe) (first second : PriceTick) :
    tf.bucketStartNs first.timestampNs = tf.bucketStartNs second.timestampNs ↔
      tf.bucket first = tf.bucket second := by
  rw [← UInt64.toNat_inj, tf.bucketStartNs_toNat, tf.bucketStartNs_toNat]
  exact Nat.mul_left_inj (Nat.pos_iff_ne_zero.mp tf.durationNs_pos)

/-- A database that has stored part of the candles its ticks have closed. -/
structure Partly (full : MarketId → Timeframe → List CandleRecord) (ticks : List PriceTick)
    (db : PerfDb) : Prop where
  charted : ∀ marketId tf, Charted (Starts tf) tf (ticksOf marketId ticks) (full marketId tf)
    (db.liveCandle marketId tf)
  latest : ∀ marketId tf, (db.candleBuilder.buffer marketId tf).map CandleBuffer.bucketStartNs =
    (ticksOf marketId ticks).getLast?.map fun tick => tf.bucketStartNs tick.timestampNs
  stored : ∀ marketId tf, (db.candles marketId tf).Sublist (full marketId tf)

section Step

variable {full : MarketId → Timeframe → List CandleRecord} {ticks : List PriceTick} {r : Running}
  {call : FaultyTick}

/-- The disk refuses none of the candles exactly when the call is harmless. -/
theorem Partly.harmless_iff (partly : Partly full ticks r.db)
    (valid : call.tick.marketId.toNat < marketCount) :
    call.Harmless ticks ↔
      ∀ output ∈ (r.db.candleBuilder.onTick call.tick).2, ¬ output.Refused call.faults := by
  constructor
  · intro harmless output member refused
    cases output with
    | live candle => exact refused
    | closed candle =>
        obtain ⟨tf, frame, fails⟩ := refused
        have inside : candle ∈ (r.db.candleBuilder.onTick call.tick).2.filterMap
            (CandleOutput.closedFor candle.marketId tf) :=
          List.mem_filterMap.mpr ⟨_, member, if_pos ⟨rfl, frame⟩⟩
        rw [(r.db.candleBuilder.onTick_spec call.tick candle.marketId tf valid).2.1] at inside
        split at inside
        · rename_i market
          have latest := partly.latest candle.marketId tf
          cases buffer : r.db.candleBuilder.buffer candle.marketId tf with
          | none =>
              rw [buffer] at inside
              cases inside
          | some buf =>
              rw [buffer] at inside latest
              obtain ⟨last, found, start⟩ := Option.map_eq_some_iff.mp latest.symm
              have apart : tf.bucket last ≠ tf.bucket call.tick := by
                intro same
                have own := start.symm.trans ((bucketStartNs_eq_iff tf last call.tick).mpr same)
                rw [CandleBuilder.closedBy_same call.tick tf own] at inside
                cases inside
              rw [harmless tf last (market ▸ found) apart] at fails
              cases fails
        · cases inside
  · intro accepted tf last found apart
    have latest := partly.latest call.tick.marketId tf
    rw [found] at latest
    obtain ⟨buf, buffer, start⟩ := Option.map_eq_some_iff.mp latest
    have closes := (r.db.candleBuilder.onTick_spec call.tick call.tick.marketId tf valid).2.1
    rw [if_pos rfl, buffer, CandleBuilder.closedBy_next call.tick tf fun same =>
      apart ((bucketStartNs_eq_iff tf last call.tick).mp (start.symm.trans same))] at closes
    have inside : buf.toRecord call.tick.marketId tf ∈
        (r.db.candleBuilder.onTick call.tick).2.filterMap
          (CandleOutput.closedFor call.tick.marketId tf) := by
      rw [closes]
      exact List.mem_singleton_self _
    obtain ⟨output, member, own⟩ := List.mem_filterMap.mp inside
    cases output with
    | live candle => cases own
    | closed candle =>
        simp only [CandleOutput.closedFor] at own
        split at own
        · rename_i frame
          by_contra fails
          exact accepted _ member ⟨tf, frame.2, Option.isSome_iff_ne_none.mpr fails⟩
        · cases own

theorem Partly.step (partly : Partly full ticks r.db) (fmt : Wal.Format) (ready : r.Ready)
    (valid : call.tick.marketId.toNat < marketCount)
    (ordered : Chronological (ticks ++ [call.tick])) :
    ∃ later, Partly later (ticks ++ [call.tick]) (r.ingestFaulty fmt call).db ∧
      ((∀ marketId tf, (r.ingestFaulty fmt call).db.candles marketId tf = later marketId tf) ↔
        (∀ marketId tf, r.db.candles marketId tf = full marketId tf) ∧ call.Harmless ticks) := by
  obtain ⟨_, builder, done, left, split, stops, fine, grown⟩ :=
    Running.ingestFaulty_spec fmt ready call valid
  have harmless := partly.harmless_iff valid
  obtain ⟨charted, latest, stored⟩ := partly
  let closed (marketId : MarketId) (tf : Timeframe) :=
    (r.db.candleBuilder.onTick call.tick).2.filterMap (CandleOutput.closedFor marketId tf)
  have both (marketId : MarketId) (tf : Timeframe) : closed marketId tf =
      done.filterMap (CandleOutput.closedFor marketId tf) ++
        left.filterMap (CandleOutput.closedFor marketId tf) := by
    change (r.db.candleBuilder.onTick call.tick).2.filterMap _ = _
    rw [split, List.filterMap_append]
  refine ⟨fun marketId tf => full marketId tf ++ closed marketId tf, ⟨fun marketId tf => ?_,
    fun marketId tf => ?_, fun marketId tf => ?_⟩, ?_⟩
  · have live : (r.ingestFaulty fmt call).db.liveCandle marketId tf =
        ((r.ingestFaulty fmt call).db.candleBuilder.buffer marketId tf).map fun buf =>
          buf.toRecord marketId tf := rfl
    rw [live, builder]
    refine charted_onTick r.db.candleBuilder (charted marketId tf) valid
      (fun _ _ _ start => start) (fun market => ?_) (fun _ _ _ _ start => start) ordered
    exact tf.bucketStartNs_toNat call.tick.timestampNs
  · rw [builder, (r.db.candleBuilder.onTick_spec call.tick marketId tf valid).1, ticksOf_append]
    by_cases market : call.tick.marketId = marketId
    · have own : ticksOf marketId [call.tick] = [call.tick] := by simp [ticksOf, market]
      rw [if_pos market, own, List.getLast?_concat, Option.map_some, Option.map_some]
      congr 1
      unfold CandleBuilder.tickBuffer
      cases r.db.candleBuilder.buffer marketId tf with
      | none => rfl
      | some buf =>
          simp only
          split
          · rename_i same
            exact same
          · rfl
    · have others : ticksOf marketId [call.tick] = [] := by simp [ticksOf, market]
      rw [if_neg market, others, List.append_nil]
      exact latest marketId tf
  · rw [grown, both]
    exact (stored marketId tf).append (List.sublist_append_left _ _)
  · have apart (marketId : MarketId) (tf : Timeframe) :
        (r.ingestFaulty fmt call).db.candles marketId tf = full marketId tf ++ closed marketId tf ↔
          r.db.candles marketId tf = full marketId tf ∧
            left.filterMap (CandleOutput.closedFor marketId tf) = [] := by
      rw [grown, both]
      constructor
      · intro same
        have lengths := congrArg List.length same
        have shorter := (stored marketId tf).length_le
        simp only [List.length_append] at lengths
        refine ⟨(stored marketId tf).eq_of_length_le (by omega), List.length_eq_zero_iff.mp ?_⟩
        omega
      · rintro ⟨same, none⟩
        rw [same, none, List.append_nil]
    simp only [apart, forall_and, harmless]
    refine and_congr_right fun _ => ?_
    rcases stops with rfl | ⟨candle, rest, rfl, refused⟩
    · refine iff_of_true (fun marketId tf => rfl) fun output member => fine output ?_
      rwa [split, List.append_nil] at member
    · refine iff_of_false (fun none => ?_) fun accepted => ?_
      · obtain ⟨tf, frame, _⟩ := refused
        have own : (CandleOutput.closed candle).closedFor candle.marketId tf = some candle :=
          if_pos ⟨rfl, frame⟩
        have empty := none candle.marketId tf
        rw [List.filterMap_cons_some own] at empty
        cases empty
      · refine accepted (.closed candle) ?_ refused
        rw [split]
        exact List.mem_append_right _ List.mem_cons_self

end Step

theorem partly_new {db : PerfDb} (store : db.candleStore = .new)
    (builder : db.candleBuilder = .new) : Partly (fun _ _ => []) [] db := by
  have buffer (marketId : MarketId) (tf : Timeframe) :
      db.candleBuilder.buffer marketId tf = none := by
    rw [builder]
    exact buffer_new marketId tf
  refine ⟨fun marketId tf => ?_, fun marketId tf => ?_, fun marketId tf => ?_⟩
  · have live : db.liveCandle marketId tf =
        (db.candleBuilder.buffer marketId tf).map fun buf => buf.toRecord marketId tf := rfl
    rw [live, buffer]
    exact ⟨by simp [ticksOf], [], Grouped.nil⟩
  · rw [buffer]
    rfl
  · rw [PerfDb.candles, store, candles_new]

/-- Part of the closed candles is stored, and all of them as long as the calls are
harmless. -/
def Running.Tracks (front : List FaultyTick) (r : Running) : Prop :=
  r.Ready ∧ ∃ full, Partly full (front.map FaultyTick.tick) r.db ∧
    ((∀ marketId tf, r.db.candles marketId tf = full marketId tf) ↔
      ∀ earlier call, earlier ++ [call] <+: front → call.Harmless (earlier.map FaultyTick.tick))

theorem Running.tracks_run (fmt : Wal.Format) {calls : List FaultyTick} {r : Running}
    (ready : r.Ready) (store : r.db.candleStore = .new) (builder : r.db.candleBuilder = .new)
    (valid : ∀ call ∈ calls, call.tick.marketId.toNat < marketCount)
    (ordered : Chronological (calls.map FaultyTick.tick)) :
    (calls.foldl (Running.ingestFaulty fmt) r).Tracks calls := by
  refine foldl_holds Running.Tracks ?_ fun front call r inside tracks => ?_
  · exact ⟨ready, _, partly_new store builder, by simp [PerfDb.candles, store, candles_new]⟩
  · obtain ⟨ready, full, partly, whole⟩ := tracks
    have known := valid call (inside.subset (by simp))
    have later : Chronological (front.map FaultyTick.tick ++ [call.tick]) := by
      refine List.Pairwise.sublist ?_ ordered
      simpa using (inside.map FaultyTick.tick).sublist
    obtain ⟨next, grown, iff⟩ := partly.step fmt ready known later
    refine ⟨(Running.ingestFaulty_spec fmt ready call known).1, next, ?_, ?_⟩
    · rwa [List.map_append]
    · rw [iff, whole, forall_prefix_concat]

/-- A run from an empty database stores every bucket it leaves behind once exactly when each
of its calls is harmless. -/
theorem storedOnce_iff (fmt : Wal.Format) {calls : List FaultyTick} {r : Running} (ready : r.Ready)
    (store : r.db.candleStore = .new) (builder : r.db.candleBuilder = .new)
    (valid : ∀ call ∈ calls, call.tick.marketId.toNat < marketCount)
    (ordered : Chronological (calls.map FaultyTick.tick)) :
    (calls.foldl (Running.ingestFaulty fmt) r).db.StoredOnce (calls.map FaultyTick.tick) ↔
      ∀ front call, front ++ [call] <+: calls → call.Harmless (front.map FaultyTick.tick) := by
  obtain ⟨_, full, partly, whole⟩ := Running.tracks_run fmt ready store builder valid ordered
  rw [← whole]
  constructor
  · exact fun once marketId tf => ((partly.charted marketId tf).stored_once_iff
      (partly.stored marketId tf)).mp (once marketId tf)
  · exact fun same marketId tf => ((partly.charted marketId tf).stored_once_iff
      (partly.stored marketId tf)).mpr (same marketId tf)

/-- In an empty database every bucket left behind ends up stored once exactly when the disk
refuses no candle that a tick closes. -/
theorem left_behind_stored_once_iff (fmts : Formats) (order : Iteration) (config : PerfDbConfig)
    (disk opened : Disk) (blank : disk.Blank) (db : PerfDb)
    (run : PerfDb.open_ fmts order config disk = .ok db opened) (calls : List FaultyTick)
    (valid : ∀ call ∈ calls, call.tick.marketId.toNat < marketCount)
    (ordered : Chronological (calls.map FaultyTick.tick)) :
    (calls.foldl (Running.ingestFaulty fmts.wal) (opened.running db)).db.StoredOnce
        (calls.map FaultyTick.tick) ↔
      ∀ front call, front ++ [call] <+: calls → call.Harmless (front.map FaultyTick.tick) := by
  obtain ⟨db', opened', again, _, _, store, builder, _, logged⟩ :=
    PerfDb.open_returns order config (blank.stands fmts) (fun snap some => by contradiction)
  obtain ⟨rfl, rfl⟩ := EStateM.Result.ok.inj (again.symm.trans run)
  rw [blank.candles] at store builder
  exact storedOnce_iff fmts.wal logged.ready store (builder.trans seedBuilder_new) valid ordered

/-- Two ticks of one market, a second apart. -/
def firstTick : PriceTick := ⟨1000000000, 0, Vector.replicate 6 0, ⟨0x4059000000000000⟩⟩

def nextTick : PriceTick := ⟨2000000000, 0, Vector.replicate 6 0, ⟨0x4058000000000000⟩⟩

def refusesSecond : Timeframe → Option AppendFault
  | .sec1 => some ⟨"truncate mmap file", true⟩
  | _ => none

theorem left_behind_stored_once_iff_refused :
    ∃ db opened, PerfDb.open_ Bincode.formats .stored ⟨"data", "wal", 1024, .none⟩ .fresh =
        .ok db opened ∧
      let calls : List FaultyTick := [⟨firstTick, refusesSecond⟩, ⟨nextTick, fun _ => none⟩]
      ((calls.foldl (Running.ingestFaulty Bincode.format) (opened.running db)).db.StoredOnce
          (calls.map FaultyTick.tick) ↔
        ∀ front call, front ++ [call] <+: calls →
          call.Harmless (front.map FaultyTick.tick)) := by
  obtain ⟨db, opened, run, _⟩ := PerfDb.open_blank Bincode.formats .stored
    ⟨"data", "wal", 1024, .none⟩ Disk.fresh_blank
  exact ⟨db, opened, run, left_behind_stored_once_iff Bincode.formats .stored _ .fresh opened
    Disk.fresh_blank db run _ (by decide) (by unfold Chronological; decide)⟩

/-- The candle that is refused is not stored later. -/
theorem refused_candle_lost :
    ∃ db opened, PerfDb.open_ Bincode.formats .stored ⟨"data", "wal", 1024, .none⟩ .fresh =
        .ok db opened ∧
      let calls : List FaultyTick := [⟨firstTick, fun _ => none⟩, ⟨nextTick, refusesSecond⟩]
      ¬ (calls.foldl (Running.ingestFaulty Bincode.format) (opened.running db)).db.StoredOnce
        (calls.map FaultyTick.tick) := by
  obtain ⟨db, opened, run, _, _, store, builder, _, logged⟩ :=
    PerfDb.open_returns .stored ⟨"data", "wal", 1024, .none⟩
      (Disk.fresh_blank.stands Bincode.formats) (fun snap some => by contradiction)
  rw [Disk.fresh_blank.candles] at store builder
  refine ⟨db, opened, run, fun once => ?_⟩
  have harmless := (storedOnce_iff Bincode.format logged.ready store
    (builder.trans seedBuilder_new) (by decide) (by unfold Chronological; decide)).mp once
  have last := harmless [⟨firstTick, fun _ => none⟩] ⟨nextTick, refusesSecond⟩
    (List.prefix_refl _) .sec1 firstTick rfl (by decide)
  cases last

end Perfdb
