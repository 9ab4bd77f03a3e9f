import Mathlib
import Perfdb.FaultyCandles
import Perfdb.Messages
import Perfdb.StoreKeys

set_option autoImplicit false

namespace Perfdb

/-- The I/O errors a tick meets behind the log: when it is stored, and when a candle of a
timeframe is. -/
structure TickFaults where
  tick : Option AppendFault
  candles : Timeframe → Option AppendFault

/-- `TickStore::append` on a disk that may refuse the tick. -/
def TickStore.appendFaulty (fault : Option AppendFault) (store : TickStore) (tick : PriceTick) :
    Option PerfDbError × TickStore :=
  match store.append tick, fault with
  | .error reason, _ => (some reason, store)
  | .ok later, none => (none, later)
  | .ok _, some fault =>
      (some (.io fault.context),
        if fault.opens then
          ⟨modifySlot store.files tick.marketId.toNat fun file => some (file.getD [])⟩
        else store)

/-- A tick that is taken is of a known market, and the disk did not refuse it. -/
theorem TickStore.appendFaulty_taken {fault : Option AppendFault} {store later : TickStore}
    {tick : PriceTick} (taken : store.appendFaulty fault tick = (none, later)) :
    tick.marketId.toNat < marketCount ∧ fault = none := by
  by_cases known : tick.marketId.toNat < marketCount
  · refine ⟨known, ?_⟩
    cases fault with
    | none => rfl
    | some fault =>
        simp only [appendFaulty, append, Nat.not_le.mpr known, ↓reduceIte] at taken
        cases taken
  · simp only [appendFaulty, append, Nat.not_lt.mp known, ↓reduceIte] at taken
    cases taken

namespace PerfDb

def appendTickFaulty (fault : Option AppendFault) (tick : PriceTick) : EngineM Unit := fun r =>
  match r.db.tickStore.appendFaulty fault tick with
  | (none, store) => .ok () (r.mapDb fun db => { db with tickStore := store })
  | (some reason, store) =>
      .error (.error reason) (r.mapDb fun db => { db with tickStore := store })

/-- `ingest_tick` on such a disk. -/
def ingestTickOn (fmt : Wal.Format) (faults : TickFaults) (tick : PriceTick) :
    EngineM (List CandleOutput) := do
  onWal (Wal.append fmt (.priceTick tick.timestampNs tick.marketId tick.price))
  appendTickFaulty faults.tick tick
  modify (Running.mapDb (setTickPrice tick))
  let outputs ← buildCandles tick
  appendClosedFaulty faults.candles outputs
  modify (Running.mapDb fun db => db.publish .prices
    (.priceUpdate tick.marketId tick.price tick.timestampNs))
  pure outputs

/-- A disk that takes the ticks may still refuse candles. -/
theorem ingestTickOn_none (fmt : Wal.Format) (candles : Timeframe → Option AppendFault)
    (tick : PriceTick) :
    ingestTickOn fmt ⟨none, candles⟩ tick = ingestTickFaulty fmt candles tick := by
  have stored : appendTickFaulty none tick = tryDb (appendTick tick) := by
    funext r
    simp only [appendTickFaulty, TickStore.appendFaulty, tryDb, appendTick]
    cases r.db.tickStore.append tick <;> rfl
  rw [ingestTickOn, stored, ingestTickFaulty]

end PerfDb

/-- The tick sets the price of its market and closes a candle that the disk refuses. -/
structure Running.Withholds (fmt : Wal.Format) (r : Running) (tick : PriceTick)
    (faults : TickFaults) : Prop where
  logged : ∃ s, Wal.append fmt (.priceTick tick.timestampNs tick.marketId tick.price)
    r.walState = .ok () s
  known : tick.marketId.toNat < marketCount
  stored : faults.tick = none
  refused : ∃ output ∈ (r.db.candleBuilder.onTick tick).2, output.Refused faults.candles

/-- A call of the engine, with the I/O errors that a tick meets. -/
inductive DiskCall where
  | event (indexed : IndexedEvent)
  | tick (sample : PriceTick) (faults : TickFaults)
  | checkpoint (block : UInt64) (hash : String) (timestamp : UInt64)

def DiskCall.after (fmt : Wal.Format) (r : Running) : DiskCall → Running
  | .event indexed => stateOf (PerfDb.processEvent fmt indexed r)
  | .tick sample faults => stateOf (PerfDb.ingestTickOn fmt faults sample r)
  | .checkpoint block hash timestamp => r.mapDb (PerfDb.saveCheckpoint block hash timestamp)

/-- The state after a list of calls, some of which may have failed. -/
def afterDiskCalls (fmt : Wal.Format) (calls : List DiskCall) (r : Running) : Running :=
  calls.foldl (DiskCall.after fmt) r

/-- The messages that calls send. -/
def sentBy (fmt : Wal.Format) (calls : List DiskCall) (r : Running) :
    List (Channel × PubSubMessage) :=
  (afterDiskCalls fmt calls r).db.pubsub.sent.drop r.db.pubsub.sent.length

/-- A tick that withholds its price sets it and sends nothing; any other is taken and
published, or neither. -/
theorem PerfDb.ingestTickOn_outcome (fmt : Wal.Format) (r : Running) (tick : PriceTick)
    (faults : TickFaults) :
    let later := stateOf (ingestTickOn fmt faults tick r)
    (r.Withholds fmt tick faults ∧ later.db.toStores = (r.db.setTickPrice tick).toStores ∧
        later.db.pubsub.sent = r.db.pubsub.sent) ∨
      ¬ r.Withholds fmt tick faults ∧
        ((later.db.toStores = r.db.toStores ∧ later.db.pubsub.sent = r.db.pubsub.sent) ∨
          later.db.toStores = (r.db.setTickPrice tick).toStores ∧ later.db.pubsub.sent =
            r.db.pubsub.sent ++
              [(.prices, .priceUpdate tick.marketId tick.price tick.timestampNs)]) := by
  cases logged : Wal.append fmt (.priceTick tick.timestampNs tick.marketId tick.price)
      r.walState with
  | error reason s =>
      have failed : onWal (Wal.append fmt (.priceTick tick.timestampNs tick.marketId tick.price)) r =
          .error reason (r.setWalState s) := by
        simp only [onWal, logged]
      rw [ingestTickOn, bind_of_error failed]
      refine Or.inr ⟨fun withholds => ?_, Or.inl ⟨rfl, rfl⟩⟩
      obtain ⟨s, appended⟩ := withholds.logged
      cases logged.symm.trans appended
  | ok _ s =>
      rw [ingestTickOn, bind_of_ok (onWal_of_ok logged)]
      cases kept : (r.setWalState s).db.tickStore.appendFaulty faults.tick tick with
      | mk failure ticks =>
          cases failure with
          | some reason =>
              have failed : appendTickFaulty faults.tick tick (r.setWalState s) = .error
                  (.error reason)
                  ((r.setWalState s).mapDb fun db => { db with tickStore := ticks }) := by
                simp only [appendTickFaulty, kept]
              rw [bind_of_error failed]
              refine Or.inr ⟨fun withholds => ?_, Or.inl ⟨rfl, rfl⟩⟩
              obtain ⟨later, taken, _⟩ :=
                (r.setWalState s).db.tickStore.append_ok withholds.known
              rw [withholds.stored] at kept
              simp only [TickStore.appendFaulty, taken] at kept
              cases kept
          | none =>
              have taken : appendTickFaulty faults.tick tick (r.setWalState s) =
                  .ok () ((r.setWalState s).mapDb fun db => { db with tickStore := ticks }) := by
                simp only [appendTickFaulty, kept]
              obtain ⟨known, stored⟩ := TickStore.appendFaulty_taken kept
              let priced := ((r.setWalState s).mapDb fun db =>
                { db with tickStore := ticks }).mapDb (setTickPrice tick)
              let built := priced.mapDb fun db =>
                { db with candleBuilder := (db.candleBuilder.onTick tick).1 }
              have set : (modify (Running.mapDb (setTickPrice tick)) : EngineM Unit)
                  ((r.setWalState s).mapDb fun db => { db with tickStore := ticks }) =
                    .ok () priced := rfl
              have build : buildCandles tick priced =
                  .ok (r.db.candleBuilder.onTick tick).2 built := rfl
              have storable := (r.db.candleBuilder.onTick_spec tick tick.marketId .sec1 known).2.2
              obtain ⟨store, done, left, split, run, fine, _⟩ := appendClosedFaulty_spec
                faults.candles (r.db.candleBuilder.onTick tick).2 storable built
              rw [bind_of_ok taken, bind_of_ok set, bind_of_ok build]
              rcases run with ⟨passes, rfl⟩ | ⟨reason, candle, rest, stops, rfl, refused⟩
              · rw [bind_of_ok passes]
                refine Or.inr ⟨fun withholds => ?_, Or.inr ⟨rfl, rfl⟩⟩
                obtain ⟨output, member, refused⟩ := withholds.refused
                rw [split, List.append_nil] at member
                exact fine output member refused
              · rw [bind_of_error stops]
                refine Or.inl ⟨⟨⟨s, logged⟩, known, stored, .closed candle, ?_, refused⟩, rfl, rfl⟩
                rw [split]
                exact List.mem_append_right _ List.mem_cons_self

section Calls

variable {fmt : Wal.Format} {r : Running}

theorem DiskCall.after_sent (call : DiskCall) :
    (call.after fmt r).db.pubsub.sent = r.db.pubsub.sent ++ sentBy fmt [call] r := by
  have grown : r.db.pubsub.sent <+: (call.after fmt r).db.pubsub.sent := by
    cases call with
    | event indexed =>
        rcases @PerfDb.processEvent_outcome fmt r indexed with ⟨_, sent⟩ | ⟨_, sent⟩
        · exact ⟨[], (List.append_nil _).trans sent.symm⟩
        · exact ⟨_, sent.symm⟩
    | tick sample faults =>
        rcases PerfDb.ingestTickOn_outcome fmt r sample faults with
          ⟨_, _, sent⟩ | ⟨_, ⟨_, sent⟩ | ⟨_, sent⟩⟩
        · exact ⟨[], (List.append_nil _).trans sent.symm⟩
        · exact ⟨[], (List.append_nil _).trans sent.symm⟩
        · exact ⟨_, sent.symm⟩
    | checkpoint => exact List.prefix_refl _
  exact (List.prefix_iff_eq_append.mp grown).symm

/-- What one call sends can be read off the bus. -/
theorem DiskCall.sent_eq (call : DiskCall) {news : List (Channel × PubSubMessage)}
    (sent : (call.after fmt r).db.pubsub.sent = r.db.pubsub.sent ++ news) :
    sentBy fmt [call] r = news :=
  List.append_cancel_left (call.after_sent.symm.trans sent)

end Calls

end Perfdb
