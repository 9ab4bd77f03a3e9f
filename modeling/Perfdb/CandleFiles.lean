import Mathlib
import Perfdb.CandleOutputs
import Perfdb.FileArrays
import Perfdb.LastOfRuns
import Perfdb.MmapBounds
import Perfdb.NumberedNames

set_option autoImplicit false

namespace Perfdb.Mmap

section Fields

/-- Numbers of given widths one behind the other. -/
def fieldBytes (fields : List (Nat × Nat)) : Bytes :=
  fields.flatMap fun field => Bytes.le field.1 field.2

/-- The number in a range of bytes. -/
def fieldAt (start width : Nat) (bytes : Bytes) : Nat := Bytes.ofLe ((bytes.drop start).take width)

theorem fieldBytes_length (fields : List (Nat × Nat)) :
    (fieldBytes fields).length = (fields.map Prod.fst).sum := by
  simp only [fieldBytes, List.length_flatMap, Bytes.le_length]

theorem fieldAt_fieldBytes (front : List (Nat × Nat)) (width value : Nat)
    (back : List (Nat × Nat)) (fits : value < 256 ^ width) :
    fieldAt (front.map Prod.fst).sum width (fieldBytes (front ++ (width, value) :: back)) =
      value := by
  have parts : fieldBytes (front ++ (width, value) :: back) =
      fieldBytes front ++ (Bytes.le width value ++ fieldBytes back) := by
    simp only [fieldBytes, List.flatMap_append, List.flatMap_cons]
  rw [fieldAt, parts, ← fieldBytes_length, List.drop_left, List.take_left' (Bytes.le_length _ _),
    Bytes.ofLe_le width value fits]

end Fields

def candleFields (candle : CandleRecord) : List (Nat × Nat) :=
  [(8, candle.timestampNs.toNat), (8, candle.open_.bits.toNat), (8, candle.high.bits.toNat),
    (8, candle.low.bits.toNat), (8, candle.close.bits.toNat), (4, candle.volume.bits.toNat),
    (2, candle.marketId.toNat), (1, candle.timeframe.toNat), (1, candle.pad.toNat)]

def candleFromBytes (bytes : Bytes) : CandleRecord where
  timestampNs := UInt64.ofNat (fieldAt 0 8 bytes)
  open_ := ⟨UInt64.ofNat (fieldAt 8 8 bytes)⟩
  high := ⟨UInt64.ofNat (fieldAt 16 8 bytes)⟩
  low := ⟨UInt64.ofNat (fieldAt 24 8 bytes)⟩
  close := ⟨UInt64.ofNat (fieldAt 32 8 bytes)⟩
  volume := ⟨UInt32.ofNat (fieldAt 40 4 bytes)⟩
  marketId := UInt16.ofNat (fieldAt 44 2 bytes)
  timeframe := UInt8.ofNat (fieldAt 46 1 bytes)
  pad := UInt8.ofNat (fieldAt 47 1 bytes)

theorem candleFromBytes_fieldBytes (candle : CandleRecord) :
    candleFromBytes (fieldBytes (candleFields candle)) = candle := by
  have field (count width value : Nat) (fits : value < 256 ^ width)
      (whole : candleFields candle = (candleFields candle).take count ++
        (width, value) :: (candleFields candle).drop (count + 1)) :
      fieldAt (((candleFields candle).take count).map Prod.fst).sum width
        (fieldBytes (candleFields candle)) = value := by
    have there := fieldAt_fieldBytes ((candleFields candle).take count) width value
      ((candleFields candle).drop (count + 1)) fits
    rwa [← whole] at there
  have timestampNs := field 0 8 _ candle.timestampNs.toNat_lt rfl
  have open_ := field 1 8 _ candle.open_.bits.toNat_lt rfl
  have high := field 2 8 _ candle.high.bits.toNat_lt rfl
  have low := field 3 8 _ candle.low.bits.toNat_lt rfl
  have close := field 4 8 _ candle.close.bits.toNat_lt rfl
  have volume := field 5 4 _ candle.volume.bits.toNat_lt rfl
  have marketId := field 6 2 _ candle.marketId.toNat_lt rfl
  have timeframe := field 7 1 _ candle.timeframe.toNat_lt rfl
  have pad := field 8 1 _ candle.pad.toNat_lt rfl
  simp only [candleFields, List.take_succ_cons, List.take_zero, List.map_cons, List.map_nil,
    List.sum_cons, List.sum_nil, Nat.reduceAdd, Nat.add_zero] at *
  rw [candleFromBytes, timestampNs, open_, high, low, close, volume, marketId, timeframe, pad]
  simp

def candlePod : Pod CandleRecord where
  size := 48
  positive := by decide
  bounded := by decide
  bytesOf candle := fieldBytes (candleFields candle)
  fromBytes := candleFromBytes
  bytesOf_length candle := by simp [fieldBytes_length, candleFields]
  fromBytes_bytesOf := candleFromBytes_fieldBytes

/-- Pre-computed candle storage with all files; a pair of market and timeframe has its file at
its place in the flat array. -/
abbrev CandleFiles := FileArray (marketCount * tfCount)

abbrev CandleM := ArrayM (marketCount * tfCount)

def candlePath (marketId : MarketId) (tf : Timeframe) : String :=
  twiceNumberedName "m" "_tf" ".candle" 4 2 marketId.toNat tf.toU8.toNat

namespace CandleFiles

/-- Open or create the candle store directory. -/
def open_ : FilesM (Vector (Option MmapFile) (marketCount * tfCount)) := do
  call "create candle_store dir" (fun _ => true) id
  FileArray.openExisting (allSeries.map fun pair => (flatIndex pair.1 pair.2, candlePath pair.1 pair.2))
    (Vector.replicate _ none)

def ensureFile (marketId : MarketId) (tf : Timeframe) : CandleM MmapFile :=
  let idx := flatIndex marketId tf
  if marketCount * tfCount ≤ idx then
    raise (.error (.error (.invalidArgument (toString "market_id " ++ toString marketId.toNat ++
      toString " out of range"))))
  else FileArray.ensure idx (candlePath marketId tf)

def appendTo (overflow : Overflow) (candle : CandleRecord) : MmapM Unit := do
  let _ ← MmapFile.appendRecord overflow candlePod candle
  pure ()

/-- What `upsert` does to the file of the pair: if the last stored candle has the same
timestamp, it is overwritten in place, otherwise a new record is appended. -/
def upsertTo (overflow : Overflow) (candle : CandleRecord) : MmapM Unit := do
  let file ← get
  let count := file.recordCount candlePod
  if 0 < count then do
    let lastOffset := (count - 1) * candlePod.size
    match ← raise (file.readRecord overflow candlePod lastOffset) with
    | some last =>
        if last.timestampNs = candle.timestampNs then
          MmapFile.writeAt overflow lastOffset (candlePod.bytesOf candle)
        else appendTo overflow candle
    | none => appendTo overflow candle
  else appendTo overflow candle

/-- Overwrite the last candle if it has the same timestamp, else append. -/
def upsert (overflow : Overflow) (candle : CandleRecord) : CandleM Unit :=
  match Timeframe.fromU8 candle.timeframe with
  | none =>
      raise (.error (.error (.invalidArgument (toString "invalid timeframe: " ++
        toString candle.timeframe.toNat))))
  | some tf => do
      let file ← ensureFile candle.marketId tf
      FileArray.onFile (flatIndex candle.marketId tf) file (upsertTo overflow candle)

/-- Zero-copy slice of all candles for a (market, timeframe) pair. -/
def candles (overflow : Overflow) (marketId : MarketId) (tf : Timeframe) (s : CandleFiles) :
    Except Fault (List CandleRecord) :=
  s.records overflow candlePod (flatIndex marketId tf)

/-- Number of stored candles for a (market, timeframe) pair. -/
def candleCount (marketId : MarketId) (tf : Timeframe) (s : CandleFiles) : Nat :=
  s.recordCount candlePod (flatIndex marketId tf)

end CandleFiles

section Paths

/-- The path of the file at a place of the array. -/
def candlePathAt (idx : Nat) : String :=
  twiceNumberedName "m" "_tf" ".candle" 4 2 (idx / tfCount) (idx % tfCount)

theorem candlePathAt_flatIndex (marketId : MarketId) (tf : Timeframe) :
    candlePathAt (flatIndex marketId tf) = candlePath marketId tf := by
  have bound := tf.toU8_lt
  have market : flatIndex marketId tf / tfCount = marketId.toNat := by
    simp only [flatIndex, tfCount] at bound ⊢
    omega
  have frame : flatIndex marketId tf % tfCount = tf.toU8.toNat := by
    simp only [flatIndex, tfCount] at bound ⊢
    omega
  rw [candlePathAt, market, frame, candlePath]

theorem candlePathAt_injective : candlePathAt.Injective := by
  intro idx other same
  obtain ⟨market, frame⟩ := twiceNumberedName_injective _ _ _ _ _ (c := '_') rfl rfl same
  rw [← Nat.div_add_mod idx tfCount, market, frame, Nat.div_add_mod]

theorem flatIndex_lt_iff (marketId : MarketId) (tf : Timeframe) :
    flatIndex marketId tf < marketCount * tfCount ↔ marketId.toNat < marketCount := by
  have bound := tf.toU8_lt
  simp only [flatIndex, marketCount, tfCount] at bound ⊢
  omega

end Paths

section Upsert

variable {path : String} {before : Contents} {overflow : Overflow} {records : List CandleRecord}

def candleTime (candle : CandleRecord) : Nat := candle.timestampNs.toNat

/-- Data within the payload is overwritten with as much. -/
theorem writeAt_triple {front old new back : Bytes} {exit : Fault → Opened → Prop}
    (equal : new.length = old.length) (crash : ∀ s, exit .crash s) :
    Triple (Opened.At path before (front ++ (old ++ back)))
      (MmapFile.writeAt overflow front.length new)
      (fun _ => Opened.At path before (front ++ (new ++ back))) exit := by
  refine get_bind fun s held => ?_
  obtain ⟨⟨⟨rest, layout, mapped, within⟩, logicalLen, inside⟩, named, apart⟩ := held
  have size := layout.size
  have long : (front ++ (old ++ back)).length = front.length + new.length + back.length := by
    simp only [List.length_append]
    omega
  refine raise_bind (Overflow.add_ok (by omega)) ?_
  rw [if_neg (by omega)]
  refine raise_bind (Overflow.add_ok (by simp only [headerSize]; omega)) (copy_triple
    (by simp only [headerSize]; omega) ?_ ?_ (fun s _ => crash _) fun s _ => crash _) <;>
    rintro s rfl
  · simp only [headerSize]
    omega
  · have header : (Bytes.le 8 (front ++ (old ++ back)).length ++ front).length =
        headerSize + front.length := by
      rw [List.length_append, Bytes.le_length, headerSize]
    have same : (front ++ (new ++ back)).length = (front ++ (old ++ back)).length := by
      simp only [List.length_append]
      omega
    have bytes : overwrite (headerSize + front.length) new s.bytes =
        Bytes.le 8 (front ++ (new ++ back)).length ++ (front ++ (new ++ back) ++ rest) := by
      rw [Opened.bytes, layout.bytes, same, ← header]
      have split := overwrite_append (Bytes.le 8 (front ++ (old ++ back)).length ++ front) new
        (old ++ (back ++ rest))
      rw [List.drop_left' equal.symm] at split
      simpa only [List.append_assoc] using split
    refine ⟨⟨⟨rest, ⟨?_, ?_⟩, mapped, ?_⟩, ?_, ?_⟩, named, named ▸ Files.Apart.write (named ▸ apart) _⟩
    · rw [Opened.copied, Files.write_contents, bytes]
    · rw [same]
      exact size
    · rw [same]
      exact within
    · rw [same]
      exact logicalLen
    · rw [same]
      exact inside

theorem writeAt_calm {offset : Nat} {data : Bytes} :
    Triple (fun s => s.files.Calm) (MmapFile.writeAt overflow offset data)
      (fun _ s => s.files.Calm) (fun fault _ => fault ≠ .crash) := by
  have panics : ∀ (fault : Fault) (s : Opened), fault = .panic → fault ≠ .crash := by
    rintro fault s rfl
    simp
  refine get_bind fun s calm => Triple.bind (fun _ s => s.files.Calm) ?_ fun stop =>
    Triple.ite (fun _ t _ => nofun) fun _ => Triple.bind (fun _ s => s.files.Calm) ?_
      fun start => Triple.consequence copy_calm (fun _ start => start) (fun _ _ done => done) panics
  · exact Triple.consequence add_calm (fun t same => same ▸ calm) (fun _ _ done => done) panics
  · exact Triple.consequence add_calm (fun _ start => start) (fun _ _ done => done) panics

theorem appendTo_triple (candle : CandleRecord) :
    Triple (Opened.At path before (candlePod.layOut records)) (CandleFiles.appendTo overflow candle)
      (fun _ => Opened.At path before (candlePod.layOut (records ++ [candle])))
      (ChangeExit path before (candlePod.layOut records)) := by
  refine Triple.bind (fun _ => Opened.At path before (candlePod.layOut (records ++ [candle])))
    (Triple.consequence (appendRecord_triple overflow candle) (fun _ held => held)
      (fun _ _ appended => appended.2) fun fault s exit => ?_) fun _ => Triple.ret fun _ held => held
  cases fault with
  | error reason => exact exit
  | panic => exact exit
  | crash => trivial

/-- The last stored candle gives way to one with its timestamp, by a write in its place or an
append. -/
theorem upsertTo_by (candle : CandleRecord) {pre : Opened → Prop} {exit : Fault → Opened → Prop}
    (post : List CandleRecord → Opened → Prop)
    (held : ∀ s, pre s → Opened.At path before (candlePod.layOut records) s)
    (append : Triple pre (CandleFiles.appendTo overflow candle)
      (fun _ => post (records ++ [candle])) exit)
    (write : ∀ front last, records = front ++ [last] →
      Triple pre (MmapFile.writeAt overflow (candlePod.layOut front).length
        (candlePod.bytesOf candle)) (fun _ => post (front ++ [candle])) exit) :
    Triple pre (CandleFiles.upsertTo overflow candle)
      (fun _ => post (supersede candleTime records candle)) exit := by
  refine get_bind fun s start => ?_
  have held := held s start
  have append : Triple (· = s) (CandleFiles.appendTo overflow candle)
      (fun _ => post (records ++ [candle])) exit := fun t same => append t (same ▸ start)
  have count := held.holds.recordCount
  rcases List.eq_nil_or_concat records with rfl | ⟨front, last, rfl⟩
  · rw [if_neg (by rw [count]; exact Nat.lt_irrefl 0)]
    exact append
  · rw [List.concat_eq_append] at *
    have offset : (s.recordCount candlePod - 1) * candlePod.size =
        (candlePod.layOut front).length := by
      rw [count, List.length_append, List.length_singleton, Nat.add_sub_cancel,
        candlePod.layOut_length]
    have payload := candlePod.layOut_append_one front last
    have long : (candlePod.layOut (front ++ [last])).length =
        (candlePod.layOut front).length + candlePod.size := by
      rw [payload, List.length_append, candlePod.bytesOf_length]
    obtain ⟨rest, ⟨_, size⟩, _, _⟩ := held.holds.span
    have read : s.readRecord overflow candlePod (candlePod.layOut front).length =
        .ok (some last) := by
      rw [held.holds.readRecord (by omega), if_neg (by omega), payload, List.drop_left,
        List.take_of_length_le (Nat.le_of_eq (candlePod.bytesOf_length last)),
        candlePod.fromBytes_bytesOf]
    rw [if_pos (by rw [count, List.length_append, List.length_singleton]; omega), offset]
    refine raise_bind read ?_
    by_cases same : last.timestampNs = candle.timestampNs
    · have replaced : supersede candleTime (front ++ [last]) candle = front ++ [candle] := by
        rw [supersede, List.getLast?_concat, if_pos (by simp [candleTime, same]),
          List.dropLast_concat]
      simp only [same, ↓reduceIte, replaced]
      exact fun t begun => write front last rfl t (begun ▸ start)
    · have behind : supersede candleTime (front ++ [last]) candle =
          front ++ [last] ++ [candle] := by
        rw [supersede, List.getLast?_concat, if_neg]
        simpa [candleTime, UInt64.toNat_inj] using same
      simp only [same, ↓reduceIte, behind]
      exact append

theorem overwriteLast_triple (candle : CandleRecord) {front : List CandleRecord}
    {last : CandleRecord} (exit : Fault → Opened → Prop) (crash : ∀ s, exit .crash s) :
    Triple (Opened.At path before (candlePod.layOut (front ++ [last])))
      (MmapFile.writeAt overflow (candlePod.layOut front).length (candlePod.bytesOf candle))
      (fun _ => Opened.At path before (candlePod.layOut (front ++ [candle]))) exit := by
  have equal : (candlePod.bytesOf candle).length = (candlePod.bytesOf last).length := by
    rw [candlePod.bytesOf_length, candlePod.bytesOf_length]
  have written := @writeAt_triple path before overflow (candlePod.layOut front)
    (candlePod.bytesOf last) (candlePod.bytesOf candle) [] exit equal crash
  rwa [List.append_nil, List.append_nil, ← candlePod.layOut_append_one,
    ← candlePod.layOut_append_one] at written

theorem upsertTo_triple (candle : CandleRecord) :
    Triple (Opened.At path before (candlePod.layOut records)) (CandleFiles.upsertTo overflow candle)
      (fun _ => Opened.At path before (candlePod.layOut (supersede candleTime records candle)))
      (ChangeExit path before (candlePod.layOut records)) := by
  refine upsertTo_by candle (fun records => Opened.At path before (candlePod.layOut records))
    (fun _ held => held) (appendTo_triple candle) ?_
  rintro front last rfl
  exact overwriteLast_triple candle _ fun _ => trivial

/-- On a calm disk an upsert returns, as long as the candles fit in memory. -/
theorem upsertTo_returns (candle : CandleRecord)
    (near : (records.length + 1) * candlePod.size ≤ 2 ^ 61) :
    Triple (fun s => s.At path before (candlePod.layOut records) ∧ s.files.Calm)
      (CandleFiles.upsertTo overflow candle)
      (fun _ s => s.At path before (candlePod.layOut (supersede candleTime records candle)) ∧
        s.files.Calm) fun _ _ => False := by
  refine upsertTo_by candle
    (fun records s => s.At path before (candlePod.layOut records) ∧ s.files.Calm)
    (fun _ start => start.1) ?_ ?_
  · exact Triple.bind (fun _ s => s.At path before (candlePod.layOut (records ++ [candle])) ∧
      s.files.Calm) (Triple.consequence (appendRecord_returns overflow candle)
        (fun _ start => ⟨start.1, start.2, near⟩) (fun _ _ done => done) fun _ _ never => never)
      fun _ => Triple.ret fun _ done => done
  · rintro front last rfl
    exact returns_of_both (overwriteLast_triple candle (fun fault _ => fault = .crash)
      fun _ => rfl) writeAt_calm fun fault _ crash noCrash => noCrash crash

end Upsert

section Load

variable {overflow : Overflow} {lists : Nat → List CandleRecord} {s : CandleFiles}

abbrev HoldsCandles (lists : Nat → List CandleRecord) (s : CandleFiles) : Prop :=
  s.Loaded candlePod candlePathAt lists []

theorem Timeframe.all_toU8 : ∀ i (below : i < Timeframe.all.length),
    Timeframe.all[i].toU8.toNat = i := by
  decide

/-- Every place of the array belongs to a pair. -/
theorem exists_pair {idx : Nat} (inside : idx < marketCount * tfCount) :
    ∃ marketId tf, marketId.toNat < marketCount ∧ flatIndex marketId tf = idx := by
  have small : idx / tfCount < marketCount := Nat.div_lt_of_lt_mul (Nat.mul_comm _ _ ▸ inside)
  have frame : idx % tfCount < Timeframe.all.length := Nat.mod_lt _ (by decide)
  refine ⟨(idx / tfCount).toUInt16, Timeframe.all[idx % tfCount], ?_, ?_⟩
  · rwa [toUInt16_toNat small]
  · rw [flatIndex, Timeframe.all_toU8, toUInt16_toNat small]
    exact Nat.div_add_mod' idx tfCount

/-- What opening the store asks of the pairs and places of its array. -/
theorem seriesEntries : (∀ entry ∈ allSeries.map fun pair =>
      (flatIndex pair.1 pair.2, candlePath pair.1 pair.2),
        entry.1 < marketCount * tfCount ∧ entry.2 = candlePathAt entry.1) ∧
    ∀ idx < marketCount * tfCount, idx ∈ (allSeries.map fun pair =>
      (flatIndex pair.1 pair.2, candlePath pair.1 pair.2)).map Prod.fst := by
  refine ⟨fun entry member => ?_, fun idx inside => ?_⟩
  · obtain ⟨pair, inside, rfl⟩ := List.mem_map.mp member
    exact ⟨(flatIndex_lt_iff _ _).mpr (mem_allSeries.mp inside),
      (candlePathAt_flatIndex _ _).symm⟩
  · obtain ⟨marketId, tf, known, rfl⟩ := exists_pair inside
    rw [List.map_map]
    exact List.mem_map.mpr ⟨(marketId, tf), mem_allSeries.mpr known, rfl⟩

theorem openCandles_triple :
    Triple (fun files => ∀ idx < marketCount * tfCount,
        files.Keeps (candlePathAt idx) (candlePod.layOut (lists idx)))
      CandleFiles.open_ (fun slots files => HoldsCandles lists ⟨slots, files⟩) OpenFails := by
  refine Triple.bind (fun _ files => ∀ idx < marketCount * tfCount,
    files.Keeps (candlePathAt idx) (candlePod.layOut (lists idx))) (call_triple ?_ ?_ ?_ ?_)
    fun _ => FileArray.openAll_triple candlePathAt_injective seriesEntries.1 seriesEntries.2
  · exact fun files keeps _ idx inside => (keeps idx inside).congr rfl
  · exact fun files _ => ⟨_, rfl⟩
  · exact fun files _ => trivial
  · exact fun files _ _ => trivial

theorem openCandles_returns :
    Triple (fun files => (∀ idx < marketCount * tfCount,
        files.Keeps (candlePathAt idx) (candlePod.layOut (lists idx))) ∧ files.Calm)
      CandleFiles.open_ (fun slots files => HoldsCandles lists ⟨slots, files⟩ ∧ files.Calm)
      fun _ _ => False :=
  Triple.bind (fun _ files => (∀ idx < marketCount * tfCount,
      files.Keeps (candlePathAt idx) (candlePod.layOut (lists idx))) ∧ files.Calm)
    (call_calm (fun _ start => ⟨start.2, rfl⟩) fun _ start =>
      ⟨fun idx inside => (start.1 idx inside).congr rfl, start.2.served⟩)
    fun _ => FileArray.openAll_returns candlePathAt_injective seriesEntries.1 seriesEntries.2

/-- A candle that a known pair takes replaces the last one of its time, or comes behind it. -/
theorem upsert_triple {candle : CandleRecord} {tf : Timeframe}
    (known : candle.marketId.toNat < marketCount) (frame : candle.timeframe = tf.toU8) :
    Triple (HoldsCandles lists) (CandleFiles.upsert overflow candle)
      (fun _ => HoldsCandles (Function.update lists (flatIndex candle.marketId tf)
        (supersede candleTime (lists (flatIndex candle.marketId tf)) candle)))
      (FileArray.Exit candlePod candlePathAt lists) := by
  have inside := (flatIndex_lt_iff candle.marketId tf).mpr known
  unfold CandleFiles.upsert CandleFiles.ensureFile
  simp only [frame, Timeframe.fromU8_toU8, if_neg (Nat.not_le.mpr inside),
    ← candlePathAt_flatIndex]
  exact Triple.bind _ (FileArray.ensure_triple candlePathAt_injective inside) fun file =>
    FileArray.onFile_triple candlePathAt_injective inside fun before => upsertTo_triple candle

/-- On a calm disk a known pair takes every candle, as long as they fit in memory. -/
theorem upsert_returns {candle : CandleRecord} {tf : Timeframe}
    (known : candle.marketId.toNat < marketCount) (frame : candle.timeframe = tf.toU8)
    (near : ((lists (flatIndex candle.marketId tf)).length + 1) * candlePod.size ≤ 2 ^ 61) :
    Triple (fun s => HoldsCandles lists s ∧ s.files.Calm) (CandleFiles.upsert overflow candle)
      (fun _ s => HoldsCandles (Function.update lists (flatIndex candle.marketId tf)
        (supersede candleTime (lists (flatIndex candle.marketId tf)) candle)) s ∧ s.files.Calm)
      fun _ _ => False := by
  have inside := (flatIndex_lt_iff candle.marketId tf).mpr known
  unfold CandleFiles.upsert CandleFiles.ensureFile
  simp only [frame, Timeframe.fromU8_toU8, if_neg (Nat.not_le.mpr inside),
    ← candlePathAt_flatIndex]
  exact Triple.bind _ (FileArray.ensure_returns candlePathAt_injective inside) fun file =>
    FileArray.onFile_returns candlePathAt_injective inside fun before =>
      upsertTo_returns candle near

theorem Timeframe.exists_toU8 {v : UInt8} (known : v.toNat ≤ 15) :
    ∃ tf : Timeframe, v = tf.toU8 := by
  have below : v.toNat < Timeframe.all.length := Nat.lt_succ_of_le known
  exact ⟨Timeframe.all[v.toNat], UInt8.toNat_inj.mp (Timeframe.all_toU8 _ below).symm⟩

/-- A candle of an unknown market or timeframe is refused, and changes nothing. -/
theorem upsert_refused (overflow : Overflow) (s : CandleFiles) {candle : CandleRecord}
    (unknown : marketCount ≤ candle.marketId.toNat ∨ 15 < candle.timeframe.toNat) :
    ∃ text, CandleFiles.upsert overflow candle s = .error (.error (.invalidArgument text)) s := by
  unfold CandleFiles.upsert
  cases frame : Timeframe.fromU8 candle.timeframe with
  | none => exact ⟨_, rfl⟩
  | some tf =>
      have below : candle.timeframe.toNat < Timeframe.all.length :=
        (List.getElem?_eq_some_iff.mp frame).1
      have outside : marketCount * tfCount ≤ flatIndex candle.marketId tf := by
        have inside := mt (flatIndex_lt_iff candle.marketId tf).mp
        have count : Timeframe.all.length = 16 := rfl
        omega
      have refused : ∃ text, CandleFiles.ensureFile candle.marketId tf s =
          .error (.error (.invalidArgument text)) s := by
        simp only [CandleFiles.ensureFile, if_pos outside]
        exact ⟨_, rfl⟩
      obtain ⟨text, refused⟩ := refused
      exact ⟨text, bind_of_error refused⟩

end Load

end Perfdb.Mmap
