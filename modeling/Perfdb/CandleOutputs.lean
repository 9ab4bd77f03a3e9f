import Mathlib
import Perfdb.Candles

set_option autoImplicit false

namespace Perfdb

theorem Timeframe.toU8_lt (tf : Timeframe) : tf.toU8.toNat < tfCount := by
  cases tf <;> decide

theorem Timeframe.toU8_injective {tf other : Timeframe} (same : tf.toU8 = other.toU8) :
    tf = other := by
  cases tf <;> cases other <;> first | rfl | exact absurd same (by decide)

@[simp] theorem Timeframe.fromU8_toU8 (tf : Timeframe) : fromU8 tf.toU8 = some tf := by
  cases tf <;> rfl

theorem Timeframe.mem_all (tf : Timeframe) : tf ∈ all := by
  cases tf <;> decide

theorem flatIndex_lt {marketId : MarketId} (valid : marketId.toNat < marketCount)
    (tf : Timeframe) : flatIndex marketId tf < marketCount * tfCount := by
  have bound := tf.toU8_lt
  simp only [flatIndex, marketCount, tfCount] at valid bound ⊢
  omega

theorem flatIndex_inj {marketId other : MarketId} {tf otherTf : Timeframe} :
    flatIndex marketId tf = flatIndex other otherTf ↔ marketId = other ∧ tf = otherTf := by
  refine ⟨fun same => ?_, fun ⟨market, frame⟩ => by rw [market, frame]⟩
  have bound := tf.toU8_lt
  have otherBound := otherTf.toU8_lt
  simp only [flatIndex, tfCount] at same bound otherBound
  refine ⟨UInt16.toNat_inj.mp (by omega), Timeframe.toU8_injective (UInt8.toNat_inj.mp ?_)⟩
  omega

theorem toUInt16_toNat {i : Nat} (inside : i < marketCount) : i.toUInt16.toNat = i := by
  simp only [marketCount] at inside
  exact Nat.mod_eq_of_lt (by omega)

/-- The pairs of known markets and timeframes, in the order in which loops visit them. -/
def allSeries : List (MarketId × Timeframe) :=
  (List.range marketCount).flatMap fun mid => Timeframe.all.map fun tf => (mid.toUInt16, tf)

theorem mem_allSeries {marketId : MarketId} {tf : Timeframe} :
    (marketId, tf) ∈ allSeries ↔ marketId.toNat < marketCount := by
  simp only [allSeries, List.mem_flatMap, List.mem_range, List.mem_map, Prod.mk.injEq]
  constructor
  · rintro ⟨mid, inside, other, _, rfl, rfl⟩
    rwa [toUInt16_toNat inside]
  · exact fun known => ⟨marketId.toNat, known, tf, tf.mem_all, by simp, rfl⟩

theorem allSeries_nodup : allSeries.Nodup := by
  refine List.nodup_flatMap.mpr ⟨fun mid _ => ?_, ?_⟩
  · exact List.Nodup.map (fun tf other same => (Prod.mk.inj same).2) (by decide)
  · refine List.nodup_range.imp_of_mem fun {mid other} inside below apart => ?_
    intro pair first second
    obtain ⟨_, _, rfl⟩ := List.mem_map.mp first
    obtain ⟨_, _, same⟩ := List.mem_map.mp second
    have numbers := congrArg UInt16.toNat (Prod.mk.inj same).1
    rw [toUInt16_toNat (List.mem_range.mp inside), toUInt16_toNat (List.mem_range.mp below)]
      at numbers
    exact apart numbers.symm

/-- Of a list without duplicates one element is picked out. -/
theorem filterMap_of_unique {α β : Type} {items : List α} (distinct : items.Nodup) {item : α}
    (member : item ∈ items) {pick : α → Option β}
    (others : ∀ other ∈ items, other ≠ item → pick other = none) :
    items.filterMap pick = (pick item).toList := by
  induction items with
  | nil => cases member
  | cons head items ih =>
      obtain ⟨absent, distinct⟩ := List.nodup_cons.mp distinct
      by_cases here : head = item
      · subst here
        have rest : items.filterMap pick = [] := by
          refine List.filterMap_eq_nil_iff.mpr fun other inside => ?_
          refine others other (List.mem_cons_of_mem _ inside) ?_
          rintro rfl
          exact absent inside
        rw [List.filterMap_cons, rest]
        cases pick head <;> rfl
      · have inside := (List.mem_cons.mp member).resolve_left (Ne.symm here)
        rw [List.filterMap_cons_none (others head List.mem_cons_self here)]
        exact ih distinct inside fun other within => others other (List.mem_cons_of_mem _ within)

def CandleBuilder.buffer (builder : CandleBuilder) (marketId : MarketId) (tf : Timeframe) :
    Option CandleBuffer :=
  builder.buffers[flatIndex marketId tf]?.getD none

def CandleOutput.closedFor (marketId : MarketId) (tf : Timeframe) :
    CandleOutput → Option CandleRecord
  | .closed candle =>
      if candle.marketId = marketId ∧ candle.timeframe = tf.toU8 then some candle else none
  | .live _ => none

def CandleOutput.Storable : CandleOutput → Prop
  | .closed candle => candle.marketId.toNat < marketCount ∧ ∃ tf : Timeframe, candle.timeframe = tf.toU8
  | .live _ => True

namespace CandleBuilder

variable (builder : CandleBuilder) (tick : PriceTick) (marketId : MarketId) (tf : Timeframe)

/-- The candles that a tick closes in a buffer. -/
def closedBy (tick : PriceTick) (tf : Timeframe) (buffer : Option CandleBuffer) :
    List CandleRecord :=
  (tickBuffer tick tf buffer).2.filterMap (CandleOutput.closedFor tick.marketId tf)

@[simp] theorem closedBy_none : closedBy tick tf none = [] := rfl

theorem closedBy_same {buf : CandleBuffer}
    (same : buf.bucketStartNs = tf.bucketStartNs tick.timestampNs) :
    closedBy tick tf (some buf) = [] := by
  simp only [closedBy, tickBuffer, same, ↓reduceIte]
  rfl

theorem closedBy_next {buf : CandleBuffer}
    (apart : buf.bucketStartNs ≠ tf.bucketStartNs tick.timestampNs) :
    closedBy tick tf (some buf) = [buf.toRecord tick.marketId tf] := by
  have own : (CandleOutput.closed (buf.toRecord tick.marketId tf)).closedFor tick.marketId tf =
      some (buf.toRecord tick.marketId tf) := if_pos ⟨rfl, rfl⟩
  simp only [closedBy, tickBuffer, apart, ↓reduceIte]
  rw [List.filterMap_cons_some own]
  rfl

theorem tickBuffer_outputs (buffer : Option CandleBuffer) :
    ∀ output ∈ (tickBuffer tick tf buffer).2,
      (∃ candle, output = .live candle) ∨
        ∃ candle, output = .closed candle ∧ candle.marketId = tick.marketId ∧
          candle.timeframe = tf.toU8 := by
  unfold tickBuffer
  intro output member
  cases buffer with
  | none => exact Or.inl ⟨_, List.mem_singleton.mp member⟩
  | some buf =>
      simp only at member
      split at member
      · exact Or.inl ⟨_, List.mem_singleton.mp member⟩
      · rcases List.mem_cons.mp member with closed | live
        · exact Or.inr ⟨_, closed, rfl, rfl⟩
        · exact Or.inl ⟨_, List.mem_singleton.mp live⟩

/-- The outputs of a buffer close no candle of another series. -/
theorem closedFor_of_ne {other : Timeframe} (buffer : Option CandleBuffer)
    (apart : ¬ (tick.marketId = marketId ∧ other = tf)) :
    (tickBuffer tick other buffer).2.filterMap (CandleOutput.closedFor marketId tf) = [] := by
  rw [List.filterMap_eq_nil_iff]
  intro output member
  rcases tickBuffer_outputs tick other buffer output member with
    ⟨candle, rfl⟩ | ⟨candle, rfl, market, frame⟩
  · rfl
  · refine if_neg fun ⟨sameMarket, sameFrame⟩ => apart ⟨market.symm.trans sameMarket, ?_⟩
    exact Timeframe.toU8_injective (frame.symm.trans sameFrame)

theorem buffer_set {other : MarketId} (otherTf : Timeframe) (value : CandleBuffer)
    (valid : other.toNat < marketCount) :
    buffer ⟨modifySlot builder.buffers (flatIndex other otherTf) fun _ => some value⟩ marketId tf =
      if other = marketId ∧ otherTf = tf then some value else builder.buffer marketId tf := by
  simp only [buffer, getElem?_modifySlot, flatIndex_inj]
  split
  · rename_i same
    obtain ⟨rfl, rfl⟩ := same
    simp [Vector.getElem?_eq_getElem (flatIndex_lt valid otherTf)]
  · rfl

theorem tickTimeframes_spec (valid : tick.marketId.toNat < marketCount) (tfs : List Timeframe)
    (distinct : tfs.Nodup) :
    (tickTimeframes tick tfs builder).1.buffer marketId tf =
        (if tick.marketId = marketId ∧ tf ∈ tfs then
          some (tickBuffer tick tf (builder.buffer marketId tf)).1
        else builder.buffer marketId tf) ∧
      (tickTimeframes tick tfs builder).2.filterMap (CandleOutput.closedFor marketId tf) =
        (if tick.marketId = marketId ∧ tf ∈ tfs then
          closedBy tick tf (builder.buffer marketId tf)
        else []) ∧
      ∀ output ∈ (tickTimeframes tick tfs builder).2, output.Storable := by
  induction tfs generalizing builder with
  | nil => simp [tickTimeframes]
  | cons head tfs ih =>
      obtain ⟨absent, distinct⟩ := List.nodup_cons.mp distinct
      have set := builder.buffer_set marketId tf head
        (tickBuffer tick head (builder.buffer tick.marketId head)).1 valid
      obtain ⟨buffers, closed, storable⟩ := ih
        ⟨modifySlot builder.buffers (flatIndex tick.marketId head) fun _ =>
          some (tickBuffer tick head (builder.buffer tick.marketId head)).1⟩ distinct
      simp only [tickTimeframes]
      refine ⟨?_, ?_, ?_⟩
      · refine buffers.trans ?_
        rw [set]
        by_cases here : tick.marketId = marketId ∧ head = tf
        · obtain ⟨rfl, rfl⟩ := here
          simp [absent]
        · simp only [here, ↓reduceIte, List.mem_cons]
          congr 1
          grind
      · rw [List.filterMap_append]
        refine (congrArg _ closed).trans ?_
        rw [set]
        by_cases here : tick.marketId = marketId ∧ head = tf
        · obtain ⟨rfl, rfl⟩ := here
          simp [absent, closedBy, buffer]
        · rw [closedFor_of_ne tick marketId tf _ here, List.nil_append]
          simp only [here, ↓reduceIte, List.mem_cons]
          congr 1
          grind
      · intro output member
        rcases List.mem_append.mp member with first | rest
        · rcases tickBuffer_outputs tick head _ output first with
            ⟨candle, rfl⟩ | ⟨candle, rfl, market, frame⟩
          · trivial
          · exact ⟨by rw [market]; exact valid, head, frame⟩
        · exact storable output rest

/-- A tick of a known market reaches each of its series once, and no other series. -/
theorem onTick_spec (valid : tick.marketId.toNat < marketCount) :
    (builder.onTick tick).1.buffer marketId tf =
        (if tick.marketId = marketId then
          some (tickBuffer tick tf (builder.buffer marketId tf)).1
        else builder.buffer marketId tf) ∧
      (builder.onTick tick).2.filterMap (CandleOutput.closedFor marketId tf) =
        (if tick.marketId = marketId then closedBy tick tf (builder.buffer marketId tf) else []) ∧
      ∀ output ∈ (builder.onTick tick).2, output.Storable := by
  have spec := builder.tickTimeframes_spec tick marketId tf valid Timeframe.all (by decide)
  simp only [Timeframe.mem_all, and_true] at spec
  rw [onTick, if_neg (Nat.not_le.mpr valid)]
  exact spec

end CandleBuilder

theorem CandleStore.append_ok (store : CandleStore) {candle : CandleRecord} {tf : Timeframe}
    (valid : candle.marketId.toNat < marketCount) (frame : candle.timeframe = tf.toU8) :
    ∃ later, store.append candle = .ok later ∧ ∀ marketId other,
      later.candles marketId other = store.candles marketId other ++
        ((CandleOutput.closed candle).closedFor marketId other).toList := by
  have inside := flatIndex_lt valid tf
  refine ⟨⟨modifySlot store.files (flatIndex candle.marketId tf)
    fun file => some (file.getD [] ++ [candle])⟩, ?_, fun marketId other => ?_⟩
  · simp only [append, frame, Timeframe.fromU8_toU8, Nat.not_le.mpr inside, ↓reduceIte]
  · simp only [candles, getElem?_modifySlot, flatIndex_inj, CandleOutput.closedFor]
    by_cases same : candle.marketId = marketId ∧ tf = other
    · obtain ⟨rfl, rfl⟩ := same
      simp [frame, Vector.getElem?_eq_getElem inside]
    · have apart : ¬ (candle.marketId = marketId ∧ candle.timeframe = other.toU8) :=
        fun ⟨market, same'⟩ => same ⟨market, Timeframe.toU8_injective (frame.symm.trans same')⟩
      simp [same, apart]

@[simp] theorem TickStore.ticks_new (marketId : MarketId) : TickStore.new.ticks marketId = [] := by
  simp only [ticks, new, Vector.getElem?_replicate]
  split <;> rfl

theorem TickStore.append_ok (store : TickStore) {tick : PriceTick}
    (valid : tick.marketId.toNat < marketCount) :
    ∃ later, store.append tick = .ok later ∧ ∀ marketId,
      later.ticks marketId =
        store.ticks marketId ++ if tick.marketId = marketId then [tick] else [] := by
  refine ⟨⟨modifySlot store.files tick.marketId.toNat
    fun file => some (file.getD [] ++ [tick])⟩, ?_, fun marketId => ?_⟩
  · rw [append, if_neg (Nat.not_le.mpr valid)]
  · simp only [ticks, getElem?_modifySlot, UInt16.toNat_inj]
    by_cases same : tick.marketId = marketId
    · subst same
      simp [Vector.getElem?_eq_getElem valid]
    · rw [if_neg same, if_neg same, List.append_nil]

end Perfdb
