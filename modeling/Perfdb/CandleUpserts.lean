import Mathlib
import Perfdb.CandleFiles
import Perfdb.Histories

set_option autoImplicit false

namespace Perfdb.Mmap

/-- What is done with a candle store; it may be dropped and opened again. -/
inductive CandleStep where
  | upsert (candle : CandleRecord)
  | reopen

namespace CandleStep

def run (overflow : Overflow) : CandleStep → CandleM Unit
  | .upsert candle => CandleFiles.upsert overflow candle
  | .reopen => fun s =>
      match CandleFiles.open_ s.files with
      | .ok slots files => .ok () ⟨slots, files⟩
      | .error fault files => .error fault { s with files := files }

def after (overflow : Overflow) (s : CandleFiles) (step : CandleStep) : CandleFiles :=
  stateOf (step.run overflow s)

/-- The candle that a pair takes. -/
def accepted (marketId : MarketId) (tf : Timeframe) : CandleStep → Option CandleRecord
  | .upsert candle =>
      if candle.marketId = marketId ∧ candle.timeframe = tf.toU8 ∧
        marketId.toNat < marketCount then some candle else none
  | .reopen => none

/-- A step does not fail for its input or output, and is not cut off. -/
def Calm (overflow : Overflow) (s : CandleFiles) (step : CandleStep) : Prop :=
  ∀ t, step.run overflow s ≠ .error .crash t ∧
    ∀ context, step.run overflow s ≠ .error (.error (.io context)) t

/-- So does every step of a run. -/
def AllCalm (overflow : Overflow) (steps : List CandleStep) (s : CandleFiles) : Prop :=
  ∀ front step, front ++ [step] <+: steps → Calm overflow (front.foldl (after overflow) s) step

end CandleStep

def acceptedCandles (steps : List CandleStep) (marketId : MarketId) (tf : Timeframe) :
    List CandleRecord :=
  steps.filterMap (CandleStep.accepted marketId tf)

/-- A candle store that is opened on a directory without candle files. -/
structure NewCandles (s : CandleFiles) (contents : Contents) (verdicts : List Verdict) : Prop where
  blank : ∀ marketId tf, marketId.toNat < marketCount → contents (candlePath marketId tf) = none
  opened : CandleFiles.open_ ⟨contents, verdicts⟩ = .ok s.slots s.files

section Run

variable {overflow : Overflow} {s : CandleFiles} {lists : MarketId → Timeframe → List CandleRecord}
  {step : CandleStep} {steps : List CandleStep}

/-- Each pair has these candles in its file. -/
def PairsHold (lists : MarketId → Timeframe → List CandleRecord) (s : CandleFiles) : Prop :=
  ∃ flat, HoldsCandles flat s ∧
    ∀ marketId tf, marketId.toNat < marketCount → flat (flatIndex marketId tf) = lists marketId tf

theorem NewCandles.pairsHold {contents : Contents} {verdicts : List Verdict}
    (new : NewCandles s contents verdicts) : PairsHold (fun _ _ => []) s := by
  refine ⟨fun _ => [], ?_, fun _ _ _ => rfl⟩
  have keeps : ∀ idx < marketCount * tfCount, Files.Keeps ⟨contents, verdicts⟩
      (candlePathAt idx) (candlePod.layOut []) := by
    intro idx inside
    obtain ⟨marketId, tf, known, rfl⟩ := exists_pair inside
    rw [candlePathAt_flatIndex]
    exact Or.inr ⟨rfl, Or.inl (new.blank marketId tf known)⟩
  exact openCandles_triple.ok keeps new.opened

theorem PairsHold.read (hold : PairsHold lists s) (overflow : Overflow) {marketId : MarketId}
    (tf : Timeframe) (known : marketId.toNat < marketCount) :
    CandleFiles.candles overflow marketId tf s = .ok (lists marketId tf) ∧
      CandleFiles.candleCount marketId tf s = (lists marketId tf).length := by
  obtain ⟨flat, loaded, same⟩ := hold
  have read := loaded.read overflow ((flatIndex_lt_iff marketId tf).mpr known)
  rwa [same marketId tf known] at read

/-- What a calm step makes of the candles of each pair. -/
theorem PairsHold.advance (hold : PairsHold lists s) (calm : step.Calm overflow s) :
    PairsHold (fun marketId tf => (step.accepted marketId tf).elim (lists marketId tf)
      (supersede candleTime (lists marketId tf))) (step.after overflow s) := by
  obtain ⟨flat, loaded, same⟩ := hold
  unfold CandleStep.after
  cases step with
  | upsert candle =>
      by_cases refused : marketCount ≤ candle.marketId.toNat ∨ 15 < candle.timeframe.toNat
      · obtain ⟨text, stopped⟩ := upsert_refused overflow s refused
        refine ⟨flat, ?_, fun marketId tf known => ?_⟩
        · rw [CandleStep.run, stopped]
          exact loaded
        · have other : ¬ (candle.marketId = marketId ∧ candle.timeframe = tf.toU8 ∧
              marketId.toNat < marketCount) := by
            rintro ⟨rfl, frame, _⟩
            have bound := tf.toU8_lt
            rw [frame] at refused
            simp only [tfCount] at bound
            omega
          change _ = ((CandleStep.upsert candle).accepted marketId tf).elim _ _
          rw [CandleStep.accepted, if_neg other, same marketId tf known]
          rfl
      · obtain ⟨known, frame⟩ := not_or.mp refused
        obtain ⟨tf, frame⟩ : ∃ tf : Timeframe, candle.timeframe = tf.toU8 :=
          Timeframe.exists_toU8 (by omega)
        have result := @upsert_triple overflow _ _ _ (Nat.lt_of_not_le known) frame s loaded
        cases run : (CandleStep.upsert candle).run overflow s with
        | ok value t =>
            rw [show CandleFiles.upsert overflow candle s = _ from run] at result
            refine ⟨_, result, fun marketId other inside => ?_⟩
            change _ = ((CandleStep.upsert candle).accepted marketId other).elim _ _
            rw [CandleStep.accepted]
            by_cases own : flatIndex marketId other = flatIndex candle.marketId tf
            · obtain ⟨rfl, rfl⟩ := flatIndex_inj.mp own
              rw [Function.update_self, if_pos ⟨rfl, frame, inside⟩, same _ _ inside]
              rfl
            · rw [Function.update_of_ne own, same marketId other inside, if_neg]
              · rfl
              · rintro ⟨rfl, equal, _⟩
                exact own (by rw [Timeframe.toU8_injective (equal.symm.trans frame)])
        | error fault t =>
            rw [show CandleFiles.upsert overflow candle s = _ from run] at result
            cases fault with
            | error reason =>
                obtain ⟨⟨context, rfl⟩, _⟩ := result
                exact absurd run ((calm t).2 context)
            | panic => exact result.elim
            | crash => exact absurd run (calm t).1
  | reopen =>
      have result := openCandles_triple s.files fun idx inside => loaded.keeps inside
      cases opened : CandleFiles.open_ s.files with
      | ok slots files =>
          rw [opened] at result
          simp only [CandleStep.run, opened]
          exact ⟨flat, result, same⟩
      | error fault files =>
          have run : CandleStep.reopen.run overflow s = .error fault { s with files := files } := by
            simp only [CandleStep.run, opened]
          rw [opened] at result
          cases fault with
          | error reason =>
              obtain ⟨context, rfl⟩ := result
              exact absurd run ((calm _).2 context)
          | panic => exact result.elim
          | crash => exact absurd run (calm _).1

/-- A step takes its place in the last runs of the pair it is for. -/
theorem lastOfRuns_accepted (front : List CandleStep) (step : CandleStep) :
    (fun marketId tf =>
      lastOfRuns candleTime (acceptedCandles (front ++ [step]) marketId tf)) =
      fun marketId tf => (step.accepted marketId tf).elim
        (lastOfRuns candleTime (acceptedCandles front marketId tf))
        (supersede candleTime (lastOfRuns candleTime (acceptedCandles front marketId tf))) := by
  funext marketId tf
  rw [acceptedCandles, List.filterMap_append, ← acceptedCandles]
  cases taken : step.accepted marketId tf with
  | none => simp [taken]
  | some candle =>
      rw [show [step].filterMap (CandleStep.accepted marketId tf) = [candle] by simp [taken],
        lastOfRuns_append_one]
      rfl

theorem run_pairsHold (hold : PairsHold (fun _ _ => []) s)
    (calm : CandleStep.AllCalm overflow steps s) :
    PairsHold (fun marketId tf => lastOfRuns candleTime (acceptedCandles steps marketId tf))
      (steps.foldl (CandleStep.after overflow) s) := by
  refine foldl_holds_of_meets (fun front s =>
    PairsHold (fun marketId tf => lastOfRuns candleTime (acceptedCandles front marketId tf)) s)
    (fun _ s step => step.Calm overflow s) hold (fun front step s _ before calm => ?_) calm
  rw [lastOfRuns_accepted]
  exact before.advance calm

theorem PairsHold.calm_step (hold : PairsHold lists s) (quiet : s.files.Calm)
    (near : ∀ marketId tf, ((lists marketId tf).length + 1) * candlePod.size ≤ 2 ^ 61) :
    step.Calm overflow s ∧ (step.after overflow s).files.Calm := by
  obtain ⟨flat, loaded, same⟩ := hold
  have returned {t : CandleFiles} (run : step.run overflow s = .ok () t) (calm : t.files.Calm) :
      step.Calm overflow s ∧ (step.after overflow s).files.Calm := by
    rw [CandleStep.Calm, CandleStep.after, run]
    exact ⟨fun _ => ⟨nofun, fun _ => nofun⟩, calm⟩
  cases step with
  | upsert candle =>
      by_cases refused : marketCount ≤ candle.marketId.toNat ∨ 15 < candle.timeframe.toNat
      · obtain ⟨text, stopped⟩ := upsert_refused overflow s refused
        rw [CandleStep.Calm, CandleStep.after, CandleStep.run, stopped]
        exact ⟨fun t => ⟨by simp, by simp⟩, quiet⟩
      · obtain ⟨known, frame⟩ := not_or.mp refused
        obtain ⟨tf, frame⟩ := Timeframe.exists_toU8 (Nat.le_of_not_lt frame)
        have fits := near candle.marketId tf
        rw [← same _ _ (Nat.lt_of_not_le known)] at fits
        obtain ⟨value, t, run, _, calm⟩ := (upsert_returns (Nat.lt_of_not_le known) frame fits).total
          ⟨loaded, quiet⟩ fun _ _ => id
        exact returned run calm
  | reopen =>
      obtain ⟨slots, files, opened, _, calm⟩ := openCandles_returns.total
        ⟨fun idx inside => loaded.keeps inside, quiet⟩ fun _ _ => id
      have run : CandleStep.reopen.run overflow s = .ok () ⟨slots, files⟩ := by
        simp only [CandleStep.run, opened]
      exact returned run calm

/-- On a calm disk every run is calm, as long as its candles fit in memory. -/
theorem allCalm_of_calm (hold : PairsHold (fun _ _ => []) s) (quiet : s.files.Calm)
    (short : steps.length * candlePod.size ≤ 2 ^ 61) : CandleStep.AllCalm overflow steps s := by
  refine (foldl_meets (fun front s => PairsHold (fun marketId tf =>
      lastOfRuns candleTime (acceptedCandles front marketId tf)) s ∧ s.files.Calm)
    (fun _ s step => step.Calm overflow s) ⟨hold, quiet⟩
    fun front step s inside ⟨before, quiet⟩ => ?_).1
  have near (marketId : MarketId) (tf : Timeframe) :
      ((lastOfRuns candleTime (acceptedCandles front marketId tf)).length + 1) *
        candlePod.size ≤ 2 ^ 61 := by
    have latest := lastOfRuns_length_le candleTime (acceptedCandles front marketId tf)
    have accepted : (acceptedCandles front marketId tf).length ≤ front.length :=
      List.length_filterMap_le _ _
    have within := inside.length_le
    rw [List.length_append, List.length_singleton] at within
    exact Nat.le_trans (Nat.mul_le_mul_right _ (by omega)) short
  obtain ⟨calm, quiet⟩ := @PairsHold.calm_step overflow _ _ step before quiet near
  rw [lastOfRuns_accepted]
  exact ⟨calm, before.advance calm, quiet⟩

/-- Every pair has the accepted candles, of each run of equal timestamps the last one only;
candles of unknown pairs are refused without effect, and all others are taken. -/
structure LatestPerRun (overflow : Overflow) (steps : List CandleStep) (s : CandleFiles) : Prop
    where
  candles : ∀ marketId tf,
    CandleFiles.candles overflow marketId tf (steps.foldl (CandleStep.after overflow) s) =
      .ok (lastOfRuns candleTime (acceptedCandles steps marketId tf))
  candleCount : ∀ marketId tf,
    CandleFiles.candleCount marketId tf (steps.foldl (CandleStep.after overflow) s) =
      (lastOfRuns candleTime (acceptedCandles steps marketId tf)).length
  increasing : ∀ marketId tf stored,
    CandleFiles.candles overflow marketId tf (steps.foldl (CandleStep.after overflow) s) =
      .ok stored →
    (acceptedCandles steps marketId tf).Pairwise (fun a b => a.timestampNs ≤ b.timestampNs) →
      stored.Pairwise fun a b => a.timestampNs < b.timestampNs
  refuses : ∀ front candle, front ++ [.upsert candle] <+: steps →
    marketCount ≤ candle.marketId.toNat ∨ 15 < candle.timeframe.toNat →
      ∃ text, CandleFiles.upsert overflow candle (front.foldl (CandleStep.after overflow) s) =
        .error (.error (.invalidArgument text)) (front.foldl (CandleStep.after overflow) s)
  accepts : ∀ front candle, front ++ [.upsert candle] <+: steps →
    ¬ (marketCount ≤ candle.marketId.toNat ∨ 15 < candle.timeframe.toNat) →
      ∃ t, CandleFiles.upsert overflow candle (front.foldl (CandleStep.after overflow) s) =
        .ok () t

/-- An upsert for a known pair returns, unless its calls fail or it is cut off. -/
theorem upsert_accepted {candle : CandleRecord} (hold : PairsHold lists s)
    (known : ¬ (marketCount ≤ candle.marketId.toNat ∨ 15 < candle.timeframe.toNat))
    (calm : CandleStep.Calm overflow s (.upsert candle)) :
    ∃ t, CandleFiles.upsert overflow candle s = .ok () t := by
  obtain ⟨flat, loaded, _⟩ := hold
  obtain ⟨inside, frame⟩ := not_or.mp known
  obtain ⟨tf, frame⟩ := Timeframe.exists_toU8 (Nat.le_of_not_lt frame)
  have result := @upsert_triple overflow _ _ _ (Nat.lt_of_not_le inside) frame s loaded
  cases run : CandleFiles.upsert overflow candle s with
  | ok value t => exact ⟨t, rfl⟩
  | error fault t =>
      rw [run] at result
      cases fault with
      | error reason =>
          obtain ⟨⟨context, rfl⟩, _⟩ := result
          exact absurd run ((calm t).2 context)
      | panic => exact result.elim
      | crash => exact absurd run (calm t).1

theorem run_candles (hold : PairsHold (fun _ _ => []) s)
    (calm : CandleStep.AllCalm overflow steps s) (marketId : MarketId) (tf : Timeframe) :
    CandleFiles.candles overflow marketId tf (steps.foldl (CandleStep.after overflow) s) =
        .ok (lastOfRuns candleTime (acceptedCandles steps marketId tf)) ∧
      CandleFiles.candleCount marketId tf (steps.foldl (CandleStep.after overflow) s) =
        (lastOfRuns candleTime (acceptedCandles steps marketId tf)).length := by
  by_cases known : marketId.toNat < marketCount
  · exact (run_pairsHold hold calm).read overflow tf known
  · have none : acceptedCandles steps marketId tf = [] := by
      refine List.filterMap_eq_nil_iff.mpr fun step _ => ?_
      cases step with
      | upsert candle => exact if_neg fun own => known own.2.2
      | reopen => rfl
    have outside : marketCount * tfCount ≤ flatIndex marketId tf :=
      Nat.le_of_not_lt (mt (flatIndex_lt_iff marketId tf).mp known)
    rw [CandleFiles.candles, CandleFiles.candleCount, FileArray.records, FileArray.recordCount,
      FileArray.slot_outside _ outside, none]
    exact ⟨rfl, rfl⟩

theorem lastOfRuns_candles_increasing {records : List CandleRecord}
    (ordered : records.Pairwise fun a b => a.timestampNs ≤ b.timestampNs) :
    (lastOfRuns candleTime records).Pairwise fun a b => a.timestampNs < b.timestampNs := by
  have times : (records.map candleTime).Pairwise (· ≤ ·) :=
    List.pairwise_map.mpr (ordered.imp fun less => UInt64.le_iff_toNat_le.mp less)
  have increasing := lastOfRuns_increasing candleTime (List.isChain_iff_pairwise.mpr times)
  exact (List.pairwise_map.mp (List.isChain_iff_pairwise.mp increasing)).imp fun less =>
    UInt64.lt_iff_toNat_lt.mpr less

/-- In a new store each pair keeps the last version per run of equal timestamps, however often
the store is opened again. -/
theorem upserts_keep_latest (overflow : Overflow) (contents : Contents) (verdicts : List Verdict)
    (s : CandleFiles) (new : NewCandles s contents verdicts) (steps : List CandleStep)
    (calm : CandleStep.AllCalm overflow steps s) : LatestPerRun overflow steps s := by
  have read := run_candles new.pairsHold calm
  refine ⟨fun marketId tf => (read marketId tf).1, fun marketId tf => (read marketId tf).2,
    fun marketId tf stored found ordered => ?_,
    fun front candle _ unknown => upsert_refused overflow _ unknown,
    fun front candle inside known => ?_⟩
  · obtain rfl := Except.ok.inj ((read marketId tf).1.symm.trans found)
    exact lastOfRuns_candles_increasing ordered
  · have earlier := run_pairsHold new.pairsHold fun before step within =>
      calm before step (within.trans ((List.prefix_append _ _).trans inside))
    exact upsert_accepted earlier known (calm front (.upsert candle) inside)

end Run

def newCandleFiles : CandleFiles := ⟨Vector.replicate _ none, ⟨fun _ => none, []⟩⟩

theorem newCandleFiles_new : NewCandles newCandleFiles (fun _ => none) [] := by
  have created : call "create candle_store dir" (fun _ => true) id ⟨fun _ => none, []⟩ =
      .ok () ⟨fun _ => none, []⟩ := rfl
  exact ⟨fun _ _ _ => rfl,
    (bind_of_ok created).trans (FileArray.openExisting_none _ _ fun _ => rfl)⟩

def minuteCandle (minute : Nat) (close : F64) : CandleRecord :=
  ⟨UInt64.ofNat (minute * 60000000000), ⟨0x4059000000000000⟩, ⟨0x4059000000000000⟩,
    ⟨0x4059000000000000⟩, close, ⟨0⟩, 0, 4, 0⟩

/-- More minutes than the first allocation holds, the last of them three times, before and
after the store is opened again, then a candle of another pair, and two of unknown ones. -/
def upsertRun : List CandleStep :=
  (List.range 90000).map (fun minute => .upsert (minuteCandle minute ⟨0x4059000000000000⟩)) ++
    [.upsert (minuteCandle 89999 ⟨0x405A000000000000⟩), .reopen,
      .upsert (minuteCandle 89999 ⟨0x405B000000000000⟩),
      .upsert { minuteCandle 0 ⟨0x405B000000000000⟩ with marketId := 1, timeframe := 5 },
      .upsert { minuteCandle 0 ⟨0x405B000000000000⟩ with marketId := 18 },
      .upsert { minuteCandle 0 ⟨0x405B000000000000⟩ with timeframe := 16 }]

/-- A new store takes them all but the last two. -/
theorem upserts_keep_latest_grown :
    NewCandles newCandleFiles (fun _ => none) [] ∧
      LatestPerRun .wrapping upsertRun newCandleFiles := by
  have count : upsertRun.length = 90006 := by simp [upsertRun]
  have short : upsertRun.length * candlePod.size ≤ 2 ^ 61 := by
    rw [count]
    decide
  exact ⟨newCandleFiles_new, upserts_keep_latest .wrapping (fun _ => none) [] newCandleFiles
    newCandleFiles_new upsertRun (allCalm_of_calm newCandleFiles_new.pairsHold rfl short)⟩

end Perfdb.Mmap
