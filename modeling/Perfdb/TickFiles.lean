import Mathlib
import Perfdb.CandleOutputs
import Perfdb.FileArrays
import Perfdb.Histories
import Perfdb.NumberedNames

set_option autoImplicit false

namespace Perfdb.Mmap

/-- Per-market append-only tick storage with all files; a market has its file at its place. -/
abbrev TickFiles := FileArray marketCount

abbrev TickM := ArrayM marketCount

def marketPath (mid : Nat) : String := numberedName "market_" ".tick" 4 mid

namespace TickFiles

/-- Open or create the tick store directory. New markets are opened lazily on first append. -/
def open_ : FilesM (Vector (Option MmapFile) marketCount) := do
  call "create tick_store dir" (fun _ => true) id
  FileArray.openExisting ((List.range marketCount).map fun mid => (mid, marketPath mid))
    (Vector.replicate _ none)

def ensureFile (mid : Nat) : TickM MmapFile := FileArray.ensure mid (marketPath mid)

def appendTo (overflow : Overflow) (tick : PriceTick) : MmapM Unit := do
  let _ ← MmapFile.appendRecord overflow tickPod tick
  pure ()

/-- Append a tick to the appropriate market file. -/
def append (overflow : Overflow) (tick : PriceTick) : TickM Unit :=
  let mid := tick.marketId.toNat
  if marketCount ≤ mid then
    raise (.error (.error (.invalidArgument (toString "market_id " ++ toString mid ++
      " out of range (max " ++ toString (marketCount - 1) ++ ")"))))
  else do
    let file ← ensureFile mid
    FileArray.onFile mid file (appendTo overflow tick)

/-- Zero-copy slice of all ticks for a market. -/
def ticks (overflow : Overflow) (marketId : MarketId) (s : TickFiles) :
    Except Fault (List PriceTick) :=
  s.records overflow tickPod marketId.toNat

def tickCount (marketId : MarketId) (s : TickFiles) : Nat :=
  s.recordCount tickPod marketId.toNat

end TickFiles

@[simp] theorem marketPath_inj (mid other : Nat) :
    marketPath mid = marketPath other ↔ mid = other :=
  numberedName_inj _ _ _ _ _

theorem marketPath_injective : marketPath.Injective := fun mid other => (marketPath_inj mid other).mp

section Load

variable {overflow : Overflow} {lists : Nat → List PriceTick} {s : TickFiles}

abbrev HoldsTicks (lists : Nat → List PriceTick) (s : TickFiles) : Prop :=
  s.Loaded tickPod marketPath lists []

/-- What opening the store asks of the places of its array. -/
theorem marketEntries :
    (∀ entry ∈ (List.range marketCount).map fun mid => (mid, marketPath mid),
      entry.1 < marketCount ∧ entry.2 = marketPath entry.1) ∧
    ∀ mid < marketCount,
      mid ∈ ((List.range marketCount).map fun mid => (mid, marketPath mid)).map Prod.fst := by
  refine ⟨fun entry member => ?_, fun mid inside => ?_⟩
  · obtain ⟨mid, inside, rfl⟩ := List.mem_map.mp member
    exact ⟨List.mem_range.mp inside, rfl⟩
  · rw [List.map_map]
    exact List.mem_map.mpr ⟨mid, List.mem_range.mpr inside, rfl⟩

theorem openStore_triple :
    Triple (fun files => ∀ mid < marketCount,
        files.Keeps (marketPath mid) (tickPod.layOut (lists mid)))
      TickFiles.open_ (fun slots files => HoldsTicks lists ⟨slots, files⟩) OpenFails := by
  refine Triple.bind (fun _ files => ∀ mid < marketCount,
    files.Keeps (marketPath mid) (tickPod.layOut (lists mid))) (call_triple ?_ ?_ ?_ ?_) fun _ =>
    FileArray.openAll_triple marketPath_injective marketEntries.1 marketEntries.2
  · exact fun files keeps _ mid inside => (keeps mid inside).congr rfl
  · exact fun files _ => ⟨_, rfl⟩
  · exact fun files _ => trivial
  · exact fun files _ _ => trivial

theorem openStore_returns :
    Triple (fun files => (∀ mid < marketCount,
        files.Keeps (marketPath mid) (tickPod.layOut (lists mid))) ∧ files.Calm)
      TickFiles.open_ (fun slots files => HoldsTicks lists ⟨slots, files⟩ ∧ files.Calm)
      fun _ _ => False :=
  Triple.bind (fun _ files => (∀ mid < marketCount,
      files.Keeps (marketPath mid) (tickPod.layOut (lists mid))) ∧ files.Calm)
    (call_calm (fun _ start => ⟨start.2, rfl⟩) fun _ start =>
      ⟨fun mid inside => (start.1 mid inside).congr rfl, start.2.served⟩)
    fun _ => FileArray.openAll_returns marketPath_injective marketEntries.1 marketEntries.2

theorem appendTick_triple {tick : PriceTick} (inside : tick.marketId.toNat < marketCount) :
    Triple (HoldsTicks lists) (TickFiles.append overflow tick)
      (fun _ => HoldsTicks (Function.update lists tick.marketId.toNat
        (lists tick.marketId.toNat ++ [tick])))
      (FileArray.Exit tickPod marketPath lists) := by
  unfold TickFiles.append
  rw [if_neg (Nat.not_le.mpr inside)]
  refine Triple.bind _ (FileArray.ensure_triple marketPath_injective inside) fun file =>
    FileArray.onFile_triple marketPath_injective inside fun before => ?_
  refine Triple.bind _ (Triple.consequence (appendRecord_triple overflow tick) (fun _ held => held)
    (fun _ _ appended => appended.2) fun fault s exit => ?_) fun _ => Triple.ret fun _ held => held
  cases fault with
  | error reason => exact exit
  | panic => exact exit
  | crash => trivial

/-- On a calm disk it always is, as long as the ticks fit in memory. -/
theorem appendTick_returns {tick : PriceTick} (inside : tick.marketId.toNat < marketCount)
    (near : ((lists tick.marketId.toNat).length + 1) * tickPod.size ≤ 2 ^ 61) :
    Triple (fun s => HoldsTicks lists s ∧ s.files.Calm) (TickFiles.append overflow tick)
      (fun _ s => HoldsTicks (Function.update lists tick.marketId.toNat
        (lists tick.marketId.toNat ++ [tick])) s ∧ s.files.Calm) fun _ _ => False := by
  unfold TickFiles.append
  rw [if_neg (Nat.not_le.mpr inside)]
  refine Triple.bind _ (FileArray.ensure_returns marketPath_injective inside) fun file =>
    FileArray.onFile_returns marketPath_injective inside fun before => ?_
  exact Triple.bind (fun _ s => s.At (marketPath tick.marketId.toNat) before
      (tickPod.layOut (lists tick.marketId.toNat ++ [tick])) ∧ s.files.Calm)
    (Triple.consequence (appendRecord_returns overflow tick)
      (fun _ start => ⟨start.1, start.2, near⟩) (fun _ _ done => done) fun _ _ never => never)
    fun _ => Triple.ret fun _ done => done

end Load

/-- What is done with a tick store; it may be dropped and opened again. -/
inductive TickStep where
  | append (tick : PriceTick)
  | reopen

namespace TickStep

def run (overflow : Overflow) : TickStep → TickM Unit
  | .append tick => TickFiles.append overflow tick
  | .reopen => fun s =>
      match TickFiles.open_ s.files with
      | .ok slots files => .ok () ⟨slots, files⟩
      | .error fault files => .error fault { s with files := files }

def after (overflow : Overflow) (s : TickFiles) (step : TickStep) : TickFiles :=
  stateOf (step.run overflow s)

/-- The tick that the market of this number takes. -/
def accepted (mid : Nat) : TickStep → Option PriceTick
  | .append tick => if tick.marketId.toNat = mid ∧ mid < marketCount then some tick else none
  | .reopen => none

/-- A step does not fail for its input or output, and is not cut off. -/
def Calm (overflow : Overflow) (s : TickFiles) (step : TickStep) : Prop :=
  ∀ t, step.run overflow s ≠ .error .crash t ∧
    ∀ context, step.run overflow s ≠ .error (.error (.io context)) t

end TickStep

/-- No step of a run fails for its input or output, or is cut off. -/
def Untroubled (overflow : Overflow) (steps : List TickStep) (s : TickFiles) : Prop :=
  ∀ front step, front ++ [step] <+: steps →
    TickStep.Calm overflow (front.foldl (TickStep.after overflow) s) step

/-- A store that is opened on a directory without tick files. -/
structure NewStore (s : TickFiles) (contents : Contents) (verdicts : List Verdict) : Prop where
  blank : ∀ mid < marketCount, contents (marketPath mid) = none
  opened : TickFiles.open_ ⟨contents, verdicts⟩ = .ok s.slots s.files

def acceptedTicks (steps : List TickStep) (mid : Nat) : List PriceTick :=
  steps.filterMap (TickStep.accepted mid)

section Run

variable {overflow : Overflow} {s t : TickFiles} {lists : Nat → List PriceTick}
  {step : TickStep} {front steps : List TickStep}

theorem NewStore.holdsTicks {contents : Contents} {verdicts : List Verdict}
    (new : NewStore s contents verdicts) : HoldsTicks (fun _ => []) s := by
  have keeps : ∀ mid < marketCount, Files.Keeps ⟨contents, verdicts⟩ (marketPath mid)
      (tickPod.layOut []) := fun mid inside => Or.inr ⟨rfl, Or.inl (new.blank mid inside)⟩
  exact openStore_triple.ok keeps new.opened

theorem append_refused (overflow : Overflow) (s : TickFiles) {tick : PriceTick}
    (outside : marketCount ≤ tick.marketId.toNat) :
    ∃ text, TickFiles.append overflow tick s = .error (.error (.invalidArgument text)) s := by
  unfold TickFiles.append
  rw [if_pos outside]
  exact ⟨_, rfl⟩

/-- What a step that is not troubled makes of the lists. -/
theorem advance_ticks (holds : HoldsTicks lists s) (calm : step.Calm overflow s) :
    HoldsTicks (fun mid => lists mid ++ (step.accepted mid).toList) (step.after overflow s) := by
  unfold TickStep.after
  cases step with
  | append tick =>
      by_cases outside : marketCount ≤ tick.marketId.toNat
      · obtain ⟨text, refused⟩ := append_refused overflow s outside
        have same : (fun mid => lists mid ++ ((TickStep.append tick).accepted mid).toList) =
            lists := by
          funext mid
          have other : ¬ (tick.marketId.toNat = mid ∧ mid < marketCount) := by omega
          rw [TickStep.accepted, if_neg other, Option.toList_none, List.append_nil]
        rw [same, TickStep.run, refused]
        exact holds
      · have inside := Nat.lt_of_not_le outside
        have same : (fun mid => lists mid ++ ((TickStep.append tick).accepted mid).toList) =
            Function.update lists tick.marketId.toNat (lists tick.marketId.toNat ++ [tick]) := by
          funext mid
          rw [TickStep.accepted]
          by_cases equal : mid = tick.marketId.toNat
          · subst equal
            rw [if_pos ⟨rfl, inside⟩, Function.update_self]
            rfl
          · rw [if_neg fun own => equal own.1.symm, Function.update_of_ne equal]
            exact List.append_nil _
        rw [same]
        have result := @appendTick_triple overflow lists tick inside s holds
        cases run : (TickStep.append tick).run overflow s with
        | ok value t =>
            rw [show TickFiles.append overflow tick s = _ from run] at result
            exact result
        | error fault t =>
            rw [show TickFiles.append overflow tick s = _ from run] at result
            cases fault with
            | error reason =>
                obtain ⟨⟨context, rfl⟩, _⟩ := result
                exact absurd run ((calm t).2 context)
            | panic => exact result.elim
            | crash => exact absurd run (calm t).1
  | reopen =>
      have same : (fun mid => lists mid ++ (TickStep.reopen.accepted mid).toList) = lists := by
        funext mid
        exact List.append_nil _
      have result := openStore_triple s.files fun mid inside => holds.keeps inside
      rw [same]
      cases opened : TickFiles.open_ s.files with
      | ok slots files =>
          rw [opened] at result
          simp only [TickStep.run, opened]
          exact result
      | error fault files =>
          have run : TickStep.reopen.run overflow s = .error fault { s with files := files } := by
            simp only [TickStep.run, opened]
          rw [opened] at result
          cases fault with
          | error reason =>
              obtain ⟨context, rfl⟩ := result
              exact absurd run ((calm _).2 context)
          | panic => exact result.elim
          | crash => exact absurd run (calm _).1

theorem acceptedTicks_append_one (front : List TickStep) (step : TickStep) :
    acceptedTicks (front ++ [step]) =
      fun mid => acceptedTicks front mid ++ (step.accepted mid).toList := by
  funext mid
  cases taken : step.accepted mid <;> simp [acceptedTicks, taken]

theorem run_holdsTicks (holds : HoldsTicks (fun _ => []) s)
    (calm : Untroubled overflow steps s) :
    HoldsTicks (acceptedTicks steps) (steps.foldl (TickStep.after overflow) s) := by
  refine foldl_holds_of_meets (fun front s => HoldsTicks (acceptedTicks front) s)
    (fun _ s step => step.Calm overflow s) holds (fun front step s _ before calm => ?_) calm
  rw [acceptedTicks_append_one]
  exact advance_ticks before calm

theorem calm_tickStep (holds : HoldsTicks lists s) (quiet : s.files.Calm)
    (near : ∀ mid, ((lists mid).length + 1) * tickPod.size ≤ 2 ^ 61) :
    step.Calm overflow s ∧ (step.after overflow s).files.Calm := by
  have returned {t : TickFiles} (run : step.run overflow s = .ok () t) (calm : t.files.Calm) :
      step.Calm overflow s ∧ (step.after overflow s).files.Calm := by
    rw [TickStep.Calm, TickStep.after, run]
    exact ⟨fun _ => ⟨nofun, fun _ => nofun⟩, calm⟩
  cases step with
  | append tick =>
      by_cases outside : marketCount ≤ tick.marketId.toNat
      · obtain ⟨text, refused⟩ := append_refused overflow s outside
        rw [TickStep.Calm, TickStep.after, TickStep.run, refused]
        exact ⟨fun t => ⟨by simp, by simp⟩, quiet⟩
      · obtain ⟨value, t, run, _, calm⟩ :=
          (appendTick_returns (Nat.lt_of_not_le outside) (near _)).total ⟨holds, quiet⟩
            fun _ _ => id
        exact returned run calm
  | reopen =>
      obtain ⟨slots, files, opened, _, calm⟩ := openStore_returns.total
        ⟨fun mid inside => holds.keeps inside, quiet⟩ fun _ _ => id
      have run : TickStep.reopen.run overflow s = .ok () ⟨slots, files⟩ := by
        simp only [TickStep.run, opened]
      exact returned run calm

/-- On a calm disk no run is troubled, as long as its ticks fit in memory. -/
theorem untroubled_of_calm (holds : HoldsTicks (fun _ => []) s) (quiet : s.files.Calm)
    (short : steps.length * tickPod.size ≤ 2 ^ 61) : Untroubled overflow steps s := by
  refine (foldl_meets (fun front s => HoldsTicks (acceptedTicks front) s ∧ s.files.Calm)
    (fun _ s step => step.Calm overflow s) ⟨holds, quiet⟩
    fun front step s inside ⟨before, quiet⟩ => ?_).1
  have near (mid : Nat) : ((acceptedTicks front mid).length + 1) * tickPod.size ≤ 2 ^ 61 := by
    have accepted : (acceptedTicks front mid).length ≤ front.length :=
      List.length_filterMap_le _ _
    have within := inside.length_le
    rw [List.length_append, List.length_singleton] at within
    exact Nat.le_trans (Nat.mul_le_mul_right _ (by omega)) short
  obtain ⟨calm, quiet⟩ := @calm_tickStep overflow _ _ step before quiet near
  rw [acceptedTicks_append_one]
  exact ⟨calm, advance_ticks before calm, quiet⟩

/-- An append for a known market returns, unless its calls fail or it is cut off. -/
theorem append_accepted {tick : PriceTick} (holds : HoldsTicks lists s)
    (inside : tick.marketId.toNat < marketCount)
    (calm : TickStep.Calm overflow s (.append tick)) :
    ∃ t, TickFiles.append overflow tick s = .ok () t := by
  have result := @appendTick_triple overflow lists tick inside s holds
  cases run : TickFiles.append overflow tick s with
  | ok value t => exact ⟨t, rfl⟩
  | error fault t =>
      rw [run] at result
      cases fault with
      | error reason =>
          obtain ⟨⟨context, rfl⟩, _⟩ := result
          exact absurd run ((calm t).2 context)
      | panic => exact result.elim
      | crash => exact absurd run (calm t).1

/-- After every run the ticks of each market are those it has accepted, in their order, and
all appends but those for a market that is not there have returned. -/
structure ExactLog (overflow : Overflow) (steps : List TickStep) (s : TickFiles) : Prop where
  ticks : ∀ marketId : MarketId,
    TickFiles.ticks overflow marketId (steps.foldl (TickStep.after overflow) s) =
      .ok (acceptedTicks steps marketId.toNat)
  tickCount : ∀ marketId : MarketId,
    TickFiles.tickCount marketId (steps.foldl (TickStep.after overflow) s) =
      (acceptedTicks steps marketId.toNat).length
  accepts : ∀ front tick, front ++ [.append tick] <+: steps →
    tick.marketId.toNat < marketCount →
      ∃ t, TickFiles.append overflow tick (front.foldl (TickStep.after overflow) s) = .ok () t
  refuses : ∀ front tick, front ++ [.append tick] <+: steps →
    marketCount ≤ tick.marketId.toNat →
      ∃ text, TickFiles.append overflow tick (front.foldl (TickStep.after overflow) s) =
        .error (.error (.invalidArgument text)) (front.foldl (TickStep.after overflow) s)

/-- After a run the files are read back as the accepted ticks, for any market id. -/
theorem run_read (holds : HoldsTicks (fun _ => []) s) (calm : Untroubled overflow steps s)
    (marketId : MarketId) :
    TickFiles.ticks overflow marketId (steps.foldl (TickStep.after overflow) s) =
        .ok (acceptedTicks steps marketId.toNat) ∧
      TickFiles.tickCount marketId (steps.foldl (TickStep.after overflow) s) =
        (acceptedTicks steps marketId.toNat).length := by
  by_cases known : marketId.toNat < marketCount
  · exact (run_holdsTicks holds calm).read overflow known
  · have none : acceptedTicks steps marketId.toNat = [] := by
      refine List.filterMap_eq_nil_iff.mpr fun step _ => ?_
      cases step with
      | append tick => exact if_neg fun own => known own.2
      | reopen => rfl
    rw [TickFiles.ticks, TickFiles.tickCount, FileArray.records, FileArray.recordCount,
      FileArray.slot_outside _ (Nat.le_of_not_lt known), none]
    exact ⟨rfl, rfl⟩

def TickStep.onLists (store : TickStore) : TickStep → TickStore
  | .append tick =>
      match store.append tick with
      | .ok later => later
      | .error _ => store
  | .reopen => store

theorem onLists_ticks (steps : List TickStep) (store : TickStore) {marketId : MarketId}
    (known : marketId.toNat < marketCount) :
    (steps.foldl TickStep.onLists store).ticks marketId =
      store.ticks marketId ++ acceptedTicks steps marketId.toNat := by
  induction steps generalizing store with
  | nil => exact (List.append_nil _).symm
  | cons step steps ih =>
      have one : (step.onLists store).ticks marketId =
          store.ticks marketId ++ (step.accepted marketId.toNat).toList := by
        cases step with
        | reopen => exact (List.append_nil _).symm
        | append tick =>
            by_cases inside : tick.marketId.toNat < marketCount
            · obtain ⟨later, taken, more⟩ := store.append_ok inside
              simp only [TickStep.onLists, TickStep.accepted, taken, more, known, and_true,
                UInt16.toNat_inj]
              split <;> rfl
            · have other : ¬ (tick.marketId.toNat = marketId.toNat ∧
                  marketId.toNat < marketCount) := by omega
              rw [TickStep.accepted, if_neg other]
              simp only [TickStep.onLists, TickStore.append, if_pos (Nat.le_of_not_lt inside)]
              exact (List.append_nil _).symm
      have both : acceptedTicks (step :: steps) marketId.toNat =
          (step.accepted marketId.toNat).toList ++ acceptedTicks steps marketId.toNat := by
        cases taken : step.accepted marketId.toNat <;> simp [acceptedTicks, taken]
      rw [List.foldl_cons, ih, one, both, List.append_assoc]

/-- The files refine the store of lists that the engine is stated over. -/
theorem files_refine_lists (holds : HoldsTicks (fun _ => []) s)
    (calm : Untroubled overflow steps s) {marketId : MarketId}
    (known : marketId.toNat < marketCount) :
    TickFiles.ticks overflow marketId (steps.foldl (TickStep.after overflow) s) =
      .ok ((steps.foldl TickStep.onLists .new).ticks marketId) := by
  rw [(run_read holds calm marketId).1, onLists_ticks steps .new known, TickStore.ticks_new,
    List.nil_append]

/-- A new store is an exact log of what is appended, however often it is opened again. -/
theorem tick_store_exact (overflow : Overflow) (contents : Contents) (verdicts : List Verdict)
    (s : TickFiles) (new : NewStore s contents verdicts) (steps : List TickStep)
    (calm : Untroubled overflow steps s) : ExactLog overflow steps s := by
  refine ⟨fun marketId => (run_read new.holdsTicks calm marketId).1,
    fun marketId => (run_read new.holdsTicks calm marketId).2, fun front tick inside known => ?_,
    fun front tick inside unknown => append_refused overflow _ unknown⟩
  have earlier := run_holdsTicks new.holdsTicks fun front step within =>
    calm front step (within.trans ((List.prefix_append _ _).trans inside))
  exact append_accepted earlier known (calm front (.append tick) inside)

end Run

def newTickFiles : TickFiles := ⟨Vector.replicate _ none, ⟨fun _ => none, []⟩⟩

theorem newTickFiles_new : NewStore newTickFiles (fun _ => none) [] := by
  have created : call "create tick_store dir" (fun _ => true) id ⟨fun _ => none, []⟩ =
      .ok () ⟨fun _ => none, []⟩ := rfl
  exact ⟨fun _ _ => rfl, (bind_of_ok created).trans (FileArray.openExisting_none _ _ fun _ => rfl)⟩

def secondTick (marketId : MarketId) (second : Nat) : PriceTick :=
  ⟨UInt64.ofNat (second * 1000000000), marketId, Vector.replicate 6 0, ⟨0x4059000000000000⟩⟩

/-- More ticks of the first market than its first allocation holds, before and after the store
is opened again, with one of another market, and one of a market that is not there. -/
def tickRun : List TickStep :=
  (List.range 180000).map (fun second => .append (secondTick 0 second)) ++
    [.append (secondTick 17 0), .reopen, .append (secondTick 18 0), .append (secondTick 0 180000)]

/-- A new store takes them all but the one of no market. -/
theorem tick_store_exact_grown :
    NewStore newTickFiles (fun _ => none) [] ∧ ExactLog .wrapping tickRun newTickFiles := by
  have count : tickRun.length = 180004 := by simp [tickRun]
  have short : tickRun.length * tickPod.size ≤ 2 ^ 61 := by
    rw [count]
    decide
  exact ⟨newTickFiles_new, tick_store_exact .wrapping (fun _ => none) [] newTickFiles
    newTickFiles_new tickRun (untroubled_of_calm newTickFiles_new.holdsTicks rfl short)⟩

end Perfdb.Mmap
