import Mathlib
import Perfdb.LostDeposits
import Perfdb.WrappingSums

set_option autoImplicit false

namespace Perfdb

def TraderStats.unordered (s : TraderStats) : TraderStats :=
  { s with openPositions := 0, firstTradeAt := none, lastTradeAt := none }

namespace Concurrent

/-- What is counted into statistics without an order. -/
inductive Tally where
  | trade (volume pnl fee : FixedI128) (isWin isLiquidation : Bool)
  | opened
  | nothing

def Tally.apply : Tally → TraderStats → TraderStats
  | trade volume pnl fee isWin isLiquidation, s =>
      (s.addTrade volume pnl fee isWin isLiquidation 0).unordered
  | opened, s => { s with totalPositions := s.totalPositions + 1 }
  | nothing, s => s

/-- Two counts come to the same in either order. -/
theorem Tally.apply_comm (one other : Tally) (s : TraderStats) :
    one.apply (other.apply s.unordered) = other.apply (one.apply s.unordered) := by
  have highest (best x y : FixedI128) : (if (if best < x then x else best) < y then y
      else if best < x then x else best) =
      if (if best < y then y else best) < x then x else if best < y then y else best := by
    apply I128.toInt_injective
    simp only [I128.toInt_ite_lt]
    omega
  have lowest (worst x y : FixedI128) : (if y < (if x < worst then x else worst) then y
      else if x < worst then x else worst) =
      if x < (if y < worst then y else worst) then x else if y < worst then y else worst := by
    apply I128.toInt_injective
    simp only [I128.toInt_ite_gt]
    omega
  cases one with
  | trade volume pnl fee isWin isLiquidation =>
      cases other with
      | trade volume' pnl' fee' isWin' isLiquidation' =>
          simp only [apply, TraderStats.addTrade, TraderStats.unordered,
            add_right_comm _ volume' volume, add_right_comm _ pnl' pnl,
            add_right_comm _ fee' fee]
          congr 1
          · cases isWin <;> cases isWin' <;> rfl
          · cases isWin <;> cases isWin' <;> cases isLiquidation <;> cases isLiquidation' <;> rfl
          · cases isLiquidation <;> cases isLiquidation' <;> rfl
          · exact highest _ _ _
          · exact lowest _ _ _
      | opened => rfl
      | nothing => rfl
  | opened => cases other <;> rfl
  | nothing => rfl

section Operations

variable (user : Address)

def Operation.trader : Operation → Option Address
  | .alterTraderStats address _ => some address
  | _ => none

def Operation.onStats (s : TraderStats) : Operation → TraderStats
  | .alterTraderStats address update => if address = user then (update (some s)).getD s else s
  | _ => s

/-- Statistics that are there are counted into. -/
def Operation.Tallied : Operation → Prop
  | .alterTraderStats _ update => ∃ tally : Tally, ∀ s, ∃ later, update (some s) = some later ∧
      later.unordered = tally.apply s.unordered
  | _ => True

/-- Statistics are changed after they have been made sure of. -/
def EnsuresFirst : List Address → List Operation → Prop
  | _, [] => True
  | known, operation :: rest =>
      (∀ address update, operation = .alterTraderStats address update →
        address ∈ known ∨ operation = ensureTraderStats address) ∧
      EnsuresFirst (operation.trader.toList ++ known) rest

variable {user}

theorem EnsuresFirst.append {known : List Address} {front back : List Operation}
    (first : EnsuresFirst known front) (after : ∀ known, EnsuresFirst known back) :
    EnsuresFirst known (front ++ back) := by
  induction front generalizing known with
  | nil => exact after known
  | cons operation front ih => exact ⟨first.1, ih first.2⟩

/-- A change of statistics comes after another one of them, or makes sure of them. -/
theorem EnsuresFirst.change {known : List Address} {made rest : List Operation}
    {update : Option TraderStats → Option TraderStats}
    (ensures : EnsuresFirst known (made ++ .alterTraderStats user update :: rest)) :
    user ∈ known ∨ (∃ operation ∈ made, operation.trader = some user) ∨
      Operation.alterTraderStats user update = ensureTraderStats user := by
  induction made generalizing known with
  | nil =>
      rcases ensures.1 user update rfl with inside | ensure
      · exact Or.inl inside
      · exact Or.inr (Or.inr ensure)
  | cons operation made ih =>
      rcases ih ensures.2 with inside | ⟨earlier, member, own⟩ | ensure
      · rcases List.mem_append.mp inside with here | before
        · exact Or.inr (Or.inl ⟨operation, List.mem_cons_self, Option.mem_toList.mp here⟩)
        · exact Or.inl before
      · exact Or.inr (Or.inl ⟨earlier, List.mem_cons_of_mem operation member, own⟩)
      · exact Or.inr (Or.inr ensure)

theorem operations_ensuresFirst (indexed : IndexedEvent) (known : List Address) :
    EnsuresFirst known (operations indexed) := by
  obtain ⟨blockNumber, blockTimestamp, txHash, txIndex, logIndex, event⟩ := indexed
  cases event with
  | positionClosed _ _ _ _ _ _ isFullClose =>
      cases isFullClose <;>
        simp [operations, updates, EnsuresFirst, ensureTraderStats, incrementTrade,
          decrementOpenPositions, Operation.trader]
  | _ =>
      simp [operations, updates, EnsuresFirst, ensureUser, ensureTraderStats, incrementTrade,
        decrementOpenPositions, Operation.trader]

theorem flatMap_ensuresFirst (events : List IndexedEvent) (known : List Address) :
    EnsuresFirst known (events.flatMap operations) := by
  induction events generalizing known with
  | nil => trivial
  | cons indexed events ih =>
      rw [List.flatMap_cons]
      exact (operations_ensuresFirst indexed known).append ih

theorem ensureTraderStats_tallied (address : Address) : (ensureTraderStats address).Tallied :=
  ⟨.nothing, fun s => ⟨s, rfl, rfl⟩⟩

theorem incrementTrade_tallied (address : Address) (volume pnl fee : FixedI128)
    (isWin isLiquidation : Bool) (timestamp : UInt64) :
    (incrementTrade address volume pnl fee isWin isLiquidation timestamp).Tallied :=
  ⟨.trade volume pnl fee isWin isLiquidation, fun _ => ⟨_, rfl, rfl⟩⟩

theorem decrementOpenPositions_tallied (address : Address) :
    (decrementOpenPositions address).Tallied :=
  ⟨.nothing, fun _ => ⟨_, rfl, rfl⟩⟩

theorem operations_tallied (indexed : IndexedEvent) :
    ∀ operation ∈ operations indexed, operation.Tallied := by
  obtain ⟨blockNumber, blockTimestamp, txHash, txIndex, logIndex, event⟩ := indexed
  cases event with
  | positionOpened positionId user marketId isLong =>
      have opened : (Operation.alterTraderStats user (Option.map fun s => { s with
          totalPositions := s.totalPositions + 1
          openPositions := s.openPositions + 1 })).Tallied :=
        ⟨.opened, fun _ => ⟨_, rfl, rfl⟩⟩
      simp only [operations, updates, ensureUser, List.cons_append, List.nil_append,
        List.forall_mem_cons]
      exact ⟨trivial, trivial, trivial, trivial, trivial, trivial, ensureTraderStats_tallied _,
        opened, trivial, trivial, fun _ none => by cases none⟩
  | positionClosed _ _ _ _ _ _ isFullClose =>
      cases isFullClose with
      | false =>
          simp only [operations, updates, List.cons_append, List.nil_append, List.forall_mem_cons,
            if_false, Bool.false_eq_true]
          exact ⟨trivial, trivial, ensureTraderStats_tallied _,
            incrementTrade_tallied _ _ _ _ _ _ _, trivial, trivial, trivial, trivial,
            fun _ none => by cases none⟩
      | true =>
          simp only [operations, updates, List.cons_append, List.nil_append, List.forall_mem_cons,
            if_true]
          exact ⟨trivial, trivial, ensureTraderStats_tallied _,
            incrementTrade_tallied _ _ _ _ _ _ _, decrementOpenPositions_tallied _, trivial,
            trivial, trivial, trivial, fun _ none => by cases none⟩
  | liquidation =>
      simp only [operations, updates, List.cons_append, List.nil_append, List.forall_mem_cons]
      exact ⟨trivial, trivial, ensureTraderStats_tallied _, incrementTrade_tallied _ _ _ _ _ _ _,
        decrementOpenPositions_tallied _, trivial, fun _ none => by cases none⟩
  | _ => simp [operations, updates, ensureUser, Operation.Tallied]

variable (user) in
theorem Operation.Tallied.onStats {operation : Operation} (tallied : operation.Tallied) :
    ∃ tally : Tally, ∀ s, (operation.onStats user s).unordered = tally.apply s.unordered := by
  cases operation with
  | alterTraderStats address update =>
      obtain ⟨tally, updates⟩ := tallied
      by_cases own : address = user
      · refine ⟨tally, fun s => ?_⟩
        obtain ⟨later, is_later, counted⟩ := updates s
        simp only [Operation.onStats, own, if_true, is_later, Option.getD_some]
        exact counted
      · refine ⟨.nothing, fun s => ?_⟩
        simp only [Operation.onStats, own, if_false]
        rfl
  | _ => exact ⟨.nothing, fun _ => rfl⟩

theorem Operation.Tallied.congr {operation : Operation} (tallied : operation.Tallied)
    {s t : TraderStats} (same : s.unordered = t.unordered) :
    (operation.onStats user s).unordered = (operation.onStats user t).unordered := by
  obtain ⟨tally, counts⟩ := tallied.onStats user
  rw [counts, counts, same]

theorem Operation.Tallied.comm {one other : Operation} (first : one.Tallied)
    (second : other.Tallied) (s : TraderStats) :
    (other.onStats user (one.onStats user s)).unordered =
      (one.onStats user (other.onStats user s)).unordered := by
  obtain ⟨tally, counts⟩ := first.onStats user
  obtain ⟨later, counts_later⟩ := second.onStats user
  rw [counts_later, counts, counts, counts_later, Tally.apply_comm]

end Operations

section Runs

variable {ι : Type} [DecidableEq ι] {user : Address}

/-- Some move changes the statistics of the trader. -/
def Touches (user : Address) (schedule : List (Move ι)) : Prop :=
  ∃ move ∈ schedule, move.operation.trader = some user

/-- Everything a schedule counts into the statistics of a trader. -/
def counted (user : Address) (schedule : List (Move ι)) (s : TraderStats) : TraderStats :=
  schedule.foldl (fun s move => move.operation.onStats user s) s

theorem Operation.onStats_other {operation : Operation} (apart : operation.trader ≠ some user)
    (s : TraderStats) : operation.onStats user s = s := by
  cases operation with
  | alterTraderStats address update => exact if_neg fun same => apart (congrArg some same)
  | _ => rfl

omit [DecidableEq ι] in
theorem counted_untouched {schedule : List (Move ι)} (untouched : ¬ Touches user schedule)
    (s : TraderStats) : counted user schedule s = s := by
  induction schedule with
  | nil => rfl
  | cons move schedule ih =>
      have apart : move.operation.trader ≠ some user := fun own =>
        untouched ⟨move, List.mem_cons_self, own⟩
      have rest : ¬ Touches user schedule := fun ⟨other, member, own⟩ =>
        untouched ⟨other, List.mem_cons_of_mem move member, own⟩
      rw [counted, List.foldl_cons, Operation.onStats_other apart]
      exact ih rest

omit [DecidableEq ι] in
theorem touches_concat (front : List (Move ι)) (move : Move ι) :
    Touches user (front ++ [move]) ↔ Touches user front ∨ move.operation.trader = some user := by
  simp only [Touches, List.mem_append, List.mem_singleton, or_and_right, exists_or,
    exists_eq_left]

theorem Operation.effect_trader (operation : Operation) (indexed : IndexedEvent)
    (read : Private) :
    (operation.effect indexed read).traderStats.map Prod.fst = operation.trader := by
  cases operation <;> rfl

variable {initial : Option TraderStats} {front : List (Move ι)} {m : Machine ι} {move : Move ι}

theorem stats_step_other (apart : move.operation.trader ≠ some user) :
    (m.step move).stores.traderStats.get user = m.stores.traderStats.get user := by
  refine Table.getElem?_change_of_ne _ ?_
  rw [Operation.effect_trader]
  exact apart

theorem stats_step_own {update : Option TraderStats → Option TraderStats}
    (made : move.operation = .alterTraderStats user update) :
    (m.step move).stores.traderStats.get user = update (m.stores.traderStats.get user) := by
  change (m.stores.traderStats.stats.change
    (move.operation.effect move.indexed (m.read move.thread)).traderStats)[user]? = _
  rw [made]
  exact (Table.getElem?_change _ _ _ _).trans (if_pos rfl)

/-- The statistics hold all that was counted since they were first made sure of. -/
structure Counts (user : Address) (initial : Option TraderStats) (front : List (Move ι))
    (m : Machine ι) : Prop where
  untouched : ¬ Touches user front → m.stores.traderStats.get user = initial
  touched : Touches user front → m.stores.traderStats.get user =
    some (counted user front (initial.getD (TraderStats.zero user)))

theorem Counts.step (counts : Counts user initial front m) (tallied : move.operation.Tallied)
    (ensures : ∀ update, move.operation = .alterTraderStats user update →
      Touches user front ∨ move.operation = ensureTraderStats user) :
    Counts user initial (front ++ [move]) (m.step move) := by
  have whole (s : TraderStats) : counted user (front ++ [move]) s =
      move.operation.onStats user (counted user front s) := by
    rw [counted, List.foldl_append]
    rfl
  by_cases own : move.operation.trader = some user
  · refine ⟨fun untouched => absurd ((touches_concat front move).mpr (Or.inr own)) untouched,
      fun _ => ?_⟩
    obtain ⟨update, made⟩ : ∃ update, move.operation = .alterTraderStats user update := by
      cases is : move.operation with
      | alterTraderStats address update =>
          rw [is] at own
          obtain rfl := Option.some.inj own
          exact ⟨update, rfl⟩
      | _ =>
          rw [is] at own
          cases own
    rw [whole, stats_step_own made]
    by_cases before : Touches user front
    · rw [counts.touched before]
      rw [made] at tallied
      obtain ⟨tally, updates⟩ := tallied
      obtain ⟨later, is_later, _⟩ := updates (counted user front
        (initial.getD (TraderStats.zero user)))
      rw [made, is_later]
      simp only [Operation.onStats, if_true, is_later, Option.getD_some]
    · have ensure := (ensures update made).resolve_left before
      rw [counts.untouched before, counted_untouched before, ensure]
      rw [made] at ensure
      obtain rfl := (Operation.alterTraderStats.inj ensure).2
      simp [Operation.onStats, ensureTraderStats]
  · refine ⟨fun untouched => ?_, fun touched => ?_⟩
    · rw [stats_step_other own]
      exact counts.untouched fun before =>
        untouched ((touches_concat front move).mpr (Or.inl before))
    · rw [stats_step_other own, whole, Operation.onStats_other own]
      exact counts.touched (((touches_concat front move).mp touched).resolve_right own)

variable {events : ι → List IndexedEvent} {schedule : List (Move ι)}

/-- Statistics are changed by a thread that has made sure of them. -/
theorem Interleaves.ensures (interleaves : Interleaves events schedule)
    (inside : front ++ [move] <+: schedule) {update : Option TraderStats → Option TraderStats}
    (changes : move.operation = .alterTraderStats user update) :
    Touches user front ∨ move.operation = ensureTraderStats user := by
  obtain ⟨rest, split⟩ := interleaves.made_split inside
  have whole := flatMap_ensuresFirst (events move.thread) []
  rw [split, changes] at whole
  rcases whole.change with none | ⟨operation, member, own⟩ | ensure
  · cases none
  · obtain ⟨earlier, before, rfl⟩ := List.mem_map.mp member
    exact Or.inl ⟨earlier, (List.mem_filter.mp before).1, own⟩
  · exact Or.inr (changes.trans ensure)

theorem run_counts (interleaves : Interleaves events schedule) (m : Machine ι) :
    Counts user (m.stores.traderStats.get user) schedule (m.run schedule) := by
  refine foldl_holds (fun front later => Counts user (m.stores.traderStats.get user) front later)
    ?_ ?_
  · refine ⟨fun _ => rfl, fun touched => ?_⟩
    obtain ⟨_, member, _⟩ := touched
    cases member
  · intro front move later inside counts
    have member : move ∈ schedule := inside.subset (List.mem_append_right _ List.mem_cons_self)
    exact counts.step (operations_tallied _ _ (interleaves.member member).2)
      fun update changes => interleaves.ensures inside changes

end Runs

section Daily

variable (user : Address) (date : UInt32)

/-- What an operation does to the statistics of one day. -/
def Operation.onDaily (known : Option DailyStats) : Operation → Option DailyStats
  | .alterDailyStats address day update =>
      if (address, day) = (user, date) then update known else known
  | _ => known

def Operation.AddsUp : Operation → Prop
  | .alterDailyStats _ day update => ∃ volume pnl,
      update none = some { date := day, pnl, volume, trades := 1, fees := 0 } ∧
      ∀ s : DailyStats, update (some s) = some { s with
        volume := s.volume + volume
        pnl := s.pnl + pnl
        trades := s.trades + 1
        fees := s.fees + 0 }
  | _ => True

variable {user date}

theorem operations_addUp (indexed : IndexedEvent) :
    ∀ operation ∈ operations indexed, operation.AddsUp := by
  obtain ⟨blockNumber, blockTimestamp, txHash, txIndex, logIndex, event⟩ := indexed
  cases event with
  | positionClosed _ _ _ closedSizeUsd _ realizedPnl isFullClose =>
      cases isFullClose <;>
      · simp only [operations, updates, ensureTraderStats, incrementTrade, decrementOpenPositions,
          List.cons_append, List.nil_append, List.forall_mem_cons, if_true, if_false,
          Bool.false_eq_true]
        simp only [Operation.AddsUp, true_and, List.not_mem_nil, false_implies, implies_true,
          and_true]
        exact ⟨closedSizeUsd, realizedPnl, rfl, fun _ => rfl⟩
  | _ =>
      simp [operations, updates, ensureUser, ensureTraderStats, incrementTrade,
        decrementOpenPositions, Operation.AddsUp]

/-- The trades of one day are added in either order. -/
theorem Operation.AddsUp.comm {one other : Operation} (first : one.AddsUp)
    (second : other.AddsUp) (known : Option DailyStats) :
    other.onDaily user date (one.onDaily user date known) =
      one.onDaily user date (other.onDaily user date known) := by
  cases one with
  | alterDailyStats address day update =>
      cases other with
      | alterDailyStats address' day' update' =>
          obtain ⟨volume, pnl, fresh, added⟩ := first
          obtain ⟨volume', pnl', fresh', added'⟩ := second
          simp only [Operation.onDaily]
          by_cases here : (address, day) = (user, date)
          · by_cases there : (address', day') = (user, date)
            · obtain ⟨_, rfl⟩ := Prod.mk.inj here
              obtain ⟨_, rfl⟩ := Prod.mk.inj there
              simp only [here, there, if_true]
              cases known with
              | none =>
                  rw [fresh, fresh', added, added']
                  simp only [add_comm volume, add_comm pnl]
              | some s =>
                  rw [added, added', added', added]
                  simp only [add_right_comm _ volume, add_right_comm _ pnl]
            · simp only [there, if_false]
          · simp only [here, if_false]
      | _ => rfl
  | _ => rfl

variable {ι : Type} [DecidableEq ι]

theorem daily_step (m : Machine ι) (move : Move ι) :
    (m.step move).stores.dailyStats.getTraderDaily user date =
      move.operation.onDaily user date (m.stores.dailyStats.getTraderDaily user date) := by
  change (m.stores.dailyStats.traderDaily.change
    (move.operation.effect move.indexed (m.read move.thread)).dailyStats)[(user, date)]? = _
  cases move.operation with
  | alterDailyStats address day update =>
      have changed := Table.getElem?_change m.stores.dailyStats.traderDaily (address, day)
        (user, date) update
      refine changed.trans ?_
      by_cases own : (address, day) = (user, date)
      · rw [Operation.onDaily, if_pos own, if_pos own, own]
        rfl
      · rw [Operation.onDaily, if_neg own, if_neg own]
        rfl
  | _ => rfl

theorem daily_run (m : Machine ι) (schedule : List (Move ι)) :
    (m.run schedule).stores.dailyStats.getTraderDaily user date =
      schedule.foldl (fun known move => move.operation.onDaily user date known)
        (m.stores.dailyStats.getTraderDaily user date) := by
  induction schedule generalizing m with
  | nil => rfl
  | cons move schedule ih =>
      rw [List.foldl_cons, ← daily_step m move]
      exact ih (m.step move)

end Daily

section Result

variable {ι : Type} [DecidableEq ι] (events : ι → List IndexedEvent) (schedule : List (Move ι))
  (serial : List (ι × IndexedEvent)) (db : PerfDb) (read : ι → Private)

/-- Threads that process any events at all, in common or not, book their trades as if the events
were processed one by one: the statistics of every trader, up to what the order of the trades
decides, and those of every day. -/
theorem concurrent_trades_kept (interleaves : Interleaves events schedule)
    (ordered : ∀ thread,
      (serial.filter fun entry => entry.1 = thread).map Prod.snd = events thread)
    (user : Address) :
    let concurrently := ((⟨db.toStores, read⟩ : Machine ι).run schedule).stores
    let serially := (applyAll (serial.map Prod.snd) db).toStores
    (concurrently.traderStats.get user).map TraderStats.unordered =
        (serially.traderStats.get user).map TraderStats.unordered ∧
      ∀ date, concurrently.dailyStats.getTraderDaily user date =
        serially.dailyStats.getTraderDaily user date := by
  intro concurrently serially
  have moved := interleaves.reordered ordered
  have one_by_one : Interleaves events (oneByOne serial) := fun thread => by
    rw [oneByOne_thread, ordered]
  have whole : serially = ((⟨db.toStores, read⟩ : Machine ι).run (oneByOne serial)).stores :=
    (run_oneByOne serial _ db rfl).symm
  have member {move : Move ι} (inside : move ∈ schedule) :
      move.operation ∈ operations move.indexed := (interleaves.member inside).2
  constructor
  · have left : Counts user _ schedule _ :=
      run_counts interleaves (⟨db.toStores, read⟩ : Machine ι)
    have right : Counts user _ (oneByOne serial) _ :=
      run_counts one_by_one (⟨db.toStores, read⟩ : Machine ι)
    have same : Touches user schedule ↔ Touches user (oneByOne serial) := by
      simp only [Touches, moved.perm.mem_iff]
    rw [whole]
    by_cases touched : Touches user schedule
    · rw [left.touched touched, right.touched (same.mp touched)]
      refine congrArg some ?_
      exact @Reordering.Reordered.foldl _ _ (fun s (move : Move ι) =>
          move.operation.onStats user s) _ (fun s t => s.unordered = t.unordered) _ _ moved
        (fun _ => rfl) (fun _ _ _ first second => first.trans second)
        (fun move inside _ _ same => (operations_tallied _ _ (member inside)).congr same)
        (fun one inside other inside' _ s =>
          (operations_tallied _ _ (member inside)).comm (operations_tallied _ _ (member inside'))
            s) _
    · rw [left.untouched touched, right.untouched fun here => touched (same.mpr here)]
  · intro date
    rw [whole, daily_run, daily_run]
    exact @Reordering.Reordered.foldl _ _ (fun known (move : Move ι) =>
        move.operation.onDaily user date known) _ Eq _ _ moved (fun _ => rfl)
      (fun _ _ _ first second => first.trans second) (fun _ _ _ _ same => by rw [same])
      (fun one inside other inside' _ known =>
        ((operations_addUp _ _ (member inside)).comm (operations_addUp _ _ (member inside'))
          known)) _

/-- Two threads that close two positions of one trader, step by step in turn. -/
theorem concurrent_trades_kept_closes :
    let trader : Address := Vector.replicate 20 1
    let one : IndexedEvent := ⟨5, 1700000000, Vector.replicate 32 0, 0, 0,
      .positionClosed (Vector.replicate 32 1) trader 3 100 40 7 true⟩
    let other : IndexedEvent := ⟨5, 1700000000, Vector.replicate 32 0, 0, 1,
      .positionClosed (Vector.replicate 32 2) trader 3 300 40 (-5) true⟩
    let concurrently := ((⟨(PerfDb.ofStores .new).toStores, fun _ => ⟨none, none, none⟩⟩ :
      Machine Bool).run (((moves false one).zip (moves true other)).flatMap fun pair =>
        [pair.1, pair.2])).stores
    let serially :=
      (applyAll ([(false, one), (true, other)].map Prod.snd) (.ofStores .new)).toStores
    (concurrently.traderStats.get trader).map TraderStats.unordered =
        (serially.traderStats.get trader).map TraderStats.unordered ∧
      ∀ date, concurrently.dailyStats.getTraderDaily trader date =
        serially.dailyStats.getTraderDaily trader date := by
  intro trader one other
  apply concurrent_trades_kept (fun thread => if thread then [other] else [one])
    (((moves false one).zip (moves true other)).flatMap fun pair => [pair.1, pair.2])
    [(false, one), (true, other)] (.ofStores .new) (fun _ => ⟨none, none, none⟩)
  · intro thread
    cases thread <;> rfl
  · intro thread
    cases thread <;> rfl

end Result

end Concurrent

end Perfdb
