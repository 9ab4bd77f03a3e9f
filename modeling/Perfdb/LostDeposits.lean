import Mathlib
import Perfdb.Serializability
import Perfdb.Registers
import Perfdb.Available

set_option autoImplicit false

/-! Deposits of one user on several threads: `process_event` reads a balance and puts it back
with the deposit added, so that a deposit between the two is lost. -/

namespace Perfdb

/-- Nothing is withdrawn from the balance, and what is deposited is positive. -/
def Event.OnlyDeposits (user token : Address) : Event → Prop
  | .collateralDeposited other held amount => (other, held) = (user, token) → 0 < amount.toInt
  | .collateralWithdrawn other held _ => (other, held) ≠ (user, token)
  | _ => True

namespace Concurrent

section Lookups

def Operation.lookup : Operation → Option (Address × Address)
  | .readBalance user token => some (user, token)
  | _ => none

def PutsRead : Option (Address × Address) → List Operation → Prop
  | _, [] => True
  | last, operation :: rest =>
      (∀ user token balance, operation = .putBalance user token balance →
        last = some (user, token)) ∧ PutsRead (operation.lookup.or last) rest

def lastLookup (made : List Operation) : Option (Address × Address) :=
  (made.filterMap Operation.lookup).getLast?

theorem lastLookup_concat (made : List Operation) (operation : Operation) :
    lastLookup (made ++ [operation]) = operation.lookup.or (lastLookup made) := by
  rw [lastLookup, List.filterMap_append, List.getLast?_append]
  cases found : operation.lookup <;> simp [found, lastLookup]

theorem PutsRead.put {made rest : List Operation} {last : Option (Address × Address)}
    {user token : Address} {balance : Option Balance → Balance}
    (reads : PutsRead last (made ++ .putBalance user token balance :: rest)) :
    (lastLookup made).or last = some (user, token) := by
  induction made generalizing last with
  | nil => exact reads.1 user token balance rfl
  | cons operation made ih =>
      have later := ih reads.2
      rw [← Option.or_assoc] at later
      have whole : lastLookup (operation :: made) =
          (lastLookup made).or operation.lookup := by
        cases found : operation.lookup with
        | none => simp [lastLookup, found]
        | some key =>
            rw [lastLookup, List.filterMap_cons_some found, List.getLast?_cons]
            cases h : (made.filterMap Operation.lookup).getLast? <;> simp [lastLookup, h]
      rw [whole]
      exact later

theorem PutsRead.append {front back : List Operation} {last : Option (Address × Address)}
    (reads : PutsRead last front) (after : ∀ last, PutsRead last back) :
    PutsRead last (front ++ back) := by
  induction front generalizing last with
  | nil => exact after last
  | cons operation front ih => exact ⟨reads.1, ih reads.2⟩

/-- `process_event` puts the balance it has read last. -/
theorem operations_putsRead (indexed : IndexedEvent) (last : Option (Address × Address)) :
    PutsRead last (operations indexed) := by
  obtain ⟨blockNumber, blockTimestamp, txHash, txIndex, logIndex, event⟩ := indexed
  cases event with
  | positionClosed _ _ _ _ _ _ isFullClose =>
      cases isFullClose <;>
        simp [operations, updates, PutsRead, ensureTraderStats, incrementTrade,
          decrementOpenPositions]
  | _ =>
      simp [operations, updates, PutsRead, Operation.lookup, ensureUser, ensureTraderStats,
        incrementTrade, decrementOpenPositions]

theorem flatMap_putsRead (events : List IndexedEvent) (last : Option (Address × Address)) :
    PutsRead last (events.flatMap operations) := by
  induction events generalizing last with
  | nil => trivial
  | cons indexed events ih =>
      rw [List.flatMap_cons]
      exact (operations_putsRead indexed last).append ih

end Lookups

section Accesses

variable {ι : Type} [DecidableEq ι] (user token : Address)

/-- What a move reads of a balance, or writes to it. -/
def Move.access (move : Move ι) : Option (Register.Access ι) :=
  match move.operation with
  | .readBalance other held =>
      if (other, held) = (user, token) then some (.read move.thread) else none
  | .putBalance other held _ =>
      if (other, held) = (user, token) then
        some (.write move.thread (move.indexed.event.deposit user token))
      else none
  | _ => none

def accesses (schedule : List (Move ι)) : List (Register.Access ι) :=
  schedule.filterMap (Move.access user token)

/-- The amount of a balance, nothing where there is none. -/
def amountOf (balance : Option Balance) : Int := balance.elim 0 fun b => b.amount.toInt

def heldAmount (stores : Stores) : Int := amountOf (stores.balances.get user token)

def made (thread : ι) (schedule : List (Move ι)) : List Operation :=
  (schedule.filter fun move => move.thread = thread).map Move.operation

/-- The number in the register is the amount of the balance, and a thread that read this balance
last holds what the register says. -/
structure Follows (front : List (Move ι)) (m : Machine ι) (s : Register.State ι) : Prop where
  value : s.value = heldAmount user token m.stores
  held : ∀ thread, lastLookup (made thread front) = some (user, token) →
    s.held thread = amountOf (m.read thread).balance

/-- What is put into the balance: a deposit. -/
def Operation.Deposits (indexed : IndexedEvent) : Operation → Prop
  | .putBalance other held balance => (other, held) = (user, token) →
      ∃ amount, indexed.event = .collateralDeposited user token amount ∧ 0 < amount.toInt ∧
        ∀ existing, (balance existing).amount =
          (existing.map fun (b : Balance) => b.amount + amount).getD amount
  | _ => True

variable {user token}

theorem operations_deposits (indexed : IndexedEvent)
    (only : indexed.event.OnlyDeposits user token) :
    ∀ operation ∈ operations indexed, operation.Deposits user token indexed := by
  obtain ⟨blockNumber, blockTimestamp, txHash, txIndex, logIndex, event⟩ := indexed
  cases event with
  | collateralDeposited other held amount =>
      have put (same : (other, held) = (user, token)) :
          (other = user ∧ held = token) ∧ 0 < amount.toInt := by
        obtain ⟨rfl, rfl⟩ := Prod.mk.inj same
        exact ⟨⟨rfl, rfl⟩, only rfl⟩
      simpa [operations, updates, ensureUser, Operation.Deposits] using put
  | collateralWithdrawn other held amount =>
      simpa [operations, updates, Operation.Deposits, Event.OnlyDeposits] using only
  | positionClosed _ _ _ _ _ _ isFullClose =>
      cases isFullClose <;>
        simp [operations, updates, Operation.Deposits, ensureTraderStats, incrementTrade,
          decrementOpenPositions]
  | _ =>
      simp [operations, updates, Operation.Deposits, ensureUser, ensureTraderStats,
        incrementTrade, decrementOpenPositions]

theorem made_concat (thread : ι) (front : List (Move ι)) (move : Move ι) :
    made thread (front ++ [move]) =
      if move.thread = thread then made thread front ++ [move.operation] else made thread front := by
  rw [made, List.filter_append, List.map_append]
  by_cases own : move.thread = thread
  · rw [if_pos own, List.filter_singleton, decide_eq_true own]
    rfl
  · rw [if_neg own, List.filter_singleton, decide_eq_false own]
    exact List.append_nil _

theorem read_of_lastLookup {thread : ι} {front : List (Move ι)}
    (last : lastLookup (made thread front) = some (user, token)) :
    .read thread ∈ accesses user token front := by
  have inside : (user, token) ∈ (made thread front).filterMap Operation.lookup :=
    List.mem_of_getLast? last
  obtain ⟨operation, present, looks⟩ := List.mem_filterMap.mp inside
  obtain ⟨move, member, rfl⟩ := List.mem_map.mp present
  obtain ⟨member, own⟩ := List.mem_filter.mp member
  refine List.mem_filterMap.mpr ⟨move, member, ?_⟩
  have is_read : move.operation = .readBalance user token := by
    cases is : move.operation with
    | readBalance other held =>
        rw [is] at looks
        obtain ⟨rfl, rfl⟩ := Prod.mk.inj (Option.some.inj looks)
        rfl
    | _ =>
        rw [is] at looks
        cases looks
  rw [Move.access, is_read, ← of_decide_eq_true own]
  exact if_pos rfl

omit [DecidableEq ι] in
theorem accesses_concat (front : List (Move ι)) (move : Move ι) :
    accesses user token (front ++ [move]) =
      accesses user token front ++ (move.access user token).toList := by
  rw [accesses, List.filterMap_append]
  cases found : move.access user token <;> simp [found, accesses]

section Step

variable {front : List (Move ι)} {m : Machine ι} {s : Register.State ι} {move : Move ι}

theorem Operation.learn_balance {operation : Operation} (quiet : operation.lookup = none)
    (stores : Stores) (read : Private) :
    (operation.learn stores read).balance = read.balance := by
  cases operation with
  | readBalance other held => cases quiet
  | _ => rfl

/-- A deposit into what was read, if the sum fits. -/
theorem amountOf_put {existing : Option Balance} {put : Balance} {amount : FixedI128}
    (puts : put.amount = (existing.map fun (b : Balance) => b.amount + amount).getD amount)
    (positive : 0 < amount.toInt) (fits : amountOf existing + amount.toInt < 2 ^ 127) :
    amountOf (some put) = amountOf existing + amount.toInt := by
  change put.amount.toInt = _
  rw [puts]
  cases existing with
  | none => exact (zero_add _).symm
  | some b =>
      change b.amount.toInt + amount.toInt < 2 ^ 127 at fits
      have low := b.amount.toInt_bounds.1
      exact I128.toInt_add (by omega) fits

theorem heldAmount_step (apart : (user, token) ∉
      (move.operation.effect move.indexed (m.read move.thread)).balance.map Prod.fst) :
    heldAmount user token (m.step move).stores = heldAmount user token m.stores :=
  congrArg amountOf (Table.getElem?_change_of_ne _ apart)

omit [DecidableEq ι] in
theorem Move.cases_of_deposits (deposits : move.operation.Deposits user token move.indexed) :
    move.operation = .readBalance user token ∨
    (∃ amount balance, move.operation = .putBalance user token balance ∧
      move.indexed.event = .collateralDeposited user token amount ∧ 0 < amount.toInt ∧
      ∀ existing, (balance existing).amount =
        (existing.map fun (b : Balance) => b.amount + amount).getD amount) ∨
    move.access user token = none ∧ move.operation.lookup ≠ some (user, token) ∧
      ∀ read, (user, token) ∉ (move.operation.effect move.indexed read).balance.map Prod.fst := by
  obtain ⟨thread, indexed, operation⟩ := move
  cases operation with
  | readBalance other held =>
      by_cases same : (other, held) = (user, token)
      · obtain ⟨rfl, rfl⟩ := Prod.mk.inj same
        exact Or.inl rfl
      · refine Or.inr (Or.inr ⟨if_neg same, fun here => same (Option.some.inj here), ?_⟩)
        intro read here
        cases here
  | putBalance other held balance =>
      by_cases same : (other, held) = (user, token)
      · obtain ⟨amount, event, positive, puts⟩ := deposits same
        obtain ⟨rfl, rfl⟩ := Prod.mk.inj same
        exact Or.inr (Or.inl ⟨amount, balance, rfl, event, positive, puts⟩)
      · refine Or.inr (Or.inr ⟨if_neg same, ?_, fun read here => same (Option.some.inj here)⟩)
        intro here
        cases here
  | _ =>
      refine Or.inr (Or.inr ⟨rfl, ?_, ?_⟩)
      · intro here
        cases here
      · intro read here
        cases here

theorem Follows.others (follows : Follows user token front m s) {thread : ι}
    (apart : move.thread ≠ thread)
    (last : lastLookup (made thread (front ++ [move])) = some (user, token)) :
    s.held thread = amountOf ((m.step move).read thread).balance := by
  rw [made_concat, if_neg apart] at last
  have same : (m.step move).read thread = m.read thread := Function.update_of_ne apart.symm _ _
  rw [same]
  exact follows.held thread last

theorem Follows.step (follows : Follows user token front m s)
    (deposits : move.operation.Deposits user token move.indexed)
    (ready : ∀ balance, move.operation = .putBalance user token balance →
      lastLookup (made move.thread front) = some (user, token) ∧
        s.held move.thread + move.indexed.event.deposit user token < 2 ^ 127) :
    Follows user token (front ++ [move]) (m.step move)
      (s.run (move.access user token).toList) := by
  have own : (m.step move).read move.thread =
      move.operation.learn m.stores (m.read move.thread) := Function.update_self _ _ _
  rcases Move.cases_of_deposits deposits with
    is_read | ⟨amount, balance, is_put, event, positive, puts⟩ | ⟨quiet, looks, apart⟩
  · have access : move.access user token = some (.read move.thread) := by
      rw [Move.access, is_read]
      exact if_pos rfl
    rw [access]
    refine ⟨follows.value.trans (heldAmount_step ?_).symm, fun thread last => ?_⟩
    · rw [is_read]
      exact fun here => by cases here
    · by_cases same : move.thread = thread
      · subst same
        rw [own, is_read]
        have reads : (s.run [.read move.thread]).held move.thread = s.value :=
          Function.update_self _ _ _
        exact reads.trans follows.value
      · have stays : (s.run [.read move.thread]).held thread = s.held thread :=
          Function.update_of_ne (Ne.symm same) _ _
        exact stays.trans (follows.others same last)
  · have access : move.access user token =
        some (.write move.thread (move.indexed.event.deposit user token)) := by
      rw [Move.access, is_put]
      exact if_pos rfl
    have added : move.indexed.event.deposit user token = amount.toInt := by
      rw [event]
      exact if_pos rfl
    obtain ⟨known, fits⟩ := ready balance is_put
    have holds := follows.held move.thread known
    have looks : move.operation.lookup = none := by rw [is_put]; rfl
    rw [access]
    refine ⟨?_, fun thread last => ?_⟩
    · change s.held move.thread + move.indexed.event.deposit user token =
        amountOf ((m.stores.balances.balances.change _)[(user, token)]?)
      rw [added] at fits ⊢
      rw [is_put]
      simp only [Operation.effect]
      rw [Table.getElem?_change, if_pos rfl, holds]
      rw [holds] at fits
      exact (amountOf_put (puts _) positive fits).symm
    · by_cases same : move.thread = thread
      · subst same
        rw [own, Operation.learn_balance looks]
        rw [made_concat, if_pos rfl, lastLookup_concat, looks] at last
        exact follows.held move.thread last
      · exact follows.others same last
  · rw [quiet]
    refine ⟨follows.value.trans (heldAmount_step (apart _)).symm, fun thread last => ?_⟩
    by_cases same : move.thread = thread
    · subst same
      rw [made_concat, if_pos rfl, lastLookup_concat] at last
      cases found : move.operation.lookup with
      | some key =>
          rw [found] at last
          exact absurd (found.trans last) looks
      | none =>
          rw [own, Operation.learn_balance found]
          rw [found] at last
          exact follows.held move.thread last
    · exact follows.others same last

end Step

section Runs

variable {events : ι → List IndexedEvent} {schedule : List (Move ι)}

theorem made_schedule (interleaves : Interleaves events schedule) (thread : ι) :
    made thread schedule = (events thread).flatMap operations := by
  rw [made, interleaves thread, List.map_flatMap]
  refine List.flatMap_congr fun indexed _ => ?_
  rw [moves, List.map_map]
  exact List.map_id _

/-- What a thread has made before a move is a front of all it makes. -/
theorem Interleaves.made_split (interleaves : Interleaves events schedule)
    {front : List (Move ι)} {move : Move ι} (inside : front ++ [move] <+: schedule) :
    ∃ rest, (events move.thread).flatMap operations =
      made move.thread front ++ move.operation :: rest := by
  obtain ⟨rest, split⟩ := inside
  refine ⟨made move.thread rest, ?_⟩
  have front_made := made_concat move.thread front move
  rw [if_pos rfl] at front_made
  have whole : made move.thread (front ++ [move] ++ rest) =
      made move.thread (front ++ [move]) ++ made move.thread rest := by
    rw [made, List.filter_append, List.map_append]
    rfl
  rw [← made_schedule interleaves, ← split, whole, front_made, List.append_assoc]
  rfl

theorem Interleaves.known (interleaves : Interleaves events schedule) {front : List (Move ι)}
    {move : Move ι} (inside : front ++ [move] <+: schedule) {balance : Option Balance → Balance}
    (is_put : move.operation = .putBalance user token balance) :
    lastLookup (made move.thread front) = some (user, token) := by
  obtain ⟨rest, split⟩ := interleaves.made_split inside
  have whole := flatMap_putsRead (events move.thread) none
  rw [split, is_put] at whole
  have last := PutsRead.put whole
  rwa [Option.or_none] at last

omit [DecidableEq ι] in
theorem accesses_front {front : List (Register.Access ι)} {last : Register.Access ι}
    (inside : front ++ [last] <+: accesses user token schedule) :
    ∃ before move, before ++ [move] <+: schedule ∧ accesses user token before = front ∧
      move.access user token = some last := by
  obtain ⟨rest, split⟩ := inside
  rw [List.append_assoc] at split
  obtain ⟨left, right, rfl, is_front, is_rest⟩ := List.filterMap_eq_append_iff.mp split.symm
  obtain ⟨quiet, move, later, rfl, silent, is_last, _⟩ := List.filterMap_eq_cons_iff.mp is_rest
  refine ⟨left ++ quiet, move, ⟨later, by simp⟩, ?_, is_last⟩
  have none : quiet.filterMap (Move.access user token) = [] := by
    refine List.filterMap_eq_nil_iff.mpr silent
  rw [accesses, List.filterMap_append, none, List.append_nil]
  exact is_front

variable (interleaves : Interleaves events schedule)
  (only : ∀ thread, ∀ indexed ∈ events thread, indexed.event.OnlyDeposits user token)

include interleaves only

theorem move_deposits {move : Move ι} (member : move ∈ schedule) :
    move.operation.Deposits user token move.indexed := by
  obtain ⟨present, makes⟩ := interleaves.member member
  exact operations_deposits move.indexed (only _ _ present) _ makes

/-- Every deposit is added to what its thread has read. -/
theorem accesses_add {front : List (Register.Access ι)} {last : Register.Access ι}
    (inside : front ++ [last] <+: accesses user token schedule) : last.Adds front := by
  obtain ⟨before, move, within, rfl, accessed⟩ := accesses_front inside
  have member : move ∈ schedule := within.subset (List.mem_append_right _ List.mem_cons_self)
  rcases Move.cases_of_deposits (move_deposits interleaves only member) with
    is_read | ⟨amount, balance, is_put, event, positive, _⟩ | ⟨quiet, _⟩
  · rw [Move.access, is_read] at accessed
    obtain rfl := Option.some.inj ((if_pos rfl).symm.trans accessed)
    trivial
  · rw [Move.access, is_put, event] at accessed
    obtain rfl := Option.some.inj ((if_pos rfl).symm.trans accessed)
    refine ⟨read_of_lastLookup (interleaves.known within is_put), ?_⟩
    rw [Event.deposit, if_pos rfl]
    exact positive
  · rw [quiet] at accessed
    cases accessed

theorem accesses_amount (access : Register.Access ι) (member : access ∈ accesses user token schedule) :
    0 ≤ access.amount := by
  obtain ⟨front, back, split⟩ := List.append_of_mem member
  have inside : front ++ [access] <+: accesses user token schedule :=
    ⟨back, by rw [split, List.append_assoc]; rfl⟩
  have adds := accesses_add interleaves only inside
  cases access with
  | read thread => exact le_refl _
  | write thread amount => exact le_of_lt adds.2

theorem run_follows (m : Machine ι)
    (fits : heldAmount user token m.stores + Register.written (accesses user token schedule) <
      2 ^ 127) :
    Follows user token schedule (m.run schedule)
      ((⟨heldAmount user token m.stores, fun _ => 0⟩ : Register.State ι).run
        (accesses user token schedule)) := by
  refine foldl_holds (fun front later => Follows user token front later
    ((⟨heldAmount user token m.stores, fun _ => 0⟩ : Register.State ι).run
      (accesses user token front))) ?_ ?_
  · refine ⟨rfl, fun thread last => ?_⟩
    cases last
  · intro front move later inside follows
    have member : move ∈ schedule := inside.subset (List.mem_append_right _ List.mem_cons_self)
    rw [accesses_concat, Register.State.run, List.foldl_append]
    refine follows.step (move_deposits interleaves only member) fun balance is_put => ?_
    have known := interleaves.known inside is_put
    refine ⟨known, ?_⟩
    have all : accesses user token (front ++ [move]) <+: accesses user token schedule :=
      inside.filterMap _
    have access : move.access user token =
        some (.write move.thread (move.indexed.event.deposit user token)) := by
      rw [Move.access, is_put]
      exact if_pos rfl
    have sums := Register.written_le all (accesses_amount interleaves only)
    rw [accesses_concat, access, Option.toList_some, Register.written_append] at sums
    have tracks := Register.run_tracks (accesses user token front)
      (⟨heldAmount user token m.stores, fun _ => 0⟩ : Register.State ι)
      fun earlier last within => accesses_add interleaves only (within.trans
        (((List.prefix_append front [move]).filterMap _).trans all))
    have most := tracks.held_le (read_of_lastLookup known)
    have added : Register.Access.amount
        (.write move.thread (move.indexed.event.deposit user token)) =
        move.indexed.event.deposit user token := rfl
    rw [added] at sums
    exact lt_of_le_of_lt (by linarith only [most, sums]) fits

end Runs

section Totals

variable {events : ι → List IndexedEvent} {schedule : List (Move ι)}

omit [DecidableEq ι] in
theorem written_moves (thread : ι) (indexed : IndexedEvent)
    (only : indexed.event.OnlyDeposits user token) :
    Register.written (accesses user token (moves thread indexed)) =
      indexed.event.deposit user token := by
  obtain ⟨blockNumber, blockTimestamp, txHash, txIndex, logIndex, event⟩ := indexed
  cases event with
  | collateralDeposited other held amount =>
      by_cases same : (other, held) = (user, token) <;>
        simp [accesses, List.filterMap_cons, moves, operations, updates, ensureUser, Move.access,
          Event.deposit, same, Register.written, Register.Access.amount]
  | collateralWithdrawn other held amount =>
      have apart : (other, held) ≠ (user, token) := only
      simp [accesses, List.filterMap_cons, moves, operations, updates, Move.access, Event.deposit,
        apart, Register.written]
  | positionClosed _ _ _ _ _ _ isFullClose =>
      cases isFullClose <;>
        simp [accesses, List.filterMap_cons, moves, operations, updates, ensureTraderStats,
          incrementTrade, decrementOpenPositions, Move.access, Event.deposit, Register.written]
  | _ =>
      simp [accesses, List.filterMap_cons, moves, operations, updates, ensureUser, ensureTraderStats,
        incrementTrade, decrementOpenPositions, Move.access, Event.deposit, Register.written]

omit [DecidableEq ι] in
theorem written_oneByOne (serial : List (ι × IndexedEvent))
    (only : ∀ entry ∈ serial, entry.2.event.OnlyDeposits user token) :
    Register.written (accesses user token (oneByOne serial)) =
      deposits user token (serial.map Prod.snd) := by
  induction serial with
  | nil => rfl
  | cons entry serial ih =>
      have head := written_moves entry.1 entry.2 (only entry List.mem_cons_self)
      have tail := ih fun other member => only other (List.mem_cons_of_mem entry member)
      rw [oneByOne, List.flatMap_cons, accesses, List.filterMap_append, Register.written,
        List.map_append, List.sum_append]
      exact congrArg₂ (· + ·) head tail

theorem deposit_nonneg {event : Event} (only : event.OnlyDeposits user token) :
    0 ≤ event.deposit user token := by
  cases event with
  | collateralDeposited other held amount =>
      by_cases same : (other, held) = (user, token)
      · rw [Event.deposit, if_pos same]
        exact le_of_lt (only same)
      · rw [Event.deposit, if_neg same]
  | _ => exact le_refl _

theorem heldAmount_applyEvent (indexed : IndexedEvent) (db : PerfDb)
    (only : indexed.event.OnlyDeposits user token)
    (fits : heldAmount user token db.toStores + indexed.event.deposit user token < 2 ^ 127) :
    heldAmount user token (db.applyEvent indexed).toStores =
      heldAmount user token db.toStores + indexed.event.deposit user token := by
  rw [heldAmount, (applyEvent_effects indexed db).balances]
  obtain ⟨blockNumber, blockTimestamp, txHash, txIndex, logIndex, event⟩ := indexed
  cases event with
  | collateralDeposited other held amount =>
      simp only [IndexedEvent.onBalances, BalanceCache.get_setRaw]
      by_cases same : (other, held) = (user, token)
      · have positive := only same
        simp only [Event.deposit, if_pos same] at fits ⊢
        obtain ⟨rfl, rfl⟩ := Prod.mk.inj same
        exact amountOf_put rfl positive fits
      · rw [if_neg same]
        simp only [Event.deposit, if_neg same]
        exact (add_zero _).symm
  | collateralWithdrawn other held amount =>
      simp only [IndexedEvent.onBalances, BalanceCache.get_setRaw]
      rw [if_neg only]
      exact (add_zero _).symm
  | _ => exact (add_zero _).symm

theorem heldAmount_applyAll (events : List IndexedEvent) (db : PerfDb)
    (only : ∀ indexed ∈ events, indexed.event.OnlyDeposits user token)
    (fits : heldAmount user token db.toStores + deposits user token events < 2 ^ 127) :
    heldAmount user token (applyAll events db).toStores =
      heldAmount user token db.toStores + deposits user token events := by
  induction events generalizing db with
  | nil => exact (add_zero _).symm
  | cons indexed events ih =>
      have later : ∀ other ∈ events, other.event.OnlyDeposits user token :=
        fun other member => only other (List.mem_cons_of_mem indexed member)
      have rest : 0 ≤ deposits user token events := List.sum_nonneg fun amount inside => by
        obtain ⟨other, member, rfl⟩ := List.mem_map.mp inside
        exact deposit_nonneg (later other member)
      have sums : deposits user token (indexed :: events) =
          indexed.event.deposit user token + deposits user token events := List.sum_cons
      rw [sums] at fits ⊢
      have first := heldAmount_applyEvent indexed db (only indexed List.mem_cons_self)
        (by linarith only [fits, rest])
      change heldAmount user token (applyAll events (db.applyEvent indexed)).toStores = _
      rw [ih (db.applyEvent indexed) later (by linarith only [fits, first]), first, add_assoc]

end Totals

section Result

variable (events : ι → List IndexedEvent) (schedule : List (Move ι))
  (serial : List (ι × IndexedEvent)) (db : PerfDb) (read : ι → Private)

/-- Threads that deposit to one balance leave no more there than depositing one by one does, and
as much exactly if nobody else puts the balance between a thread's read of it and its put. -/
theorem concurrent_deposits_kept_iff (interleaves : Interleaves events schedule)
    (ordered : ∀ thread,
      (serial.filter fun entry => entry.1 = thread).map Prod.snd = events thread)
    (only : ∀ thread, ∀ indexed ∈ events thread, indexed.event.OnlyDeposits user token)
    (fits : heldAmount user token db.toStores + deposits user token (serial.map Prod.snd) <
      2 ^ 127) :
    let concurrently := ((⟨db.toStores, read⟩ : Machine ι).run schedule).stores
    let serially := (applyAll (serial.map Prod.snd) db).toStores
    heldAmount user token concurrently ≤ heldAmount user token serially ∧
      (heldAmount user token concurrently = heldAmount user token serially ↔
        Register.Exclusive (accesses user token schedule)) := by
  intro concurrently serially
  have all : ∀ entry ∈ serial, entry.2.event.OnlyDeposits user token := by
    intro entry member
    refine only entry.1 entry.2 ?_
    rw [← ordered entry.1]
    exact List.mem_map_of_mem (List.mem_filter.mpr ⟨member, decide_eq_true rfl⟩)
  have moved := interleaves.reordered ordered
  have total : Register.written (accesses user token schedule) =
      deposits user token (serial.map Prod.snd) := by
    rw [← written_oneByOne serial all]
    exact ((moved.perm.filterMap (Move.access user token)).map Register.Access.amount).sum_eq
  have serial_amount := heldAmount_applyAll (serial.map Prod.snd) db (fun indexed member => by
    obtain ⟨entry, inside, rfl⟩ := List.mem_map.mp member
    exact all entry inside) fits
  rw [← total] at fits serial_amount
  have follows := run_follows interleaves only (⟨db.toStores, read⟩ : Machine ι) fits
  have tracks := Register.run_tracks (accesses user token schedule)
    (⟨heldAmount user token db.toStores, fun _ => 0⟩ : Register.State ι)
    fun front last inside => accesses_add interleaves only inside
  rw [serial_amount, ← follows.value]
  exact ⟨tracks.upper, tracks.whole⟩

/-- Two threads that read the balance before either puts it: of 500 and 300 the 500 are lost. -/
theorem concurrent_deposits_kept_iff_two :
    let user : Address := Vector.replicate 20 1
    let token : Address := Vector.replicate 20 9
    let one : IndexedEvent := ⟨5, 1700000000, Vector.replicate 32 0, 0, 0,
      .collateralDeposited user token 500⟩
    let other : IndexedEvent := ⟨5, 1700000000, Vector.replicate 32 0, 0, 1,
      .collateralDeposited user token 300⟩
    let schedule := ((moves false one).zip (moves true other)).flatMap fun pair =>
      [pair.1, pair.2]
    let concurrently := ((⟨(PerfDb.ofStores .new).toStores, fun _ => ⟨none, none, none⟩⟩ :
      Machine Bool).run schedule).stores
    let serially := (applyAll ([(false, one), (true, other)].map Prod.snd) (.ofStores .new)).toStores
    (heldAmount user token concurrently ≤ heldAmount user token serially ∧
      (heldAmount user token concurrently = heldAmount user token serially ↔
        Register.Exclusive (accesses user token schedule))) ∧
      heldAmount user token concurrently = 300 := by
  intro user token one other schedule concurrently serially
  refine ⟨?_, by decide +kernel⟩
  apply concurrent_deposits_kept_iff (fun thread => if thread then [other] else [one]) schedule
    [(false, one), (true, other)] (.ofStores .new) (fun _ => ⟨none, none, none⟩)
  · intro thread
    cases thread <;> rfl
  · intro thread
    cases thread <;> rfl
  · intro thread indexed member
    cases thread with
    | false =>
        obtain rfl := List.mem_singleton.mp member
        exact fun _ => by decide
    | true =>
        obtain rfl := List.mem_singleton.mp member
        exact fun _ => by decide
  · decide

end Result

end Accesses

end Concurrent

end Perfdb
