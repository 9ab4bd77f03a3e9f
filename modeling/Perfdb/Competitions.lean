import Mathlib
import Perfdb.Enlisted
import Perfdb.Histories
import Perfdb.TopN
import Perfdb.Types

set_option autoImplicit false

namespace Perfdb

structure Competition where
  id : String
  name : String
  description : Option String
  startAt : UInt64
  endAt : UInt64
  metric : String
  prizePool : Option String
  active : Bool
  createdAt : UInt64
  deriving DecidableEq

structure CompetitionEntry where
  competitionId : String
  address : Address
  score : I128
  rank : Option UInt32
  joinedAt : UInt64
  deriving DecidableEq

structure CompetitionStore where
  competitions : Table String Competition
  entries : Table String (List CompetitionEntry)
  byUser : Table Address (List String)

namespace CompetitionStore

def new : CompetitionStore := ⟨∅, ∅, ∅⟩

def insertCompetition (store : CompetitionStore) (comp : Competition) : CompetitionStore :=
  { store with competitions := store.competitions.insert comp.id comp }

def getCompetition (store : CompetitionStore) (id : String) : Option Competition :=
  store.competitions[id]?

def newEntry (competitionId : String) (address : Address) (timestamp : UInt64) :
    CompetitionEntry where
  competitionId := competitionId
  address := address
  score := 0
  rank := none
  joinedAt := timestamp

/-- Looking for the address makes an empty list where there is none. Returns whether the
address has joined now. -/
def join (store : CompetitionStore) (competitionId : String) (address : Address)
    (timestamp : UInt64) : Bool × CompetitionStore :=
  if store.competitions.contains competitionId then
    let opened := store.entries.insertIfNew competitionId []
    if (Table.idsFor opened competitionId).any fun e => e.address = address then
      (false, { store with entries := opened })
    else
      (true, { store with
        entries := opened.modify competitionId fun entries =>
          entries ++ [newEntry competitionId address timestamp]
        byUser := Table.pushTo store.byUser address competitionId })
  else (false, store)

def getEntries (store : CompetitionStore) (competitionId : String) (limit : Nat) :
    List CompetitionEntry :=
  match store.entries[competitionId]? with
  | some entries => (entries.insertionSort fun a b => b.score ≤ a.score).take limit
  | none => []

/-- The first entry of the address gets the score. -/
def setScore (address : Address) (score : I128) :
    List CompetitionEntry → Option (List CompetitionEntry)
  | [] => none
  | e :: entries =>
      if e.address = address then some ({ e with score := score } :: entries)
      else (setScore address score entries).map (e :: ·)

/-- Returns whether there is such an entry. -/
def updateScore (store : CompetitionStore) (competitionId : String) (address : Address)
    (score : I128) : Bool × CompetitionStore :=
  match store.entries[competitionId]? with
  | some entries =>
      match setScore address score entries with
      | some scored => (true, { store with entries := store.entries.insert competitionId scored })
      | none => (false, store)
  | none => (false, store)

def userCompetitions (store : CompetitionStore) (address : Address) : List String :=
  store.byUser[address]?.getD []

/-- The entries of a competition in the order they joined. -/
def entriesOf (store : CompetitionStore) (competitionId : String) : List CompetitionEntry :=
  store.entries[competitionId]?.getD []

end CompetitionStore

inductive CompetitionCall where
  | insertCompetition (comp : Competition)
  | join (competitionId : String) (address : Address) (timestamp : UInt64)
  | updateScore (competitionId : String) (address : Address) (score : I128)

def CompetitionCall.run (store : CompetitionStore) : CompetitionCall → CompetitionStore
  | .insertCompetition comp => store.insertCompetition comp
  | .join competitionId address timestamp => (store.join competitionId address timestamp).2
  | .updateScore competitionId address score => (store.updateScore competitionId address score).2

namespace CompetitionStore

/-- The entries with the score of one address changed. -/
def scored (address : Address) (score : I128) (entries : List CompetitionEntry) :
    List CompetitionEntry :=
  entries.map fun e => if e.address = address then { e with score := score } else e

/-- Whoever has an entry has one, and knows the competition. -/
structure Matched (store : CompetitionStore) : Prop where
  distinct : ∀ c, ((store.entriesOf c).map CompetitionEntry.address).Nodup
  once : ∀ address, (store.userCompetitions address).Nodup
  both : ∀ c address, c ∈ store.userCompetitions address ↔
    address ∈ (store.entriesOf c).map CompetitionEntry.address

section Lookups

variable (store : CompetitionStore) (c other : String) (address user : Address)
  (timestamp : UInt64) (score : I128)

/-- A competition that takes the address has one entry more. -/
theorem join_cases : (store.join c address timestamp).1 = false ∧
      (store.join c address timestamp).2 = store ∨
    (store.join c address timestamp).1 = true ∧ store.competitions.contains c ∧
      (∀ e ∈ store.entriesOf c, e.address ≠ address) ∧
      (store.join c address timestamp).2.competitions = store.competitions ∧
      (∀ other, (store.join c address timestamp).2.entriesOf other = store.entriesOf other ++
        if c = other then [newEntry c address timestamp] else []) ∧
      ∀ user, (store.join c address timestamp).2.userCompetitions user =
        store.userCompetitions user ++ if address = user then [c] else [] := by
  have opened (other : String) : Table.idsFor (store.entries.insertIfNew c []) other =
      store.entriesOf other := by
    rw [Table.idsFor, Table.getElem?_insertIfNew, entriesOf]
    split
    · rename_i same
      rw [← same]
      rfl
    · rfl
  unfold join
  by_cases known : store.competitions.contains c
  · rw [if_pos known]
    simp only [opened]
    by_cases taken : (store.entriesOf c).any fun e => e.address = address
    · rw [if_pos taken]
      have stored : (store.entries[c]?).isSome := by
        cases found : store.entries[c]? with
        | none =>
            rw [entriesOf, found] at taken
            cases taken
        | some entries => rfl
      have same : store.entries.insertIfNew c [] = store.entries := by
        apply Std.ExtTreeMap.ext_getElem?
        intro other
        rw [Table.getElem?_insertIfNew]
        split
        · rename_i here
          rw [← here]
          obtain ⟨entries, found⟩ := Option.isSome_iff_exists.mp stored
          rw [found, Option.getD_some]
        · rfl
      rw [same]
      exact Or.inl ⟨rfl, rfl⟩
    · rw [if_neg taken]
      refine Or.inr ⟨rfl, known, fun e member own => taken ?_, rfl, fun other => ?_, fun user => ?_⟩
      · exact List.any_eq_true.mpr ⟨e, member, decide_eq_true own⟩
      · have before := opened other
        rw [Table.idsFor] at before
        rw [entriesOf, Table.getElem?_modify]
        split
        · rename_i same
          subst same
          rw [Table.getElem?_insertIfNew, if_pos rfl, entriesOf]
          rfl
        · rw [before, List.append_nil]
      · exact Table.idsFor_pushTo store.byUser address user c
  · rw [if_neg known]
    exact Or.inl ⟨rfl, rfl⟩

theorem scored_of_absent {entries : List CompetitionEntry}
    (absent : address ∉ entries.map CompetitionEntry.address) :
    scored address score entries = entries := by
  refine (List.map_congr_left fun e member => ?_).trans (List.map_id _)
  rw [if_neg]
  · rfl
  · rintro rfl
    exact absent (List.mem_map_of_mem member)

theorem setScore_none {entries : List CompetitionEntry}
    (absent : address ∉ entries.map CompetitionEntry.address) :
    setScore address score entries = none := by
  induction entries with
  | nil => rfl
  | cons e entries ih =>
      rw [List.map_cons, List.mem_cons, not_or] at absent
      rw [setScore, if_neg fun own => absent.1 own.symm, ih absent.2, Option.map_none]

/-- Where addresses are distinct the first entry of one is its only one. -/
theorem setScore_some {entries : List CompetitionEntry}
    (distinct : (entries.map CompetitionEntry.address).Nodup)
    (present : address ∈ entries.map CompetitionEntry.address) :
    setScore address score entries = some (scored address score entries) := by
  induction entries with
  | nil => cases present
  | cons e entries ih =>
      rw [List.map_cons, List.nodup_cons] at distinct
      rw [List.map_cons, List.mem_cons] at present
      rw [setScore]
      by_cases own : e.address = address
      · have others : scored address score entries = entries := by
          apply scored_of_absent
          rw [← own]
          exact distinct.1
        rw [if_pos own, scored, List.map_cons, if_pos own]
        exact congrArg some (congrArg _ others.symm)
      · have behind := present.resolve_left fun same => own same.symm
        rw [if_neg own, ih distinct.2 behind, Option.map_some, scored, scored, List.map_cons,
          if_neg own]

/-- A score changes the entry of its address, and nothing else. -/
theorem updateScore_eq (distinct : ((store.entriesOf c).map CompetitionEntry.address).Nodup) :
    (store.updateScore c address score).2 =
      { store with entries := store.entries.modify c (scored address score) } := by
  have changed (other : String) : (store.entries.modify c (scored address score))[other]? =
      if c = other then (store.entries[c]?).map (scored address score)
      else store.entries[other]? := Table.getElem?_modify _ _ _ _
  have idle (kept : (store.entries[c]?).map (scored address score) = store.entries[c]?) :
      store.entries.modify c (scored address score) = store.entries := by
    apply Std.ExtTreeMap.ext_getElem?
    intro other
    rw [changed, kept]
    split
    · rename_i same
      rw [same]
    · rfl
  cases found : store.entries[c]? with
  | none =>
      have kept := idle (by rw [found]; rfl)
      simp only [updateScore, found, kept]
  | some entries =>
      have own : store.entriesOf c = entries := by rw [entriesOf, found, Option.getD_some]
      rw [own] at distinct
      by_cases present : address ∈ entries.map CompetitionEntry.address
      · have stored : store.entries.insert c (scored address score entries) =
            store.entries.modify c (scored address score) := by
          apply Std.ExtTreeMap.ext_getElem?
          intro other
          rw [Table.getElem?_insert, changed, found]
          rfl
        simp only [updateScore, found, setScore_some address score distinct present, stored]
      · have kept := idle (by
          rw [found, Option.map_some, scored_of_absent address score present])
        simp only [updateScore, found, setScore_none address score present, kept]

theorem updateScore_entriesOf
    (distinct : ((store.entriesOf c).map CompetitionEntry.address).Nodup) :
    (store.updateScore c address score).2.entriesOf other =
      if c = other then scored address score (store.entriesOf c) else store.entriesOf other := by
  rw [updateScore_eq store c address score distinct, entriesOf, Table.getElem?_modify]
  split
  · rw [entriesOf]
    cases store.entries[c]? <;> rfl
  · rfl

theorem scored_addresses (entries : List CompetitionEntry) :
    (scored address score entries).map CompetitionEntry.address =
      entries.map CompetitionEntry.address := by
  rw [scored, List.map_map]
  apply List.map_congr_left
  intro e _
  rw [Function.comp]
  split <;> rfl

end Lookups

section Step

variable {store : CompetitionStore}

theorem new_matched : new.Matched := by
  have entries (c : String) : new.entriesOf c = [] := by
    rw [entriesOf, new, Std.ExtTreeMap.getElem?_empty]
    rfl
  have lists (address : Address) : new.userCompetitions address = [] := by
    rw [userCompetitions, new, Std.ExtTreeMap.getElem?_empty]
    rfl
  refine ⟨fun c => ?_, fun address => ?_, fun c address => ?_⟩
  · rw [entries]
    exact List.nodup_nil
  · rw [lists]
    exact List.nodup_nil
  · rw [entries, lists]
    simp

/-- A join that is taken adds to both sides, and another one to neither. -/
theorem Matched.join (matched : store.Matched) (c : String) (address : Address)
    (timestamp : UInt64) : (store.join c address timestamp).2.Matched := by
  rcases store.join_cases c address timestamp with ⟨_, same⟩ | ⟨_, _, free, _, entries, lists⟩
  · rw [same]
    exact matched
  · have absent : address ∉ (store.entriesOf c).map CompetitionEntry.address := by
      intro inside
      obtain ⟨e, member, own⟩ := List.mem_map.mp inside
      exact free e member own
    refine ⟨fun other => ?_, fun user => ?_, fun other user => ?_⟩
    · rw [entries, List.map_append]
      split
      · rename_i same
        subst same
        rw [List.nodup_append]
        refine ⟨matched.distinct c, List.nodup_singleton _, fun a old b new same => absent ?_⟩
        rw [List.map_singleton, List.mem_singleton] at new
        rwa [same, new] at old
      · rw [List.map_nil, List.append_nil]
        exact matched.distinct other
    · rw [lists]
      split
      · rename_i same
        subst same
        rw [List.nodup_append]
        refine ⟨matched.once address, List.nodup_singleton _, fun a old b new same => absent ?_⟩
        rw [List.mem_singleton] at new
        rw [same, new] at old
        exact (matched.both c address).mp old
      · rw [List.append_nil]
        exact matched.once user
    · rw [lists, entries, List.mem_append, matched.both, List.map_append, List.mem_append]
      by_cases here : c = other
      · by_cases own : address = user
        · simp [here, own, newEntry]
        · simp [here, own, Ne.symm own, newEntry]
      · by_cases own : address = user
        · simp [here, own, Ne.symm here]
        · simp [here, own]

theorem Matched.updateScore (matched : store.Matched) (c : String) (address : Address)
    (score : I128) : (store.updateScore c address score).2.Matched := by
  have addresses (other : String) :
      ((store.updateScore c address score).2.entriesOf other).map CompetitionEntry.address =
        (store.entriesOf other).map CompetitionEntry.address := by
    rw [store.updateScore_entriesOf c other address score (matched.distinct c)]
    split
    · rename_i same
      rw [← same, scored_addresses]
    · rfl
  have lists (user : Address) : (store.updateScore c address score).2.userCompetitions user =
      store.userCompetitions user := by
    rw [store.updateScore_eq c address score (matched.distinct c)]
    rfl
  refine ⟨fun other => ?_, fun user => ?_, fun other user => ?_⟩
  · rw [addresses]
    exact matched.distinct other
  · rw [lists]
    exact matched.once user
  · rw [addresses, lists]
    exact matched.both other user

/-- The stored competitions were inserted, and only those have entries. -/
structure Inserted (calls : List CompetitionCall) (store : CompetitionStore) : Prop where
  stored : ∀ c, store.competitions.contains c →
    ∃ comp, CompetitionCall.insertCompetition comp ∈ calls ∧ comp.id = c
  entries : ∀ c, ∀ e ∈ store.entriesOf c, store.competitions.contains c

theorem new_inserted : new.Inserted [] := by
  constructor
  · intro c known
    rw [new, Std.ExtTreeMap.contains_empty] at known
    cases known
  · intro c e member
    rw [entriesOf, new, Std.ExtTreeMap.getElem?_empty] at member
    cases member

/-- Each call stores what it inserts, and adds entries where it may. -/
theorem Inserted.run {calls : List CompetitionCall} (matched : store.Matched)
    (inserted : store.Inserted calls) (call : CompetitionCall) :
    (call.run store).Inserted (calls ++ [call]) := by
  have older {c : String} (known : store.competitions.contains c) :
      ∃ comp, CompetitionCall.insertCompetition comp ∈ calls ++ [call] ∧ comp.id = c := by
    obtain ⟨comp, member, same⟩ := inserted.stored c known
    exact ⟨comp, List.mem_append_left _ member, same⟩
  cases call with
  | insertCompetition comp =>
      have contains (c : String) : (store.insertCompetition comp).competitions.contains c =
          (compare comp.id c == .eq || store.competitions.contains c) :=
        Std.ExtTreeMap.contains_insert
      constructor
      · intro c known
        rw [CompetitionCall.run, contains, Bool.or_eq_true, beq_iff_eq,
          Table.compare_eq_iff] at known
        rcases known with same | before
        · exact ⟨comp, List.mem_append_right _ (List.mem_singleton_self _), same⟩
        · exact older before
      · intro c e member
        rw [CompetitionCall.run, contains, inserted.entries c e member, Bool.or_true]
  | join c address timestamp =>
      rcases store.join_cases c address timestamp with ⟨_, same⟩ | ⟨_, known, _, comps, entries, _⟩
      · rw [CompetitionCall.run, same]
        exact ⟨fun other known => older known, inserted.entries⟩
      · constructor
        · intro other there
          rw [CompetitionCall.run, comps] at there
          exact older there
        · intro other e member
          rw [CompetitionCall.run, entries, List.mem_append] at member
          rw [CompetitionCall.run, comps]
          rcases member with before | new
          · exact inserted.entries other e before
          · split at new
            · rename_i same
              exact same ▸ known
            · cases new
  | updateScore c address score =>
      have comps : (store.updateScore c address score).2.competitions = store.competitions := by
        rw [store.updateScore_eq c address score (matched.distinct c)]
      constructor
      · intro other known
        rw [CompetitionCall.run, comps] at known
        exact older known
      · intro other e member
        rw [CompetitionCall.run,
          store.updateScore_entriesOf c other address score (matched.distinct c)] at member
        rw [CompetitionCall.run, comps]
        split at member
        · rename_i same
          obtain ⟨before, inside, _⟩ := List.mem_map.mp member
          exact same ▸ inserted.entries c before inside
        · exact inserted.entries other e member

theorem Matched.run (matched : store.Matched) (call : CompetitionCall) :
    (call.run store).Matched := by
  cases call with
  | insertCompetition comp => exact ⟨matched.distinct, matched.once, matched.both⟩
  | join c address timestamp => exact matched.join c address timestamp
  | updateScore c address score => exact matched.updateScore c address score

/-- The entries that are listed are the top of them by score. -/
theorem getEntries_eq (store : CompetitionStore) (c : String) (limit : Nat) :
    store.getEntries c limit =
      topBy (fun e : CompetitionEntry => e.score.toInt) limit (store.entriesOf c) := by
  rw [getEntries, entriesOf]
  cases store.entries[c]? with
  | none => exact (List.take_nil).symm
  | some entries => rfl

end Step

end CompetitionStore

/-- After any calls an address has at most one entry in a competition, and has one exactly when
the competition is listed once among its own. Entries are of inserted competitions; inserting one
again and refused joins change none, and a score changes at most the one it is for. The listed
entries are the best by score. -/
theorem competitions_consistent (calls : List CompetitionCall) :
    let store := calls.foldl CompetitionCall.run .new
    (∀ c, ((store.entriesOf c).map CompetitionEntry.address).Nodup) ∧
    (∀ address, (store.userCompetitions address).Nodup) ∧
    (∀ c address, (∃ e ∈ store.entriesOf c, e.address = address) ↔
      c ∈ store.userCompetitions address) ∧
    (∀ c, ∀ e ∈ store.entriesOf c,
      ∃ comp, CompetitionCall.insertCompetition comp ∈ calls ∧ comp.id = c) ∧
    (∀ comp, (store.insertCompetition comp).entries = store.entries ∧
      (store.insertCompetition comp).byUser = store.byUser) ∧
    (∀ c address timestamp, (store.join c address timestamp).1 = false →
      (store.join c address timestamp).2 = store) ∧
    (∀ c address score, (store.updateScore c address score).2 = { store with
      entries := store.entries.modify c fun entries =>
        entries.map fun e => if e.address = address then { e with score := score } else e }) ∧
    ∀ c n, (store.getEntries c n).Pairwise (fun a b => b.score ≤ a.score) ∧
      (store.getEntries c n).length = min n (store.entriesOf c).length ∧
      (store.getEntries c n).Subperm (store.entriesOf c) ∧
      ∀ e ∈ store.entriesOf c, e ∉ store.getEntries c n →
        ∀ kept ∈ store.getEntries c n, e.score ≤ kept.score := by
  intro store
  obtain ⟨matched, inserted⟩ : store.Matched ∧ store.Inserted calls :=
    foldl_holds (fun calls (store : CompetitionStore) => store.Matched ∧ store.Inserted calls)
      ⟨CompetitionStore.new_matched, CompetitionStore.new_inserted⟩
      fun _ call _ _ inv => ⟨inv.1.run call, inv.2.run inv.1 call⟩
  refine ⟨matched.distinct, matched.once, fun c address => ?_, fun c e member => ?_,
    fun comp => ⟨rfl, rfl⟩, fun c address timestamp refused => ?_, fun c address score => ?_,
    fun c n => ?_⟩
  · rw [matched.both, List.mem_map]
  · exact inserted.stored c (inserted.entries c e member)
  · rcases store.join_cases c address timestamp with ⟨_, same⟩ | ⟨taken, _⟩
    · exact same
    · rw [refused] at taken
      cases taken
  · exact store.updateScore_eq c address score (matched.distinct c)
  · let level (e : CompetitionEntry) : Int := e.score.toInt
    rw [store.getEntries_eq]
    exact ⟨topBy_pairwise level n _, topBy_length level n _, topBy_subperm level n _,
      fun e member omitted kept inside => omitted_le level member omitted inside⟩

end Perfdb
