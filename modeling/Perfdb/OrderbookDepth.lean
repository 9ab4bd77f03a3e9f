import Mathlib
import Perfdb.Buckets
import Perfdb.Orders

set_option autoImplicit false

namespace Perfdb

/-- A single price level in the orderbook depth. -/
structure DepthLevel where
  price : FixedI128
  orderCount : Nat
  deriving DecidableEq

namespace BookSide

def depthLevel (level : FixedI128 × List Hash) : DepthLevel := ⟨level.1, level.2.length⟩

def levels (side : BookSide) : List DepthLevel := side.toList.map depthLevel

def count (side : BookSide) : Nat := (side.toList.map fun level => level.2.length).sum

end BookSide

namespace Orderbook

def bestBid (book : Orderbook) : Option FixedI128 := book.bids.keys.getLast?

def bestAsk (book : Orderbook) : Option FixedI128 := book.asks.keys.head?

/-- Top N bid levels (highest price first). -/
def bidsDepth (book : Orderbook) (levels : Nat) : List DepthLevel :=
  (book.bids.toList.reverse.take levels).map BookSide.depthLevel

/-- Top N ask levels (lowest price first). -/
def asksDepth (book : Orderbook) (levels : Nat) : List DepthLevel :=
  (book.asks.toList.take levels).map BookSide.depthLevel

def bidCount (book : Orderbook) : Nat := book.bids.count

def askCount (book : Orderbook) : Nat := book.asks.count

theorem bidsDepth_eq (book : Orderbook) (n : Nat) :
    book.bidsDepth n = book.bids.levels.reverse.take n := by
  rw [bidsDepth, List.map_take, List.map_reverse, BookSide.levels]

theorem asksDepth_eq (book : Orderbook) (n : Nat) : book.asksDepth n = book.asks.levels.take n := by
  rw [asksDepth, List.map_take, BookSide.levels]

end Orderbook

inductive BookOp where
  | addBid (price : FixedI128) (orderId : Hash)
  | addAsk (price : FixedI128) (orderId : Hash)
  | removeBid (price : FixedI128) (orderId : Hash)
  | removeAsk (price : FixedI128) (orderId : Hash)

def Orderbook.apply (book : Orderbook) : BookOp → Orderbook
  | .addBid price orderId => book.addBid price orderId
  | .addAsk price orderId => book.addAsk price orderId
  | .removeBid price orderId => book.removeBid price orderId
  | .removeAsk price orderId => book.removeAsk price orderId

/-- The prices and ids of each side as they came; taking one away takes all that are equal. -/
structure FlatBook where
  bids : List (FixedI128 × Hash)
  asks : List (FixedI128 × Hash)

def FlatBook.apply (flat : FlatBook) : BookOp → FlatBook
  | .addBid price orderId => { flat with bids := flat.bids ++ [(price, orderId)] }
  | .addAsk price orderId => { flat with asks := flat.asks ++ [(price, orderId)] }
  | .removeBid price orderId => { flat with bids := without flat.bids (price, orderId) }
  | .removeAsk price orderId => { flat with asks := without flat.asks (price, orderId) }

structure Orderbook.Holds (book : Orderbook) (flat : FlatBook) : Prop where
  bids : Bucketed book.bids flat.bids
  asks : Bucketed book.asks flat.asks

theorem Orderbook.Holds.apply {book : Orderbook} {flat : FlatBook} (holds : book.Holds flat)
    (op : BookOp) : (book.apply op).Holds (flat.apply op) := by
  obtain ⟨bids, asks⟩ := holds
  cases op with
  | addBid price orderId => exact ⟨bids.push price orderId, asks⟩
  | addAsk price orderId => exact ⟨bids, asks.push price orderId⟩
  | removeBid price orderId => exact ⟨bids.without price orderId, asks⟩
  | removeAsk price orderId => exact ⟨bids, asks.without price orderId⟩

theorem Orderbook.Holds.run {book : Orderbook} {flat : FlatBook} (holds : book.Holds flat)
    (ops : List BookOp) : (ops.foldl Orderbook.apply book).Holds (ops.foldl FlatBook.apply flat) := by
  induction ops generalizing book flat with
  | nil => exact holds
  | cons op ops ih => exact ih (holds.apply op)

namespace I128

theorem compare_lt_iff (a b : I128) : compare a b = .lt ↔ a < b := Int.compare_eq_lt

instance : Std.Total fun a b : I128 => a ≤ b := ⟨fun a b => Int.le_total a.toInt b.toInt⟩

instance : IsTrans I128 fun a b => a ≤ b := ⟨fun _ _ _ first second => Int.le_trans first second⟩

instance : Std.Antisymm fun a b : I128 => a ≤ b :=
  ⟨fun _ _ first second => toInt_injective (Int.le_antisymm first second)⟩

instance : Std.Total fun a b : I128 => b ≤ a := ⟨fun a b => Int.le_total b.toInt a.toInt⟩

instance : IsTrans I128 fun a b => b ≤ a := ⟨fun _ _ _ first second => Int.le_trans second first⟩

instance : Std.Antisymm fun a b : I128 => b ≤ a :=
  ⟨fun _ _ first second => toInt_injective (Int.le_antisymm second first)⟩

end I128

section Prices

variable {pairs : List (FixedI128 × Hash)} {side : BookSide}

/-- The prices of the pairs, each once, in an order. -/
def prices (order : FixedI128 → FixedI128 → Prop) [DecidableRel order]
    (pairs : List (FixedI128 × Hash)) : List FixedI128 :=
  (pairs.map Prod.fst).dedup.insertionSort order

/-- A price with the number of pairs that have it. -/
def levelOf (pairs : List (FixedI128 × Hash)) (price : FixedI128) : DepthLevel :=
  ⟨price, (pairs.map Prod.fst).count price⟩

theorem keys_ascending (side : BookSide) : side.keys.Pairwise (· < ·) :=
  Std.ExtTreeMap.ordered_keys.imp fun before => (I128.compare_lt_iff _ _).mp before

theorem keys_eq (bucketed : Bucketed side pairs) : side.keys = prices (· ≤ ·) pairs := by
  have ascending : side.keys.Pairwise (· ≤ ·) :=
    (keys_ascending side).imp fun before => Int.le_of_lt before
  exact (bucketed.keys_perm.trans (List.perm_insertionSort _ _).symm).eq_of_pairwise' ascending
    (List.pairwise_insertionSort _ _)

theorem keys_reverse_eq (bucketed : Bucketed side pairs) :
    side.keys.reverse = prices (fun a b => b ≤ a) pairs := by
  have falling : side.keys.reverse.Pairwise fun a b => b ≤ a :=
    List.pairwise_reverse.mpr ((keys_ascending side).imp fun before => Int.le_of_lt before)
  have perm := (List.reverse_perm side.keys).trans
    (bucketed.keys_perm.trans (List.perm_insertionSort (fun a b => b ≤ a) _).symm)
  exact perm.eq_of_pairwise' falling (List.pairwise_insertionSort _ _)

theorem levels_eq (bucketed : Bucketed side pairs) :
    side.levels = (prices (· ≤ ·) pairs).map (levelOf pairs) := by
  have sizes := congrArg (List.map fun level : FixedI128 × Nat => DepthLevel.mk level.1 level.2)
    bucketed.toList_sizes
  rw [List.map_map, List.map_map, keys_eq bucketed] at sizes
  exact sizes

theorem levels_reverse_eq (bucketed : Bucketed side pairs) :
    side.levels.reverse = (prices (fun a b => b ≤ a) pairs).map (levelOf pairs) := by
  rw [levels_eq bucketed, ← List.map_reverse, ← keys_eq bucketed, keys_reverse_eq bucketed]

/-- The first of a list in order is the one that comes before all. -/
theorem head?_eq_some_iff_first {α : Type} {r : α → α → Prop} [Std.Total r] [Std.Antisymm r]
    {list : List α} (sorted : list.Pairwise r) (a : α) :
    list.head? = some a ↔ a ∈ list ∧ ∀ b ∈ list, r a b := by
  cases list with
  | nil => simp
  | cons first rest =>
      rw [List.pairwise_cons] at sorted
      have least : ∀ b ∈ first :: rest, r first b := by
        intro b member
        rcases List.mem_cons.mp member with rfl | later
        · exact (Std.Total.total b b).elim id id
        · exact sorted.1 b later
      rw [List.head?_cons, Option.some.injEq]
      constructor
      · rintro rfl
        exact ⟨List.mem_cons_self, least⟩
      · rintro ⟨member, before⟩
        exact Std.Antisymm.antisymm first a (least a member) (before first List.mem_cons_self)

theorem lowest_iff (bucketed : Bucketed side pairs) (price : FixedI128) :
    side.keys.head? = some price ↔
      price ∈ pairs.map Prod.fst ∧ ∀ other ∈ pairs.map Prod.fst, price ≤ other := by
  have ascending : side.keys.Pairwise (· ≤ ·) :=
    (keys_ascending side).imp fun before => Int.le_of_lt before
  rw [head?_eq_some_iff_first ascending]
  simp only [bucketed.mem_keys]

theorem highest_iff (bucketed : Bucketed side pairs) (price : FixedI128) :
    side.keys.getLast? = some price ↔
      price ∈ pairs.map Prod.fst ∧ ∀ other ∈ pairs.map Prod.fst, other ≤ price := by
  have falling : side.keys.reverse.Pairwise fun a b => b ≤ a :=
    List.pairwise_reverse.mpr ((keys_ascending side).imp fun before => Int.le_of_lt before)
  rw [← List.head?_reverse, head?_eq_some_iff_first falling]
  simp only [List.mem_reverse, bucketed.mem_keys]

theorem levels_ascending (side : BookSide) :
    side.levels.Pairwise fun a b => a.price < b.price := by
  have ascending := keys_ascending side
  rw [← Std.ExtTreeMap.map_fst_toList_eq_keys, List.pairwise_map] at ascending
  exact List.pairwise_map.mpr ascending

end Prices

/-- What a book shows is what the lists hold. -/
structure ExactDepth (book : Orderbook) (flat : FlatBook) : Prop where
  bidLevels : ∀ (price : FixedI128) (ids : List Hash), book.bids[price]? = some ids → ids ≠ []
  askLevels : ∀ (price : FixedI128) (ids : List Hash), book.asks[price]? = some ids → ids ≠ []
  bidsDepth : ∀ n, book.bidsDepth n =
    ((prices (fun a b => b ≤ a) flat.bids).take n).map (levelOf flat.bids)
  asksDepth : ∀ n, book.asksDepth n =
    ((prices (· ≤ ·) flat.asks).take n).map (levelOf flat.asks)
  falling : ∀ n, (book.bidsDepth n).Pairwise fun a b => b.price < a.price
  rising : ∀ n, (book.asksDepth n).Pairwise fun a b => a.price < b.price
  bestBid : ∀ price, book.bestBid = some price ↔
    price ∈ flat.bids.map Prod.fst ∧ ∀ other ∈ flat.bids.map Prod.fst, other ≤ price
  bestAsk : ∀ price, book.bestAsk = some price ↔
    price ∈ flat.asks.map Prod.fst ∧ ∀ other ∈ flat.asks.map Prod.fst, price ≤ other
  bidCount : book.bidCount = flat.bids.length
  askCount : book.askCount = flat.asks.length

theorem Orderbook.Holds.exactDepth {book : Orderbook} {flat : FlatBook} (holds : book.Holds flat) :
    ExactDepth book flat where
  bidLevels _ _ found := holds.bids.ne_nil found
  askLevels _ _ found := holds.asks.ne_nil found
  bidsDepth n := by rw [bidsDepth_eq, levels_reverse_eq holds.bids, List.map_take]
  asksDepth n := by rw [asksDepth_eq, levels_eq holds.asks, List.map_take]
  falling n := by
    rw [bidsDepth_eq]
    exact (List.pairwise_reverse.mpr (levels_ascending book.bids)).sublist (List.take_sublist n _)
  rising n := by
    rw [asksDepth_eq]
    exact (levels_ascending book.asks).sublist (List.take_sublist n _)
  bestBid := highest_iff holds.bids
  bestAsk := lowest_iff holds.asks
  bidCount := holds.bids.sum_sizes
  askCount := holds.asks.sum_sizes

/-- The depth of a book is exact after any operations on an empty one. -/
theorem orderbook_depth_exact (ops : List BookOp) :
    ExactDepth (ops.foldl Orderbook.apply Orderbook.new) (ops.foldl FlatBook.apply ⟨[], []⟩) := by
  have start : Orderbook.new.Holds ⟨[], []⟩ := ⟨Bucketed.empty, Bucketed.empty⟩
  exact (start.run ops).exactDepth

end Perfdb
