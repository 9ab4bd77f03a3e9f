import Mathlib
import Perfdb.Codec
import Perfdb.Wal

set_option autoImplicit false

/-! The third-party encodings as they are configured here: bincode with fixed-width
little-endian integers, and the CRC-32 of IEEE 802.3. -/

namespace Perfdb.Bincode

open Codec

def u8 : Codec UInt8 := byte

def u16 : Codec UInt16 := fixed 2 UInt16.toNat UInt16.ofNat fun x => by simp

def u32 : Codec UInt32 := fixed 4 UInt32.toNat UInt32.ofNat fun x => by simp

def u64 : Codec UInt64 := fixed 8 UInt64.toNat UInt64.ofNat fun x => by simp

def i128 : Codec FixedI128 :=
  fixed 16 (fun x => x.bits.toNat) (fun n => ⟨BitVec.ofNat 128 n⟩) fun x => by
    have small := x.bits.isLt
    rw [Nat.mod_eq_of_lt (by omega), BitVec.ofNat_toNat, BitVec.setWidth_eq]

def f32 : Codec F32 := u32.via F32.mk F32.bits fun _ => rfl

def f64 : Codec F64 := u64.via F64.mk F64.bits fun _ => rfl

/-- An array of a fixed size carries no length. -/
def address : Codec Address := byte.vector 20

def hash : Codec Hash := byte.vector 32

def unit : Codec Unit := ⟨fun _ => [], fun input => .ok ((), input), fun _ _ => rfl⟩

namespace EventVariant

def positionOpened : Variant Event where
  codec := hash.pair (address.pair (u16.pair (bool.pair (i128.pair (i128.pair (i128.pair
    (address.pair i128)))))))
  build := fun (positionId, user, marketId, isLong, sizeUsd, leverage, entryPrice, collateralToken,
    collateralAmount) => .positionOpened positionId user marketId isLong sizeUsd leverage entryPrice
    collateralToken collateralAmount
  split
    | .positionOpened positionId user marketId isLong sizeUsd leverage entryPrice collateralToken
        collateralAmount => some (positionId, user, marketId, isLong, sizeUsd, leverage, entryPrice,
        collateralToken, collateralAmount)
    | _ => none
  build_split x payload found := by
    cases x <;> cases found
    rfl

def positionClosed : Variant Event where
  codec := hash.pair (address.pair (u16.pair (i128.pair (i128.pair (i128.pair bool)))))
  build := fun (positionId, user, marketId, closedSizeUsd, exitPrice, realizedPnl, isFullClose) =>
    .positionClosed positionId user marketId closedSizeUsd exitPrice realizedPnl isFullClose
  split
    | .positionClosed positionId user marketId closedSizeUsd exitPrice realizedPnl isFullClose =>
        some (positionId, user, marketId, closedSizeUsd, exitPrice, realizedPnl, isFullClose)
    | _ => none
  build_split x payload found := by
    cases x <;> cases found
    rfl

def positionModified : Variant Event where
  codec := hash.pair (i128.pair (i128.pair i128))
  build := fun (positionId, newSizeUsd, newCollateralUsd, newCollateralAmount) => .positionModified
    positionId newSizeUsd newCollateralUsd newCollateralAmount
  split
    | .positionModified positionId newSizeUsd newCollateralUsd newCollateralAmount => some
        (positionId, newSizeUsd, newCollateralUsd, newCollateralAmount)
    | _ => none
  build_split x payload found := by
    cases x <;> cases found
    rfl

def orderPlaced : Variant Event where
  codec := hash.pair (address.pair (u16.pair (u8.pair (bool.pair (i128.pair i128)))))
  build := fun (orderId, user, marketId, orderType, isLong, triggerPrice, sizeUsd) => .orderPlaced
    orderId user marketId orderType isLong triggerPrice sizeUsd
  split
    | .orderPlaced orderId user marketId orderType isLong triggerPrice sizeUsd => some (orderId,
        user, marketId, orderType, isLong, triggerPrice, sizeUsd)
    | _ => none
  build_split x payload found := by
    cases x <;> cases found
    rfl

def orderExecuted : Variant Event where
  codec := hash.pair (hash.pair i128)
  build := fun (orderId, positionId, executionPrice) => .orderExecuted orderId positionId
    executionPrice
  split
    | .orderExecuted orderId positionId executionPrice => some (orderId, positionId, executionPrice)
    | _ => none
  build_split x payload found := by
    cases x <;> cases found
    rfl

def orderCancelled : Variant Event where
  codec := hash.pair address
  build := fun (orderId, user) => .orderCancelled orderId user
  split
    | .orderCancelled orderId user => some (orderId, user)
    | _ => none
  build_split x payload found := by
    cases x <;> cases found
    rfl

def liquidation : Variant Event where
  codec := hash.pair (address.pair (u16.pair (i128.pair (i128.pair address))))
  build := fun (positionId, user, marketId, liquidationPrice, penalty, keeper) => .liquidation
    positionId user marketId liquidationPrice penalty keeper
  split
    | .liquidation positionId user marketId liquidationPrice penalty keeper => some (positionId,
        user, marketId, liquidationPrice, penalty, keeper)
    | _ => none
  build_split x payload found := by
    cases x <;> cases found
    rfl

def adlExecuted : Variant Event where
  codec := hash.pair i128
  build := fun (positionId, deleveragedSizeUsd) => .adlExecuted positionId deleveragedSizeUsd
  split
    | .adlExecuted positionId deleveragedSizeUsd => some (positionId, deleveragedSizeUsd)
    | _ => none
  build_split x payload found := by
    cases x <;> cases found
    rfl

def priceUpdated : Variant Event where
  codec := u16.pair (i128.pair u64)
  build := fun (marketId, price, timestamp) => .priceUpdated marketId price timestamp
  split
    | .priceUpdated marketId price timestamp => some (marketId, price, timestamp)
    | _ => none
  build_split x payload found := by
    cases x <;> cases found
    rfl

def fundingSettled : Variant Event where
  codec := u16.pair (i128.pair (i128.pair i128))
  build := fun (marketId, fundingRate, longPayment, shortPayment) => .fundingSettled marketId
    fundingRate longPayment shortPayment
  split
    | .fundingSettled marketId fundingRate longPayment shortPayment => some (marketId, fundingRate,
        longPayment, shortPayment)
    | _ => none
  build_split x payload found := by
    cases x <;> cases found
    rfl

def fundingRateUpdated : Variant Event where
  codec := u16.pair (i128.pair i128)
  build := fun (marketId, newRatePerSecond, fundingRate24h) => .fundingRateUpdated marketId
    newRatePerSecond fundingRate24h
  split
    | .fundingRateUpdated marketId newRatePerSecond fundingRate24h => some (marketId,
        newRatePerSecond, fundingRate24h)
    | _ => none
  build_split x payload found := by
    cases x <;> cases found
    rfl

def marketCreated : Variant Event where
  codec := u16.pair (string.pair string)
  build := fun (marketId, name, symbol) => .marketCreated marketId name symbol
  split
    | .marketCreated marketId name symbol => some (marketId, name, symbol)
    | _ => none
  build_split x payload found := by
    cases x <;> cases found
    rfl

def marketPaused : Variant Event where
  codec := u16
  build := fun marketId => .marketPaused marketId
  split
    | .marketPaused marketId => some marketId
    | _ => none
  build_split x payload found := by
    cases x <;> cases found
    rfl

def collateralDeposited : Variant Event where
  codec := address.pair (address.pair i128)
  build := fun (user, token, amount) => .collateralDeposited user token amount
  split
    | .collateralDeposited user token amount => some (user, token, amount)
    | _ => none
  build_split x payload found := by
    cases x <;> cases found
    rfl

def collateralWithdrawn : Variant Event where
  codec := address.pair (address.pair i128)
  build := fun (user, token, amount) => .collateralWithdrawn user token amount
  split
    | .collateralWithdrawn user token amount => some (user, token, amount)
    | _ => none
  build_split x payload found := by
    cases x <;> cases found
    rfl

def vaultCreated : Variant Event where
  codec := address.pair address
  build := fun (user, vault) => .vaultCreated user vault
  split
    | .vaultCreated user vault => some (user, vault)
    | _ => none
  build_split x payload found := by
    cases x <;> cases found
    rfl

def vaultDeficit : Variant Event where
  codec := address.pair i128
  build := fun (token, deficit) => .vaultDeficit token deficit
  split
    | .vaultDeficit token deficit => some (token, deficit)
    | _ => none
  build_split x payload found := by
    cases x <;> cases found
    rfl

end EventVariant

open EventVariant in
/-- The constructors in the order of their tags. -/
def eventVariants : List (Variant Event) :=
  [positionOpened, positionClosed, positionModified, orderPlaced, orderExecuted, orderCancelled,
    liquidation, adlExecuted, priceUpdated, fundingSettled, fundingRateUpdated, marketCreated,
    marketPaused, collateralDeposited, collateralWithdrawn, vaultCreated, vaultDeficit]

theorem eventVariants_covered (event : Event) :
    eventVariants.any (fun variant => (variant.split event).isSome) = true := by
  cases event <;> rfl

def event : Codec Event := variants eventVariants (by decide) eventVariants_covered

def indexed : Codec IndexedEvent :=
  (u64.pair (u64.pair (hash.pair (u32.pair (u32.pair event))))).via
    (fun (blockNumber, blockTimestamp, txHash, txIndex, logIndex, event) =>
      ⟨blockNumber, blockTimestamp, txHash, txIndex, logIndex, event⟩)
    (fun x => (x.blockNumber, x.blockTimestamp, x.txHash, x.txIndex, x.logIndex, x.event))
    fun _ => rfl

namespace EntryVariant

def indexedEvent : Variant WalEntry where
  codec := indexed
  build := fun indexed => .indexedEvent indexed
  split
    | .indexedEvent indexed => some indexed
    | _ => none
  build_split x payload found := by
    cases x <;> cases found
    rfl

def priceTick : Variant WalEntry where
  codec := u64.pair (u16.pair f64)
  build := fun (timestampNs, marketId, price) => .priceTick timestampNs marketId price
  split
    | .priceTick timestampNs marketId price => some (timestampNs, marketId, price)
    | _ => none
  build_split x payload found := by
    cases x <;> cases found
    rfl

def candleUpdate : Variant WalEntry where
  codec := u64.pair (u16.pair (u8.pair (f64.pair (f64.pair (f64.pair (f64.pair f32))))))
  build := fun (timestampNs, marketId, timeframe, open_, high, low, close, volume) => .candleUpdate
    timestampNs marketId timeframe open_ high low close volume
  split
    | .candleUpdate timestampNs marketId timeframe open_ high low close volume => some (timestampNs,
        marketId, timeframe, open_, high, low, close, volume)
    | _ => none
  build_split x payload found := by
    cases x <;> cases found
    rfl

def balanceUpdate : Variant WalEntry where
  codec := address.pair (address.pair (i128.pair (i128.pair i128)))
  build := fun (user, token, amount, locked, available) => .balanceUpdate user token amount locked
    available
  split
    | .balanceUpdate user token amount locked available => some (user, token, amount, locked,
        available)
    | _ => none
  build_split x payload found := by
    cases x <;> cases found
    rfl

def checkpoint : Variant WalEntry where
  codec := u64
  build := fun blockNumber => .checkpoint blockNumber
  split
    | .checkpoint blockNumber => some blockNumber
    | _ => none
  build_split x payload found := by
    cases x <;> cases found
    rfl

def batchEnd : Variant WalEntry where
  codec := unit
  build := fun () => .batchEnd
  split
    | .batchEnd => some ()
    | _ => none
  build_split x payload found := by
    cases x <;> cases found
    rfl

end EntryVariant

open EntryVariant in
def walEntryVariants : List (Variant WalEntry) :=
  [indexedEvent, priceTick, candleUpdate, balanceUpdate, checkpoint, batchEnd]

theorem walEntryVariants_covered (entry : WalEntry) :
    walEntryVariants.any (fun variant => (variant.split entry).isSome) = true := by
  cases entry <;> rfl

def walEntry : Codec WalEntry :=
  variants walEntryVariants (by decide) walEntryVariants_covered

def crcBit (crc : UInt32) : UInt32 :=
  if crc &&& 1 = 1 then (crc >>> 1) ^^^ 0xEDB88320 else crc >>> 1

def crcByte (crc : UInt32) (byte : UInt8) : UInt32 := Nat.iterate crcBit 8 (crc ^^^ byte.toUInt32)

def crc32 (bytes : Bytes) : UInt32 := bytes.foldl crcByte 0xFFFFFFFF ^^^ 0xFFFFFFFF

/-- The log's format as the engine uses it. -/
def format : Wal.Format where
  serialize := walEntry.encode
  deserialize bytes := (walEntry.read bytes).toOption
  crc32 := crc32

theorem format_roundTrips : format.RoundTrips := fun entry _ =>
  congrArg Except.toOption (walEntry.read_encode entry)

/-- The check value of the CRC's catalogue entry. -/
example : crc32 [0x31, 0x32, 0x33, 0x34, 0x35, 0x36, 0x37, 0x38, 0x39] = 0xCBF43926 := by
  decide +kernel

end Perfdb.Bincode
