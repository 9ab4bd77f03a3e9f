import Mathlib
import Perfdb.Bincode
import Perfdb.Engine

set_option autoImplicit false

namespace Perfdb.Bincode

open Codec

def constant {α : Type} [DecidableEq α] (value : α) : Variant α where
  codec := unit
  build := fun _ => value
  split x := if x = value then some () else none
  build_split x payload found := by
    by_cases same : x = value
    · exact same.symm
    · rw [if_neg same] at found
      contradiction

def positionStatus : Codec PositionStatus :=
  variants [constant .open_, constant .closed, constant .liquidated] (by decide)
    fun x => by cases x <;> rfl

def orderType : Codec OrderType :=
  variants [constant .limit, constant .stopLimit, constant .takeProfit, constant .stopLoss]
    (by decide) fun x => by cases x <;> rfl

def orderStatus : Codec OrderStatus :=
  variants [constant .active, constant .executed, constant .cancelled] (by decide)
    fun x => by cases x <;> rfl

def position : Codec Position :=
  (hash.pair (address.pair (u16.pair (bool.pair (i128.pair (i128.pair (address.pair (i128.pair
  (i128.pair (i128.option.pair (i128.option.pair (i128.pair (positionStatus.pair (hash.pair
  (hash.option.pair (u64.pair (u64.option.pair (u64.pair u64.option)))))))))))))))))).via
    (fun (positionId, userAddress, marketId, isLong, sizeUsd, collateralUsd, collateralToken,
    collateralAmount, entryPrice, exitPrice, realizedPnl, leverage, status, openTx, closeTx,
    openBlock, closeBlock, openedAt, closedAt) =>
      ⟨positionId, userAddress, marketId, isLong, sizeUsd, collateralUsd, collateralToken,
      collateralAmount, entryPrice, exitPrice, realizedPnl, leverage, status, openTx, closeTx,
      openBlock, closeBlock, openedAt, closedAt⟩)
    (fun x => (x.positionId, x.userAddress, x.marketId, x.isLong, x.sizeUsd, x.collateralUsd,
    x.collateralToken, x.collateralAmount, x.entryPrice, x.exitPrice, x.realizedPnl, x.leverage,
    x.status, x.openTx, x.closeTx, x.openBlock, x.closeBlock, x.openedAt, x.closedAt))
    fun _ => rfl

def order : Codec Order :=
  (hash.pair (address.pair (u16.pair (bool.pair (orderType.pair (i128.pair (i128.option.pair
  (i128.pair (i128.pair (address.pair (i128.pair (orderStatus.pair (i128.option.pair
  (hash.option.pair (hash.pair (u64.pair (u64.pair u64.option))))))))))))))))).via
    (fun (orderId, userAddress, marketId, isLong, orderType, triggerPrice, limitPrice, sizeUsd,
    leverage, collateralToken, collateralAmount, status, executionPrice, positionId, txHash,
    blockNumber, createdAt, executedAt) =>
      ⟨orderId, userAddress, marketId, isLong, orderType, triggerPrice, limitPrice, sizeUsd,
      leverage, collateralToken, collateralAmount, status, executionPrice, positionId, txHash,
      blockNumber, createdAt, executedAt⟩)
    (fun x => (x.orderId, x.userAddress, x.marketId, x.isLong, x.orderType, x.triggerPrice,
    x.limitPrice, x.sizeUsd, x.leverage, x.collateralToken, x.collateralAmount, x.status,
    x.executionPrice, x.positionId, x.txHash, x.blockNumber, x.createdAt, x.executedAt))
    fun _ => rfl

def balance : Codec Balance :=
  (address.pair (address.pair (i128.pair (i128.pair i128)))).via
    (fun (userAddress, token, amount, locked, available) =>
      ⟨userAddress, token, amount, locked, available⟩)
    (fun x => (x.userAddress, x.token, x.amount, x.locked, x.available))
    fun _ => rfl

def user : Codec User :=
  (address.pair (address.option.pair (string.option.pair (address.option.pair (string.pair
  (u32.pair (u64.pair (u64.option.pair u64.option)))))))).via
    (fun (address, vaultAddress, referralCode, referredBy, tier, feeDiscountBps, createdAt,
    firstTradeAt, lastActiveAt) =>
      ⟨address, vaultAddress, referralCode, referredBy, tier, feeDiscountBps, createdAt,
      firstTradeAt, lastActiveAt⟩)
    (fun x => (x.address, x.vaultAddress, x.referralCode, x.referredBy, x.tier, x.feeDiscountBps,
    x.createdAt, x.firstTradeAt, x.lastActiveAt))
    fun _ => rfl

def traderStats : Codec TraderStats :=
  (address.pair (i128.pair (i128.pair (i128.pair (u32.pair (u32.pair (u32.pair (u32.pair (u32.pair
  (u32.pair (i128.pair (i128.pair (i128.pair (i128.pair (i128.pair (i128.pair (u64.option.pair
  u64.option))))))))))))))))).via
    (fun (address, totalPnl, totalVolume, totalFeesPaid, totalTrades, totalPositions,
    openPositions, winCount, lossCount, liquidationCount, bestTradePnl, worstTradePnl,
    avgLeverage, maxLeverage, totalFundingPaid, totalFundingReceived, firstTradeAt, lastTradeAt)
    =>
      ⟨address, totalPnl, totalVolume, totalFeesPaid, totalTrades, totalPositions, openPositions,
      winCount, lossCount, liquidationCount, bestTradePnl, worstTradePnl, avgLeverage,
      maxLeverage, totalFundingPaid, totalFundingReceived, firstTradeAt, lastTradeAt⟩)
    (fun x => (x.address, x.totalPnl, x.totalVolume, x.totalFeesPaid, x.totalTrades,
    x.totalPositions, x.openPositions, x.winCount, x.lossCount, x.liquidationCount,
    x.bestTradePnl, x.worstTradePnl, x.avgLeverage, x.maxLeverage, x.totalFundingPaid,
    x.totalFundingReceived, x.firstTradeAt, x.lastTradeAt))
    fun _ => rfl

def dailyStats : Codec DailyStats :=
  (u32.pair (i128.pair (i128.pair (u32.pair i128)))).via
    (fun (date, pnl, volume, trades, fees) => ⟨date, pnl, volume, trades, fees⟩)
    (fun x => (x.date, x.pnl, x.volume, x.trades, x.fees))
    fun _ => rfl

def dailyStatsEntry : Codec DailyStatsEntry :=
  (address.pair dailyStats).via
    (fun (address, stats) => ⟨address, stats⟩)
    (fun x => (x.address, x.stats))
    fun _ => rfl

def snapshotMarketState : Codec SnapshotMarketState :=
  (u16.pair (f64.pair (u64.pair (i128.option.pair (i128.option.pair (i128.pair (i128.pair
  (i128.pair (i128.pair (bool.pair (bool.pair (i128.option.pair (u32.option.pair (i128.option.pair
  (u32.option.pair (i128.option.pair i128.option)))))))))))))))).via
    (fun (marketId, latestPrice, lastUpdateNs, markPrice, indexPrice, fundingRatePerSecond,
    fundingRate24h, longOi, shortOi, enabled, paused, maxLeverage, maintenanceMarginBps,
    volume24h, trades24h, priceChange24h, priceChangePct24h) =>
      ⟨marketId, latestPrice, lastUpdateNs, markPrice, indexPrice, fundingRatePerSecond,
      fundingRate24h, longOi, shortOi, enabled, paused, maxLeverage, maintenanceMarginBps,
      volume24h, trades24h, priceChange24h, priceChangePct24h⟩)
    (fun x => (x.marketId, x.latestPrice, x.lastUpdateNs, x.markPrice, x.indexPrice,
    x.fundingRatePerSecond, x.fundingRate24h, x.longOi, x.shortOi, x.enabled, x.paused,
    x.maxLeverage, x.maintenanceMarginBps, x.volume24h, x.trades24h, x.priceChange24h,
    x.priceChangePct24h))
    fun _ => rfl

def snapshotCheckpoint : Codec SnapshotCheckpoint :=
  (u64.pair (string.pair u64)).via
    (fun (lastBlock, lastBlockHash, lastBlockTimestamp) =>
      ⟨lastBlock, lastBlockHash, lastBlockTimestamp⟩)
    (fun x => (x.lastBlock, x.lastBlockHash, x.lastBlockTimestamp))
    fun _ => rfl

def stateSnapshot : Codec StateSnapshot :=
  (snapshotCheckpoint.pair (position.list.pair (order.list.pair (balance.list.pair (user.list.pair
  (traderStats.list.pair (dailyStatsEntry.list.pair (snapshotMarketState.list.pair u64)))))))).via
    (fun (checkpoint, positions, orders, balances, users, traderStats, dailyStats, marketStates,
    snapshotTimestamp) =>
      ⟨checkpoint, positions, orders, balances, users, traderStats, dailyStats, marketStates,
      snapshotTimestamp⟩)
    (fun x => (x.checkpoint, x.positions, x.orders, x.balances, x.users, x.traderStats,
    x.dailyStats, x.marketStates, x.snapshotTimestamp))
    fun _ => rfl

def snapshotFormat : Snapshot.Format where
  serialize := stateSnapshot.encode
  deserialize := stateSnapshot.read

theorem snapshotFormat_roundTrips : snapshotFormat.RoundTrips := stateSnapshot.read_encode

def formats : Formats := ⟨format, snapshotFormat⟩

end Perfdb.Bincode
