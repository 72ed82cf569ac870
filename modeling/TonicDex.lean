import TonicDex.Lib.Checked
import TonicDex.Lib.FiniteMap
import TonicDex.Lib.Runs
import TonicDex.Invariant.Solvency
import TonicDex.Invariant.Agreement
import TonicDex.Invariant.Custody
import TonicDex.Invariant.Activation
import TonicDex.Invariant.Deletion
import TonicDex.Invariant.Referral
import TonicDex.Invariant.Leaving
import TonicDex.Engine.Book
import TonicDex.Engine.Library
import TonicDex.Invariant.LimitPrice
import TonicDex.Lib.Rounding
import TonicDex.Lib.Consult
import TonicDex.Spec.Sizing
import TonicDex.Invariant.Budget
import TonicDex.Invariant.FeeSplit
import TonicDex.Invariant.Conversion
import TonicDex.Invariant.StorageLedger
import TonicDex.Invariant.Degenerate
import TonicDex.Invariant.SwapInput
import TonicDex.Invariant.BidLock
import TonicDex.Invariant.Initialise
import TonicDex.Invariant.Recovery
import TonicDex.Invariant.CancelAll
import TonicDex.Lib.Separated
import TonicDex.Spec.Listing
import TonicDex.Invariant.MarketIds
import TonicDex.Invariant.LotSizes
import TonicDex.Invariant.Shown
import TonicDex.Model.Views
import TonicDex.Invariant.Enumeration
import TonicDex.Invariant.BidSizing
import TonicDex.Invariant.ClearBook
import TonicDex.Invariant.StorageCharge
import TonicDex.Invariant.OrderViews
import TonicDex.Invariant.SelfTrade
import TonicDex.Invariant.WalletSwap
import TonicDex.Lib.Logged
import TonicDex.Invariant.Replay
import TonicDex.Invariant.LegalLog
import TonicDex.Invariant.Batch
import TonicDex.Invariant.Halted
import TonicDex.Invariant.Records
import TonicDex.Invariant.Widths
import TonicDex.Invariant.Exit
import TonicDex.Invariant.BookViews
import TonicDex.Invariant.ExactTrades
import TonicDex.Invariant.Kept
import TonicDex.Invariant.Conservation
import TonicDex.Lib.Postings
import TonicDex.Invariant.Posting
import TonicDex.Invariant.Statement
