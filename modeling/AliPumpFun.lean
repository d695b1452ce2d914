import AliPumpFun.Words
import AliPumpFun.Runs
import AliPumpFun.ConstantProduct
import AliPumpFun.GrossUp
import AliPumpFun.Bank
import AliPumpFun.Pricing
import AliPumpFun.Trade
import AliPumpFun.Accounts
import AliPumpFun.MainIxs
import AliPumpFun.PoolIxs
import AliPumpFun.Chain
import AliPumpFun.Effects
import AliPumpFun.Frame
import AliPumpFun.Invariant
import AliPumpFun.Product
import AliPumpFun.Solvency
import AliPumpFun.LifeCycle
import AliPumpFun.Backing
import AliPumpFun.SelfTrade
import AliPumpFun.EventLog
import AliPumpFun.Creation
import AliPumpFun.Donations
import AliPumpFun.Observed
import AliPumpFun.Calls
import AliPumpFun.Narrowing
import AliPumpFun.Limits
import AliPumpFun.Monotone
import AliPumpFun.Agreement
import AliPumpFun.Splitting
import AliPumpFun.Curve
import AliPumpFun.Refinement
import AliPumpFun.Drift
import AliPumpFun.Accounting
import AliPumpFun.Replay
import AliPumpFun.Admission
import AliPumpFun.Traces
import AliPumpFun.Interleaving
import AliPumpFun.Governance
import AliPumpFun.Custody
import AliPumpFun.Panics
import AliPumpFun.Liveness
import AliPumpFun.Sandwich
import AliPumpFun.FirstCome
import AliPumpFun.Standing
import AliPumpFun.RoundTrip
import AliPumpFun.Rounding
