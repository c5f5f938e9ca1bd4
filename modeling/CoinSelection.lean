import CoinSelection.Hex
import CoinSelection.AssetId
import CoinSelection.OutPoint
import CoinSelection.Binary.Format
import CoinSelection.Binary.Single
import CoinSelection.Binary.Shortest
import CoinSelection.Failure
import CoinSelection.Checked
import CoinSelection.RandomSource
import CoinSelection.FeeRate
import CoinSelection.Descriptor.Key
import CoinSelection.Descriptor.Checksum
import CoinSelection.Descriptor.Term
import CoinSelection.Descriptor.Script
import CoinSelection.Descriptor
import CoinSelection.Utxo
import CoinSelection.Fee
import CoinSelection.Filter
import CoinSelection.Options
import CoinSelection.Candidate
import CoinSelection.BranchAndBound.Node
import CoinSelection.BranchAndBound.Search
import CoinSelection.Knapsack.Subset
import CoinSelection.Knapsack
import CoinSelection.Selection
import CoinSelection.Select
import CoinSelection.MultiAsset
import CoinSelection.Wallet
import CoinSelection.Json.Fault
import CoinSelection.Json.Quoted
import CoinSelection.Json.Numeral
import CoinSelection.Json.Value
import CoinSelection.Json.Outline
import CoinSelection.Json.Reader
import CoinSelection.Json.Record
import CoinSelection.Exchange.Scalar
import CoinSelection.Exchange.Utxo
import CoinSelection.Exchange.Filter
import CoinSelection.Exchange.Options
import CoinSelection.Exchange.Entry
import CoinSelection.Exchange.Selection
import CoinSelection.Exchange.FeeEstimate
import CoinSelection.Proofs.Outcome
import CoinSelection.Proofs.Sums
import CoinSelection.Proofs.Pricing
import CoinSelection.Proofs.Descriptor
import CoinSelection.Proofs.Binary.Rounding
import CoinSelection.Proofs.Binary.Single
import CoinSelection.Proofs.FeeRate
import CoinSelection.Proofs.Candidates
import CoinSelection.Proofs.BranchAndBound.Place
import CoinSelection.Proofs.BranchAndBound.Exact
import CoinSelection.Proofs.BranchAndBound.Visits
import CoinSelection.Proofs.BranchAndBound.Selection
import CoinSelection.Proofs.Knapsack.Subset
import CoinSelection.Proofs.Knapsack.Selection
import CoinSelection.Proofs.Strategy
import CoinSelection.Proofs.Preparation
import CoinSelection.Proofs.Answers
import CoinSelection.Proofs.Funding
import CoinSelection.Proofs.Wallet
import CoinSelection.Proofs.Feasibility
import CoinSelection.Proofs.Safety
import CoinSelection.Proofs.Renumbering
import CoinSelection.Proofs.BranchAndBound.Renumbering
import CoinSelection.Proofs.Knapsack.Renumbering
import CoinSelection.Proofs.OrderIndependence
import CoinSelection.Proofs.Irrelevance
import CoinSelection.Proofs.Fallback
import CoinSelection.Proofs.FeeAsset
import CoinSelection.Proofs.ByAsset
import CoinSelection.Proofs.MultiAsset.Passes
import CoinSelection.Proofs.MultiAsset.Funding
import CoinSelection.Proofs.Monotonicity
import CoinSelection.Proofs.BranchAndBound.Completeness
import CoinSelection.Proofs.BranchAndBound.Optimality
import CoinSelection.Proofs.Identifiers
import CoinSelection.Proofs.Json.Literals
import CoinSelection.Proofs.Json.Reader
import CoinSelection.Proofs.Json.Record
import CoinSelection.Proofs.Exchange.RoundTrip
import CoinSelection.Proofs.Exchange.FeeEstimate
import CoinSelection.Proofs.Exchange.Selection
import CoinSelection.Proofs.BranchAndBound.Irredundance
import CoinSelection.Proofs.BranchAndBound.Refusal
import CoinSelection.Proofs.BranchAndBound.WasteBound
import CoinSelection.Proofs.BranchAndBound.Budget
import CoinSelection.Proofs.Knapsack.Overshoot
import CoinSelection.Proofs.BranchAndBound.FirstHit
import CoinSelection.Proofs.BranchAndBound.Equals
import CoinSelection.Proofs.WholeTransaction
import CoinSelection.Proofs.Hexadecimal
import CoinSelection.Proofs.Shortfall
import CoinSelection.Proofs.Knapsack.Preference
import CoinSelection.Proofs.BranchAndBound.WasteSign
