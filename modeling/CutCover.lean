import CutCover.Annealing.Run
import CutCover.Base64
import CutCover.Graph.Random
import CutCover.LocalSearch.Run
import CutCover.Problem
import CutCover.Random.Tape
import CutCover.Weight.Exact
import CutCover.Proofs.Annealing.Bookkeeping
import CutCover.Proofs.Annealing.Cover
import CutCover.Proofs.Annealing.Idle
import CutCover.Proofs.Annealing.Refusal
import CutCover.Proofs.Annealing.Run
import CutCover.Proofs.Annealing.Sustained
import CutCover.Proofs.Annealing.Trades
import CutCover.Proofs.Base64.Language
import CutCover.Proofs.Base64.RoundTrip
import CutCover.Proofs.Draws
import CutCover.Proofs.Graph.Cuts
import CutCover.Proofs.Graph.Gains
import CutCover.Proofs.Graph.Represents
import CutCover.Proofs.Labels
import CutCover.Proofs.LocalSearch.Feasible
import CutCover.Proofs.LocalSearch.Incumbent
import CutCover.Proofs.LocalSearch.OneFlip
import CutCover.Proofs.LocalSearch.Optimum
import CutCover.Proofs.LocalSearch.Outcomes
import CutCover.Proofs.LocalSearch.Patience
import CutCover.Proofs.LocalSearch.Repair
import CutCover.Proofs.LocalSearch.Report
import CutCover.Proofs.Moves
import CutCover.Proofs.Outcomes
import CutCover.Proofs.Proposals
import CutCover.Proofs.Random
import CutCover.Proofs.Safety
import CutCover.Proofs.Weight.Arithmetic
import CutCover.Proofs.Weight.Rounding
import CutCover.Proofs.Weight.Whole
import CutCover.Proofs.Removal
import CutCover.Proofs.LocalSearch.Merge
import CutCover.Proofs.LocalSearch.Offers
import CutCover.Proofs.Graph.Attachment
import CutCover.Proofs.LocalSearch.HalfCut
import CutCover.Proofs.Annealing.Thinning
import CutCover.Proofs.Base64.Layout
import CutCover.Proofs.Exchanges
import CutCover.Proofs.LocalSearch.Threshold
import CutCover.Proofs.LocalSearch.Best
import CutCover.Proofs.LocalSearch.Samples
import CutCover.Proofs.LocalSearch.Slotwise
import CutCover.Proofs.Graph.Validation
import CutCover.Proofs.Graph.IndependentEdges
import CutCover.Proofs.Sampling
