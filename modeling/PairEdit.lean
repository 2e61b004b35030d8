import PairEdit.Digest
import PairEdit.Document.Reactive
import PairEdit.Scenario.Json
import PairEdit.Session.Pair
import PairEdit.Session.View
import PairEdit.Session.World.Lemmas
import PairEdit.Proofs.Merge
import PairEdit.Proofs.Replay
import PairEdit.Proofs.Provenance
import PairEdit.Proofs.Retirement
import PairEdit.Proofs.Authorship
import PairEdit.Proofs.Crossing
import PairEdit.Proofs.Alternation
import PairEdit.Proofs.Neutrality
import PairEdit.Proofs.ReadBack
import PairEdit.Proofs.RoundTrip
import PairEdit.Proofs.Seats
import PairEdit.Proofs.Calls
import PairEdit.Proofs.Arrivals
import PairEdit.Proofs.SideRepresentation
import PairEdit.Proofs.Agreement
import PairEdit.Proofs.WholeSession
import PairEdit.Proofs.Codec
import PairEdit.Proofs.Ledger
import PairEdit.Proofs.Runs
import PairEdit.Proofs.Wiring
import PairEdit.Proofs.Speaking
import PairEdit.Proofs.Turns
import PairEdit.Proofs.Deliveries
import PairEdit.Proofs.Chronicle
import PairEdit.Proofs.Bookkeeping
import PairEdit.Proofs.Isolation
import PairEdit.Proofs.Lifecycle
import PairEdit.Proofs.Accounts
import PairEdit.Proofs.Acknowledgement
import PairEdit.Proofs.Legible
import PairEdit.Proofs.Spelling
import PairEdit.Proofs.Closure
import PairEdit.Proofs.WorldSteps
import PairEdit.Proofs.LogOffsets
import PairEdit.Proofs.Outsiders
import PairEdit.Proofs.Resemblance
import PairEdit.Proofs.Interleaving
import PairEdit.Proofs.Subscriptions
import PairEdit.Proofs.Silence
import PairEdit.Proofs.Draining
import PairEdit.Proofs.AllOrNothing
import PairEdit.Proofs.Rejections
import PairEdit.Proofs.Passive
import PairEdit.Proofs.Reports
import PairEdit.Proofs.TalliedRuns
import PairEdit.Proofs.Interruptions
import PairEdit.Proofs.Renewal
import PairEdit.Proofs.Roles
import PairEdit.Proofs.Failures
import PairEdit.Proofs.Headroom
import PairEdit.Proofs.Replies
import PairEdit.Proofs.Exhaustion
import PairEdit.Proofs.Truncation
import PairEdit.Proofs.Required
import PairEdit.Proofs.Streams
import PairEdit.Proofs.Reactions
import PairEdit.Proofs.Rosters
import PairEdit.Proofs.Channels
import PairEdit.Proofs.Bytewise
import PairEdit.Proofs.OfferTraces
import PairEdit.Proofs.Acceptance
