import DealersChoice.Player.Json
import DealersChoice.Proofs.Betting.Duels
import DealersChoice.Proofs.Betting.Refunds
import DealersChoice.Proofs.Card.Notation
import DealersChoice.Proofs.Game.BettingRounds
import DealersChoice.Proofs.Game.CardConservation
import DealersChoice.Proofs.Game.DecisionRounds
import DealersChoice.Proofs.Game.HandSizes
import DealersChoice.Proofs.Game.LateArrivals
import DealersChoice.Proofs.Game.LeavingOnTurn
import DealersChoice.Proofs.Game.Liveness
import DealersChoice.Proofs.Game.PublicView
import DealersChoice.Proofs.Game.Rankable
import DealersChoice.Proofs.Game.Sequence
import DealersChoice.Proofs.Hand.Points
import DealersChoice.Proofs.Hand.Symmetry
import DealersChoice.Proofs.History.RoundTrip
import DealersChoice.Proofs.Pots.Entitlement
import DealersChoice.Proofs.Showdown.Qualifiers
import DealersChoice.Proofs.Showdown.Reveal
import DealersChoice.Proofs.Showdown.WinningHands
import DealersChoice.Proofs.Table.Drawing
import DealersChoice.Proofs.Variant.LowDecks
