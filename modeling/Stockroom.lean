import Stockroom.Broker.Channel
import Stockroom.Broker.Script
import Stockroom.Settings
import Stockroom.Proofs.AppendOnly
import Stockroom.Proofs.Delays
import Stockroom.Proofs.ExactQuantities
import Stockroom.Proofs.IdentifierSpellings
import Stockroom.Proofs.LateReports
import Stockroom.Proofs.LeaseBounds
import Stockroom.Proofs.LeaseEnds
import Stockroom.Proofs.Pages
import Stockroom.Proofs.PassAccounts
import Stockroom.Proofs.RequestTexts
import Stockroom.Proofs.Retries
import Stockroom.Proofs.RoundTrips
import Stockroom.Proofs.SmoothRuns
import Stockroom.Proofs.Totals
import Stockroom.Text.Digits
