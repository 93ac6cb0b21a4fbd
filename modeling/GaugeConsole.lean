import GaugeConsole.Main
import GaugeConsole.Proofs.Reading
import GaugeConsole.Proofs.Agreement
import GaugeConsole.Proofs.Epochs
import GaugeConsole.Proofs.Views
import GaugeConsole.Proofs.Failures
import GaugeConsole.Proofs.Undisturbed
import GaugeConsole.Proofs.RoundTrip
import GaugeConsole.Proofs.Exposures
import GaugeConsole.Proofs.Tallies
import GaugeConsole.Proofs.Names
import GaugeConsole.Proofs.Clients
import GaugeConsole.Proofs.Runs
import GaugeConsole.Proofs.Aliases
import GaugeConsole.Proofs.Distinct
import GaugeConsole.Proofs.Columns
import GaugeConsole.Proofs.TypedBack
import GaugeConsole.Proofs.Reversals
import GaugeConsole.Proofs.Pacing
import GaugeConsole.Proofs.Endpoints
import GaugeConsole.Proofs.Overrides
import GaugeConsole.Proofs.Uses
import GaugeConsole.Proofs.Identities
import GaugeConsole.Proofs.Rejections
import GaugeConsole.Proofs.Lifetimes
import GaugeConsole.Proofs.Troubles
