import ComponentHost.Host.Alone
import ComponentHost.Json.Parser
import ComponentHost.Process.ConfigYaml
import ComponentHost.Proofs.Crowd
import ComponentHost.Proofs.Honesty
import ComponentHost.Proofs.Instances
import ComponentHost.Proofs.Ledger
import ComponentHost.Proofs.Listing
import ComponentHost.Proofs.Publication
import ComponentHost.Proofs.Removal
import ComponentHost.Proofs.Restart
import ComponentHost.Proofs.Serial
import ComponentHost.Proofs.Tables
import ComponentHost.Proofs.Terminal
import ComponentHost.Scenario.Session
import ComponentHost.Proofs.Registration
import ComponentHost.Proofs.Onboarding
import ComponentHost.Proofs.Tracking
import ComponentHost.Proofs.Effects
import ComponentHost.Proofs.Autostart
import ComponentHost.Proofs.Shutdown
import ComponentHost.Proofs.Operations
import ComponentHost.Proofs.Observers
import ComponentHost.Proofs.Standstill
import ComponentHost.Proofs.Separation
import ComponentHost.Proofs.ErrorReading
import ComponentHost.Proofs.TimestampText
import ComponentHost.Proofs.RoundTrip
import ComponentHost.Proofs.Delivery
import ComponentHost.Proofs.InPlace
import ComponentHost.Proofs.Naming
import ComponentHost.Proofs.Creation
import ComponentHost.Proofs.Closing
import ComponentHost.Proofs.Stopping
import ComponentHost.Proofs.Launching
import ComponentHost.Proofs.Release
import ComponentHost.Proofs.Rejection
import ComponentHost.Proofs.Recurrence
import ComponentHost.Proofs.Declaration
import ComponentHost.Proofs.Dispatch
import ComponentHost.Proofs.Causes
import ComponentHost.Proofs.ComponentTable
