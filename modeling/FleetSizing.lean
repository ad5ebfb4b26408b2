import FleetSizing.Decision.Json
import FleetSizing.Fleet.Script
import FleetSizing.Json.Reader
import FleetSizing.Main
import FleetSizing.Proofs.Scaler.FailedTicks
import FleetSizing.Proofs.Scaler.Hysteresis
import FleetSizing.Proofs.Scaler.Product
import FleetSizing.Proofs.Scaler.Scanning
import FleetSizing.Proofs.SimulatedFleet.Bookkeeping
import FleetSizing.Proofs.SimulatedFleet.Conservation
import FleetSizing.Proofs.SimulatedFleet.Directory.Changes
import FleetSizing.Proofs.SimulatedFleet.Directory.View
import FleetSizing.Proofs.SimulatedFleet.Isolation
import FleetSizing.Proofs.SimulatedFleet.Pacing
import FleetSizing.Proofs.SimulatedFleet.Retirement
import FleetSizing.Proofs.SimulatedFleet.Service
import FleetSizing.Proofs.SimulatedFleet.UnusedKinds
import FleetSizing.Proofs.SimulatedFleet.WaitingWork
import FleetSizing.Proofs.SimulatedFleet.Rewording
import FleetSizing.Proofs.Binary64.Scientific
import FleetSizing.Proofs.Decimal.ReadingBack
import FleetSizing.Proofs.Toml.Numbers
import FleetSizing.Proofs.Config.RoundTrip
import FleetSizing.Proofs.Binary64.TotalOrder
import FleetSizing.Proofs.Scaler.Surplus
import FleetSizing.Proofs.Binary64.Accuracy
import FleetSizing.Proofs.Decimal.Ceiling
import FleetSizing.Proofs.Scaler.Growth
import FleetSizing.Proofs.Scaler.UniformPools
import FleetSizing.Proofs.SimulatedFleet.Shares
import FleetSizing.Proofs.SimulatedFleet.Throughput
import FleetSizing.Proofs.SimulatedFleet.WindowLength
import FleetSizing.Proofs.Config.Derived
import FleetSizing.Proofs.Durations
import FleetSizing.Proofs.SimulatedFleet.Loading
import FleetSizing.Proofs.SimulatedFleet.Rejection
import FleetSizing.Proofs.Exposition.PlainNames
import FleetSizing.Proofs.Aggregates
import FleetSizing.Proofs.Json.Reports
