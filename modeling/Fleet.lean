import Fleet.Main
import Fleet.Session.Command
import Fleet.Proofs.Dispatch.Prediction
import Fleet.Proofs.Dispatch.Released
import Fleet.Proofs.Descent.Bounds
import Fleet.Proofs.Improvement
import Fleet.Proofs.Schedule
import Fleet.Proofs.Dispatch.Deferred
import Fleet.Proofs.Dispatch.Itineraries
import Fleet.Proofs.Descent.Rest
import Fleet.Proofs.Dispatch.Handover
import Fleet.Proofs.Dispatch.Transfer
import Fleet.Proofs.Dispatch.Unloading
import Fleet.Proofs.Dispatch.Independence
import Fleet.Proofs.Move.Undo
import Fleet.Proofs.Ledger
import Fleet.Proofs.Lookups
import Fleet.Proofs.RoundTrip
import Fleet.Proofs.Neighbourhood.Symmetric
import Fleet.Proofs.Neighbourhood.Peers
import Fleet.Proofs.OpenEnded
import Fleet.Proofs.Verdict
import Fleet.Proofs.Json.KeyOrder
import Fleet.Proofs.Json.Doubles
import Fleet.Proofs.Json.Sameness
import Fleet.Proofs.Json.Canonical
