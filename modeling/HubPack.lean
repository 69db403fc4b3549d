import HubPack.Cursor
import HubPack.Session
import HubPack.Value.Display
import HubPack.Proofs.Reading.Arity
import HubPack.Proofs.Reading.Operations
import HubPack.Proofs.Reading.Protocol
import HubPack.Proofs.Reading.Weight
import HubPack.Proofs.RoundTrip
import HubPack.Proofs.Relay
import HubPack.Proofs.Writing.ReadBack
import HubPack.Proofs.Writing.Layout
import HubPack.Proofs.Writing.Atomic
import HubPack.Proofs.Writing.Minimal
import HubPack.Proofs.Value.Stability
import HubPack.Proofs.Value.Places
import HubPack.Proofs.Stream.Chunking
import HubPack.Proofs.Stream.Binders
import HubPack.Proofs.Stream.Batch
import HubPack.Proofs.Stream.Fifo
import HubPack.Proofs.Stream.Unknown
import HubPack.Proofs.Stream.Limits
import HubPack.Proofs.Stream.Errors
import HubPack.Proofs.Stream.Payloads
import HubPack.Proofs.Registry
import HubPack.Proofs.LengthPrefix
import HubPack.Proofs.Reading.Agreement
import HubPack.Proofs.Reading.Cursor
import HubPack.Proofs.Stream.Needed
import HubPack.Proofs.Number.Integer
import HubPack.Proofs.Writing.Steps
