import Capability.Device.Basic
import Capability.Proofs.Fault
import Capability.Proofs.Double
import Capability.Proofs.Fields
import Capability.Proofs.Json
import Capability.Proofs.Procedure
import Capability.Proofs.Schema.Values
import Capability.Proofs.Schema.Parts
import Capability.Proofs.Schema.Conversion
import Capability.Proofs.Schema.Derivation
import Capability.Proofs.Schema.Reading
import Capability.Proofs.Schema.Provenance
import Capability.Proofs.Schema.Consistency
import Capability.Proofs.Schema.Outline
import Capability.Proofs.Schema.TypeNames
import Capability.Proofs.Schema.RoundTrip
import Capability.Proofs.Schema.FullForm
import Capability.Proofs.Schema.MinimalForm
import Capability.Proofs.Schema.Standalone
import Capability.Proofs.Schema.Paths
import Capability.Proofs.Schema.Recovery
import Capability.Proofs.Schema.Rereading
import Capability.Proofs.Schema.Shaped
import Capability.Proofs.Schema.Settled
import Capability.Proofs.Schema.Conformance
import Capability.Proofs.Schema.Overlay
import Capability.Proofs.Schema.Overriding
import Capability.Proofs.Schema.Naming
import Capability.Proofs.Schema.Refusals
import Capability.Proofs.Schema.Regularity
import Capability.Proofs.Command.Reading
import Capability.Proofs.Command.Layering
import Capability.Proofs.Command.Listing
import Capability.Proofs.Command.Ownership
import Capability.Proofs.State.Declared
import Capability.Proofs.State.Updates
import Capability.Proofs.State.Calls
import Capability.Proofs.State.Replay
import Capability.Proofs.State.Following
import Capability.Proofs.State.Overflow
import Capability.Proofs.State.Names
import Capability.Proofs.State.InPlace
import Capability.Proofs.State.Taking
import Capability.Proofs.State.LastWrite
import Capability.Proofs.State.Typed
import Capability.Proofs.Device.Calls
import Capability.Proofs.Device.Access
import Capability.Proofs.Device.Layering
import Capability.Proofs.Command.Grouping
import Capability.Proofs.Command.Reloading
import Capability.Proofs.Event.Feed
import Capability.Proofs.State.Announcing
import Capability.Proofs.Device.Events
import Capability.Proofs.State.Single
import Capability.Proofs.State.Commuting
import Capability.Proofs.Subscriptions
import Capability.Proofs.Schema.Rejections
import Capability.Proofs.Command.Rejections
import Capability.Proofs.Command.Visibility
import Capability.Proofs.Schema.Untyped
import Capability.Proofs.Json.Numerals
import Capability.Proofs.Json.Scanning
import Capability.Proofs.Schema.Integers
import Capability.Proofs.Json.Printing
import Capability.Proofs.Json.Reading
import Capability.Proofs.Device.Config
