import Wireform.Catalogue.Json
import Wireform.Codec.Shared
import Wireform.Derive.Expansion.Decode
import Wireform.Derive.Expansion.Encode
import Wireform.Derive.Expansion.Schema
import Wireform.Derive.Item.Json
import Wireform.Describe
import Wireform.Dispatch.Registry
import Wireform.Dispatch.Table
import Wireform.Emit.Outline
import Wireform.Files.Generation
import Wireform.Files.Settings.Parser
import Wireform.Main
import Wireform.Pool.Buffers
import Wireform.Proofs.Absence
import Wireform.Proofs.Assignment
import Wireform.Proofs.Batching
import Wireform.Proofs.Buckets
import Wireform.Proofs.Canonical
import Wireform.Proofs.Captures
import Wireform.Proofs.Compiled
import Wireform.Proofs.Depth
import Wireform.Proofs.DescribedEnums
import Wireform.Proofs.Discriminants
import Wireform.Proofs.Dispatch
import Wireform.Proofs.FieldTypes
import Wireform.Proofs.Forced
import Wireform.Proofs.Generated
import Wireform.Proofs.Identifiers
import Wireform.Proofs.Insertions
import Wireform.Proofs.Interchange
import Wireform.Proofs.Lending
import Wireform.Proofs.Members
import Wireform.Proofs.Pacing
import Wireform.Proofs.Pairing
import Wireform.Proofs.Positions
import Wireform.Proofs.RawCalls
import Wireform.Proofs.Referable
import Wireform.Proofs.Regeneration
import Wireform.Proofs.Rented
import Wireform.Proofs.Reordering
import Wireform.Proofs.RoundTrip
import Wireform.Proofs.ShortBuffers
import Wireform.Proofs.SlotMap
import Wireform.Proofs.Tables
import Wireform.Proofs.WellFormed
import Wireform.Proofs.Wrapping
import Wireform.Samples.Declared
import Wireform.Samples.Records
import Wireform.Schema.Manifest.Parser
import Wireform.Shape.Parser
