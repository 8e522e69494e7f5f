import OpenCrate.Policy.Evaluate
import OpenCrate.Policy.Tightening
import OpenCrate.Data.MerkleConsistency
import OpenCrate.Data.MerkleSplit
import OpenCrate.Crypto.Merkle
import OpenCrate.Crypto.Consistency
import OpenCrate.Crypto.Sign
import OpenCrate.Protocol.Witness
import OpenCrate.Format.Tlv
import OpenCrate.Format.TlvCodec
import OpenCrate.Format.PolicyCodec
import OpenCrate.Format.KeySlot
import OpenCrate.Format.HeaderParts
import OpenCrate.Format.Header
import OpenCrate.Format.HeaderRoundTrip
import OpenCrate.Format.CoreHash
import OpenCrate.Format.Verify
import OpenCrate.Format.PolicyMeaning
import OpenCrate.Crypto.Kdf
import OpenCrate.Format.Content
import OpenCrate.Format.Payload
import OpenCrate.Crypto.Aead
import OpenCrate.Crypto.Stream
import OpenCrate.Protocol.Action
import OpenCrate.Protocol.ActionCodec
import OpenCrate.Protocol.Agent
import OpenCrate.Protocol.Attenuation
import OpenCrate.Crypto.Rsa
import OpenCrate.Format.Edit
import OpenCrate.Engine.Edit
import OpenCrate.Crypto.Agreement
import OpenCrate.Crypto.Seal
import OpenCrate.Crypto.Wrap
import OpenCrate.Format.KeyMaterial
import OpenCrate.Engine.Pack
import OpenCrate.Engine.Open
import OpenCrate.Data.Cursor
import OpenCrate.Engine.Wire
import OpenCrate.Engine.WireRoundTrip
import OpenCrate.Protocol.FileRights
import OpenCrate.Format.Text
import OpenCrate.Protocol.Access
import OpenCrate.Protocol.ActionDocuments
import OpenCrate.Protocol.ActionRoundTrip
import OpenCrate.Protocol.SignedDocuments
import OpenCrate.Protocol.AgentRoundTrip
import OpenCrate.Protocol.Unknown
import OpenCrate.Protocol.Control
import OpenCrate.Protocol.ControlDocuments
import OpenCrate.Protocol.ControlCodec
import OpenCrate.Protocol.ControlSigned
import OpenCrate.Protocol.AuthorityChain
import OpenCrate.Protocol.OldLeases
import OpenCrate.Data.HashChain
import OpenCrate.Protocol.Continuity
import OpenCrate.Protocol.Lease
import OpenCrate.Data.Framed
import OpenCrate.Protocol.AttributeRule
import OpenCrate.Protocol.Order
import OpenCrate.Protocol.OrderRoundTrip
import OpenCrate.Crypto.TreeUpdate
import OpenCrate.Format.LayoutReads
import OpenCrate.Format.UnknownActions
import OpenCrate.Policy.ClientState
import OpenCrate.Data.PrefixFree
import OpenCrate.Crypto.KeySchedule
import OpenCrate.Protocol.Replica
import OpenCrate.Protocol.Revocation
import OpenCrate.Protocol.Transcripts
import OpenCrate.Protocol.Directory
import OpenCrate.Protocol.Standing
import OpenCrate.Protocol.StandingRoundTrip
import OpenCrate.Protocol.Rosters
import OpenCrate.Protocol.Activation
import OpenCrate.Protocol.Handshake
import OpenCrate.Protocol.Attestation
import OpenCrate.Protocol.LogViews
import OpenCrate.Protocol.Envelope
import OpenCrate.Protocol.EnvelopeRoundTrip
import OpenCrate.Policy.Time
import OpenCrate.Policy.Merge
import OpenCrate.Format.EditCover
import OpenCrate.Format.ForeignSlot
import OpenCrate.Data.DotSegments
import OpenCrate.Format.EditionClaim
import OpenCrate.Protocol.ChainDeadline
import OpenCrate.Protocol.HttpConfinement
import OpenCrate.Protocol.ApprovedArgs
import OpenCrate.Engine.PipeLimit
import OpenCrate.Protocol.Transparency
import OpenCrate.Protocol.UnknownTags
import OpenCrate.Protocol.LimiterKey
import OpenCrate.Protocol.Succession
import OpenCrate.Protocol.Cosigning
import OpenCrate.Protocol.NestedUnknown
import OpenCrate.Protocol.OrderIntent
import OpenCrate.Protocol.LostPolicy
import OpenCrate.Protocol.DecisionForm
import OpenCrate.Protocol.LogExtensions
import OpenCrate.Protocol.EnvelopeSpelling
import OpenCrate.Data.RecordStreams
import OpenCrate.Data.SplitOnce
import OpenCrate.Data.Pss
import OpenCrate.Crypto.RsaPss
import OpenCrate.Protocol.ChainDelivery
import OpenCrate.Protocol.ClauseText
import OpenCrate.Protocol.Streams
import OpenCrate.Protocol.ReplicaDelivery
import OpenCrate.Data.MerklePrefix
import OpenCrate.Data.Pkcs1
import OpenCrate.Protocol.LogAgreement
import OpenCrate.Protocol.CosignedHeads
import OpenCrate.Protocol.AuthorityForks
import OpenCrate.Engine.Lifecycle
import OpenCrate.Crypto.RsaAttestation
import OpenCrate.Crypto.SecretBuf
import OpenCrate.Format.Encoding
import OpenCrate.Data.MerkleRoots
import OpenCrate.Format.Footer
import OpenCrate.Engine.StampedFile
import OpenCrate.Crypto.SessionKeys
import OpenCrate.Engine.OneText
import OpenCrate.Engine.Editions
import OpenCrate.Policy.Composition
import OpenCrate.Protocol.DelegatedOpens
import OpenCrate.Data.MerklePositions
import OpenCrate.Protocol.DirectoryAgreement
import OpenCrate.Protocol.Conversation
import OpenCrate.Policy.ClientRun
import OpenCrate.Format.Certificate
