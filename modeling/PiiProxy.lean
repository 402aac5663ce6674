import PiiProxy.Core.Models
import PiiProxy.Core.Runtime
import PiiProxy.Lib.Program
import PiiProxy.Lib.Splice
import PiiProxy.Replacement.Morphology
import PiiProxy.Replacement.PartialMask
import PiiProxy.Replacement.SyntheticValues
import PiiProxy.EntityResolution.Naming
import PiiProxy.EntityResolution.Resolver
import PiiProxy.Replacement.Identity
import PiiProxy.Replacement.Engine
import PiiProxy.Context.Overlap
import PiiProxy.Core.Record
import PiiProxy.Replacement.Reversibility
import PiiProxy.Core.Pipeline
import PiiProxy.Core.ProcessService
import PiiProxy.Core.Concurrency
import PiiProxy.Detectors.Basic
import PiiProxy.Detectors.Documents
import PiiProxy.Detectors.Phrases
import PiiProxy.Detectors.FullName
import PiiProxy.Context.Engine
import PiiProxy.Detectors.Builtin
import PiiProxy.Storage.ResilientStore
import PiiProxy.Storage.FailClosed
import PiiProxy.Core.Degraded
import PiiProxy.Storage.Coherence
import PiiProxy.Storage.WriteThrough
import PiiProxy.Storage.Expiry
import PiiProxy.Storage.Collection
import PiiProxy.Storage.Claiming
import PiiProxy.Storage.GraceTransition
import PiiProxy.Storage.Outage
import PiiProxy.Lib.Substitution
import PiiProxy.Demasking.Demasker
import PiiProxy.Demasking.TokenMode
import PiiProxy.Storage.MemoryStore
import PiiProxy.Demasking.OneNeedle
import PiiProxy.GoService.Agreement
import PiiProxy.Demasking.Searchable
import PiiProxy.GoService.Reversibility
import PiiProxy.GoService.Simultaneous
import PiiProxy.Replacement.Surrogates
import PiiProxy.GoService.KeywordAgreement
import PiiProxy.GoService.PinRule
import PiiProxy.Context.OwnLetters
import PiiProxy.Detectors.CardScan
import PiiProxy.Detectors.NameCoverage
import PiiProxy.EntityResolution.Soundness
import PiiProxy.GoService.FreshValues
import PiiProxy.GoService.PhoneScan
import PiiProxy.Lib.KeyGroups
import PiiProxy.Lib.TwoRuns
import PiiProxy.Replacement.GroupPartition
import PiiProxy.Storage.Revocation
import PiiProxy.GoService.Race
import PiiProxy.Context.Windows
import PiiProxy.Demasking.LongestFirst
import PiiProxy.EntityResolution.Rendering
import PiiProxy.Replacement.DigitsLike
import PiiProxy.GoService.Checksums
import PiiProxy.GoService.MaskAgreement
import PiiProxy.Admission.RetryAfter
import PiiProxy.Replacement.DistinctValues
import PiiProxy.GoService.UniformDraws
import PiiProxy.Demasking.NameLayout
import PiiProxy.Demasking.FreshNeedles
import PiiProxy.Demasking.SharedNeedles
import PiiProxy.Core.Contract
import PiiProxy.Storage.Sessions
import PiiProxy.GoService.Sessions
import PiiProxy.Storage.Isolation
import PiiProxy.Storage.OutageLoad
import PiiProxy.Core.Redaction
import PiiProxy.GoService.Admission
import PiiProxy.Admission.Middleware
import PiiProxy.GoService.ResilientStore
import PiiProxy.Context.Fragments
import PiiProxy.Detectors.Misread
import PiiProxy.Core.PartialMode
import PiiProxy.Storage.Repository
import PiiProxy.GoService.Server
