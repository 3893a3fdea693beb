import MarineDelivery.Segments
import MarineDelivery.OrderedDict
import MarineDelivery.Traced
import MarineDelivery.Processes
import MarineDelivery.PathLib
import MarineDelivery.Errors
import MarineDelivery.Common
import MarineDelivery.Domain
import MarineDelivery.Validation
import MarineDelivery.S3
import MarineDelivery.DeliveryId
import MarineDelivery.Core
import MarineDelivery.Calls
import MarineDelivery.Manifest
import MarineDelivery.Conservation
import MarineDelivery.Effects
import MarineDelivery.Places
import MarineDelivery.DryRun
import MarineDelivery.Agreement
import MarineDelivery.Order
import MarineDelivery.Auth
import MarineDelivery.Interface
import MarineDelivery.WorkerPool
import MarineDelivery.Protocol
import MarineDelivery.Commit
import MarineDelivery.Bucket
import MarineDelivery.Anchoring
import MarineDelivery.Confinement
import MarineDelivery.Limits
import MarineDelivery.Completion
import MarineDelivery.Progress
import MarineDelivery.Models
import MarineDelivery.ManifestJson
import MarineDelivery.Isolation
import MarineDelivery.Listing
import MarineDelivery.Calendar
import MarineDelivery.Recent
import MarineDelivery.DeliveryFile
import MarineDelivery.Transparency
import MarineDelivery.Termination
import MarineDelivery.Histories
import MarineDelivery.Puts
import MarineDelivery.Confluence
import MarineDelivery.Interleavings
import MarineDelivery.Neighbours
import MarineDelivery.Overview
import MarineDelivery.Summaries
import MarineDelivery.CommandLine
import MarineDelivery.Enquiries
import MarineDelivery.FrontEnds
import MarineDelivery.Schedules
import MarineDelivery.Adequacy
import MarineDelivery.TokenHistory
import MarineDelivery.Identity
import MarineDelivery.Pieces
import MarineDelivery.Messages
import MarineDelivery.Stops
import MarineDelivery.Strict
import MarineDelivery.Rounds
