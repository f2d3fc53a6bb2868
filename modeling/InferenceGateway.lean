import InferenceGateway.Core.Survival
import InferenceGateway.Core.HeaderCase
import InferenceGateway.Gateway.ConcurrencyCap
import InferenceGateway.Gateway.PoolRuns
import InferenceGateway.Gateway.Backlog
import InferenceGateway.Gateway.Custody
import InferenceGateway.Gateway.Accounting
import InferenceGateway.Gateway.RequestIds
import InferenceGateway.Gateway.FrontEnds
import InferenceGateway.Gateway.RegistrySync
import InferenceGateway.Gateway.Delivery
import InferenceGateway.Gateway.Traceability
import InferenceGateway.Wire.Escaping
import InferenceGateway.Wire.Layouts
import InferenceGateway.Wire.Precedence
import InferenceGateway.Wire.Sanitized
import InferenceGateway.Wire.MockCore
import InferenceGateway.Wire.JsonEscape
import InferenceGateway.Gateway.Scrapes
import InferenceGateway.Gateway.RacingPool
import InferenceGateway.Gateway.ModelNames
import InferenceGateway.Gateway.Spans
import InferenceGateway.Core.Truncation
import InferenceGateway.Common.Usize
import InferenceGateway.Gateway.PoolLimits
import InferenceGateway.Gateway.Abandonment
import InferenceGateway.Gateway.Service
import InferenceGateway.Wire.EndToEnd
import InferenceGateway.Gateway.Balance
import InferenceGateway.Gateway.RoundTrips
import InferenceGateway.Gateway.Exposition
import InferenceGateway.Gateway.Overtaking
import InferenceGateway.Gateway.CoreReplies
