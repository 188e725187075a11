import IxrGateway.Adapters.Sampling
import IxrGateway.CircuitBreaker.Probing
import IxrGateway.CircuitBreaker.Window
import IxrGateway.Ingress.OpenCircuits
import IxrGateway.ModelPerf.Visibility
import IxrGateway.Policy.RateLimitCap
import IxrGateway.Routing.Escalation
import IxrGateway.Routing.StreamAgreement
import IxrGateway.Ingress.OwnTurn
import IxrGateway.Ingress.Transcript
import IxrGateway.Memory.Concurrent
import IxrGateway.Adapters.BedrockAgreement
import IxrGateway.Budget.Concurrent
import IxrGateway.CircuitBreaker.SharedState
import IxrGateway.Ingress.OwnCalls
import IxrGateway.Ingress.RetrievalHop
import IxrGateway.Policy.RetryAfter
import IxrGateway.Adapters.AnthropicWire
import IxrGateway.Adapters.AnthropicFailures
import IxrGateway.Ingress.Chains
import IxrGateway.Reasoning.Ceiling
import IxrGateway.Routing.FallbackReport
import IxrGateway.Routing.StatusErrors
import IxrGateway.Plugins.Brevity
import IxrGateway.Compressor.Intercept
import IxrGateway.ModelPerf.SlidingWindow
import IxrGateway.Cache.Search
import IxrGateway.Cache.Capacity
import IxrGateway.Retrieval.Backend
import IxrGateway.Adapters.Reassembly
import IxrGateway.Memory.Recent
import IxrGateway.Session.Window
import IxrGateway.Scoring.Cooldown
import IxrGateway.Ingress.Auth
import IxrGateway.Routing.EscalationOrder
import IxrGateway.Compressor.Expansion
import IxrGateway.Guardrail.Blocked
import IxrGateway.Bus.Memory
import IxrGateway.Ingress.Admission
import IxrGateway.Deployment.Router
