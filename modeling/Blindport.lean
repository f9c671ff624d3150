import Blindport.Conc.Prog
import Blindport.Conc.System
import Blindport.Conc.Discipline
import Blindport.Conc.Store
import Blindport.Conc.Journal
import Blindport.Conc.Transaction
import Blindport.Conc.Latch
import Blindport.Conc.Machine
import Blindport.Data.Cumulative
import Blindport.Data.Table
import Blindport.Text.Base64
import Blindport.Text.Address
import Blindport.Text.IPv6
import Blindport.Text.Json
import Blindport.Text.Hostname
import Blindport.Protocol.Claim
import Blindport.Wgnet.State
import Blindport.Wgnet.Reconciler
import Blindport.Wgnet.Safety
import Blindport.Relay.Accounting
import Blindport.Relay.WireGuard
import Blindport.Relay.PortListeners
import Blindport.Relay.Routing
import Blindport.Tunnel.Stream
import Blindport.Tunnel.Receive
import Blindport.Tunnel.Closing
import Blindport.Tunnel.Conn
import Blindport.Tunnel.Changes
import Blindport.Tunnel.Budget
import Blindport.Tunnel.Order
import Blindport.Tunnel.Proxy
import Blindport.Tunnel.Framing
import Blindport.Tunnel.Link
import Blindport.Tunnel.Credit
import Blindport.Tunnel.Pair
import Blindport.Tunnel.Backpressure
import Blindport.Tunnel.Written
import Blindport.Tunnel.Bytes
import Blindport.Backend.Models
import Blindport.Backend.Settings
import Blindport.Entitlement.Issue
import Blindport.Entitlement.Verify
import Blindport.Entitlement.Metadata
import Blindport.Entitlement.Texts
import Blindport.Entitlement.Decode
import Blindport.Entitlement.Agreement
import Blindport.Agent.Provisioning
import Blindport.Agent.Outage
import Blindport.Backend.Statements
import Blindport.Backend.Quotes
import Blindport.Backend.Lifecycle
import Blindport.Backend.Billing
import Blindport.Backend.Session
import Blindport.Backend.History
import Blindport.Backend.Ledger
import Blindport.Backend.Moves
import Blindport.Backend.Assertions
import Blindport.Backend.Settling
import Blindport.Backend.Tenancy
import Blindport.Backend.Subscriptions
import Blindport.Backend.Payments
import Blindport.Backend.Reaping
import Blindport.Backend.Requests
import Blindport.Backend.UpgradeCredit
import Blindport.Backend.Snapshots
import Blindport.Backend.Enrollment
import Blindport.Backend.KeyEnrollment
import Blindport.Backend.Notifications
import Blindport.Backend.NotificationHistory
import Blindport.Backend.NotificationSpecs
import Blindport.Backend.Specs.Session
import Blindport.Backend.Specs.Subscriptions
import Blindport.Backend.Specs.Settlement
import Blindport.Backend.Specs.Invoices
import Blindport.Backend.Specs.Wallets
import Blindport.Backend.Specs.Polling
import Blindport.Backend.Specs.Reaping
import Blindport.Backend.Specs.Requests
import Blindport.Backend.Safety
import Blindport.Backend.WireGuard
import Blindport.Backend.Bandwidth
import Blindport.Backend.Conservation
import Blindport.Relay.Bandwidth
import Blindport.Relay.Reporting
import Blindport.Relay.Delivery
import Blindport.Backend.Admission
import Blindport.Relay.Flushing
import Blindport.Relay.Metering
import Blindport.Wire.Bytes
import Blindport.Wire.Reader
import Blindport.Wire.Search
import Blindport.Ingress.HeaderLimit
import Blindport.Text.Utf8
import Blindport.Ingress.ServerName
import Blindport.Ingress.ClientHello
import Blindport.Relay.Registry
import Blindport.Tunnel.Eviction
import Blindport.Tunnel.Reserve
import Blindport.Text.HostPort
import Blindport.Ingress.ProxyProto
import Blindport.Text.GoJson
import Blindport.Text.JsonReader
import Blindport.Text.AddressText
import Blindport.Protocol.Frame
import Blindport.Protocol.FrameSize
import Blindport.Tunnel.Emitted
import Blindport.Relay.Reauthorization
import Blindport.Agent.Supervisor
import Blindport.Data.Bits
import Blindport.Text.Calendar
import Blindport.Text.Crockford
import Blindport.Wgnet.PortRanges
import Blindport.Entitlement.CanonicalText
import Blindport.Data.Except
import Blindport.Wire.Tlv
import Blindport.Entitlement.Scope
import Blindport.Conc.Alone
import Blindport.Backend.PortCapacity
import Blindport.Conc.Ticket
import Blindport.Relay.ListenerLifecycle
import Blindport.Relay.Admission
import Blindport.Backend.RateLimits
import Blindport.Backend.RateCalls
import Blindport.Backend.RateWindows
import Blindport.Data.Paging
import Blindport.Backend.Expansion
import Blindport.Backend.Recipients
import Blindport.Relay.LedgerFile
import Blindport.Relay.LedgerText
import Blindport.Relay.LedgerSafety
