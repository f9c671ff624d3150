import Blindport.Text.Address

/-!
# Blindport.Backend.Models

`core/models.py`: the rows the backend keeps, column by column as far as the
modelled services read or write them.

A `datetime` is a number of microseconds.  An address, a domain, an invoice or
a hash is never the empty text (`config.py` and the adapters reject it), so the
source's truth test on such a column is `isSome` here.
-/

namespace Backend

/-- A `datetime`, in microseconds. -/
abbrev Datetime := Int

/-- `timedelta(seconds=n)`. -/
def seconds (n : Int) : Int := n * 1000000

/-- `timedelta(days=n)`. -/
def days (n : Int) : Int := n * 86400000000

inductive ProductType where
  | ip
  | port
  | relay
deriving DecidableEq

inductive RelayHostnameScope where
  | exact
  | wildcard
deriving DecidableEq

inductive BillingTerm where
  | monthly
  | yearly
deriving DecidableEq

inductive Transport where
  | tcp
  | udp
deriving DecidableEq

inductive DeliveryMode where
  | framed
  | wireguard
deriving DecidableEq

inductive SubscriptionStatus where
  | pending
  | active
  | expired
  | cancelled
deriving DecidableEq

inductive IPLeaseState where
  | reserved
  | active
  | quarantined
  | released
deriving DecidableEq

inductive PaymentMethod where
  | lightning
  | cashu
  | nwc
  | stablecoinSwap
  | clink
deriving DecidableEq

inductive PaymentStatus where
  | pending
  | processing
  | paid
  | expired
  | failed
deriving DecidableEq

/-- The status of a payment that may still settle. -/
def PaymentStatus.isOpen : PaymentStatus → Bool
  | .pending | .processing => true
  | .paid | .expired | .failed => false

/-- `User`. -/
structure User where
  id : Nat
  isSuspended : Bool
  hasNwc : Bool
  nwcGeneration : Nat
  hasClink : Bool
  clinkGeneration : Nat
  hasNotificationEmail : Bool
  notificationEmailGeneration : Nat
deriving DecidableEq

/-- `ClientCredential`. -/
structure ClientCredential where
  userId : Nat
  instanceId : String
deriving DecidableEq

/-- `WireGuardPeer`. -/
structure WireGuardPeer where
  userId : Nat
  instanceId : String
  publicKey : String
deriving DecidableEq

/-- `Subscription`. -/
structure Subscription where
  id : Nat
  publicId : Uuid
  userId : Nat
  product : ProductType
  delivery : DeliveryMode
  status : SubscriptionStatus
  assignedIp : Option String
  assignedPort : Option Nat
  transport : Transport
  domain : Option String
  relayHostnameScope : RelayHostnameScope
  relayPoolDomain : Option String
  domainIsManaged : Bool
  domainVerificationToken : Option String
  domainVerifiedAt : Option Datetime
  domainClaimExpiresAt : Option Datetime
  domainRenewalGraceExpiresAt : Option Datetime
  reservationExpiresAt : Option Datetime
  reservationPaymentId : Option Nat
  resourceQuarantinedUntil : Option Datetime
  billingTerm : BillingTerm
  monthlyPriceSats : Int
  yearlyPriceSats : Int
  currentPeriodStart : Option Datetime
  currentPeriodEnd : Option Datetime
  autoRenew : Bool
  referralAddress : Option String
  upgradeFromSubscriptionId : Option Nat
  upgradeCreditSats : Int
  upgradeSourcePeriodEnd : Option Datetime
  createdAt : Datetime
  updatedAt : Datetime

/-- `IPLease`. -/
structure IPLease where
  id : Nat
  subscriptionId : Nat
  reservationPaymentId : Option Nat
  address : String
  delivery : DeliveryMode
  state : IPLeaseState
  reservedAt : Datetime
  activatedAt : Option Datetime
  expiredAt : Option Datetime
  quarantinedAt : Option Datetime
  quarantineUntil : Option Datetime
  releasedAt : Option Datetime
  smtpEnabled : Bool
  smtpReviewedAt : Option Datetime
  smtpRevokedAt : Option Datetime
  updatedAt : Datetime

/-- The texts `nwc_state` holds: the two adapter enumerations and the marker
of a request that left. -/
inductive NwcState where
  | sending
  | settled
  | pending
  | failed
  | notFound
  | unknown
  | unsupported
deriving DecidableEq

/-- The texts `clink_state` holds. -/
inductive ClinkState where
  | sending
  | settled
  | pending
  | failed
  | unknown
deriving DecidableEq

/-- `Payment.invoice_provider`: `lnurl`, or NULL for LND and mock invoices. -/
inductive InvoiceProvider where
  | lnurl
deriving DecidableEq

/-- `Payment.stablecoin_provider`. -/
inductive StablecoinProvider where
  | boltz
  | lightningSwap
deriving DecidableEq

/-- `Payment`. -/
structure Payment where
  id : Nat
  subscriptionId : Nat
  agentOrderId : Option Nat
  method : PaymentMethod
  status : PaymentStatus
  billingTerm : BillingTerm
  periodDays : Int
  amountSats : Int
  markupSats : Int
  servicePriceSats : Int
  discountSats : Int
  stablecoinSurchargeSats : Int
  stablecoinProvider : Option StablecoinProvider
  invoice : Option String
  paymentHash : Option String
  invoiceIdempotencyKey : Option String
  invoiceProvider : Option InvoiceProvider
  lnurlAttemptedAt : Option Datetime
  lnurlVerifyUrl : Option String
  settlementVerifiedAt : Option Datetime
  settlementReviewRequired : Bool
  lnurlLastCheckedAt : Option Datetime
  referralAddress : Option String
  referralCommissionBps : Int
  nwcState : Option NwcState
  nwcAttemptCount : Nat
  nwcFirstAttemptAt : Option Datetime
  nwcLastAttemptAt : Option Datetime
  nwcNextAttemptAt : Option Datetime
  nwcLastLookupAt : Option Datetime
  nwcLeaseUntil : Option Datetime
  nwcLeaseToken : Option String
  nwcErrorCode : Option String
  nwcPreimageHash : Option String
  nwcFeesPaidMsats : Option Int
  nwcCredentialGeneration : Option Nat
  clinkState : Option ClinkState
  clinkAttemptCount : Nat
  clinkAttemptedAt : Option Datetime
  clinkLeaseUntil : Option Datetime
  clinkLeaseToken : Option String
  clinkErrorCode : Option String
  clinkPreimageHash : Option String
  clinkCredentialGeneration : Option Nat
  clinkNwcFallback : Bool
  automaticRenewal : Bool
  automaticRenewalPeriodEnd : Option Datetime
  createdAt : Datetime
  paidAt : Option Datetime
  expiresAt : Option Datetime

/-- `ReferralCredit`. -/
structure ReferralCredit where
  paymentId : Nat
  address : String
  amountSats : Int
deriving DecidableEq

/-- `AgentOrder`. -/
structure AgentOrder where
  id : Nat
  userId : Nat
  subscriptionId : Nat
deriving DecidableEq

end Backend
