import Blindport.Backend.Models

/-!
# Blindport.Backend.Settings

`config.py`: the settings the modelled services read.  The bounds that the
source validates on load, as far as a proof rests on them, are fields.
-/

namespace Backend

/-- `Settings`. -/
structure Settings where
  /-- `is_payment_method_enabled`. -/
  methodEnabled : PaymentMethod → Bool
  /-- `PAYMENT_LIGHTNING_ADAPTER.lower() == "lnurl"`. -/
  lnurlAdapter : Bool
  billingYearlyEnabled : Bool
  reminderEmailEnabled : Bool
  accountMaxOpenPayments : Nat
  accountMaxNonCancelledSubscriptions : Nat
  accountMaxPendingRelayClaims : Nat
  lnurlCheckoutSeconds : Int
  lndInvoiceExpirySeconds : Int
  stablecoinSwapInvoiceExpirySeconds : Int
  stablecoinSwapMarkupBps : Int
  stablecoinSwapMinInvoiceSats : Int
  stablecoinCheckoutProvider : StablecoinProvider
  paymentMinPayableSeconds : Int
  paymentExpirySafetySeconds : Int
  referralCommissionBps : Int
  nwcMaxPaymentAttempts : Nat
  nwcRetryBaseSeconds : Int
  nwcLookupIntervalSeconds : Int
  nwcPaymentLeaseSeconds : Int
  clinkPaymentLeaseSeconds : Int
  relayRenewalGraceSeconds : Int
  relayDomainClaimTtlSeconds : Int
  relayManagedDomainClaimTtlSeconds : Int
  resourceReservationTtlSeconds : Int
  resourceReuseQuarantineSeconds : Int
  ipReuseQuarantineSeconds : Int
  wireguardPublicIps : List IPv4
  relayPublicIpsList : List String
  relaySharedIpsList : List String
  relaySharedTcpPortRange : List Nat
  relaySharedUdpPortRange : List Nat
  portTcpCapacity : Nat
  portUdpCapacity : Nat
  ipYearlySats : Int
  portMonthlySats : Int
  portYearlySats : Int
  relayMonthlySats : Int
  relayYearlySats : Int
  relayWildcardMonthlySats : Int
  relayWildcardYearlySats : Int
  accountMaxOpenPayments_pos : 1 ≤ accountMaxOpenPayments
  nwcMaxPaymentAttempts_pos : 1 ≤ nwcMaxPaymentAttempts
  stablecoinSwapMarkupBps_pos : 1 ≤ stablecoinSwapMarkupBps
  resourceReuseQuarantine_ge : 60 ≤ resourceReuseQuarantineSeconds
  ipReuseQuarantine_ge : 3600 ≤ ipReuseQuarantineSeconds
  resourceReservationTtl_ge : 60 ≤ resourceReservationTtlSeconds
  wireguardPublicIps_nodup : wireguardPublicIps.Nodup

namespace Settings

/-- `wireguard_public_ips_list`.  The validator admits IPv4 only. -/
def wireguardPublicIpsList (cfg : Settings) : List String := cfg.wireguardPublicIps.map IPv4.text

/-- The defaults, with the given methods enabled and routed inventory. -/
def default (methods : List PaymentMethod) (routed : List IPv4) (h : routed.Nodup) : Settings where
  methodEnabled m := m ∈ methods
  lnurlAdapter := false
  billingYearlyEnabled := true
  reminderEmailEnabled := false
  accountMaxOpenPayments := 5
  accountMaxNonCancelledSubscriptions := 20
  accountMaxPendingRelayClaims := 2
  lnurlCheckoutSeconds := 600
  lndInvoiceExpirySeconds := 600
  stablecoinSwapInvoiceExpirySeconds := 1200
  stablecoinSwapMarkupBps := 1000
  stablecoinSwapMinInvoiceSats := 5000
  stablecoinCheckoutProvider := .lightningSwap
  paymentMinPayableSeconds := 30
  paymentExpirySafetySeconds := 15
  referralCommissionBps := 1000
  nwcMaxPaymentAttempts := 3
  nwcRetryBaseSeconds := 30
  nwcLookupIntervalSeconds := 30
  nwcPaymentLeaseSeconds := 45
  clinkPaymentLeaseSeconds := 45
  relayRenewalGraceSeconds := 604800
  relayDomainClaimTtlSeconds := 3600
  relayManagedDomainClaimTtlSeconds := 1800
  resourceReservationTtlSeconds := 1800
  resourceReuseQuarantineSeconds := 180
  ipReuseQuarantineSeconds := 604800
  wireguardPublicIps := routed
  relayPublicIpsList := ["203.0.113.10", "203.0.113.11"]
  relaySharedIpsList := ["203.0.113.20"]
  relaySharedTcpPortRange := [10000, 10001, 10002, 10003, 10004, 10005, 10006, 10007]
  relaySharedUdpPortRange := [10000, 10001, 10002, 10003, 10004, 10005, 10006, 10007]
  portTcpCapacity := 4096
  portUdpCapacity := 4096
  ipYearlySats := 50000
  portMonthlySats := 1000
  portYearlySats := 10000
  relayMonthlySats := 2000
  relayYearlySats := 20000
  relayWildcardMonthlySats := 5000
  relayWildcardYearlySats := 50000
  accountMaxOpenPayments_pos := by decide
  nwcMaxPaymentAttempts_pos := by decide
  stablecoinSwapMarkupBps_pos := by decide
  resourceReuseQuarantine_ge := by decide
  ipReuseQuarantine_ge := by decide
  resourceReservationTtl_ge := by decide
  wireguardPublicIps_nodup := h

end Settings

end Backend
