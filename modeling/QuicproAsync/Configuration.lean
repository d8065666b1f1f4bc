import QuicproAsync.ConfigValidators
import QuicproAsync.Machine
import QuicproAsync.ValidatedSettings

/-!
# The configuration

Four modules of the configuration: `tls_and_crypto`, `security_and_traffic`, `quic_transport` and
`cluster_and_process`. Each has a struct of settings with defaults, a table of directives of
`php.ini`, and a function that applies an array from user code. The arrays are only looked at while
the administrator permits it; the directive for this also belongs to `security_and_traffic`, and
keeps its value in that struct and in a global flag.

A setting comes with the directive and with the array key that set it, and with the handler and
the validator for the two. The fields of the structs that neither of them writes are left out.
-/

namespace QuicproAsync.Configuration

open Php ValidatedSettings

/-! ### Directives and array keys -/

/-- An entry of the table of directives: the name, the default and the handler. -/
structure Directive (kind : Kind) where
  name : String
  default : String
  handler : IniHandler kind

/-- A branch of one of the functions for user code: the key and the validator. -/
structure UserlandKey (kind : Kind) where
  key : String
  validator : Validator kind

/-! ### `tls_and_crypto` -/

inductive TlsSetting where
  | tlsVerifyPeer
  | tlsVerifyDepth
  | tlsDefaultCaFile
  | tlsDefaultCertFile
  | tlsDefaultKeyFile
  | tlsTicketKeyFile
  | tlsCiphersTls13
  | tlsCurves
  | tlsSessionTicketLifetimeSec
  | tlsEnableEarlyData
  | tlsServer0rttCacheSize
  | tlsEnableOcspStapling
  | tlsEnableEch
  | tlsRequireCtPolicy
  | tlsDisableSniValidation
  | transportDisableEncryption
deriving DecidableEq

namespace TlsSetting

def all : List TlsSetting :=
  [tlsVerifyPeer, tlsEnableEarlyData, tlsEnableOcspStapling, tlsEnableEch, tlsRequireCtPolicy,
    tlsDisableSniValidation, transportDisableEncryption, tlsVerifyDepth,
    tlsSessionTicketLifetimeSec, tlsServer0rttCacheSize, tlsDefaultCaFile, tlsDefaultCertFile,
    tlsDefaultKeyFile, tlsTicketKeyFile, tlsCiphersTls13, tlsCurves]

abbrev kind : TlsSetting → Kind
  | tlsVerifyPeer | tlsEnableEarlyData | tlsEnableOcspStapling | tlsEnableEch
  | tlsRequireCtPolicy | tlsDisableSniValidation | transportDisableEncryption => .bool
  | tlsVerifyDepth | tlsSessionTicketLifetimeSec | tlsServer0rttCacheSize => .long
  | tlsDefaultCaFile | tlsDefaultCertFile | tlsDefaultKeyFile | tlsTicketKeyFile
  | tlsCiphersTls13 | tlsCurves => .string

/-- `qp_config_tls_crypto_defaults_load`. -/
def default : (setting : TlsSetting) → setting.kind.Value
  | tlsVerifyPeer => true
  | tlsVerifyDepth => (10 : BitVec 64)
  | tlsDefaultCaFile => pestrdup []
  | tlsDefaultCertFile => pestrdup []
  | tlsDefaultKeyFile => pestrdup []
  | tlsTicketKeyFile => pestrdup []
  | tlsCiphersTls13 =>
    pestrdup (ascii "TLS_AES_128_GCM_SHA256:TLS_AES_256_GCM_SHA384:TLS_CHACHA20_POLY1305_SHA256")
  | tlsCurves => pestrdup (ascii "P-256:X25519")
  | tlsSessionTicketLifetimeSec => (7200 : BitVec 64)
  | tlsEnableEarlyData => false
  | tlsServer0rttCacheSize => (100000 : BitVec 64)
  | tlsEnableOcspStapling => true
  | tlsEnableEch => false
  | tlsRequireCtPolicy => false
  | tlsDisableSniValidation => false
  | transportDisableEncryption => false

def directive : (setting : TlsSetting) → Directive setting.kind
  | tlsVerifyPeer => ⟨"quicpro.tls_verify_peer", "1", .bool⟩
  | tlsVerifyDepth => ⟨"quicpro.tls_verify_depth", "10", .positiveLong⟩
  | tlsDefaultCaFile => ⟨"quicpro.tls_default_ca_file", "", .string⟩
  | tlsDefaultCertFile => ⟨"quicpro.tls_default_cert_file", "", .string⟩
  | tlsDefaultKeyFile => ⟨"quicpro.tls_default_key_file", "", .string⟩
  | tlsTicketKeyFile => ⟨"quicpro.tls_ticket_key_file", "", .string⟩
  | tlsCiphersTls13 =>
    ⟨"quicpro.tls_ciphers_tls13",
      "TLS_AES_128_GCM_SHA256:TLS_AES_256_GCM_SHA384:TLS_CHACHA20_POLY1305_SHA256", .string⟩
  | tlsCurves => ⟨"quicpro.tls_curves", "P-256:X25519", .string⟩
  | tlsSessionTicketLifetimeSec =>
    ⟨"quicpro.tls_session_ticket_lifetime_sec", "7200", .positiveLong⟩
  | tlsEnableEarlyData => ⟨"quicpro.tls_enable_early_data", "0", .bool⟩
  | tlsServer0rttCacheSize => ⟨"quicpro.tls_server_0rtt_cache_size", "100000", .positiveLong⟩
  | tlsEnableOcspStapling => ⟨"quicpro.tls_enable_ocsp_stapling", "1", .bool⟩
  | tlsEnableEch => ⟨"quicpro.tls_enable_ech", "0", .bool⟩
  | tlsRequireCtPolicy => ⟨"quicpro.tls_require_ct_policy", "0", .bool⟩
  | tlsDisableSniValidation => ⟨"quicpro.tls_disable_sni_validation", "0", .bool⟩
  | transportDisableEncryption => ⟨"quicpro.transport_disable_encryption", "0", .bool⟩

def userland : (setting : TlsSetting) → UserlandKey setting.kind
  | tlsVerifyPeer => ⟨"tls_verify_peer", .bool⟩
  | tlsEnableEarlyData => ⟨"tls_enable_early_data", .bool⟩
  | tlsEnableOcspStapling => ⟨"tls_enable_ocsp_stapling", .bool⟩
  | tlsEnableEch => ⟨"tls_enable_ech", .bool⟩
  | tlsRequireCtPolicy => ⟨"tls_require_ct_policy", .bool⟩
  | tlsDisableSniValidation => ⟨"tls_disable_sni_validation", .bool⟩
  | transportDisableEncryption => ⟨"transport_disable_encryption", .bool⟩
  | tlsVerifyDepth => ⟨"tls_verify_depth", .positiveLong⟩
  | tlsSessionTicketLifetimeSec => ⟨"tls_session_ticket_lifetime_sec", .positiveLong⟩
  | tlsServer0rttCacheSize => ⟨"tls_server_0rtt_cache_size", .positiveLong⟩
  | tlsDefaultCaFile => ⟨"tls_default_ca_file", .string⟩
  | tlsDefaultCertFile => ⟨"tls_default_cert_file", .string⟩
  | tlsDefaultKeyFile => ⟨"tls_default_key_file", .string⟩
  | tlsTicketKeyFile => ⟨"tls_ticket_key_file", .string⟩
  | tlsCiphersTls13 => ⟨"tls_ciphers_tls13", .string⟩
  | tlsCurves => ⟨"tls_curves", .string⟩

end TlsSetting

/-! ### `security_and_traffic` -/

inductive SecuritySetting where
  | allowConfigOverride
  | adminApiEnable
  | rateLimiterEnable
  | rateLimiterRequestsPerSec
  | rateLimiterBurst
  | corsAllowedOrigins
deriving DecidableEq

namespace SecuritySetting

def all : List SecuritySetting :=
  [allowConfigOverride, adminApiEnable, rateLimiterEnable, rateLimiterRequestsPerSec,
    rateLimiterBurst, corsAllowedOrigins]

abbrev kind : SecuritySetting → Kind
  | allowConfigOverride | adminApiEnable | rateLimiterEnable => .bool
  | rateLimiterRequestsPerSec | rateLimiterBurst => .long
  | corsAllowedOrigins => .string

/-- `qp_config_security_defaults_load`. -/
def default : (setting : SecuritySetting) → setting.kind.Value
  | allowConfigOverride => false
  | adminApiEnable => false
  | rateLimiterEnable => true
  | rateLimiterRequestsPerSec => (100 : BitVec 64)
  | rateLimiterBurst => (50 : BitVec 64)
  | corsAllowedOrigins => pestrdup (ascii "*")

def directive : (setting : SecuritySetting) → Directive setting.kind
  | allowConfigOverride => ⟨"quicpro.security_allow_config_override", "0", .securityPolicy⟩
  | adminApiEnable => ⟨"quicpro.admin_api_enable", "0", .securityPolicy⟩
  | rateLimiterEnable => ⟨"quicpro.security_rate_limiter_enable", "1", .bool⟩
  | rateLimiterRequestsPerSec =>
    ⟨"quicpro.security_rate_limiter_requests_per_sec", "100", .rateLimiterValue⟩
  | rateLimiterBurst => ⟨"quicpro.security_rate_limiter_burst", "50", .rateLimiterValue⟩
  | corsAllowedOrigins => ⟨"quicpro.security_cors_allowed_origins", "*", .corsOrigins⟩

/-- The two policy flags cannot be set by user code. -/
def userland : (setting : SecuritySetting) → Option (UserlandKey setting.kind)
  | allowConfigOverride => none
  | adminApiEnable => none
  | rateLimiterEnable => some ⟨"security_rate_limiter_enable", .bool⟩
  | rateLimiterRequestsPerSec => some ⟨"security_rate_limiter_requests_per_sec", .nonNegativeLong⟩
  | rateLimiterBurst => some ⟨"security_rate_limiter_burst", .nonNegativeLong⟩
  | corsAllowedOrigins => some ⟨"security_cors_allowed_origins", .corsOriginString⟩

end SecuritySetting

/-! ### `quic_transport` -/

inductive QuicSetting where
  | ccAlgorithm
  | ccInitialCwndPackets
  | ccMinCwndPackets
  | ccEnableHystartPlusPlus
  | pacingEnable
  | pacingMaxBurstPackets
  | maxAckDelayMs
  | ackDelayExponent
  | ptoTimeoutMsInitial
  | ptoTimeoutMsMax
  | maxPtoProbes
  | pingIntervalMs
  | initialMaxData
  | initialMaxStreamDataBidiLocal
  | initialMaxStreamDataBidiRemote
  | initialMaxStreamDataUni
  | initialMaxStreamsBidi
  | initialMaxStreamsUni
  | activeConnectionIdLimit
  | statelessRetryEnable
  | greaseEnable
  | datagramsEnable
  | dgramRecvQueueLen
  | dgramSendQueueLen
deriving DecidableEq

namespace QuicSetting

def all : List QuicSetting :=
  [ccAlgorithm, ccInitialCwndPackets, ccMinCwndPackets, ccEnableHystartPlusPlus, pacingEnable,
    pacingMaxBurstPackets, maxAckDelayMs, ackDelayExponent, ptoTimeoutMsInitial, ptoTimeoutMsMax,
    maxPtoProbes, pingIntervalMs, initialMaxData, initialMaxStreamDataBidiLocal,
    initialMaxStreamDataBidiRemote, initialMaxStreamDataUni, initialMaxStreamsBidi,
    initialMaxStreamsUni, activeConnectionIdLimit, statelessRetryEnable, greaseEnable,
    datagramsEnable, dgramRecvQueueLen, dgramSendQueueLen]

abbrev kind : QuicSetting → Kind
  | ccAlgorithm => .string
  | ccEnableHystartPlusPlus | pacingEnable | statelessRetryEnable | greaseEnable
  | datagramsEnable => .bool
  | ccInitialCwndPackets | ccMinCwndPackets | pacingMaxBurstPackets | maxAckDelayMs
  | ackDelayExponent | ptoTimeoutMsInitial | ptoTimeoutMsMax | maxPtoProbes | pingIntervalMs
  | initialMaxData | initialMaxStreamDataBidiLocal | initialMaxStreamDataBidiRemote
  | initialMaxStreamDataUni | initialMaxStreamsBidi | initialMaxStreamsUni
  | activeConnectionIdLimit | dgramRecvQueueLen | dgramSendQueueLen => .long

/-- `qp_config_quic_transport_defaults_load`. -/
def default : (setting : QuicSetting) → setting.kind.Value
  | ccAlgorithm => pestrdup (ascii "cubic")
  | ccInitialCwndPackets => (32 : BitVec 64)
  | ccMinCwndPackets => (4 : BitVec 64)
  | ccEnableHystartPlusPlus => true
  | pacingEnable => true
  | pacingMaxBurstPackets => (10 : BitVec 64)
  | maxAckDelayMs => (25 : BitVec 64)
  | ackDelayExponent => (3 : BitVec 64)
  | ptoTimeoutMsInitial => (1000 : BitVec 64)
  | ptoTimeoutMsMax => (60000 : BitVec 64)
  | maxPtoProbes => (5 : BitVec 64)
  | pingIntervalMs => (15000 : BitVec 64)
  | initialMaxData => (10485760 : BitVec 64)
  | initialMaxStreamDataBidiLocal => (1048576 : BitVec 64)
  | initialMaxStreamDataBidiRemote => (1048576 : BitVec 64)
  | initialMaxStreamDataUni => (1048576 : BitVec 64)
  | initialMaxStreamsBidi => (100 : BitVec 64)
  | initialMaxStreamsUni => (100 : BitVec 64)
  | activeConnectionIdLimit => (8 : BitVec 64)
  | statelessRetryEnable => false
  | greaseEnable => true
  | datagramsEnable => true
  | dgramRecvQueueLen => (1024 : BitVec 64)
  | dgramSendQueueLen => (1024 : BitVec 64)

def directive : (setting : QuicSetting) → Directive setting.kind
  | ccAlgorithm => ⟨"quicpro.transport_cc_algorithm", "cubic", .ccAlgorithm⟩
  | ccInitialCwndPackets =>
    ⟨"quicpro.transport_cc_initial_cwnd_packets", "32", .quicPositiveLong⟩
  | ccMinCwndPackets => ⟨"quicpro.transport_cc_min_cwnd_packets", "4", .quicPositiveLong⟩
  | ccEnableHystartPlusPlus => ⟨"quicpro.transport_cc_enable_hystart_plus_plus", "1", .bool⟩
  | pacingEnable => ⟨"quicpro.transport_pacing_enable", "1", .bool⟩
  | pacingMaxBurstPackets =>
    ⟨"quicpro.transport_pacing_max_burst_packets", "10", .quicPositiveLong⟩
  | maxAckDelayMs => ⟨"quicpro.transport_max_ack_delay_ms", "25", .quicNonNegativeLong⟩
  | ackDelayExponent => ⟨"quicpro.transport_ack_delay_exponent", "3", .ackDelayExponent⟩
  | ptoTimeoutMsInitial =>
    ⟨"quicpro.transport_pto_timeout_ms_initial", "1000", .quicPositiveLong⟩
  | ptoTimeoutMsMax => ⟨"quicpro.transport_pto_timeout_ms_max", "60000", .quicPositiveLong⟩
  | maxPtoProbes => ⟨"quicpro.transport_max_pto_probes", "5", .quicPositiveLong⟩
  | pingIntervalMs => ⟨"quicpro.transport_ping_interval_ms", "15000", .quicNonNegativeLong⟩
  | initialMaxData => ⟨"quicpro.transport_initial_max_data", "10485760", .quicPositiveLong⟩
  | initialMaxStreamDataBidiLocal =>
    ⟨"quicpro.transport_initial_max_stream_data_bidi_local", "1048576", .quicPositiveLong⟩
  | initialMaxStreamDataBidiRemote =>
    ⟨"quicpro.transport_initial_max_stream_data_bidi_remote", "1048576", .quicPositiveLong⟩
  | initialMaxStreamDataUni =>
    ⟨"quicpro.transport_initial_max_stream_data_uni", "1048576", .quicPositiveLong⟩
  | initialMaxStreamsBidi =>
    ⟨"quicpro.transport_initial_max_streams_bidi", "100", .quicPositiveLong⟩
  | initialMaxStreamsUni =>
    ⟨"quicpro.transport_initial_max_streams_uni", "100", .quicPositiveLong⟩
  | activeConnectionIdLimit =>
    ⟨"quicpro.transport_active_connection_id_limit", "8", .quicPositiveLong⟩
  | statelessRetryEnable => ⟨"quicpro.transport_stateless_retry_enable", "0", .bool⟩
  | greaseEnable => ⟨"quicpro.transport_grease_enable", "1", .bool⟩
  | datagramsEnable => ⟨"quicpro.transport_datagrams_enable", "1", .bool⟩
  | dgramRecvQueueLen => ⟨"quicpro.transport_dgram_recv_queue_len", "1024", .quicPositiveLong⟩
  | dgramSendQueueLen => ⟨"quicpro.transport_dgram_send_queue_len", "1024", .quicPositiveLong⟩

def userland : (setting : QuicSetting) → UserlandKey setting.kind
  | ccAlgorithm => ⟨"cc_algorithm", .stringFromAllowlist ["cubic", "bbr"]⟩
  | ccInitialCwndPackets => ⟨"cc_initial_cwnd_packets", .positiveLong⟩
  | ccMinCwndPackets => ⟨"cc_min_cwnd_packets", .positiveLong⟩
  | ccEnableHystartPlusPlus => ⟨"cc_enable_hystart_plus_plus", .bool⟩
  | pacingEnable => ⟨"pacing_enable", .bool⟩
  | pacingMaxBurstPackets => ⟨"pacing_max_burst_packets", .positiveLong⟩
  | maxAckDelayMs => ⟨"max_ack_delay_ms", .nonNegativeLong⟩
  | ackDelayExponent => ⟨"ack_delay_exponent", .nonNegativeLong⟩
  | ptoTimeoutMsInitial => ⟨"pto_timeout_ms_initial", .positiveLong⟩
  | ptoTimeoutMsMax => ⟨"pto_timeout_ms_max", .positiveLong⟩
  | maxPtoProbes => ⟨"max_pto_probes", .positiveLong⟩
  | pingIntervalMs => ⟨"ping_interval_ms", .nonNegativeLong⟩
  | initialMaxData => ⟨"initial_max_data", .positiveLong⟩
  | initialMaxStreamDataBidiLocal => ⟨"initial_max_stream_data_bidi_local", .positiveLong⟩
  | initialMaxStreamDataBidiRemote => ⟨"initial_max_stream_data_bidi_remote", .positiveLong⟩
  | initialMaxStreamDataUni => ⟨"initial_max_stream_data_uni", .positiveLong⟩
  | initialMaxStreamsBidi => ⟨"initial_max_streams_bidi", .positiveLong⟩
  | initialMaxStreamsUni => ⟨"initial_max_streams_uni", .positiveLong⟩
  | activeConnectionIdLimit => ⟨"active_connection_id_limit", .positiveLong⟩
  | statelessRetryEnable => ⟨"stateless_retry_enable", .bool⟩
  | greaseEnable => ⟨"grease_enable", .bool⟩
  | datagramsEnable => ⟨"datagrams_enable", .bool⟩
  | dgramRecvQueueLen => ⟨"dgram_recv_queue_len", .positiveLong⟩
  | dgramSendQueueLen => ⟨"dgram_send_queue_len", .positiveLong⟩

end QuicSetting

/-! ### `cluster_and_process` -/

inductive ClusterSetting where
  | clusterWorkers
  | clusterGracefulShutdownMs
  | serverMaxFdPerWorker
  | clusterRestartCrashedWorkers
  | clusterMaxRestartsPerWorker
  | clusterRestartIntervalSec
  | clusterWorkerNiceness
  | clusterWorkerSchedulerPolicy
  | clusterWorkerCpuAffinityMap
  | clusterWorkerCgroupPath
  | clusterWorkerUserId
  | clusterWorkerGroupId
deriving DecidableEq

namespace ClusterSetting

def all : List ClusterSetting :=
  [clusterWorkers, clusterGracefulShutdownMs, serverMaxFdPerWorker, clusterRestartCrashedWorkers,
    clusterMaxRestartsPerWorker, clusterRestartIntervalSec, clusterWorkerNiceness,
    clusterWorkerSchedulerPolicy, clusterWorkerCpuAffinityMap, clusterWorkerCgroupPath,
    clusterWorkerUserId, clusterWorkerGroupId]

abbrev kind : ClusterSetting → Kind
  | clusterRestartCrashedWorkers => .bool
  | clusterWorkers | clusterGracefulShutdownMs | serverMaxFdPerWorker
  | clusterMaxRestartsPerWorker | clusterRestartIntervalSec | clusterWorkerNiceness => .long
  | clusterWorkerSchedulerPolicy | clusterWorkerCpuAffinityMap | clusterWorkerCgroupPath
  | clusterWorkerUserId | clusterWorkerGroupId => .string

/-- `qp_config_cluster_and_process_defaults_load`. -/
def default : (setting : ClusterSetting) → setting.kind.Value
  | clusterWorkers => (0 : BitVec 64)
  | clusterGracefulShutdownMs => (30000 : BitVec 64)
  | serverMaxFdPerWorker => (8192 : BitVec 64)
  | clusterRestartCrashedWorkers => true
  | clusterMaxRestartsPerWorker => (10 : BitVec 64)
  | clusterRestartIntervalSec => (60 : BitVec 64)
  | clusterWorkerNiceness => (0 : BitVec 64)
  | clusterWorkerSchedulerPolicy => pestrdup (ascii "other")
  | clusterWorkerCpuAffinityMap => pestrdup []
  | clusterWorkerCgroupPath => pestrdup []
  | clusterWorkerUserId => pestrdup []
  | clusterWorkerGroupId => pestrdup []

def directive : (setting : ClusterSetting) → Directive setting.kind
  | clusterWorkers => ⟨"quicpro.cluster_workers", "0", .clusterNonNegativeLong⟩
  | clusterGracefulShutdownMs =>
    ⟨"quicpro.cluster_graceful_shutdown_ms", "30000", .clusterNonNegativeLong⟩
  | serverMaxFdPerWorker =>
    ⟨"quicpro.server_max_fd_per_worker", "8192", .clusterNonNegativeLong⟩
  | clusterRestartCrashedWorkers => ⟨"quicpro.cluster_restart_crashed_workers", "1", .bool⟩
  | clusterMaxRestartsPerWorker =>
    ⟨"quicpro.cluster_max_restarts_per_worker", "10", .clusterNonNegativeLong⟩
  | clusterRestartIntervalSec =>
    ⟨"quicpro.cluster_restart_interval_sec", "60", .clusterNonNegativeLong⟩
  | clusterWorkerNiceness => ⟨"quicpro.cluster_worker_niceness", "0", .long⟩
  | clusterWorkerSchedulerPolicy => ⟨"quicpro.cluster_worker_scheduler_policy", "other", .string⟩
  | clusterWorkerCpuAffinityMap => ⟨"quicpro.cluster_worker_cpu_affinity_map", "", .string⟩
  | clusterWorkerCgroupPath => ⟨"quicpro.cluster_worker_cgroup_path", "", .string⟩
  | clusterWorkerUserId => ⟨"quicpro.cluster_worker_user_id", "", .string⟩
  | clusterWorkerGroupId => ⟨"quicpro.cluster_worker_group_id", "", .string⟩

def userland : (setting : ClusterSetting) → UserlandKey setting.kind
  | clusterWorkers => ⟨"cluster_workers", .nonNegativeLong⟩
  | clusterGracefulShutdownMs => ⟨"cluster_graceful_shutdown_ms", .positiveLong⟩
  | serverMaxFdPerWorker => ⟨"server_max_fd_per_worker", .positiveLong⟩
  | clusterRestartCrashedWorkers => ⟨"cluster_restart_crashed_workers", .bool⟩
  | clusterMaxRestartsPerWorker => ⟨"cluster_max_restarts_per_worker", .positiveLong⟩
  | clusterRestartIntervalSec => ⟨"cluster_restart_interval_sec", .positiveLong⟩
  | clusterWorkerNiceness => ⟨"cluster_worker_niceness", .nicenessValue⟩
  | clusterWorkerSchedulerPolicy => ⟨"cluster_worker_scheduler_policy", .schedulerPolicy⟩
  | clusterWorkerCpuAffinityMap => ⟨"cluster_worker_cpu_affinity_map", .genericString⟩
  | clusterWorkerCgroupPath => ⟨"cluster_worker_cgroup_path", .genericString⟩
  | clusterWorkerUserId => ⟨"cluster_worker_user_id", .genericString⟩
  | clusterWorkerGroupId => ⟨"cluster_worker_group_id", .genericString⟩

end ClusterSetting

/-! ### All settings -/

inductive Module where
  | tlsAndCrypto
  | securityAndTraffic
  | quicTransport
  | clusterAndProcess
deriving DecidableEq

inductive Setting where
  | tls (setting : TlsSetting)
  | security (setting : SecuritySetting)
  | quic (setting : QuicSetting)
  | cluster (setting : ClusterSetting)
deriving DecidableEq

namespace Setting

abbrev kind : Setting → Kind
  | tls setting => setting.kind
  | security setting => setting.kind
  | quic setting => setting.kind
  | cluster setting => setting.kind

def default : (setting : Setting) → setting.kind.Value
  | tls setting => setting.default
  | security setting => setting.default
  | quic setting => setting.default
  | cluster setting => setting.default

def directive : (setting : Setting) → Directive setting.kind
  | tls setting => setting.directive
  | security setting => setting.directive
  | quic setting => setting.directive
  | cluster setting => setting.directive

def userland : (setting : Setting) → Option (UserlandKey setting.kind)
  | tls setting => some setting.userland
  | security setting => setting.userland
  | quic setting => some setting.userland
  | cluster setting => some setting.userland

/-- The global flag has a copy in the struct of `security_and_traffic`. -/
abbrev override : Setting := .security .allowConfigOverride

abbrev adminApi : Setting := .security .adminApiEnable

end Setting

/-- The settings of a module, in the order in which its function for user code looks for them. -/
def Module.settings : Module → List Setting
  | .tlsAndCrypto => TlsSetting.all.map .tls
  | .securityAndTraffic => SecuritySetting.all.map .security
  | .quicTransport => QuicSetting.all.map .quic
  | .clusterAndProcess => ClusterSetting.all.map .cluster

/-- The four structs. -/
abbrev Config := (setting : Setting) → setting.kind.Value

abbrev Assignment := (setting : Setting) × setting.kind.Value

structure State where
  /-- `quicpro_globals.is_userland_override_allowed`. -/
  isUserlandOverrideAllowed : Bool
  config : Config

/-- What the extension starts with. -/
def State.defaults : State := ⟨false, Setting.default⟩

/-! ### Updates from user code -/

section Userland

variable (host : IniHost)

/-- The branch of the loop for a setting: none if the key is not the one of the setting. -/
def branchAt (key : Bytes) (value : Zval) (setting : Setting) :
    Option (Except Bytes Assignment) :=
  match setting.userland with
  | none => none
  | some branch =>
    if key = ascii branch.key then
      some ((branch.validator.run host value).map (Sigma.mk setting))
    else none

/-- The branches of the loop: what is written for an entry or the message of an exception, none if
    the key belongs to no setting. -/
def checkEntry (module : Module) : Key × Zval → Option (Except Bytes Assignment)
  | (.idx _, _) => none
  | (.str key, value) => module.settings.findSome? (branchAt host key value)

/-- What the four functions have in common: the state after the call, and the message if it
    returns `FAILURE`. -/
def applyUserlandConfig (module : Module) (disabled notArray : String) (state : State)
    (array : Zval) : State × Option Bytes :=
  if !state.isUserlandOverrideAllowed then (state, some (ascii disabled))
  else
    match array with
    | .array entries =>
      let (config, error) := applyEntries (checkEntry host module) state.config entries
      ({ state with config }, error)
    | _ => (state, some (ascii notArray))

def qpConfigTlsCryptoApplyUserlandConfig : State → Zval → State × Option Bytes :=
  applyUserlandConfig host .tlsAndCrypto
    "Configuration override from userland is disabled by administrator."
    "Configuration must be provided as an associative array."

def qpConfigSecurityApplyUserlandConfig : State → Zval → State × Option Bytes :=
  applyUserlandConfig host .securityAndTraffic
    ("Configuration override from userland is disabled by system administrator in php.ini " ++
      "(quicpro.security_allow_config_override).")
    "Configuration must be provided as an array."

def qpConfigQuicTransportApplyUserlandConfig : State → Zval → State × Option Bytes :=
  applyUserlandConfig host .quicTransport
    "Configuration override from userland is disabled by system administrator."
    "Configuration must be provided as an array."

def qpConfigClusterAndProcessApplyUserLandConfig : State → Zval → State × Option Bytes :=
  applyUserlandConfig host .clusterAndProcess
    ("Configuration override from userland is disabled by system administrator in php.ini " ++
      "(quicpro.security_allow_config_override).")
    "Configuration must be provided as an array."

/-- The function of each module. -/
def Module.apply : Module → State → Zval → State × Option Bytes
  | .tlsAndCrypto => qpConfigTlsCryptoApplyUserlandConfig host
  | .securityAndTraffic => qpConfigSecurityApplyUserlandConfig host
  | .quicTransport => qpConfigQuicTransportApplyUserlandConfig host
  | .clusterAndProcess => qpConfigClusterAndProcessApplyUserLandConfig host

end Userland

/-! ### Updates of `php.ini` -/

section Ini

variable (host : IniHost)

def allSettings : List Setting :=
  [Module.clusterAndProcess, .securityAndTraffic, .tlsAndCrypto, .quicTransport].flatMap
    Module.settings

/-- The setting that a directive is for. -/
def settingOf (name : Bytes) : Option Setting :=
  allSettings.find? fun setting => name = ascii setting.directive.name

/-- What is written for a directive or the message of an exception, none if there is no such
    directive. -/
def checkDirective (name newValue : Bytes) : Option (Except Bytes Assignment) :=
  (settingOf name).map fun setting =>
    (setting.directive.handler.run host newValue).map (Sigma.mk setting)

/-- The global flag is written together with its copy. -/
def overrideFlag (flag : Bool) : Assignment → Bool
  | ⟨.security .allowConfigOverride, value⟩ => value
  | _ => flag

/-- A directive is set to a new value. -/
def iniUpdate (state : State) (name newValue : Bytes) : State × Option Bytes :=
  match checkDirective host name newValue with
  | none => (state, none)
  | some (.error message) => (state, some message)
  | some (.ok assignment) =>
    (⟨overrideFlag state.isUserlandOverrideAllowed assignment, write state.config assignment⟩,
      none)

end Ini

/-! ### Sequences of updates -/

inductive Update where
  | ini (name newValue : Bytes)
  | userland (module : Module) (array : Zval)

def step (host : IniHost) (state : State) : Update → Option State
  | .ini name newValue => some (iniUpdate host state name newValue).1
  | .userland module array => some (module.apply host state array).1

end QuicproAsync.Configuration
