import EasyUds.Protocol.Codec

/-! # Server options

The options that `validate_server_options` reads, with their defaults, and its checks in the order of the
source. Sizes are counts of a 64-bit `size_t` and times are milliseconds.
-/

namespace EasyUds.Transport.Validation

open Protocol.Codec

def sizeMax : Nat := 2 ^ 64 - 1

/-- `StatsMode` is an enumeration that a caller may cast any value to. -/
inductive StatsMode
  | disabled
  | basic
  | other
  deriving DecidableEq, Repr

structure ServerOptions where
  workerThreads : Nat := 4
  maxConnections : Nat := 64
  maxMessageSize : Nat := 1024 * 1024
  streamChunkSize : Nat := 64 * 1024
  maxTotalInflightBytes : Nat := 0
  maxTotalOutputBytes : Nat := 0
  maxInflightRequestsPerConnection : Nat := 64
  maxInflightRequestBytesPerConnection : Nat := 4 * 1024 * 1024
  maxOutputBytesPerConnection : Nat := 4 * 1024 * 1024
  maxConcurrentStreams : Nat := 0
  ioTimeout : Int := 5000
  requestTimeout : Int := 30000
  streamTimeout : Int := 0
  sessionIdleGrace : Int := 1
  staleSocketGracePeriod : Int := 250
  listenBacklog : Int := 64
  socketPermissions : Nat := 384
  stats : StatsMode := .disabled
  deriving DecidableEq, Repr

/-- A check throws its message when it is violated. -/
structure Check where
  violated : Bool
  message : String
  deriving DecidableEq, Repr

def firstViolation : List Check → Except Exception Unit
  | [] => .ok ()
  | check :: rest => if check.violated then .error (.invalidArgument check.message) else firstViolation rest

def validateNonnegativeTimeout (timeout : Int) (name : String) : Check :=
  ⟨timeout < 0, name ++ " must not be negative"⟩

def validateMaxMessageSize (size : Nat) : Check :=
  ⟨size == 0 || size > maxWireField, "max_message_size must be between 1 and UINT32_MAX bytes"⟩

def validateStreamOptions (chunkSize : Nat) (streamTimeout : Int) : List Check :=
  [⟨chunkSize == 0 || chunkSize > maxWireField, "stream_chunk_size must be between 1 and UINT32_MAX bytes"⟩,
    validateNonnegativeTimeout streamTimeout "stream_timeout"]

def serverChecks (options : ServerOptions) : List Check :=
  [validateMaxMessageSize options.maxMessageSize,
    ⟨options.workerThreads == 0, "worker_threads must be greater than zero"⟩,
    ⟨options.stats != .disabled && options.stats != .basic, "stats must be StatsMode::disabled or StatsMode::basic"⟩,
    ⟨options.maxConnections == 0, "max_connections must be greater than zero"⟩,
    ⟨options.maxInflightRequestsPerConnection == 0, "max_inflight_requests_per_connection must be greater than zero"⟩,
    ⟨options.maxInflightRequestBytesPerConnection < options.maxMessageSize,
      "max_inflight_request_bytes_per_connection must be at least max_message_size"⟩,
    ⟨options.maxMessageSize > sizeMax - headerSize ||
        options.maxOutputBytesPerConnection < options.maxMessageSize + headerSize,
      "max_output_bytes_per_connection must fit one maximum response frame"⟩,
    ⟨options.maxTotalInflightBytes != 0 && options.maxTotalInflightBytes < options.maxMessageSize,
      "max_total_inflight_bytes must be zero or at least max_message_size"⟩,
    ⟨options.maxTotalOutputBytes != 0 && (options.maxMessageSize > maxWireField - headerSize ||
        options.maxTotalOutputBytes < options.maxMessageSize + headerSize),
      "max_total_output_bytes must be zero or large enough for one maximum response frame"⟩,
    ⟨options.workerThreads > options.maxConnections, "worker_threads must not exceed max_connections"⟩,
    ⟨options.maxConcurrentStreams > options.workerThreads, "max_concurrent_streams must not exceed worker_threads"⟩,
    ⟨options.listenBacklog ≤ 0, "listen_backlog must be greater than zero"⟩,
    validateNonnegativeTimeout options.ioTimeout "io_timeout",
    validateNonnegativeTimeout options.requestTimeout "request_timeout"] ++
  validateStreamOptions options.streamChunkSize options.streamTimeout ++
  [validateNonnegativeTimeout options.sessionIdleGrace "session_idle_grace",
    validateNonnegativeTimeout options.staleSocketGracePeriod "stale_socket_grace_period",
    ⟨options.socketPermissions > 511, "socket_permissions must be an octal permission mask from 0000 to 0777"⟩]

def validateServerOptions (options : ServerOptions) : Except Exception Unit := firstViolation (serverChecks options)

theorem default_valid : validateServerOptions {} = .ok () := by decide

end EasyUds.Transport.Validation
