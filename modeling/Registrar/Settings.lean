import Registrar.Text.Json
set_option autoImplicit false

namespace Registrar

namespace Settings

structure Auth where
  codec : String
  accessSecs : UInt64
  refreshSecs : UInt64
  deriving DecidableEq, Repr

structure Locking where
  lease : UInt64
  patience : UInt64
  firstWait : UInt64
  longestWait : UInt64
  deriving DecidableEq, Repr

structure Sequence where
  lockName : String
  stem : String
  deriving DecidableEq, Repr

structure Storage where
  backend : String
  address : String
  keySpace : String
  deriving DecidableEq, Repr

end Settings

/-- The timeout is that of one request, in milliseconds. -/
structure Settings where
  auth : Settings.Auth
  lock : Settings.Locking
  logFilter : String
  timeout : UInt64
  sequence : Settings.Sequence
  store : Settings.Storage
  deriving DecidableEq, Repr

namespace Settings

def word (n : UInt64) : Json := .nat n.toNat

/-- The settings by the names that they have in a settings file. -/
def json (s : Settings) : Json := .object
  [("auth", .object [("codec", .text s.auth.codec), ("access_ttl_secs", word s.auth.accessSecs),
      ("refresh_ttl_secs", word s.auth.refreshSecs)]),
    ("lock", .object [("lease_ms", word s.lock.lease), ("acquire_timeout_ms", word s.lock.patience),
      ("initial_backoff_ms", word s.lock.firstWait), ("max_backoff_ms", word s.lock.longestWait)]),
    ("log", .object [("filter", .text s.logFilter)]),
    ("request", .object [("timeout_ms", word s.timeout)]),
    ("sequence", .object [("lock_name", .text s.sequence.lockName),
      ("counter_prefix", .text s.sequence.stem)]),
    ("store", .object [("backend", .text s.store.backend), ("redis_dsn", .text s.store.address),
      ("key_prefix", .text s.store.keySpace)])]

end Settings

end Registrar
