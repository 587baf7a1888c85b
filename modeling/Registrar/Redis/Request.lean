import Registrar.Lock
set_option autoImplicit false

namespace Registrar.Redis

/-- A claim sets the key of a lock unless it is set; a surrender runs the unlocking script, which is
known to the server once it has been loaded. -/
inductive Request where
  | ping
  | set (key value : String) (millis : Nat)
  | get (key : String)
  | del (keys : List String)
  | increment (key : String)
  | expire (key : String) (millis : Int)
  | claim (key : String) (holder : Holder) (lease : Nat)
  | surrender (key : String) (holder : Holder)
  | teach
  deriving DecidableEq, Repr

def unlockScript : String :=
  "-- KEYS[1] = lock name\n" ++
  "-- ARGV[1] = holder id\n" ++
  "-- returns 1 if released, 0 if the lock is held by someone else or expired\n" ++
  "if redis.call('GET', KEYS[1]) == ARGV[1] then\n" ++
  "  return redis.call('DEL', KEYS[1])\n" ++
  "else\n" ++
  "  return 0\n" ++
  "end\n"

def unlockDigest : String := "1723602a18b57092db59f01dd5c1b1f1872c49ba"

def Request.words (label : Holder → String) : Request → List String
  | .ping => ["PING"]
  | .set key value millis => ["SET", key, value, "PX", String.ofList (Numeral.decimal millis)]
  | .get key => ["GET", key]
  | .del keys => "DEL" :: keys
  | .increment key => ["INCRBY", key, "1"]
  | .expire key millis => ["PEXPIRE", key, String.ofList (Numeral.signed millis)]
  | .claim key holder lease =>
    ["SET", key, label holder, "NX", "PX", String.ofList (Numeral.decimal lease)]
  | .surrender key holder => ["EVALSHA", unlockDigest, "1", key, label holder]
  | .teach => ["SCRIPT", "LOAD", unlockScript]

end Registrar.Redis
