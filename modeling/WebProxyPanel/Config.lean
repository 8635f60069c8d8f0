import Mathlib.Init
/-!
# Constants and the installation config (`webproxy/config.py`)

Integers of the source are `Int` throughout: Python's are unbounded and SQLite's columns are signed.
-/

namespace WebProxyPanel

def shardSize : Nat := 16
def slotPortBase : Int := 20000
def slotPortLast : Int := 29999
def statsPortBase : Int := 19000
/-- `(SLOT_PORT_LAST - SLOT_PORT_BASE + 1) // SHARD_SIZE` -/
def maxShards : Int := (slotPortLast - slotPortBase + 1) / shardSize

example : maxShards = 625 := by decide

def relayListen : String := "127.0.0.1:8080"
def relayAdmin : String := "127.0.0.1:8081"

/-- The fields of `Config` and of its `paths` that the generated files read. -/
structure Config where
  domain : String
  basePath : String
  /-- `<local>:<public>`, empty on a directly addressed host. -/
  natInfo : String
  mtproxyMaxConnections : Int
  siteDir : String
  tokenKey : String
  profiles : String
deriving DecidableEq, Repr

/-- `slot_port` -/
def slotPort (shard idx : Int) : Int := slotPortBase + shard * shardSize + idx

/-- `stats_port` -/
def statsPort (shard : Int) : Int := statsPortBase + shard

/-- `%0wd`: the sign counts towards the width. -/
def zeroPad (width : Nat) (n : Int) : String :=
  let sign := if n < 0 then "-" else ""
  let digits := toString n.natAbs
  sign ++ String.ofList (List.replicate (width - sign.length - digits.length) '0') ++ digits

/-- `profile_name`: `"s%03d-%02d" % (shard, idx)` -/
def profileName (shard idx : Int) : String := "s" ++ zeroPad 3 shard ++ "-" ++ zeroPad 2 idx

example : profileName 1 15 = "s001-15" := by decide

end WebProxyPanel
