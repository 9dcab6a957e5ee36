import Skein.Failure.Basic
import Skein.Json.Decode
import Skein.Json.Write
import Skein.Retry.Policy

/-!
# Retry settings

The form in which a retry policy is kept in a configuration: a list of waits and
a limit.  Such a policy retries every failure.
-/

namespace Skein

namespace Retry

structure Settings where
  waits : List Millis := []
  maxRetries : Option UInt32 := none
deriving DecidableEq

namespace Settings

def readCount : Json.Decoder UInt32 := fun s => do
  let (n, rest) ← Json.Decoder.naturalBelow UInt32.size "u32" s
  .ok (UInt32.ofNat n, rest)

def record (start : Settings) : Json.Record Settings where
  wanted := "struct RetrySettings"
  members := [
    .of "wait_ms" (Json.Decoder.list (Json.Decoder.naturalBelow UInt64.size "u64")) fun v s =>
      { s with waits := v },
    .of "max_retries" (Json.Decoder.optional readCount) fun v s => { s with maxRetries := v }]
  start := start

def parse (text : String) : Except ConfigError Settings :=
  match Json.parse (record {}).decoder text with
  | .error refusal => .error (.parse refusal)
  | .ok s => .ok s

def write (s : Settings) : List Char :=
  Json.writeObject [
    ("wait_ms", Json.writeList Json.writeNat s.waits),
    ("max_retries", Json.writeOptional (fun n => Json.writeNat n.toNat) s.maxRetries)]

def wait (s : Settings) : Wait :=
  match s.waits with
  | [] => .none
  | [only] => .fixed only
  | many => .sequence many

def policy (s : Settings) : Policy :=
  match s.maxRetries with
  | some n => (Builder.matchAll.withStrategy s.wait).withMaxRetries n
  | none => (Builder.matchAll.withStrategy s.wait).forever

end Settings

end Retry

end Skein
