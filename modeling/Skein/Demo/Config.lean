import Skein.Decimal.Layout
import Skein.Fiber.Config
import Skein.Retry.Settings
import Skein.Text.Quoted

/-!
# The configuration of the demo

The demo reads one object with a section for its fiber, a section for its
retries, the chance that an attempt fails, and a number of jobs.  A section that
is missing is the demo's own; a section that is there is read as the library
reads it, with the library's defaults for what it leaves out.
-/

namespace Skein

namespace Demo

structure Config where
  fiber : Fiber.Config := { name := some "spindle-demo" }
  retry : Retry.Settings := { waits := [50, 100, 200], maxRetries := some 5 }
  failureRate : Float := 0.5
  jobs : Nat := 5

inductive LoadError
  | malformed (refusal : Json.Refusal)
  | config (error : ConfigError)
  | rate (x : Float)

/-- A chance is shown positionally from `10 ^ -4` on, and always with a point or
an exponent. -/
def shownRate : Decimal.Style :=
  { tie := .up, plainFrom := -4, plainTo := 15, pointZero := true, plusSign := false }

/-- A chance that is refused is shown positionally, however large it is. -/
def refusedRate : Decimal.Style :=
  { tie := .up, plainFrom := -400, plainTo := 400, pointZero := false, plusSign := false }

def describeRefusal (r : Json.Refusal) : String :=
  s!"Error({Text.quote r.fault.message}, line: {r.position.line}, column: {r.position.column})"

def LoadError.describe : LoadError → String
  | malformed refusal => describeRefusal refusal
  | config (.invalid why) => s!"Invalid({Text.quote why})"
  | config (.parse refusal) => s!"Parse({describeRefusal refusal})"
  | rate x => Text.quote s!"failure_rate must be within 0..=1, got {refusedRate.render x}"

def missingFile : String :=
  "Os \x7b code: 2, kind: NotFound, message: \"No such file or directory\" \x7d"

namespace Config

def record : Json.Record Config where
  wanted := "struct DemoConfig"
  members := [
    .of "fiber" (Fiber.Config.record {}).decoder fun v c => { c with fiber := v },
    .of "retry" (Retry.Settings.record {}).decoder fun v c => { c with retry := v },
    .of "failure_rate" Json.Decoder.float fun v c => { c with failureRate := v },
    .of "jobs" (Json.Decoder.naturalBelow UInt32.size "u32") fun v c => { c with jobs := v }]
  start := {}

def load (text : String) : Except LoadError Config :=
  match Json.parse record.decoder text with
  | .error refusal => .error (.malformed refusal)
  | .ok c =>
    match c.fiber.validate with
    | .error e => .error (.config e)
    | .ok () =>
      if 0 ≤ c.failureRate ∧ c.failureRate ≤ 1 then .ok c else .error (.rate c.failureRate)

def describeOptional {α : Type} (describe : α → String) : Option α → String
  | none => "None"
  | some a => s!"Some({describe a})"

def describeFiber (c : Fiber.Config) : String :=
  s!"FiberConfig \x7b name: {describeOptional Text.quote c.name}, stack_size: " ++
    s!"{describeOptional toString c.stackSize}, queue: {c.queue.describe}, join_on_drop: {c.joinOnDrop} \x7d"

def describeRetry (s : Retry.Settings) : String :=
  "RetrySettings \x7b wait_ms: [" ++ String.intercalate ", " (s.waits.map toString) ++
    s!"], max_retries: {describeOptional (fun n => toString n.toNat) s.maxRetries} \x7d"

def describe (c : Config) : String :=
  s!"DemoConfig \x7b fiber: {describeFiber c.fiber}, retry: {describeRetry c.retry}, " ++
    s!"failure_rate: {shownRate.render c.failureRate}, jobs: {c.jobs} \x7d"

end Config

end Demo

end Skein
