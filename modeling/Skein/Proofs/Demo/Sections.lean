import Skein.Demo.Config
import Skein.Proofs.Json.Cuts.Verdicts
import Skein.Proofs.Json.Partial

/-!
# The demo's configuration is accepted section by section

The demo reads its sections in the middle of its own text, and checks the fiber's part
when it has read everything.  That comes to the same as giving each section that is there
to the library as a text of its own (`load_sections`).
-/

namespace Skein

/-! ## Sections that are read wherever they stand -/

theorem Fiber.Config.record_local (start : Config) : (record start).Local := by
  have htext := Json.optional_local (Json.text_local "a string")
  have hsize := Json.optional_local (Json.naturalBelow_local UInt64.size "usize")
  have hstrategy : Queue.Strategy.decoder.Local := Json.choice_local Queue.Strategy.names
  intro m hmember r
  simp only [record, List.mem_cons, List.not_mem_nil, or_false] at hmember
  rcases hmember with rfl | rfl | rfl | rfl
  · exact htext.member _ _ r
  · exact hsize.member _ _ r
  · exact hstrategy.member _ _ r
  · exact Json.boolean_local.member _ _ r

theorem Retry.Settings.record_local (start : Settings) : (record start).Local := by
  have hlist := Json.list_local (Json.naturalBelow_local UInt64.size "u64")
  have hcount : readCount.Local := (Json.naturalBelow_local UInt32.size "u32").map UInt32.ofNat
  intro m hmember r
  simp only [record, List.mem_cons, List.not_mem_nil, or_false] at hmember
  rcases hmember with rfl | rfl
  · exact hlist.member _ _ r
  · exact (Json.optional_local hcount).member _ _ r

/-! ## Sections that leave something out -/

theorem Fiber.Config.read_onto {part : Partial} {order : List Setting} {text : String}
    (hperm : order.Perm part.settings) (hwrites : Json.Writes form (record {}) text order) :
    Json.parse (record {}).decoder text = .ok (part.onto {}) := by
  rw [Json.parse_order (form_fits {}) (fun _ => rfl) put_swap hwrites hperm part.nodup_settings,
    part.putAll_settings]
  rfl

theorem Retry.Settings.read_onto {part : Partial} {order : List Setting} {text : String}
    (hperm : order.Perm part.settings) (hwrites : Json.Writes form (record {}) text order) :
    Json.parse (record {}).decoder text = .ok (part.onto {}) := by
  rw [Json.parse_order (form_fits {}) (fun _ => rfl) put_swap hwrites hperm part.nodup_settings,
    part.putAll_settings]
  rfl

namespace Demo

namespace Config

/-! ## Sections -/

inductive Section
  | fiber (text : String)
  | retry (text : String)
  | failureRate (text : String)
  | jobs (text : String)

def Chance (text : String) (x : Float) : Prop :=
  Json.Numeral text.toList [] ∧ Json.parse Json.Decoder.float text = .ok x

def Count (text : String) (n : Nat) : Prop :=
  Json.Below UInt32.size text.toList n []

namespace Section

def field : Section → String
  | fiber _ => "fiber"
  | retry _ => "retry"
  | failureRate _ => "failure_rate"
  | jobs _ => "jobs"

def text : Section → String
  | fiber v => v
  | retry v => v
  | failureRate v => v
  | jobs v => v

/-- The text of the section, whatever value it is. -/
def Written (s : List Char) (x : Section) (t : List Char) : Prop :=
  s = x.text.toList ++ t ∧ Json.Derives .value s t

def Accepted : Section → Prop
  | fiber v => ∃ f, Json.parse (Fiber.Config.record {}).decoder v = .ok f
  | retry v => ∃ s, Json.parse (Retry.Settings.record {}).decoder v = .ok s
  | failureRate v => ∃ x, Chance v x
  | jobs v => ∃ n, Count v n

def put : Section → Config → Config
  | fiber v, c =>
    { c with fiber := (Json.parse (Fiber.Config.record {}).decoder v).toOption.getD c.fiber }
  | retry v, c =>
    { c with retry := (Json.parse (Retry.Settings.record {}).decoder v).toOption.getD c.retry }
  | failureRate v, c =>
    { c with failureRate := (Json.parse Json.Decoder.float v).toOption.getD c.failureRate }
  | jobs v, c =>
    { c with
      jobs := (Json.parse (Json.Decoder.naturalBelow UInt32.size "u32") v).toOption.getD c.jobs }

end Section

def form : Json.Form Section Config where
  field := Section.field
  Written := Section.Written
  put := Section.put

theorem put_swap (x y : Section) (c : Config) (hdifferent : form.field x ≠ form.field y) :
    form.put x (form.put y c) = form.put y (form.put x c) := by
  cases x <;> cases y <;> first | rfl | exact absurd rfl hdifferent

structure Sections where
  fiber : Option String := none
  retry : Option String := none
  failureRate : Option String := none
  jobs : Option String := none

namespace Sections

def list (given : Sections) : List Section :=
  (given.fiber.map Section.fiber).toList ++ (given.retry.map Section.retry).toList ++
    (given.failureRate.map Section.failureRate).toList ++ (given.jobs.map Section.jobs).toList

theorem nodup_list (given : Sections) : (given.list.map form.field).Nodup := by
  obtain ⟨_ | fiber, _ | retry, _ | failureRate, _ | jobs⟩ := given <;>
    simp [list, form, Section.field]

theorem accepted_list (given : Sections) : (∀ x ∈ given.list, x.Accepted) ↔
    (∀ v ∈ given.fiber, (Section.fiber v).Accepted) ∧
      (∀ v ∈ given.retry, (Section.retry v).Accepted) ∧
      (∀ v ∈ given.failureRate, (Section.failureRate v).Accepted) ∧
      ∀ v ∈ given.jobs, (Section.jobs v).Accepted := by
  simp only [list, List.mem_append, Option.mem_toList, Option.mem_def, Option.map_eq_some_iff,
    or_imp, forall_and, and_assoc, forall_exists_index, and_imp, forall_apply_eq_imp_iff₂]

theorem putAll_list (given : Sections) (c : Config) : form.putAll given.list c =
    { fiber := (given.fiber.bind fun v =>
        (Json.parse (Fiber.Config.record {}).decoder v).toOption).getD c.fiber
      retry := (given.retry.bind fun v =>
        (Json.parse (Retry.Settings.record {}).decoder v).toOption).getD c.retry
      failureRate := (given.failureRate.bind fun v =>
        (Json.parse Json.Decoder.float v).toOption).getD c.failureRate
      jobs := (given.jobs.bind fun v =>
        (Json.parse (Json.Decoder.naturalBelow UInt32.size "u32") v).toOption).getD c.jobs } := by
  obtain ⟨_ | fiber, _ | retry, _ | failureRate, _ | jobs⟩ := given <;> rfl

end Sections

/-! ## Sections on their own -/

theorem takes_section : Json.Takes Section.Written := by
  rintro s x t ⟨-, hvalue⟩
  exact hvalue.length_lt

section

variable {v : String} {t : List Char}

/-- A value that can be read at all begins with no blank. -/
theorem solid_section (hvalue : Json.Derives .value (v.toList ++ t) t) :
    ∃ c s, v.toList = c :: s ∧ Json.isBlank c = false := by
  obtain ⟨c, s, hbegins, hsolid, -⟩ := hvalue.begins
  cases htext : v.toList with
  | nil =>
    have htaken := hvalue.length_lt
    rw [htext] at htaken
    exact absurd htaken (Nat.lt_irrefl _)
  | cons c' s' =>
    rw [htext] at hbegins
    exact ⟨c', s', rfl, (List.cons.inj hbegins).1 ▸ hsolid⟩

theorem chance_iff (hvalue : Json.Derives .value (v.toList ++ t) t) (hapart : Json.Apart t)
    (x : Float) : Json.Decoder.float v.toList = .ok (x, []) ↔ Chance v x := by
  rw [Chance, Json.parse_ok, Json.float_local.alone hvalue hapart, iff_and_self]
  intro hread
  obtain ⟨c, s, htext, hsolid⟩ := solid_section hvalue
  rw [htext] at hread ⊢
  exact Json.numeral_of_float hsolid hread

theorem count_iff (hvalue : Json.Derives .value (v.toList ++ t) t) (n : Nat) :
    Json.Decoder.naturalBelow UInt32.size "u32" v.toList = .ok (n, []) ↔ Count v n := by
  constructor
  · intro hread
    obtain ⟨c, s, htext, hsolid⟩ := solid_section hvalue
    rw [Count, htext]
    rw [htext] at hread
    exact Json.below_of_naturalBelow hsolid hread
  · intro hwritten
    exact Json.naturalBelow_accepts "u32" (by decide) hwritten nofun (.none _)

theorem parse_count {n : Nat} (hwritten : Count v n) :
    Json.parse (Json.Decoder.naturalBelow UInt32.size "u32") v = .ok n :=
  Json.parse_ok.mpr (Json.whole_ok.mpr
    ⟨[], Json.naturalBelow_accepts "u32" (by decide) hwritten nofun (.none _), rfl⟩)

/-- A section of one kind, judged on its own. -/
theorem section_judged {α : Type} {decoder : Json.Decoder α} (h : decoder.Local) (name : String)
    (replace : α → Config → Config) (own : Config → α) {Reads : α → Prop}
    (hvalue : Json.Derives .value (v.toList ++ t) t) (hapart : Json.Apart t)
    (hreads : ∀ a, decoder v.toList = .ok (a, []) ↔ Reads a) {u : List Char}
    (hblanks : Json.Blanks u (v.toList ++ t)) (c c' : Config) (r : List Char) :
    (Json.Member.of name decoder replace).read c u = .ok (c', r) ↔
      r = t ∧ (∃ a, Reads a) ∧
        c' = replace ((Json.parse decoder v).toOption.getD (own c)) c := by
  have hparsed {a : α} (hread : decoder v.toList = .ok (a, [])) :
      (Json.parse decoder v).toOption.getD (own c) = a := by
    rw [Json.parse_ok.mpr ((h.alone hvalue hapart).mpr hread)]
    rfl
  rw [h.judged hvalue hapart name replace hblanks]
  refine and_congr_right fun _ => ?_
  constructor
  · rintro ⟨a, hread, rfl⟩
    exact ⟨⟨a, (hreads a).mp hread⟩, by rw [hparsed hread]⟩
  · rintro ⟨⟨a, hread⟩, rfl⟩
    have hread := (hreads a).mpr hread
    exact ⟨a, hread, by rw [hparsed hread]⟩

end

/-- The demo reads exactly the sections that can be read on their own. -/
theorem form_judges : form.Judges record Section.Accepted where
  names := by
    show ["fiber", "retry", "failure_rate", "jobs"].Nodup
    decide
  takes := takes_section
  reads x := by
    have halone {α : Type} {decoder : Json.Decoder α} (h : decoder.Local) {v : String}
        {t : List Char} (hvalue : Json.Derives .value (v.toList ++ t) t) (hapart : Json.Apart t)
        (a : α) : decoder v.toList = .ok (a, []) ↔ Json.parse decoder v = .ok a :=
      (Json.parse_ok.trans (h.alone hvalue hapart)).symm
    cases x with
    | fiber v =>
      have h := Json.record_local (Fiber.Config.record_local {})
      refine ⟨_, .head _, rfl, ?_⟩
      rintro s t u ⟨rfl, hvalue⟩ hapart hblanks
      exact section_judged h _ _ (·.fiber) hvalue hapart (halone h hvalue hapart) hblanks
    | retry v =>
      have h := Json.record_local (Retry.Settings.record_local {})
      refine ⟨_, .tail _ (.head _), rfl, ?_⟩
      rintro s t u ⟨rfl, hvalue⟩ hapart hblanks
      exact section_judged h _ _ (·.retry) hvalue hapart (halone h hvalue hapart) hblanks
    | failureRate v =>
      refine ⟨_, .tail _ (.tail _ (.head _)), rfl, ?_⟩
      rintro s t u ⟨rfl, hvalue⟩ hapart hblanks
      exact section_judged Json.float_local _ _ (·.failureRate) hvalue hapart
        (chance_iff hvalue hapart) hblanks
    | jobs v =>
      have h := Json.naturalBelow_local UInt32.size "u32"
      refine ⟨_, .tail _ (.tail _ (.tail _ (.head _))), rfl, ?_⟩
      rintro s t u ⟨rfl, hvalue⟩ hapart hblanks
      exact section_judged h _ _ (·.jobs) hvalue hapart (count_iff hvalue) hblanks

/-! ## The whole configuration -/

/-- What comes of a section that may be missing: what is read of it, or else the demo's
own. -/
def Given {α : Type} (Reads : String → α → Prop) (own : α) : Option String → α → Prop
  | none, a => a = own
  | some v, a => Reads v a

theorem given_iff {α : Type} {Reads : String → α → Prop} {decoder : Json.Decoder α}
    (hreads : ∀ v a, Reads v a → Json.parse decoder v = .ok a) (given : Option String) (own a : α) :
    (∀ v ∈ given, ∃ a, Reads v a) ∧
        a = (given.bind fun v => (Json.parse decoder v).toOption).getD own ↔
      Given Reads own given a := by
  cases given with
  | none => exact and_iff_right nofun
  | some v =>
    constructor
    · rintro ⟨hsome, rfl⟩
      obtain ⟨a, hread⟩ := hsome v rfl
      have hvalue : (Json.parse decoder v).toOption.getD own = a := by
        rw [hreads v a hread]
        rfl
      show Reads v ((Json.parse decoder v).toOption.getD own)
      rw [hvalue]
      exact hread
    · intro hread
      refine ⟨fun _ hsame => Option.some.inj hsame ▸ ⟨a, hread⟩, ?_⟩
      show a = (Json.parse decoder v).toOption.getD own
      rw [hreads v a hread]
      rfl

/-- A section that is there is what the library reads of its text, and one that is not is
the demo's own. -/
structure Sections.Gives (given : Sections) (c : Config) : Prop where
  fiber : Given (fun v f => Fiber.Config.parse v = .ok f) ({} : Config).fiber given.fiber c.fiber
  retry : Given (fun v s => Retry.Settings.parse v = .ok s) ({} : Config).retry given.retry c.retry
  failureRate : Given (fun v x => Chance v x ∧ 0 ≤ x ∧ x ≤ 1) ({} : Config).failureRate
    given.failureRate c.failureRate
  jobs : Given Count ({} : Config).jobs given.jobs c.jobs

theorem load_ok {text : String} {c : Config} : load text = .ok c ↔
    Json.parse record.decoder text = .ok c ∧ c.fiber.validate = .ok () ∧
      0 ≤ c.failureRate ∧ c.failureRate ≤ 1 := by
  unfold load
  cases Json.parse record.decoder text with
  | error refusal => exact ⟨nofun, nofun⟩
  | ok c' =>
    simp only [Except.ok.injEq]
    constructor
    · intro hloaded
      split at hloaded
      · cases hloaded
      · next hvalid =>
        split at hloaded
        · next hrange =>
          obtain rfl := Except.ok.inj hloaded
          exact ⟨rfl, hvalid, hrange⟩
        · cases hloaded
    · rintro ⟨rfl, hvalid, hrange⟩
      rw [hvalid]
      exact if_pos hrange

theorem fiber_parse_ok {text : String} {c : Fiber.Config} : Fiber.Config.parse text = .ok c ↔
    Json.parse (Fiber.Config.record {}).decoder text = .ok c ∧ c.validate = .ok () := by
  unfold Fiber.Config.parse
  cases Json.parse (Fiber.Config.record {}).decoder text with
  | error refusal => exact ⟨nofun, nofun⟩
  | ok c' =>
    simp only [Except.ok.injEq]
    constructor
    · intro hread
      split at hread
      · cases hread
      · next hvalid =>
        obtain rfl := Except.ok.inj hread
        exact ⟨rfl, hvalid⟩
    · rintro ⟨rfl, hvalid⟩
      rw [hvalid]

theorem retry_parse_ok {text : String} {s : Retry.Settings} :
    Retry.Settings.parse text = .ok s ↔
      Json.parse (Retry.Settings.record {}).decoder text = .ok s := by
  unfold Retry.Settings.parse
  cases Json.parse (Retry.Settings.record {}).decoder text with
  | error refusal => exact ⟨nofun, nofun⟩
  | ok s' => simp only [Except.ok.injEq]

/-- A check of the whole configuration is one of the section, if the demo's own
passes. -/
theorem given_and {α : Type} {own : α} (Good : α → Prop) (hgood : Good own)
    (given : Option String) (a : α) (Reads : String → α → Prop) :
    Given Reads own given a ∧ Good a ↔ Given (fun v a => Reads v a ∧ Good a) own given a := by
  cases given with
  | none =>
    refine and_iff_left_of_imp ?_
    rintro rfl
    exact hgood
  | some v => exact Iff.rfl

/-- The sections that are given, each judged on its own. -/
theorem parse_sections {given : Sections} {order : List Section} {text : String}
    (hperm : order.Perm given.list) (hwrites : Json.Writes form record text order) (c : Config) :
    Json.parse record.decoder text = .ok c ↔
      Given (fun v f => Json.parse (Fiber.Config.record {}).decoder v = .ok f)
          ({} : Config).fiber given.fiber c.fiber ∧
        Given (fun v s => Json.parse (Retry.Settings.record {}).decoder v = .ok s)
          ({} : Config).retry given.retry c.retry ∧
        Given Chance ({} : Config).failureRate given.failureRate c.failureRate ∧
        Given Count ({} : Config).jobs given.jobs c.jobs := by
  have hnodup : (order.map form.field).Nodup :=
    (hperm.map form.field).nodup_iff.mpr given.nodup_list
  rw [Json.parse_judged form_judges (fun _ => rfl) hwrites hnodup,
    Json.Form.put_perm put_swap hperm given.nodup_list, given.putAll_list]
  simp only [hperm.mem_iff, given.accepted_list]
  rw [← given_iff (fun v f => id), ← given_iff (fun v s => id),
    ← given_iff (fun v x hread => hread.2), ← given_iff (fun v n => parse_count)]
  obtain ⟨fiber, retry, failureRate, jobs⟩ := c
  simp only [Config.mk.injEq]
  constructor
  · rintro ⟨⟨hfiber, hretry, hrate, hjobs⟩, rfl, rfl, rfl, rfl⟩
    exact ⟨⟨hfiber, rfl⟩, ⟨hretry, rfl⟩, ⟨hrate, rfl⟩, hjobs, rfl⟩
  · rintro ⟨⟨hfiber, rfl⟩, ⟨hretry, rfl⟩, ⟨hrate, rfl⟩, hjobs, rfl⟩
    exact ⟨⟨hfiber, hretry, hrate, hjobs⟩, rfl, rfl, rfl, rfl⟩

theorem load_gives {given : Sections} {order : List Section} {text : String}
    (hperm : order.Perm given.list) (hwrites : Json.Writes form record text order) (c : Config) :
    load text = .ok c ↔ given.Gives c := by
  have hvalid : ({} : Config).fiber.validate = .ok () := by decide
  have hrange : 0 ≤ ({} : Config).failureRate ∧ ({} : Config).failureRate ≤ 1 := by decide
  have hchecked := given_and
    (fun f : Fiber.Config => f.validate = .ok ()) hvalid given.fiber c.fiber
    (fun v f => Json.parse (Fiber.Config.record {}).decoder v = .ok f)
  have hwithin := given_and (fun x : Float => 0 ≤ x ∧ x ≤ 1) hrange given.failureRate c.failureRate
    Chance
  simp only [← fiber_parse_ok] at hchecked
  rw [load_ok, parse_sections hperm hwrites]
  simp only [← retry_parse_ok]
  constructor
  · rintro ⟨⟨hfiber, hretry, hfailureRate, hjobs⟩, hvalid, hrange⟩
    exact ⟨hchecked.mp ⟨hfiber, hvalid⟩, hretry, hwithin.mp ⟨hfailureRate, hrange⟩, hjobs⟩
  · rintro ⟨hfiber, hretry, hfailureRate, hjobs⟩
    obtain ⟨hfiber, hvalid⟩ := hchecked.mpr hfiber
    obtain ⟨hfailureRate, hrange⟩ := hwithin.mpr hfailureRate
    exact ⟨⟨hfiber, hretry, hfailureRate, hjobs⟩, hvalid, hrange⟩

theorem given_exists {α : Type} (Reads : String → α → Prop) (own : α) (given : Option String) :
    (∃ a, Given Reads own given a) ↔ ∀ v ∈ given, ∃ a, Reads v a := by
  cases given with
  | none => exact iff_of_true ⟨own, rfl⟩ nofun
  | some v =>
    constructor
    · rintro hsome _ ⟨⟩
      exact hsome
    · intro hsome
      exact hsome v rfl

theorem Sections.gives_exists (given : Sections) : (∃ c, given.Gives c) ↔
    (∀ v ∈ given.fiber, ∃ f, Fiber.Config.parse v = .ok f) ∧
      (∀ v ∈ given.retry, ∃ s, Retry.Settings.parse v = .ok s) ∧
      (∀ v ∈ given.failureRate, ∃ x, Chance v x ∧ 0 ≤ x ∧ x ≤ 1) ∧
      ∀ v ∈ given.jobs, ∃ n, Count v n := by
  simp only [← given_exists _ ({} : Config).fiber, ← given_exists _ ({} : Config).retry,
    ← given_exists _ ({} : Config).failureRate, ← given_exists _ ({} : Config).jobs]
  constructor
  · rintro ⟨c, hfiber, hretry, hfailureRate, hjobs⟩
    exact ⟨⟨_, hfiber⟩, ⟨_, hretry⟩, ⟨_, hfailureRate⟩, _, hjobs⟩
  · rintro ⟨⟨f, hfiber⟩, ⟨s, hretry⟩, ⟨x, hfailureRate⟩, n, hjobs⟩
    exact ⟨⟨f, s, x, n⟩, hfiber, hretry, hfailureRate, hjobs⟩

/-- A text that gives each of the demo's sections at most once, in any order and among
any other members, is accepted exactly when each section that is there is accepted on its
own: by the library, as a number from zero to one, or as a number of 32 bits.  A section
that is there is what the library reads of it, with the library's defaults for what it
leaves out; one that is not there is the demo's own. -/
theorem load_sections (given : Sections) (order : List Section) (text : String)
    (hperm : order.Perm given.list) (hwrites : Json.Writes form record text order) :
    (∀ c, load text = .ok c ↔ given.Gives c) ∧
      ((∃ c, load text = .ok c) ↔
        (∀ v ∈ given.fiber, ∃ f, Fiber.Config.parse v = .ok f) ∧
          (∀ v ∈ given.retry, ∃ s, Retry.Settings.parse v = .ok s) ∧
          (∀ v ∈ given.failureRate, ∃ x, Chance v x ∧ 0 ≤ x ∧ x ≤ 1) ∧
          ∀ v ∈ given.jobs, ∃ n, Count v n) ∧
      ∀ c, load text = .ok c →
        (∀ v ∈ given.fiber, ∀ (part : Fiber.Config.Partial) (order : List Fiber.Config.Setting),
          order.Perm part.settings →
          Json.Writes Fiber.Config.form (Fiber.Config.record {}) v order →
          c.fiber = part.onto {}) ∧
        ∀ v ∈ given.retry, ∀ (part : Retry.Settings.Partial)
          (order : List Retry.Settings.Setting), order.Perm part.settings →
          Json.Writes Retry.Settings.form (Retry.Settings.record {}) v order →
          c.retry = part.onto {} := by
  have hloads := load_gives hperm hwrites
  refine ⟨hloads, ?_, fun c hloaded => ⟨?_, ?_⟩⟩
  · simp only [hloads]
    exact given.gives_exists
  · intro v hthere part order hperm hwrites
    have hreads := ((hloads c).mp hloaded).fiber
    rw [hthere] at hreads
    have hread := (fiber_parse_ok.mp hreads).1
    rw [Fiber.Config.read_onto hperm hwrites] at hread
    exact (Except.ok.inj hread).symm
  · intro v hthere part order hperm hwrites
    have hreads := ((hloads c).mp hloaded).retry
    rw [hthere] at hreads
    have hread := retry_parse_ok.mp hreads
    rw [Retry.Settings.read_onto hperm hwrites] at hread
    exact (Except.ok.inj hread).symm

/-- A section of the retries that gives one wait: a text among others, and what the
library reads of it. -/
theorem derives_oneWait (t : List Char) :
    Json.Derives .value ("\x7b\"wait_ms\":[1]\x7d".toList ++ t) t := by
  have hspelled : "\x7b\"wait_ms\":[1]\x7d".toList =
      '\x7b' :: '"' :: ("wait_ms".toList ++ ['"', ':', '[', '1', ']', '\x7d']) := by
    decide
  have hlist (t : List Char) : Json.Derives .value ('[' :: '1' :: ']' :: t) t :=
    @Json.Derives.enclosed .list _ _ (.last (.list (.none _))
      (.numeral (Json.numeral_digit rfl (by decide) _)) (.none _))
  have hname (t : List Char) :
      Json.Spelling false ("wait_ms".toList ++ '"' :: t) ("wait_ms".toList ++ []) t :=
    .unescaped (by decide) (.close t)
  rw [hspelled, List.cons_append, List.cons_append, List.append_assoc]
  exact @Json.Derives.enclosed .object _ _
    (.last (.object (.none _) (hname _) (.none _) (.none _)) (hlist _) (.none _))

theorem writes_oneWait : Json.Writes Retry.Settings.form (Retry.Settings.record {})
    "\x7b\"wait_ms\":[1]\x7d" [.waits [1]] := by
  have hspelled : String.ofList (Json.writeObject (List.replicate 1
      (Retry.Settings.form.field (.waits [1]), Json.writeList Json.writeNat [1]))) =
        "\x7b\"wait_ms\":[1]\x7d" := by
    decide
  have hone (t : List Char) : Json.Below UInt64.size (Json.writeNat 1 ++ t) 1 t :=
    .digits (by decide) t
  have hwritten (t : List Char) :
      Retry.Settings.form.Written (Json.writeList Json.writeNat [1] ++ t) (.waits [1]) t :=
    Json.Listed.items (.item (.first (.none _)) (hone _) (.close (.none _)))
  rw [← hspelled]
  exact Json.writes_replicate _ hwritten 1

/-- A whole text with three sections. -/
theorem writes_threeSections : Json.Writes form record
    "\x7b\"jobs\":2,\"retry\":\x7b\"wait_ms\":[1]\x7d,\"failure_rate\":1\x7d"
    [.jobs "2", .retry "\x7b\"wait_ms\":[1]\x7d", .failureRate "1"] := by
  let order : List Section := [.jobs "2", .retry "\x7b\"wait_ms\":[1]\x7d", .failureRate "1"]
  have hspelled : String.ofList (Json.writeObject (order.map fun x =>
      (form.field x, x.text.toList))) =
        "\x7b\"jobs\":2,\"retry\":\x7b\"wait_ms\":[1]\x7d,\"failure_rate\":1\x7d" := by
    decide
  rw [← hspelled]
  refine Json.writes_write _ fun x hx t => ⟨rfl, ?_⟩
  simp only [order, List.mem_cons, List.not_mem_nil, or_false] at hx
  rcases hx with rfl | rfl | rfl
  · exact .numeral (Json.numeral_digit (d := '2') rfl (by decide) t)
  · exact derives_oneWait t
  · exact .numeral (Json.numeral_digit (d := '1') rfl (by decide) t)

/-- Three sections, the last one first: the retries leave out their limit, so there is
none. -/
theorem load_sections_unlimited :
    let retry := "\x7b\"wait_ms\":[1]\x7d"
    let given : Sections := { retry := some retry, failureRate := some "1", jobs := some "2" }
    let order : List Section := [.jobs "2", .retry retry, .failureRate "1"]
    let text := "\x7b\"jobs\":2,\"retry\":\x7b\"wait_ms\":[1]\x7d,\"failure_rate\":1\x7d"
    order.Perm given.list ∧ Json.Writes form record text order ∧
      load text = .ok { retry := { waits := [1] }, failureRate := 1, jobs := 2 } := by
  intro retry given order text
  have hperm : order.Perm given.list := (List.perm_append_singleton _ _).symm
  refine ⟨hperm, writes_threeSections,
    ((load_sections given order text hperm writes_threeSections).1 _).mpr ⟨rfl, ?_, ?_, ?_⟩⟩
  · let part : Retry.Settings.Partial := { waits := some [1] }
    exact retry_parse_ok.mpr (Retry.Settings.read_onto (.refl part.settings) writes_oneWait)
  · exact ⟨⟨Json.numeral_digit (d := '1') rfl (by decide) [], rfl⟩, by decide⟩
  · have hwritten : Json.Below UInt32.size (Json.writeNat 2 ++ []) 2 [] := .digits (by decide) []
    exact hwritten

end Config

end Demo

end Skein
