import Skein.Proofs.Json.Members

/-!
# A part of a configuration

A text may give any of the members of a configuration and leave out the others.  It is
read as the default configuration with just the members that it gives replaced, however
it is written (`parse_partial`).
-/

namespace Skein

/-! ## The configuration of a fiber -/

namespace Fiber

namespace Config

inductive Setting
  | name (v : Option String)
  | stackSize (v : Option Nat)
  | queue (v : Queue.Strategy)
  | joinOnDrop (v : Bool)

namespace Setting

def field : Setting → String
  | name _ => "name"
  | stackSize _ => "stack_size"
  | queue _ => "queue"
  | joinOnDrop _ => "join_on_drop"

def Written (s : List Char) (x : Setting) (t : List Char) : Prop :=
  match x with
  | name v => Json.Nullable Json.Quoted s v t
  | stackSize v => Json.Nullable (Json.Below UInt64.size) s v t
  | queue v => Json.Named Queue.Strategy.names s v t
  | joinOnDrop v => Json.Truth s v t

def put : Setting → Config → Config
  | name v, c => { c with name := v }
  | stackSize v, c => { c with stackSize := v }
  | queue v, c => { c with queue := v }
  | joinOnDrop v, c => { c with joinOnDrop := v }

end Setting

def form : Json.Form Setting Config where
  field := Setting.field
  Written := Setting.Written
  put := Setting.put

structure Partial where
  name : Option (Option String) := none
  stackSize : Option (Option Nat) := none
  queue : Option Queue.Strategy := none
  joinOnDrop : Option Bool := none

namespace Partial

def onto (given : Partial) (c : Config) : Config where
  name := given.name.getD c.name
  stackSize := given.stackSize.getD c.stackSize
  queue := given.queue.getD c.queue
  joinOnDrop := given.joinOnDrop.getD c.joinOnDrop

def settings (given : Partial) : List Setting :=
  (given.name.map Setting.name).toList ++ (given.stackSize.map Setting.stackSize).toList ++
    (given.queue.map Setting.queue).toList ++ (given.joinOnDrop.map Setting.joinOnDrop).toList

theorem putAll_settings (given : Partial) (c : Config) :
    form.putAll given.settings c = given.onto c := by
  obtain ⟨_ | name, _ | stackSize, _ | queue, _ | joinOnDrop⟩ := given <;> rfl

theorem nodup_settings (given : Partial) : (given.settings.map form.field).Nodup := by
  obtain ⟨_ | name, _ | stackSize, _ | queue, _ | joinOnDrop⟩ := given <;>
    simp [settings, form, Setting.field]

end Partial

theorem form_fits (start : Config) : form.Fits (record start) where
  names := by
    show ["name", "stack_size", "queue", "join_on_drop"].Nodup
    decide
  takes := by
    intro s x t hwritten
    cases x with
    | name => exact Json.takes_nullable Json.takes_quoted hwritten
    | stackSize => exact Json.takes_nullable (Json.takes_below _) hwritten
    | queue => exact Json.takes_named _ hwritten
    | joinOnDrop => exact Json.takes_truth hwritten
  reads x := by
    have htext := Json.optional_accepts Json.starts_quoted (Json.text_accepts "a string")
    have hsize := Json.optional_accepts (Json.starts_below _)
      (Json.naturalBelow_accepts "usize" (Nat.le_refl _))
    have hstrategy : Queue.Strategy.decoder.Accepts (Json.Named Queue.Strategy.names) :=
      Json.choice_accepts (by decide)
    cases x with
    | name => exact ⟨_, .head _, rfl, htext.member _ _ _⟩
    | stackSize => exact ⟨_, .tail _ (.head _), rfl, hsize.member _ _ _⟩
    | queue => exact ⟨_, .tail _ (.tail _ (.head _)), rfl, hstrategy.member _ _ _⟩
    | joinOnDrop =>
      exact ⟨_, .tail _ (.tail _ (.tail _ (.head _))), rfl, Json.boolean_accepts.member _ _ _⟩

theorem put_swap (x y : Setting) (c : Config) (hdifferent : form.field x ≠ form.field y) :
    form.put x (form.put y c) = form.put y (form.put x c) := by
  cases x <;> cases y <;> first | rfl | exact absurd rfl hdifferent

end Config

end Fiber

/-! ## The settings of a retry policy -/

namespace Retry

namespace Settings

inductive Setting
  | waits (v : List Millis)
  | maxRetries (v : Option UInt32)

namespace Setting

def field : Setting → String
  | waits _ => "wait_ms"
  | maxRetries _ => "max_retries"

def Written (s : List Char) (x : Setting) (t : List Char) : Prop :=
  match x with
  | waits v => Json.Listed (Json.Below UInt64.size) s v t
  | maxRetries v => Json.Nullable (fun s n t => Json.Below UInt32.size s n.toNat t) s v t

def put : Setting → Settings → Settings
  | waits v, s => { s with waits := v }
  | maxRetries v, s => { s with maxRetries := v }

end Setting

def form : Json.Form Setting Settings where
  field := Setting.field
  Written := Setting.Written
  put := Setting.put

structure Partial where
  waits : Option (List Millis) := none
  maxRetries : Option (Option UInt32) := none

namespace Partial

def onto (given : Partial) (s : Settings) : Settings where
  waits := given.waits.getD s.waits
  maxRetries := given.maxRetries.getD s.maxRetries

def settings (given : Partial) : List Setting :=
  (given.waits.map Setting.waits).toList ++ (given.maxRetries.map Setting.maxRetries).toList

theorem putAll_settings (given : Partial) (s : Settings) :
    form.putAll given.settings s = given.onto s := by
  obtain ⟨_ | waits, _ | maxRetries⟩ := given <;> rfl

theorem nodup_settings (given : Partial) : (given.settings.map form.field).Nodup := by
  obtain ⟨_ | waits, _ | maxRetries⟩ := given <;> simp [settings, form, Setting.field]

end Partial

theorem readCount_accepts :
    readCount.Accepts fun s n t => Json.Below UInt32.size s n.toNat t := by
  intro s n t u hwritten hapart hblanks
  rw [readCount, Json.naturalBelow_accepts "u32" (by decide) hwritten hapart hblanks]
  show Except.ok (UInt32.ofNat n.toNat, t) = _
  rw [UInt32.ofNat_toNat]

theorem form_fits (start : Settings) : form.Fits (record start) where
  names := by
    show ["wait_ms", "max_retries"].Nodup
    decide
  takes := by
    intro s x t hwritten
    cases x with
    | waits => exact Json.takes_listed (Json.takes_below _) hwritten
    | maxRetries =>
      exact Json.takes_nullable (fun _ _ _ hwritten => Json.takes_below _ hwritten) hwritten
  reads x := by
    have hlist := Json.list_accepts (Json.starts_below _) (Json.takes_below _)
      (Json.naturalBelow_accepts "u64" (Nat.le_refl _))
    have hcount := Json.optional_accepts (fun _ _ _ hwritten => Json.starts_below _ hwritten)
      readCount_accepts
    cases x with
    | waits => exact ⟨_, .head _, rfl, hlist.member _ _ _⟩
    | maxRetries => exact ⟨_, .tail _ (.head _), rfl, hcount.member _ _ _⟩

theorem put_swap (x y : Setting) (s : Settings) (hdifferent : form.field x ≠ form.field y) :
    form.put x (form.put y s) = form.put y (form.put x s) := by
  cases x <;> cases y <;> first | rfl | exact absurd rfl hdifferent

end Settings

end Retry

namespace Json

/-- A text that gives some members of a configuration, each at most once, is read as the
default configuration with exactly these members replaced, whatever their order, their
spelling, the blanks and the unknown members in between; a fiber's configuration is then
refused if its own check refuses it.  A text that gives a member twice is refused as a
text, whatever the values. -/
theorem parse_partial :
    (∀ (given : Fiber.Config.Partial) (order : List Fiber.Config.Setting) (text : String),
      order.Perm given.settings →
      Writes Fiber.Config.form (Fiber.Config.record {}) text order →
      let c := given.onto {}
      c.validate = .ok () ∧ Fiber.Config.parse text = .ok c ∨
        ∃ message, c.validate = .error (.invalid message) ∧
          Fiber.Config.parse text = .error (.invalid message)) ∧
    (∀ (settings : List Fiber.Config.Setting) (text : String),
      Writes Fiber.Config.form (Fiber.Config.record {}) text settings →
      ¬ (settings.map Fiber.Config.Setting.field).Nodup →
      ∃ refusal name, Fiber.Config.parse text = .error (.parse refusal) ∧
        refusal.fault = .repeatedMember name) ∧
    (∀ (given : Retry.Settings.Partial) (order : List Retry.Settings.Setting) (text : String),
      order.Perm given.settings →
      Writes Retry.Settings.form (Retry.Settings.record {}) text order →
      Retry.Settings.parse text = .ok (given.onto {})) ∧
    ∀ (settings : List Retry.Settings.Setting) (text : String),
      Writes Retry.Settings.form (Retry.Settings.record {}) text settings →
      ¬ (settings.map Retry.Settings.Setting.field).Nodup →
      ∃ refusal name, Retry.Settings.parse text = .error (.parse refusal) ∧
        refusal.fault = .repeatedMember name := by
  refine ⟨?_, ?_, ?_, ?_⟩
  · intro given order text hperm hwrites c
    have hread : parse (Fiber.Config.record {}).decoder text = .ok c := by
      rw [parse_order (Fiber.Config.form_fits {}) (fun _ => rfl) Fiber.Config.put_swap hwrites hperm
        given.nodup_settings, given.putAll_settings]
      rfl
    simp only [Fiber.Config.parse, hread]
    cases hvalid : c.validate with
    | ok => exact .inl ⟨rfl, rfl⟩
    | error e =>
      obtain ⟨message, rfl⟩ := Fiber.Config.validate_error hvalid
      exact .inr ⟨message, rfl, rfl⟩
  · intro settings text hwrites hrepeated
    obtain ⟨refusal, name, hrefused, hfault⟩ :=
      (parse_settings (Fiber.Config.form_fits {}) (fun _ => rfl) hwrites).2 hrepeated
    refine ⟨refusal, name, ?_, hfault⟩
    rw [Fiber.Config.parse, hrefused]
  · intro given order text hperm hwrites
    rw [Retry.Settings.parse, parse_order (Retry.Settings.form_fits {}) (fun _ => rfl)
      Retry.Settings.put_swap hwrites hperm given.nodup_settings, given.putAll_settings]
    rfl
  · intro settings text hwrites hrepeated
    obtain ⟨refusal, name, hrefused, hfault⟩ :=
      (parse_settings (Retry.Settings.form_fits {}) (fun _ => rfl) hwrites).2 hrepeated
    refine ⟨refusal, name, ?_, hfault⟩
    rw [Retry.Settings.parse, hrefused]

/-- A member that no record knows: a list of a number and an object. -/
theorem derives_mixed (t : List Char) :
    Derives .value ("[-1.5e3, \x7b\x7d]".toList ++ t) t := by
  have hspelled : "[-1.5e3, \x7b\x7d]".toList =
      ['[', '-', '1', '.', '5', 'e', '3', ',', ' ', '\x7b', '\x7d', ']'] := by
    decide
  have hnumber (t : List Char) : Numeral ('-' :: '1' :: '.' :: '5' :: 'e' :: '3' :: t) t :=
    .negative (.parts (.digits rfl (by decide) (.none _)) (.digits rfl (.none _))
      (.digits (.inl rfl) (.none _) rfl (.none _)))
  have hempty (t : List Char) : Derives .value ('\x7b' :: '\x7d' :: t) t :=
    @Derives.empty .object _ _ (.none _)
  rw [hspelled]
  exact @Derives.enclosed .list _ _ (.more (.list (.none _)) (.numeral (hnumber _)) (.none _)
    (.last (.list (.more rfl (.none _))) (hempty _) (.none _)))

/-- A name in which one letter is given by its code. -/
theorem quoted_escaped (t : List Char) :
    Quoted ("\"st\\u0061ck_size\"".toList ++ t) "stack_size" t := by
  have hspelled : "\"st\\u0061ck_size\"".toList =
      '"' :: ("st".toList ++ ['\\', 'u', '0', '0', '6', '1'] ++ "ck_size".toList ++ ['"']) := by
    decide
  have hzero : HexDigit '0' 0 := ⟨by decide, .inl rfl⟩
  have hsix : HexDigit '6' 6 := ⟨by decide, .inl rfl⟩
  have hone : HexDigit '1' 1 := ⟨by decide, .inl rfl⟩
  have hcode (u : List Char) : Spells true ('\\' :: 'u' :: '0' :: '0' :: '6' :: '1' :: u) 'a' u :=
    .code (.digits hzero hzero hsix hone) (by decide)
  have hspelling : Spelling true ("st".toList ++ '\\' :: 'u' :: '0' :: '0' :: '6' :: '1' ::
      ("ck_size".toList ++ '"' :: t)) ("st".toList ++ 'a' :: ("ck_size".toList ++ [])) t :=
    .unescaped (by decide) (.more (hcode _) (.unescaped (by decide) (.close t)))
  have hname : String.ofList ("st".toList ++ 'a' :: ("ck_size".toList ++ [])) = "stack_size" := by
    decide
  rw [hspelled, ← hname]
  simp only [List.cons_append, List.append_assoc, List.nil_append]
  exact .text hspelling

/-- Two of four members, among one that is not known. -/
theorem writes_backwards :
    Writes Fiber.Config.form (Fiber.Config.record {})
      "\x7b\"queue\" : \"blocking\",\"x\":[-1.5e3, \x7b\x7d],\"st\\u0061ck_size\":7 \x7d"
      [.queue .blocking, .stackSize (some 7)] := by
  have hspelled :
      ("\x7b\"queue\" : \"blocking\",\"x\":[-1.5e3, \x7b\x7d],\"st\\u0061ck_size\":7 \x7d").toList =
        '\x7b' :: (writeText "queue" ++ ' ' :: ':' :: ' ' :: (writeText "blocking" ++
          ',' :: (writeText "x" ++ ':' :: ("[-1.5e3, \x7b\x7d]".toList ++
            ',' :: ("\"st\\u0061ck_size\"".toList ++ ':' :: (writeNat 7 ++ [' ', '\x7d'])))))) := by
    decide
  have hknown : ("blocking", Queue.Strategy.blocking) ∈ Queue.Strategy.names := by decide
  let entries : List (Option Fiber.Config.Setting) :=
    [some (.queue .blocking), none, some (.stackSize (some 7))]
  refine Object.writes ?_
  rw [hspelled]
  refine @Object.entries _ _ _ _ _ _ entries ?_
  refine .item (.first (.none _)) (.setting (quoted_write "queue" _) (.more rfl (.none _))
    (.more rfl (.none _)) (.string hknown (quoted_write "blocking" _))) ?_
  refine .item (.next (.none _) (.none _)) (.stranger (quoted_write "x" _) (.none _) (.none _)
    (derives_mixed _) (by decide)) ?_
  refine .item (.next (.none _) (.none _)) (.setting (quoted_escaped _) (.none _) (.none _)
    (.value (.digits (by decide) _))) ?_
  exact .close (.more rfl (.none _))

/-- One of two members, with a blank inside its list. -/
theorem writes_waits :
    Writes Retry.Settings.form (Retry.Settings.record {}) "\x7b\"wait_ms\":[ 1,2]\x7d"
      [.waits [1, 2]] := by
  have hspelled : "\x7b\"wait_ms\":[ 1,2]\x7d".toList =
      '\x7b' :: (writeText "wait_ms" ++ ':' :: '[' :: ' ' ::
        (writeNat 1 ++ ',' :: (writeNat 2 ++ [']', '\x7d']))) := by
    decide
  let entries : List (Option Retry.Settings.Setting) := [some (.waits [1, 2])]
  refine Object.writes ?_
  rw [hspelled]
  refine @Object.entries _ _ _ _ _ _ entries ?_
  refine .item (.first (.none _)) (.setting (quoted_write "wait_ms" _) (.none _) (.none _)
    (.items ?_)) (.close (.none _))
  exact .item (.first (.more rfl (.none _))) (.digits (by decide) _)
    (.item (.next (.none _) (.none _)) (.digits (by decide) _) (.close (.none _)))

/-- Two of four members, the last one first and one name with an escape, around a member
that is not known; one of two members; and a member twice, for either record. -/
theorem parse_partial_backwards :
    let given : Fiber.Config.Partial := { stackSize := some (some 7), queue := some .blocking }
    let text := "\x7b\"queue\" : \"blocking\",\"x\":[-1.5e3, \x7b\x7d],\"st\\u0061ck_size\":7 \x7d"
    let waits : Retry.Settings.Partial := { waits := some [1, 2] }
    let list := "\x7b\"wait_ms\":[ 1,2]\x7d"
    let joins : List Fiber.Config.Setting := [.joinOnDrop true, .joinOnDrop true]
    let joinsText := "\x7b\"join_on_drop\":true,\"join_on_drop\":true\x7d"
    let limits : List Retry.Settings.Setting := [.maxRetries none, .maxRetries none]
    let limitsText := "\x7b\"max_retries\":null,\"max_retries\":null\x7d"
    Writes Fiber.Config.form (Fiber.Config.record {}) text [.queue .blocking, .stackSize (some 7)] ∧
      [.queue .blocking, .stackSize (some 7)].Perm given.settings ∧
      Fiber.Config.parse text = .ok { stackSize := some 7, queue := .blocking } ∧
      Writes Retry.Settings.form (Retry.Settings.record {}) list waits.settings ∧
      Retry.Settings.parse list = .ok { waits := [1, 2] } ∧
      Writes Fiber.Config.form (Fiber.Config.record {}) joinsText joins ∧
      ¬ (joins.map Fiber.Config.Setting.field).Nodup ∧
      (∃ refusal name, Fiber.Config.parse joinsText = .error (.parse refusal) ∧
        refusal.fault = .repeatedMember name) ∧
      Writes Retry.Settings.form (Retry.Settings.record {}) limitsText limits ∧
      ¬ (limits.map Retry.Settings.Setting.field).Nodup ∧
      ∃ refusal name, Retry.Settings.parse limitsText = .error (.parse refusal) ∧
        refusal.fault = .repeatedMember name := by
  intro given text waits list joins joinsText limits limitsText
  have hperm : [.queue .blocking, .stackSize (some 7)].Perm given.settings := .swap _ _ _
  have hvalid : (given.onto {}).validate = .ok () := by decide
  have hyes (t : List Char) :
      Fiber.Config.form.Written (writeBool true ++ t) (.joinOnDrop true) t := Truth.yes t
  have hjoins := writes_replicate (Fiber.Config.record {}) hyes 2
  have hnull (t : List Char) :
      Retry.Settings.form.Written (writeOptional writeNat none ++ t) (.maxRetries none) t :=
    Nullable.null t
  have hlimits := writes_replicate (Retry.Settings.record {}) hnull 2
  have hjoinsTwice : ¬ (joins.map Fiber.Config.Setting.field).Nodup := by decide
  have hlimitsTwice : ¬ (limits.map Retry.Settings.Setting.field).Nodup := by decide
  have hjoinsText : String.ofList (writeObject (List.replicate 2
      (Fiber.Config.form.field (.joinOnDrop true), writeBool true))) = joinsText := by
    decide
  have hlimitsText : String.ofList (writeObject (List.replicate 2
      (Retry.Settings.form.field (.maxRetries none), writeOptional writeNat none))) =
        limitsText := by
    decide
  rw [hjoinsText] at hjoins
  rw [hlimitsText] at hlimits
  obtain ⟨hfiber, hfiberTwice, hretry, hretryTwice⟩ := parse_partial
  refine ⟨writes_backwards, hperm, ?_, writes_waits, hretry waits _ list (.refl _) writes_waits,
    hjoins, hjoinsTwice, hfiberTwice joins joinsText hjoins hjoinsTwice,
    hlimits, hlimitsTwice, hretryTwice limits limitsText hlimits hlimitsTwice⟩
  obtain ⟨-, hread⟩ | ⟨message, hrefused, -⟩ := hfiber given _ text hperm writes_backwards
  · exact hread
  · rw [hvalid] at hrefused
    cases hrefused

end Json

end Skein
