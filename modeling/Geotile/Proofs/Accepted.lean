/-
**What accepted settings make sure of in topics.**

Settings are read key by key on top of the standard ones.  So what holds of the standard settings
and of every value that is accepted for a key holds of whatever is read: the leading levels are not
empty, do not end with a separator and hold no wildcard, the name of the station is one level, and
every type of message is a text that is not empty.  The section on the area changes none of them.

All this is said of any sections and entries, however they were read.  A text gives no other
settings than the sections and entries in it do, and neither does a file; a file that is missing
gives what no sections at all give.

The types are the only parts that may hold separators.  A separator in a type moves what stands
after it to the next level, and then the topic that a tracker publishes at is not read back: a topic
is read back just when none stands in its type.

Main definitions:

* `Geotile.Settings.WellNamed` — the parts of topics have the form that reading makes sure of.

Main results:

* `Geotile.Settings.WellNamed.readTopics`, `Geotile.Settings.WellNamed.readArea` — reading a section
  keeps the form;
* `Geotile.Settings.wellNamed_of_ofIni` — **accepted settings have it**;
* `Geotile.Settings.ofIni_of_ofText`, `Geotile.Settings.ofIni_of_ofFile` — texts and files give what
  sections and entries give;
* `Geotile.Tracker.published_read_back_iff` — **which topics of a tracker are read back**.
-/

import Geotile.Proofs.Changes
import Geotile.Proofs.Topics
import Geotile.Settings.Reader

set_option autoImplicit false

namespace Geotile

namespace Settings

/-! ### The form of the parts -/

/-- Leading levels that are not empty, do not end with a separator and hold no wildcard. -/
def PlainBase (base : String) : Prop :=
  base ≠ "" ∧ base.toList.getLast? ≠ some '/' ∧ ∀ c ∈ base.toList, c ≠ '+' ∧ c ≠ '#'

/-- A name that is one level and no wildcard. -/
def OneLevel (name : String) : Prop :=
  name ≠ "" ∧ ∀ c ∈ name.toList, c ≠ '/' ∧ c ≠ '+' ∧ c ≠ '#'

/-- At least one type of message, and none that is empty. -/
def SomeTypes (types : List String) : Prop :=
  types ≠ [] ∧ ∀ messageType ∈ types, messageType ≠ ""

/-- The parts of topics have the form that reading makes sure of. -/
structure WellNamed (s : Settings) : Prop where
  base : PlainBase s.base
  source : OneLevel s.source
  types : SomeTypes s.messageTypes

/-! ### Values -/

theorem plainBase_of_readBase {value base : String} (h : readBase value = .ok base) :
    PlainBase base := by
  rw [readBase] at h
  split at h
  · cases h
  · next fine =>
    cases h
    rw [Bool.or_eq_true, not_or, List.isEmpty_iff, List.any_eq_true] at fine
    obtain ⟨full, plain⟩ := fine
    rw [PlainBase, ne_eq, ← String.toList_inj, String.toList_ofList]
    refine ⟨full, ?_, ?_⟩
    · intro last
      -- a separator at the end would have been trimmed
      have trimmed := Text.getLast?_trimEnd last
      cases trimmed
    · intro c mem
      simpa using fun wild => plain ⟨c, mem, wild⟩

theorem oneLevel_of_readSource {value source : String} (h : readSource value = .ok source) :
    OneLevel source := by
  rw [readSource] at h
  split at h
  · cases h
  · next fine =>
    cases h
    rw [Bool.or_eq_true, not_or, List.isEmpty_iff, List.any_eq_true] at fine
    obtain ⟨full, level⟩ := fine
    rw [OneLevel, ne_eq, ← String.toList_inj, String.toList_ofList]
    refine ⟨full, ?_⟩
    intro c mem
    simpa [and_assoc] using fun other => level ⟨c, mem, other⟩

/-- Pieces that are left of a list are not empty, and in lower case they are not either. -/
theorem someTypes_of_readMessageTypes {value : String} {types : List String}
    (h : readMessageTypes value = .ok types) : SomeTypes types := by
  rw [readMessageTypes] at h
  split at h
  · cases h
  · next fine =>
    cases h
    rw [List.isEmpty_iff] at fine
    refine ⟨fine, ?_⟩
    intro messageType mem
    obtain ⟨piece, hp, rfl⟩ := List.mem_map.mp mem
    have full : piece ≠ [] := by
      simpa using (List.mem_filter.mp hp).2
    rw [ne_eq, ← String.toList_inj, String.toList_ofList]
    exact Text.lowerCase_ne_nil full

/-- The standard values pass the checks themselves. -/
theorem wellNamed_standard : standard.WellNamed where
  base := by
    have base : readBase "its/v2x" = .ok standard.base := by decide +kernel
    exact plainBase_of_readBase base
  source := by
    have source : readSource "its-station" = .ok standard.source := by decide +kernel
    exact oneLevel_of_readSource source
  types := by
    have types : readMessageTypes "cam, denm, cpm" = .ok standard.messageTypes := by decide +kernel
    exact someTypes_of_readMessageTypes types

/-! ### Sections -/

theorem bind_eq_ok {ε α β : Type} {x : Except ε α} {f : α → Except ε β} {b : β} :
    (x >>= f) = .ok b ↔ ∃ a, x = .ok a ∧ f a = .ok b := by
  cases x with
  | error e => simp [bind, Except.bind]
  | ok a => simp [bind, Except.bind]

/-- What holds where a key is not given, and of every value that is accepted, holds of what is
read. -/
theorem given_ok {α : Type} {entries : Ini.Section} {key : String} {otherwise v : α}
    {read : String → Except SettingsError α} (P : α → Prop) (old : P otherwise)
    (new : ∀ {value v}, read value = .ok v → P v)
    (h : given entries key otherwise read = .ok v) : P v := by
  rw [given] at h
  split at h
  · exact new h
  · cases h
    exact old

theorem WellNamed.readTopics {s s' : Settings} (h : s.WellNamed) {entries : Ini.Section}
    (read : readTopics s entries = .ok s') : s'.WellNamed := by
  simp only [Settings.readTopics, bind_eq_ok] at read
  obtain ⟨base, readB, source, readS, types, readT, result⟩ := read
  cases result
  exact ⟨given_ok PlainBase h.base plainBase_of_readBase readB,
    given_ok OneLevel h.source oneLevel_of_readSource readS,
    given_ok SomeTypes h.types someTypes_of_readMessageTypes readT⟩

/-- The section on the area gives bounds in order, and thresholds where there are any. -/
theorem readArea_eq_ok_iff {s s' : Settings} {entries : Ini.Section} :
    readArea s entries = .ok s' ↔ ∃ shallowest deepest,
      given entries "min_depth" s.shallowest (readDepth "min_depth") = .ok shallowest ∧
      given entries "max_depth" s.deepest (readDepth "max_depth") = .ok deepest ∧
      shallowest ≤ deepest ∧
      given entries "thresholds" { s with shallowest, deepest } (fun value =>
        (readThresholds value).map { s with shallowest, deepest }.withThresholds) = .ok s' := by
  simp only [readArea, bind_eq_ok]
  constructor
  · rintro ⟨shallowest, low, deepest, high, rest⟩
    split at rest
    · cases rest
    · next ordered => exact ⟨shallowest, deepest, low, high, Nat.le_of_not_lt ordered, rest⟩
  · rintro ⟨shallowest, deepest, low, high, ordered, rest⟩
    refine ⟨shallowest, low, deepest, high, ?_⟩
    rw [if_neg (Nat.not_lt_of_le ordered)]
    exact rest

theorem WellNamed.readArea {s s' : Settings} (h : s.WellNamed) {entries : Ini.Section}
    (read : readArea s entries = .ok s') : s'.WellNamed := by
  obtain ⟨shallowest, deepest, -, -, -, rest⟩ := readArea_eq_ok_iff.mp read
  have bounded : WellNamed { s with shallowest, deepest } := ⟨h.base, h.source, h.types⟩
  refine given_ok WellNamed bounded (fun {value v} accepted => ?_) rest
  obtain ⟨thresholds, -, rfl⟩ := Ini.map_eq_ok accepted
  exact ⟨h.base, h.source, h.types⟩

/-- Reading a section keeps a property of settings when that holds where the section stands. -/
theorem readSection_ok {P : Settings → Prop} {s s' : Settings} {entries : Option Ini.Section}
    {read : Settings → Ini.Section → Except SettingsError Settings} (old : P s)
    (new : ∀ {found}, read s found = .ok s' → P s') (h : readSection entries read s = .ok s') :
    P s' := by
  cases entries with
  | none =>
      cases h
      exact old
  | some found => exact new h

/-! ### Sections and entries, texts and files -/

/-- Whatever sections and entries give has parts of that form. -/
theorem wellNamed_of_ofIni {ini : Ini} {s : Settings} (h : ofIni ini = .ok s) : s.WellNamed := by
  obtain ⟨topics, first, second⟩ := bind_eq_ok.mp h
  have named := readSection_ok wellNamed_standard wellNamed_standard.readTopics first
  exact readSection_ok named named.readArea second

/-- A text gives what the sections and entries in it give. -/
theorem ofIni_of_ofText {text : String} {s : Settings} (h : ofText text = .ok s) :
    ∃ ini, ofIni ini = .ok s := by
  rw [ofText] at h
  split at h
  · next ini _ => exact ⟨ini, h⟩
  · cases h

/-- So does a file with what stands in it, and without a file nothing stands there. -/
theorem ofIni_of_ofFile {file : SettingsFile} {s : Settings} (h : ofFile file = .ok s) :
    ∃ ini, ofIni ini = .ok s := by
  rw [ofFile.eq_def] at h
  split at h
  · exact ⟨⟨[]⟩, h⟩
  · cases h
  · split at h
    · cases h
    · split at h
      · next ini _ => exact ⟨ini, h⟩
      · cases h

end Settings

/-! ### Topics of a tracker -/

namespace Tracker

theorem scheme_after (tr : Tracker) (event : Event) : (tr.after event).scheme = tr.scheme := by
  rcases tr.changeOf_cases event with ⟨-, same⟩ | ⟨-, -, scheme⟩
  · rw [same]
  · exact scheme

theorem scheme_run (tr : Tracker) (events : List Event) : (tr.run events).scheme = tr.scheme := by
  induction events generalizing tr with
  | nil => rfl
  | cons event events ih => exact (ih (tr.after event)).trans (tr.scheme_after event)

/-- A finite position leaves a tile. -/
theorem exists_tile_after_fix (tr : Tracker) {p : Position} (finite : p.isFinite = true)
    (speed : Float) : ∃ t, (tr.after (.fix p speed)).tile = some t := by
  obtain ⟨_, t, -, -, -, moved⟩ := tr.receive_of_finite finite speed
  exact ⟨t, congrArg (fun outcome => outcome.2.tile) moved⟩

/-- Accepted leading levels are used as they stand. -/
theorem scheme_start {s : Settings} (h : s.WellNamed) : (start s).scheme = ⟨s.base⟩ := by
  have kept : Text.trimEnd (fun c => c == '/') s.base.toList = s.base.toList := by
    refine Text.trimEnd_eq_self ?_
    intro c last
    rw [beq_eq_false_iff_ne]
    intro separator
    exact h.base.2.1 (separator ▸ last)
  rw [start, Scheme.ofText, kept, String.ofList_toList]

/-- **Which topics of a tracker are read back.**  With settings accepted from any sections and
entries, and after any run of events that leaves a tile, there is a topic for every type of message
that the settings list; it is the one of that type, of the station's name and of the tile under the
leading levels that are set, and it is read back as these by the tracker's own scheme exactly when
the type holds no separator. -/
theorem published_read_back_iff (ini : Ini) (s : Settings) (accepted : Settings.ofIni ini = .ok s)
    (events : List Event) (t : Tile) (placed : ((start s).run events).tile = some t)
    (messageType : String) (listed : messageType ∈ s.messageTypes) :
    ∃ topic, ((start s).run events).topic? messageType = some topic ∧
      topic = Scheme.publish ⟨s.base⟩ messageType s.source t ∧
      (((start s).run events).scheme.read? topic = some ⟨messageType, s.source, t⟩ ↔
        '/' ∉ messageType.toList) := by
  have named := Settings.wellNamed_of_ofIni accepted
  have settings := ((follows_start s).run events).settings
  have scheme : ((start s).run events).scheme = ⟨s.base⟩ :=
    (scheme_run _ events).trans (scheme_start named)
  have topic : ((start s).run events).topic? messageType
      = some (Scheme.publish ⟨s.base⟩ messageType s.source t) := by
    rw [topic?, placed, settings, scheme, Option.map_some]
  have oneSource : '/' ∉ s.source.toList := fun mem => (named.source.2 '/' mem).1 rfl
  refine ⟨_, topic, rfl, ?_⟩
  rw [scheme, Scheme.read?_publish_eq_some_iff]
  constructor
  · intro ⟨_, _, oneType, _⟩
    exact oneType
  · intro oneType
    exact ⟨named.types.2 messageType listed, named.source.1, oneType, oneSource⟩

/-- Settings with a type that holds a separator are accepted. -/
theorem ofText_parted_type : Settings.ofText "[topics]\nmessage_types = cam, cam/raw\n"
    = .ok { Settings.standard with messageTypes := ["cam", "cam/raw"] } := by
  have parsed : Ini.parse "[topics]\nmessage_types = cam, cam/raw\n"
      = .ok ⟨[⟨none, []⟩, ⟨some "topics", [("message_types", "cam, cam/raw")]⟩]⟩ := by
    decide +kernel
  rw [Settings.ofText, parsed]
  rfl

/-- Of two accepted types the one without a separator is read back, and the other is not. -/
theorem published_read_back_iff_parted_type :
    ∃ s t plain parted,
      Settings.ofText "[topics]\nmessage_types = cam, cam/raw\n" = .ok s ∧
      s.messageTypes = ["cam", "cam/raw"] ∧
      ((start s).run [.fix ⟨43.6, 1.44⟩ 0.0]).tile = some t ∧
      ((start s).run [.fix ⟨43.6, 1.44⟩ 0.0]).topic? "cam" = some plain ∧
      ((start s).run [.fix ⟨43.6, 1.44⟩ 0.0]).topic? "cam/raw" = some parted ∧
      ((start s).run [.fix ⟨43.6, 1.44⟩ 0.0]).scheme.read? plain = some ⟨"cam", s.source, t⟩ ∧
      ((start s).run [.fix ⟨43.6, 1.44⟩ 0.0]).scheme.read? parted
        ≠ some ⟨"cam/raw", s.source, t⟩ := by
  obtain ⟨ini, accepted⟩ := Settings.ofIni_of_ofText ofText_parted_type
  have finite : (⟨43.6, 1.44⟩ : Position).isFinite = true := by decide
  obtain ⟨t, placed⟩ := exists_tile_after_fix (start _) finite 0.0
  obtain ⟨plain, one, -, back⟩ :=
    published_read_back_iff ini _ accepted [.fix ⟨43.6, 1.44⟩ 0.0] t placed "cam" (by decide)
  obtain ⟨parted, two, -, lost⟩ :=
    published_read_back_iff ini _ accepted [.fix ⟨43.6, 1.44⟩ 0.0] t placed "cam/raw" (by decide)
  exact ⟨_, t, plain, parted, ofText_parted_type, rfl, placed, one, two, back.mpr (by decide),
    fun found => lost.mp found (by decide)⟩

/-- A topic of a type with a separator is not read at all: the name of the station stands where
digits should. -/
theorem parted_type_not_read :
    ∃ s t topic,
      Settings.ofText "[topics]\nmessage_types = cam, cam/raw\n" = .ok s ∧
      "cam/raw" ∈ s.messageTypes ∧
      ((start s).run [.fix ⟨43.6, 1.44⟩ 0.0]).tile = some t ∧
      ((start s).run [.fix ⟨43.6, 1.44⟩ 0.0]).topic? "cam/raw" = some topic ∧
      ((start s).run [.fix ⟨43.6, 1.44⟩ 0.0]).scheme.read? topic = none := by
  have finite : (⟨43.6, 1.44⟩ : Position).isFinite = true := by decide
  obtain ⟨t, placed⟩ := exists_tile_after_fix (start _) finite 0.0
  refine ⟨_, t, _, ofText_parted_type, by decide, placed, congrArg (Option.map _) placed, ?_⟩
  rw [((follows_start _).run _).settings]
  exact Scheme.read?_publish_eq_none _ (by decide) (by decide) (by decide) t

end Tracker

end Geotile
