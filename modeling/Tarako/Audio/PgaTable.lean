import Mathlib.Data.UInt
import Tarako.Lib.Growable
import Tarako.Lib.Run
import Tarako.Lib.Text

/-!
# The tables of the PGA configuration

`audio_pga.c` reads `codec_pga.xml` into an array of profiles, each with an array of items,
and an array of attributes. `audio_pga_start_tag` adds to them; the three arrays grow in the
same way, and it depends on the run whether they stay inside their memory. `strdup` always
finds memory. A control that the mixer does not have is `none`.
-/

namespace Tarako

namespace Pga

open Text

def INITIAL_PROFILE_SIZE : ℕ := 8

def INITIAL_PROFILE_ITEM_SIZE : ℕ := 2

/-! ### The tables -/

structure PgaAttributeItem (Ctl : Type) where
  ctl : Option Ctl
  max : Int32
  inverse : Int32

structure PgaItem (Ctl : Type) where
  ctl : Option Ctl
  bit : Int32

structure PgaProfile (Ctl : Type) where
  name : List UInt8
  item : Growable (PgaItem Ctl)

structure AudioPga (Ctl : Type) where
  profile : Growable (PgaProfile Ctl)
  attributes : Growable (PgaAttributeItem Ctl)

/-- `struct config_parse_state`. The pointers are places in the arrays of profiles and of
attributes: an array moves only when an element is added to it, and then the pointer into it
is set again. -/
structure ParseState (Ctl : Type) where
  pga : AudioPga Ctl
  profile : Option ℕ
  attributeItem : Option ℕ

/-- The elements have 16, 8 and 12 bytes. -/
def profileLayout : Growable.Layout := ⟨INITIAL_PROFILE_SIZE, 16⟩

def itemLayout : Growable.Layout := ⟨INITIAL_PROFILE_ITEM_SIZE, 8⟩

def attributeLayout : Growable.Layout := ⟨INITIAL_PROFILE_ITEM_SIZE, 12⟩

/-! ### Additions -/

section

variable {Ctl : Type} [DecidableEq Ctl]

omit [DecidableEq Ctl] in
def profileCreate (pga : AudioPga Ctl) (name : List UInt8) (granted : Bool) :
    AudioPga Ctl × Option ℕ :=
  let r := pga.profile.add profileLayout PgaProfile.name granted ⟨name, .empty⟩
  ({ pga with profile := r.1 }, if r.2 then some pga.profile.entries.length else none)

/-- `profile_add_item`; `false` is the result -1. -/
def profileAddItem (profile : PgaProfile Ctl) (item : PgaItem Ctl) (granted : Bool) :
    PgaProfile Ctl × Bool :=
  let r := profile.item.add itemLayout PgaItem.ctl granted item
  ({ profile with item := r.1 }, r.2)

def attributeCreate (pga : AudioPga Ctl) (ctl : Option Ctl) (granted : Bool) :
    AudioPga Ctl × Option ℕ :=
  let r := pga.attributes.add attributeLayout PgaAttributeItem.ctl granted ⟨ctl, 0, 0⟩
  ({ pga with attributes := r.1 }, if r.2 then some pga.attributes.entries.length else none)

/-! ### Tags -/

inductive TagName where
  | codec
  | profile
  | pga
  | mixer
  | attr
  | other
  deriving DecidableEq

omit [DecidableEq Ctl] in
/-- A start tag with its attributes, and the answer of `realloc` if it is called. -/
structure StartTag where
  tagName : TagName
  attr : List (List UInt8 × List UInt8)
  granted : Bool

/-- `strcmp(attr[i], key) == 0`, with the value; it does not return for an attribute that is
missing. -/
def attrValue (e : StartTag) (i : ℕ) (key : String) : Option (Option (List UInt8)) :=
  e.attr[i]?.map fun a => if a.1 = ofAscii key.toList then some a.2 else none

def atoi (s : List UInt8) : Int32 := Int32.ofInt (atoi32 s)

def ParseState.addItem (s : ParseState Ctl) (i : ℕ) (item : PgaItem Ctl) (granted : Bool) :
    ParseState Ctl :=
  { s with
    pga := { s.pga with
      profile := { s.pga.profile with
        entries := s.pga.profile.entries.modify i fun p => (profileAddItem p item granted).1 } } }

theorem ParseState.entries_addItem (s : ParseState Ctl) (i : ℕ) (item : PgaItem Ctl)
    (granted : Bool) :
    (s.addItem i item granted).pga.profile.entries =
      s.pga.profile.entries.modify i fun p => (profileAddItem p item granted).1 := rfl

omit [DecidableEq Ctl] in
/-- The stores through `state->attribute_item`. -/
def ParseState.setAttribute (s : ParseState Ctl) (i : ℕ) (max inverse : Int32) :
    ParseState Ctl :=
  { s with
    pga := { s.pga with
      attributes := { s.pga.attributes with
        entries := s.pga.attributes.entries.modify i fun a =>
          { a with max := max, inverse := inverse } } } }

variable (mixerGetCtlByName : List UInt8 → Option Ctl)

/-- `audio_pga_start_tag`; there is no state when `strcmp` reads a `NULL` pointer. -/
def startTag (s : ParseState Ctl) (e : StartTag) : Option (ParseState Ctl) :=
  match e.tagName with
  | .codec => (attrValue e 0 "name").map fun _ => s
  | .profile =>
      (attrValue e 0 "name").map fun
        | some name =>
            let r := profileCreate s.pga name e.granted
            { s with pga := r.1, profile := r.2 }
        | none => s
  | .pga =>
      match s.profile with
      | none => some s
      | some i => do
          let some name ← attrValue e 0 "name" | return s
          let some bit ← attrValue e 1 "bit" | return s
          return s.addItem i ⟨mixerGetCtlByName name, atoi bit⟩ e.granted
  | .mixer =>
      (attrValue e 0 "name").map fun
        | some name =>
            let r := attributeCreate s.pga (mixerGetCtlByName name) e.granted
            { s with pga := r.1, attributeItem := r.2 }
        | none => s
  | .attr =>
      match s.attributeItem with
      | none => some s
      | some i => do
          let some max ← attrValue e 0 "max" | return s
          let some inverse ← attrValue e 1 "inverse" | return s
          return s.setAttribute i (atoi max) (atoi inverse)
  | .other => some s

/-- The parser goes on with the next tag; a process that is gone stays so. -/
def step (s : Option (ParseState Ctl)) (e : StartTag) : Option (ParseState Ctl) :=
  s.bind fun s => startTag mixerGetCtlByName s e

omit [DecidableEq Ctl] in
/-- After `calloc` and `memset`. -/
def init : ParseState Ctl where
  pga := ⟨.empty, .empty⟩
  profile := none
  attributeItem := none

/-! ### What the tables keep -/

omit [DecidableEq Ctl] in
/-- The arrays are inside their memory, names and controls are distinct, and the pointers of
the parser point at elements. -/
structure Sound (s : ParseState Ctl) : Prop where
  profile : s.pga.profile.Sound PgaProfile.name
  item : ∀ p ∈ s.pga.profile.entries, p.item.Sound PgaItem.ctl
  attributes : s.pga.attributes.Sound PgaAttributeItem.ctl
  profile_lt : ∀ i, s.profile = some i → i < s.pga.profile.entries.length
  attributeItem_lt : ∀ i, s.attributeItem = some i → i < s.pga.attributes.entries.length

/-- An addition that the tag asks for has room, if what it adds is new. -/
def Room (s : ParseState Ctl) (e : StartTag) : Prop :=
  match e.tagName with
  | .profile => ∀ name, attrValue e 0 "name" = some (some name) →
      name ∉ s.pga.profile.entries.map PgaProfile.name →
        s.pga.profile.HasRoom profileLayout e.granted
  | .pga => ∀ i p name bit, s.profile = some i → s.pga.profile.entries[i]? = some p →
      attrValue e 0 "name" = some (some name) → attrValue e 1 "bit" = some (some bit) →
        mixerGetCtlByName name ∉ p.item.entries.map PgaItem.ctl →
          p.item.HasRoom itemLayout e.granted
  | .mixer => ∀ name, attrValue e 0 "name" = some (some name) →
      mixerGetCtlByName name ∉ s.pga.attributes.entries.map PgaAttributeItem.ctl →
        s.pga.attributes.HasRoom attributeLayout e.granted
  | _ => True

section Additions

variable {s : ParseState Ctl} {granted : Bool}

omit [DecidableEq Ctl] in
theorem sound_profileCreate_iff (h : Sound s) (name : List UInt8) :
    Sound { s with
        pga := (profileCreate s.pga name granted).1
        profile := (profileCreate s.pga name granted).2 } ↔
      (name ∉ s.pga.profile.entries.map PgaProfile.name →
        s.pga.profile.HasRoom profileLayout granted) := by
  have hadd := Growable.sound_add_iff PgaProfile.name profileLayout h.profile granted
    ⟨name, .empty⟩
  refine Iff.trans ⟨Sound.profile, fun hprofile => ?_⟩ hadd
  cases hadded : (s.pga.profile.add profileLayout PgaProfile.name granted ⟨name, .empty⟩).2 with
  | false =>
      have hentries := Growable.entries_add_of_failed PgaProfile.name hadded
      refine ⟨hprofile, ?_, h.attributes, ?_, h.attributeItem_lt⟩
      · simp only [profileCreate, hentries]
        exact h.item
      · intro i hi
        simp [profileCreate, hadded] at hi
  | true =>
      have hentries := Growable.entries_add_of_added PgaProfile.name hadded
      refine ⟨hprofile, ?_, h.attributes, ?_, h.attributeItem_lt⟩
      · simp only [profileCreate, hentries]
        intro p hp
        rcases List.mem_append.mp hp with hold | hnew
        · exact h.item p hold
        · rw [List.mem_singleton] at hnew
          rw [hnew]
          exact Growable.sound_empty PgaItem.ctl
      · intro i hi
        obtain rfl : s.pga.profile.entries.length = i := by simpa [profileCreate, hadded] using hi
        simp [profileCreate, hentries]

theorem sound_attributeCreate_iff (h : Sound s) (ctl : Option Ctl) :
    Sound { s with
        pga := (attributeCreate s.pga ctl granted).1
        attributeItem := (attributeCreate s.pga ctl granted).2 } ↔
      (ctl ∉ s.pga.attributes.entries.map PgaAttributeItem.ctl →
        s.pga.attributes.HasRoom attributeLayout granted) := by
  have hadd := Growable.sound_add_iff PgaAttributeItem.ctl attributeLayout h.attributes granted
    ⟨ctl, 0, 0⟩
  refine Iff.trans ⟨Sound.attributes, fun hattributes => ?_⟩ hadd
  refine ⟨h.profile, h.item, hattributes, h.profile_lt, fun i hi => ?_⟩
  cases hadded : (s.pga.attributes.add attributeLayout PgaAttributeItem.ctl granted
      ⟨ctl, 0, 0⟩).2 with
  | false => simp [attributeCreate, hadded] at hi
  | true =>
      have hentries := Growable.entries_add_of_added PgaAttributeItem.ctl hadded
      obtain rfl : s.pga.attributes.entries.length = i := by
        simpa [attributeCreate, hadded] using hi
      simp [attributeCreate, hentries]

theorem sound_addItem_iff (h : Sound s) {i : ℕ} {p : PgaProfile Ctl}
    (hp : s.pga.profile.entries[i]? = some p) (item : PgaItem Ctl) :
    Sound (s.addItem i item granted) ↔
      (item.ctl ∉ p.item.entries.map PgaItem.ctl → p.item.HasRoom itemLayout granted) := by
  have hadd := Growable.sound_add_iff PgaItem.ctl itemLayout
    (h.item p (List.mem_of_getElem? hp)) granted item
  refine Iff.trans ⟨fun hs => ?_, fun hitem => ?_⟩ hadd
  · refine hs.item (profileAddItem p item granted).1 (List.mem_of_getElem? (i := i) ?_)
    rw [ParseState.entries_addItem, List.getElem?_modify_eq, hp, Option.map_eq_map,
      Option.map_some]
  · have hprofile := h.profile.modify PgaProfile.name
      (f := fun p => (profileAddItem p item granted).1) (fun _ => rfl) i
    refine ⟨hprofile, ?_, h.attributes, ?_, h.attributeItem_lt⟩
    · intro q hq
      obtain ⟨j, hj⟩ := List.mem_iff_getElem?.mp hq
      rw [ParseState.entries_addItem] at hj
      by_cases hij : i = j
      · rw [← hij, List.getElem?_modify_eq, hp, Option.map_eq_map, Option.map_some,
          Option.some.injEq] at hj
        rw [← hj]
        exact hitem
      · rw [List.getElem?_modify_ne _ _ hij] at hj
        exact h.item q (List.mem_of_getElem? hj)
    · intro j hj
      rw [ParseState.entries_addItem, List.length_modify]
      exact h.profile_lt j hj

omit [DecidableEq Ctl] in
theorem Sound.setAttribute (h : Sound s) (i : ℕ) (max inverse : Int32) :
    Sound (s.setAttribute i max inverse) := by
  have hattributes := h.attributes.modify PgaAttributeItem.ctl
    (f := fun a => { a with max := max, inverse := inverse }) (fun _ => rfl) i
  refine ⟨h.profile, h.item, hattributes, h.profile_lt, fun j hj => ?_⟩
  rw [ParseState.setAttribute, List.length_modify]
  exact h.attributeItem_lt j hj

end Additions

/-! ### Runs -/

/-- A process that is gone makes no more additions. -/
def SoundOrGone (s : Option (ParseState Ctl)) : Prop := ∀ t, s = some t → Sound t

def Roomy (s : Option (ParseState Ctl)) (e : StartTag) : Prop :=
  ∀ t, s = some t → Room mixerGetCtlByName t e

omit [DecidableEq Ctl] in
theorem soundOrGone_none : SoundOrGone (none : Option (ParseState Ctl)) := by
  rintro t ⟨⟩

omit [DecidableEq Ctl] in
theorem soundOrGone_some {s : ParseState Ctl} : SoundOrGone (some s) ↔ Sound s := by
  constructor
  · exact fun h => h s rfl
  · rintro h t ⟨⟩
    exact h

/-- A tag keeps the tables sound exactly if what it adds has room. -/
theorem soundOrGone_startTag_iff {s : ParseState Ctl} (h : Sound s) (e : StartTag) :
    SoundOrGone (startTag mixerGetCtlByName s e) ↔ Room mixerGetCtlByName s e := by
  rw [startTag, Room]
  cases e.tagName with
  | codec =>
      refine iff_of_true (fun t ht => ?_) trivial
      obtain ⟨-, -, rfl⟩ := Option.map_eq_some_iff.mp ht
      exact h
  | profile =>
      dsimp only
      rcases attrValue e 0 "name" with _ | _ | name
      · exact iff_of_true soundOrGone_none fun name hname => by cases hname
      · exact iff_of_true (soundOrGone_some.mpr h) fun name hname => by cases hname
      · simp only [Option.map_some, Option.some.injEq, forall_eq']
        exact soundOrGone_some.trans (sound_profileCreate_iff h name)
  | pga =>
      dsimp only
      cases hprofile : s.profile with
      | none => exact iff_of_true (soundOrGone_some.mpr h) fun i p name bit hi => by cases hi
      | some i =>
          have hlt := h.profile_lt i hprofile
          have hp := List.getElem?_eq_getElem hlt
          rcases attrValue e 0 "name" with _ | _ | name
          · exact iff_of_true soundOrGone_none fun i p name bit _ _ hname => by cases hname
          · exact iff_of_true (soundOrGone_some.mpr h) fun i p name bit _ _ hname => by
              cases hname
          · rcases attrValue e 1 "bit" with _ | _ | bit
            · exact iff_of_true soundOrGone_none fun i p name bit _ _ _ hbit => by cases hbit
            · exact iff_of_true (soundOrGone_some.mpr h) fun i p name bit _ _ _ hbit => by
                cases hbit
            · refine (soundOrGone_some.trans (sound_addItem_iff h hp _)).trans ?_
              constructor
              · rintro hroom _ p _ _ ⟨⟩ hp' ⟨⟩ ⟨⟩
                obtain rfl := Option.some.inj (hp.symm.trans hp')
                exact hroom
              · exact fun hroom => hroom i _ name bit rfl hp rfl rfl
  | mixer =>
      dsimp only
      rcases attrValue e 0 "name" with _ | _ | name
      · exact iff_of_true soundOrGone_none fun name hname => by cases hname
      · exact iff_of_true (soundOrGone_some.mpr h) fun name hname => by cases hname
      · simp only [Option.map_some, Option.some.injEq, forall_eq']
        exact soundOrGone_some.trans (sound_attributeCreate_iff h _)
  | attr =>
      refine iff_of_true ?_ trivial
      dsimp only
      cases s.attributeItem with
      | none => exact soundOrGone_some.mpr h
      | some i =>
          rcases attrValue e 0 "max" with _ | _ | max
          · exact soundOrGone_none
          · exact soundOrGone_some.mpr h
          · rcases attrValue e 1 "inverse" with _ | _ | inverse
            · exact soundOrGone_none
            · exact soundOrGone_some.mpr h
            · exact soundOrGone_some.mpr (h.setAttribute i _ _)
  | other =>
      refine iff_of_true (fun t ht => ?_) trivial
      cases ht
      exact h

omit [DecidableEq Ctl] in
theorem sound_init : Sound (init : ParseState Ctl) := by
  refine ⟨Growable.sound_empty _, ?_, Growable.sound_empty _, ?_, ?_⟩
  · exact fun p hp => absurd hp List.not_mem_nil
  · rintro i ⟨⟩
  · rintro i ⟨⟩

/-- An addition that has failed leaves what is stored. -/
def FailedKeeps (pga : AudioPga Ctl) : Prop :=
  (∀ name granted, (profileCreate pga name granted).2 = none →
    (profileCreate pga name granted).1.profile.entries = pga.profile.entries ∧
      (profileCreate pga name granted).1.attributes = pga.attributes) ∧
  (∀ p ∈ pga.profile.entries, ∀ item granted, (profileAddItem p item granted).2 = false →
    (profileAddItem p item granted).1.item.entries = p.item.entries ∧
      (profileAddItem p item granted).1.name = p.name) ∧
  (∀ ctl granted, (attributeCreate pga ctl granted).2 = none →
    (attributeCreate pga ctl granted).1.attributes.entries = pga.attributes.entries ∧
      (attributeCreate pga ctl granted).1.profile = pga.profile)

theorem failedKeeps (pga : AudioPga Ctl) : FailedKeeps pga := by
  refine ⟨fun name granted h => ⟨?_, rfl⟩, fun p _ item granted h => ⟨?_, rfl⟩,
    fun ctl granted h => ⟨?_, rfl⟩⟩
  · exact Growable.entries_add_of_failed _ (by simpa [profileCreate] using h)
  · exact Growable.entries_add_of_failed _ h
  · exact Growable.entries_add_of_failed _ (by simpa [attributeCreate] using h)

/-- The tables are sound in every state of a run exactly if every new element has room in its
array. An addition that fails leaves what is stored in any state. -/
theorem sound_parse_iff (es : List StartTag) :
    ((∀ fs, fs <+: es → SoundOrGone (Run.run (step mixerGetCtlByName) (some init) fs)) ↔
      Run.Meets (step mixerGetCtlByName) (Roomy mixerGetCtlByName) (some init) es) ∧
    ∀ s, Run.run (step mixerGetCtlByName) (some init) es = some s → FailedKeeps s.pga := by
  refine ⟨?_, fun s _ => failedKeeps s.pga⟩
  refine @Run.forall_prefix_iff_meets (Option (ParseState Ctl)) StartTag (step mixerGetCtlByName)
    (Roomy mixerGetCtlByName) (fun _ => True) SoundOrGone (fun _ _ _ => trivial) ?_ (some init)
    trivial (soundOrGone_some.mpr sound_init) es
  rintro (_ | s) e - h
  · exact iff_of_true soundOrGone_none fun t ht => by cases ht
  · have hiff := soundOrGone_startTag_iff mixerGetCtlByName (soundOrGone_some.mp h) e
    refine hiff.trans ⟨?_, fun hroomy => hroomy s rfl⟩
    rintro hroom t ⟨⟩
    exact hroom

end

/-- A profile with the name `name`. -/
def profileTag (name : String) (granted : Bool) : StartTag :=
  ⟨.profile, [(ofAscii "name".toList, ofAscii name.toList)], granted⟩

/-- The memory for the first profile is not granted; the second one is written all the same,
at a `NULL` pointer. -/
theorem not_sound_after_failure :
    ¬ SoundOrGone (Run.run (step fun _ => some ()) (some init)
      [profileTag "speaker" false, profileTag "headset" true]) := by
  intro h
  have hinside := (h _ rfl).profile.inside
  exact absurd hinside (by decide)

end Pga

end Tarako
