import Depsolve.Manifest.Override
import Depsolve.Proofs.Except
import Depsolve.Proofs.InsertionMap
import Depsolve.Proofs.SortedMap

/-!
Manifests with layers of overrides on top.

The layers are maps that are gone through in an order nobody knows. What comes out does not depend
on it: the keys of a layer are distinct, and each setting has one of them.

* `Admits` tells which texts a setting takes, and `overriddenBy` what the settings are once some of
  them have texts to take.
* `override_eq_ok` is the step, one override; `foldlM_eq_ok` is the run over a layer, in which the
  last override of a setting counts.
* `layered_eq_ok`: layers are accepted where every override is admitted and what no layer overrides
  was valid before. `layering_exact` draws the conclusions.
-/

namespace Depsolve

/-! ### What settings take -/

namespace Setting

/-- The words that switch a setting on. -/
def affirmative : List String := ["true", "1", "yes", "on"]

/-- The words that switch a setting off. -/
def negative : List String := ["false", "0", "no", "off"]

/-- A word with its ASCII letters made small. -/
def small (word : String) : String := word.map Char.toLower

/-- The texts that a setting takes: a version or nothing, any text, or a word for a truth value. -/
def Admits : Setting → String → Prop
  | runtime, text => text = "" ∨ ∃ v, Version.parse text = .ok v
  | platform, _ => True
  | allowPrerelease, text => small text ∈ affirmative ∨ small text ∈ negative
  | preferInstalled, text => small text ∈ affirmative ∨ small text ∈ negative

theorem variableName_injective : Function.Injective variableName := by
  intro a b h
  cases a <;> cases b <;> first | rfl | exact absurd h (by decide)

theorem optionName_injective : Function.Injective optionName := by
  intro a b h
  cases a <;> cases b <;> first | rfl | exact absurd h (by decide)

theorem mem_all (setting : Setting) : setting ∈ all := by
  cases setting <;> decide

theorem find?_all_eq_some {name : Setting → String} (h : Function.Injective name)
    {key : String} {setting : Setting} :
    all.find? (name · = key) = some setting ↔ key = name setting := by
  constructor
  · intro hfound
    have hname := List.find?_some hfound
    exact (of_decide_eq_true hname).symm
  · rintro rfl
    cases hfound : all.find? (name · = name setting) with
    | none => simpa using List.find?_eq_none.mp hfound setting (mem_all setting)
    | some found =>
      have hname := List.find?_some hfound
      rw [h (of_decide_eq_true hname)]

theorem ofVariable?_eq_some {key : String} {setting : Setting} :
    ofVariable? key = some setting ↔ key = setting.variableName :=
  find?_all_eq_some variableName_injective

theorem ofOption?_eq_some {key : String} {setting : Setting} :
    ofOption? key = some setting ↔ key = setting.optionName :=
  find?_all_eq_some optionName_injective

end Setting

namespace Settings

/-- A text that may be left empty to say that there is none. -/
def clearable (text : String) : Option String := if text = "" then none else some text

theorem clearable_eq_some {text kept : String} :
    clearable text = some kept ↔ text ≠ "" ∧ text = kept := by
  rw [clearable, Option.ite_none_left_eq_some, Option.some.injEq]

/-- The settings after some of them have taken texts. -/
def overriddenBy (s : Settings) (texts : Setting → Option String) : Settings where
  runtime := (texts .runtime).elim s.runtime clearable
  platform := (texts .platform).elim s.platform clearable
  allowPrerelease :=
    (texts .allowPrerelease).elim s.allowPrerelease (Setting.small · ∈ Setting.affirmative)
  preferInstalled :=
    (texts .preferInstalled).elim s.preferInstalled (Setting.small · ∈ Setting.affirmative)

/-- A text for one setting. -/
def only (setting : Setting) (text : String) : Setting → Option String :=
  fun other => if setting = other then some text else none

variable {s s' : Settings} {setting : Setting} {origin value : String}
  {texts texts' : Setting → Option String}

theorem overriddenBy_none (s : Settings) : s.overriddenBy (fun _ => none) = s := rfl

/-- Of two texts for a setting the later one counts. -/
theorem overriddenBy_overriddenBy (s : Settings) (texts texts' : Setting → Option String) :
    (s.overriddenBy texts).overriddenBy texts' =
      s.overriddenBy fun setting => (texts' setting).or (texts setting) := by
  have helim : ∀ {α : Type} (later earlier : Option String) (old : α) (f : String → α),
      later.elim (earlier.elim old f) f = (later.or earlier).elim old f := by
    intro α later earlier old f
    cases later with
    | none => rfl
    | some text => rfl
  simp only [overriddenBy, helim]

/-! ### One override -/

theorem readRuntime_eq_ok {text : String} {v : Option String} :
    readRuntime origin text = .ok v ↔ Setting.runtime.Admits text ∧ v = clearable text := by
  rw [readRuntime, clearable]
  by_cases hempty : text = ""
  · subst hempty
    rw [and_iff_right (.inl rfl)]
    show Except.ok none = Except.ok v ↔ v = none
    rw [Except.ok.injEq, eq_comm]
  · have hnonempty : text.isEmpty = false := by
      rw [Bool.eq_false_iff, ne_eq, String.isEmpty_iff]
      exact hempty
    rw [hnonempty, if_neg hempty]
    cases hparse : Version.parse text with
    | ok version =>
      rw [and_iff_right (.inr ⟨version, hparse⟩)]
      show Except.ok (some text) = Except.ok v ↔ v = some text
      rw [Except.ok.injEq, eq_comm]
    | error cause => simp [hempty, hparse, Setting.Admits]

theorem readBool_eq_ok {text : String} {b : Bool} :
    readBool origin text = .ok b ↔
      (Setting.small text ∈ Setting.affirmative ∨ Setting.small text ∈ Setting.negative) ∧
        b = decide (Setting.small text ∈ Setting.affirmative) := by
  show (if Setting.small text ∈ Setting.affirmative then Except.ok true
    else if Setting.small text ∈ Setting.negative then Except.ok false else _) = .ok b ↔ _
  by_cases hon : Setting.small text ∈ Setting.affirmative
  · rw [if_pos hon, decide_eq_true hon, Except.ok.injEq, and_iff_right (.inl hon), eq_comm]
  · rw [if_neg hon, decide_eq_false hon]
    by_cases hoff : Setting.small text ∈ Setting.negative
    · rw [if_pos hoff, Except.ok.injEq, and_iff_right (.inr hoff), eq_comm]
    · simp [hon, hoff]

/-- An override is accepted where the setting admits its text, and then the setting takes it. -/
theorem override_eq_ok :
    s.override setting origin value = .ok s' ↔
      setting.Admits (Text.trim value) ∧ s' = s.overriddenBy (only setting (Text.trim value)) := by
  unfold override
  generalize Text.trim value = text
  cases setting with
  | runtime =>
    simp only [map_eq_ok, readRuntime_eq_ok, and_assoc, exists_and_left, exists_eq_left]
    exact and_congr_right fun _ => eq_comm
  | platform =>
    have hclearable : (if text.isEmpty then none else some text) = clearable text := by
      rw [clearable]
      exact if_congr String.isEmpty_iff rfl rfl
    simp only [hclearable, Except.ok.injEq, Setting.Admits, true_and]
    exact eq_comm
  | allowPrerelease =>
    simp only [map_eq_ok, readBool_eq_ok, and_assoc, exists_and_left, exists_eq_left]
    exact and_congr_right fun _ => eq_comm
  | preferInstalled =>
    simp only [map_eq_ok, readBool_eq_ok, and_assoc, exists_and_left, exists_eq_left]
    exact and_congr_right fun _ => eq_comm

/-! ### A layer of overrides -/

/-- What the two kinds of layer have in common: every setting has a name of its own, under which
it is overridden, and other keys are passed over. -/
structure Overrides (name : Setting → String)
    (step : Settings → String × String → Except Error Settings) : Prop where
  injective : Function.Injective name
  known : ∀ {s s' setting value}, step s (name setting, value) = .ok s' ↔
    setting.Admits (Text.trim value) ∧ s' = s.overriddenBy (only setting (Text.trim value))
  unknown : ∀ {s key value}, (∀ setting, key ≠ name setting) → step s (key, value) = .ok s

theorem overrides_variables : Overrides Setting.variableName overrideByVariable where
  injective := Setting.variableName_injective
  known := by
    intro s s' setting value
    rw [overrideByVariable, Setting.ofVariable?_eq_some.mpr rfl]
    exact override_eq_ok
  unknown := by
    intro s key value hkey
    have hnone : Setting.ofVariable? key = none := by
      rw [Option.eq_none_iff_forall_ne_some]
      exact fun setting h => hkey setting (Setting.ofVariable?_eq_some.mp h)
    rw [overrideByVariable, hnone]

theorem overrides_options : Overrides Setting.optionName overrideByOption where
  injective := Setting.optionName_injective
  known := by
    intro s s' setting value
    rw [overrideByOption, Setting.ofOption?_eq_some.mpr rfl]
    exact override_eq_ok
  unknown := by
    intro s key value hkey
    have hnone : Setting.ofOption? key = none := by
      rw [Option.eq_none_iff_forall_ne_some]
      exact fun setting h => hkey setting (Setting.ofOption?_eq_some.mp h)
    rw [overrideByOption, hnone]

/-- The text that a layer has for a setting, the last one if there are several. -/
def textsIn (name : Setting → String) (layer : List (String × String)) (setting : Setting) :
    Option String :=
  (lastUnder id (name setting) layer).map Text.trim

/-- Every text that a layer has for a setting is one that the setting takes. -/
def AdmitsAll (name : Setting → String) (layer : List (String × String)) : Prop :=
  ∀ setting value, (name setting, value) ∈ layer → setting.Admits (Text.trim value)

section Layer

variable {name : Setting → String} {layer : List (String × String)} {key : String}

theorem textsIn_append_known (h : Function.Injective name) :
    textsIn name (layer ++ [(name setting, value)]) = fun other =>
      (only setting (Text.trim value) other).or (textsIn name layer other) := by
  funext other
  rw [textsIn, textsIn, lastUnder_append_singleton, only]
  by_cases hsame : setting = other
  · simp [hsame]
  · have hne : name setting ≠ name other := fun heq => hsame (h heq)
    simp [hsame, hne]

theorem textsIn_append_unknown (hkey : ∀ setting, key ≠ name setting) :
    textsIn name (layer ++ [(key, value)]) = textsIn name layer := by
  funext other
  rw [textsIn, textsIn, lastUnder_append_singleton]
  exact congrArg _ (if_neg (hkey other))

theorem admitsAll_append_known (h : Function.Injective name) :
    AdmitsAll name (layer ++ [(name setting, value)]) ↔
      AdmitsAll name layer ∧ setting.Admits (Text.trim value) := by
  constructor
  · intro hall
    exact ⟨fun other text hmem => hall other text (List.mem_append_left _ hmem),
      hall setting value (List.mem_append_right _ (List.mem_singleton_self _))⟩
  · rintro ⟨hlayer, hlast⟩ other text hmem
    rcases List.mem_append.mp hmem with hmem | hmem
    · exact hlayer other text hmem
    · obtain ⟨heq, rfl⟩ := Prod.mk.inj (List.mem_singleton.mp hmem)
      exact h heq ▸ hlast

theorem admitsAll_append_unknown (hkey : ∀ setting, key ≠ name setting) :
    AdmitsAll name (layer ++ [(key, value)]) ↔ AdmitsAll name layer := by
  refine forall_congr' fun other => forall_congr' fun text => ?_
  rw [List.mem_append, List.mem_singleton, or_iff_left]
  intro heq
  exact hkey other (Prod.mk.inj heq).1.symm

/-- A layer is accepted where all of its texts are admitted, and then its last ones count. -/
theorem Overrides.foldlM_eq_ok {step : Settings → String × String → Except Error Settings}
    (h : Overrides name step) :
    layer.foldlM step s = .ok s' ↔
      AdmitsAll name layer ∧ s' = s.overriddenBy (textsIn name layer) := by
  induction layer using List.reverseRecOn generalizing s' with
  | nil =>
    have hadmits : AdmitsAll name [] := fun _ _ hmem => absurd hmem List.not_mem_nil
    have hnone : textsIn name [] = fun _ => none := rfl
    rw [and_iff_right hadmits, hnone, overriddenBy_none]
    show Except.ok s = Except.ok s' ↔ s' = s
    rw [Except.ok.injEq, eq_comm]
  | append_singleton layer e ih =>
    obtain ⟨key, value⟩ := e
    have hstep : (layer ++ [(key, value)]).foldlM step s = .ok s' ↔
        AdmitsAll name layer ∧
          step (s.overriddenBy (textsIn name layer)) (key, value) = .ok s' := by
      simp only [List.foldlM_append, List.foldlM_cons, List.foldlM_nil, bind_pure, bind_eq_ok, ih,
        and_assoc, exists_and_left, exists_eq_left]
    rw [hstep]
    -- the override at the end of the layer is that of a setting or is passed over
    by_cases hkey : ∃ setting, key = name setting
    · obtain ⟨setting, rfl⟩ := hkey
      rw [h.known, overriddenBy_overriddenBy, textsIn_append_known h.injective,
        admitsAll_append_known h.injective, and_assoc]
    · push Not at hkey
      rw [h.unknown hkey, textsIn_append_unknown hkey, admitsAll_append_unknown hkey,
        Except.ok.injEq, eq_comm]

end Layer

/-! ### Settings that describe an environment -/

theorem exists_runtimeVersion_iff :
    (∃ v, s.runtimeVersion = .ok v) ↔
      ∀ text, s.runtime = some text → ∃ v, Version.parse text = .ok v := by
  unfold runtimeVersion
  cases s.runtime with
  | none => simp
  | some text => cases hparse : Version.parse text <;> simp [hparse]

theorem exists_platformName_iff :
    (∃ name, s.platformName = .ok name) ↔
      ∀ text, s.platform = some text → Text.trim text ≠ "" := by
  unfold platformName
  cases s.platform with
  | none => simp
  | some text => by_cases hblank : Text.trim text = "" <;> simp [hblank]

theorem exists_toContext_iff :
    (∃ c, s.toContext = .ok c) ↔
      (∀ text, s.runtime = some text → ∃ v, Version.parse text = .ok v) ∧
        ∀ text, s.platform = some text → Text.trim text ≠ "" := by
  rw [← exists_runtimeVersion_iff, ← exists_platformName_iff]
  constructor
  · rintro ⟨c, hc⟩
    obtain ⟨v, hv, hc⟩ := bind_eq_ok.mp hc
    obtain ⟨name, hname, -⟩ := bind_eq_ok.mp hc
    exact ⟨⟨v, hv⟩, name, hname⟩
  · rintro ⟨⟨v, hv⟩, name, hname⟩
    exact ⟨_, bind_eq_ok.mpr ⟨v, hv, bind_eq_ok.mpr ⟨name, hname, rfl⟩⟩⟩

/-- Overridden settings describe an environment where those that are left did: what was admitted
is valid. -/
theorem exists_toContext_overriddenBy_iff
    (hadmits : ∀ setting text, texts setting = some text → setting.Admits text)
    (htrimmed : ∀ setting text, texts setting = some text → Text.trim text = text) :
    (∃ c, (s.overriddenBy texts).toContext = .ok c) ↔
      (texts .runtime = none →
        ∀ text, s.runtime = some text → ∃ v, Version.parse text = .ok v) ∧
      (texts .platform = none → ∀ text, s.platform = some text → Text.trim text ≠ "") := by
  rw [exists_toContext_iff]
  refine and_congr ?_ ?_
  · show (∀ text, (texts .runtime).elim s.runtime clearable = some text → _) ↔ _
    cases hgiven : texts .runtime with
    | none => simp
    | some given =>
      simp only [Option.elim_some, reduceCtorEq, false_imp_iff, iff_true]
      intro text htext
      obtain ⟨hnonempty, rfl⟩ := clearable_eq_some.mp htext
      exact (hadmits _ _ hgiven).resolve_left hnonempty
  · show (∀ text, (texts .platform).elim s.platform clearable = some text → _) ↔ _
    cases hgiven : texts .platform with
    | none => simp
    | some given =>
      simp only [Option.elim_some, reduceCtorEq, false_imp_iff, iff_true]
      intro text htext
      obtain ⟨hnonempty, rfl⟩ := clearable_eq_some.mp htext
      rw [htrimmed _ _ hgiven]
      exact hnonempty

end Settings

/-! ### Two layers -/

variable {environment environment' commandLine commandLine' : InsertionMap String String}

namespace Setting

/-- The text that the layers have for a setting: that of the command line, or else that of the
environment. -/
def textIn (environment commandLine : InsertionMap String String) (setting : Setting) :
    Option String :=
  ((commandLine.get? setting.optionName).or (environment.get? setting.variableName)).map Text.trim

theorem textIn_eq_none_iff {setting : Setting} :
    textIn environment commandLine setting = none ↔
      environment.get? setting.variableName = none ∧
        commandLine.get? setting.optionName = none := by
  rw [textIn, Option.map_eq_none_iff, Option.or_eq_none_iff, and_comm]

theorem exists_of_textIn {setting : Setting} {text : String}
    (h : textIn environment commandLine setting = some text) :
    ∃ value, Text.trim value = text ∧
      (environment.get? setting.variableName = some value ∨
        commandLine.get? setting.optionName = some value) := by
  obtain ⟨value, hvalue, htext⟩ := Option.map_eq_some_iff.mp h
  refine ⟨value, htext, ?_⟩
  rcases Option.or_eq_some_iff.mp hvalue with hvalue | ⟨-, hvalue⟩
  · exact .inr hvalue
  · exact .inl hvalue

end Setting

namespace Settings

/-- Settings accept two layers that have admissible texts only, if they are valid where the layers
leave them as they are. -/
structure Accepts (s : Settings) (environment commandLine : InsertionMap String String) :
    Prop where
  admitsVariables : ∀ (setting : Setting) (value : String),
    environment.get? setting.variableName = some value → setting.Admits (Text.trim value)
  admitsOptions : ∀ (setting : Setting) (value : String),
    commandLine.get? setting.optionName = some value → setting.Admits (Text.trim value)
  validRuntime : environment.get? Setting.runtime.variableName = none →
    commandLine.get? Setting.runtime.optionName = none →
    ∀ text, s.runtime = some text → ∃ v, Version.parse text = .ok v
  validPlatform : environment.get? Setting.platform.variableName = none →
    commandLine.get? Setting.platform.optionName = none →
    ∀ text, s.platform = some text → Text.trim text ≠ ""

theorem textsIn_entries (name : Setting → String) (layer : InsertionMap String String) :
    textsIn name layer.entries = fun setting =>
      (layer.get? (name setting)).map Text.trim := by
  funext setting
  refine congrArg _ (Option.ext fun value => ?_)
  rw [lastUnder_id_eq_some_iff layer.distinct, InsertionMap.get?_eq_some_iff]

theorem admitsAll_entries {name : Setting → String} {layer : InsertionMap String String} :
    AdmitsAll name layer.entries ↔ ∀ (setting : Setting) (value : String),
      layer.get? (name setting) = some value → setting.Admits (Text.trim value) := by
  simp only [AdmitsAll, InsertionMap.get?_eq_some_iff]

theorem textsIn_or_textsIn (environment commandLine : InsertionMap String String) :
    (fun setting => (textsIn Setting.optionName commandLine.entries setting).or
      (textsIn Setting.variableName environment.entries setting)) =
      Setting.textIn environment commandLine := by
  funext setting
  rw [textsIn_entries, textsIn_entries, Setting.textIn, Option.map_or]

theorem exists_toContext_textIn_iff {s : Settings}
    (hvariables : ∀ (setting : Setting) value,
      environment.get? setting.variableName = some value → setting.Admits (Text.trim value))
    (hoptions : ∀ (setting : Setting) value,
      commandLine.get? setting.optionName = some value → setting.Admits (Text.trim value)) :
    (∃ c, (s.overriddenBy (Setting.textIn environment commandLine)).toContext = .ok c) ↔
      (environment.get? Setting.runtime.variableName = none →
        commandLine.get? Setting.runtime.optionName = none →
        ∀ text, s.runtime = some text → ∃ v, Version.parse text = .ok v) ∧
      (environment.get? Setting.platform.variableName = none →
        commandLine.get? Setting.platform.optionName = none →
        ∀ text, s.platform = some text → Text.trim text ≠ "") := by
  rw [exists_toContext_overriddenBy_iff, Setting.textIn_eq_none_iff,
    Setting.textIn_eq_none_iff, and_imp, and_imp]
  · intro setting text htext
    obtain ⟨value, rfl, hvalue | hvalue⟩ := Setting.exists_of_textIn htext
    · exact hvariables setting value hvalue
    · exact hoptions setting value hvalue
  · intro setting text htext
    obtain ⟨value, rfl, -⟩ := Setting.exists_of_textIn htext
    exact Text.trim_trim value

theorem Accepts.exists_toContext {s : Settings} (h : s.Accepts environment commandLine) :
    ∃ c, (s.overriddenBy (Setting.textIn environment commandLine)).toContext = .ok c :=
  (exists_toContext_textIn_iff h.admitsVariables h.admitsOptions).mpr
    ⟨h.validRuntime, h.validPlatform⟩

/-- Layers with the same values under the keys of the settings are accepted alike. -/
theorem Accepts.congr {s : Settings} (h : s.Accepts environment commandLine)
    (hvariables : ∀ setting : Setting,
      environment'.get? setting.variableName = environment.get? setting.variableName)
    (hoptions : ∀ setting : Setting,
      commandLine'.get? setting.optionName = commandLine.get? setting.optionName) :
    s.Accepts environment' commandLine' where
  admitsVariables := by
    simp only [hvariables]
    exact h.admitsVariables
  admitsOptions := by
    simp only [hoptions]
    exact h.admitsOptions
  validRuntime := by
    rw [hvariables, hoptions]
    exact h.validRuntime
  validPlatform := by
    rw [hvariables, hoptions]
    exact h.validPlatform

end Settings

namespace Manifest

variable {m m' : Manifest}

/-- A manifest with layers is the manifest with the texts that the layers have for its settings. -/
theorem layered_eq_ok :
    m.layered environment.entries commandLine.entries = .ok m' ↔
      m.settings.Accepts environment commandLine ∧
        m' = { m with
          settings := m.settings.overriddenBy (Setting.textIn environment commandLine) } := by
  have hrun : m.layered environment.entries commandLine.entries = .ok m' ↔
      Settings.AdmitsAll Setting.variableName environment.entries ∧
      Settings.AdmitsAll Setting.optionName commandLine.entries ∧
      (∃ c, (m.settings.overriddenBy (Setting.textIn environment commandLine)).toContext = .ok c) ∧
        m' = { m with
          settings := m.settings.overriddenBy (Setting.textIn environment commandLine) } := by
    unfold layered
    simp only [bind_eq_ok, Settings.overrides_variables.foldlM_eq_ok,
      Settings.overrides_options.foldlM_eq_ok, and_assoc, exists_and_left, exists_eq_left,
      Settings.overriddenBy_overriddenBy, Settings.textsIn_or_textsIn]
    refine and_congr_right fun _ => and_congr_right fun _ => ?_
    rw [← exists_and_right]
    refine exists_congr fun c => and_congr_right fun _ => ?_
    show Except.ok _ = Except.ok m' ↔ _
    rw [Except.ok.injEq, eq_comm]
  rw [hrun, Settings.admitsAll_entries, Settings.admitsAll_entries]
  constructor
  · rintro ⟨hvariables, hoptions, hvalid, hm'⟩
    obtain ⟨hruntime, hplatform⟩ :=
      (Settings.exists_toContext_textIn_iff hvariables hoptions).mp hvalid
    exact ⟨⟨hvariables, hoptions, hruntime, hplatform⟩, hm'⟩
  · rintro ⟨h, hm'⟩
    exact ⟨h.admitsVariables, h.admitsOptions, h.exists_toContext, hm'⟩

/-- Layers with the same values under the keys of the settings make the same of a manifest. -/
theorem toOption_layered_congr (m : Manifest)
    (hvariables : ∀ setting : Setting,
      environment'.get? setting.variableName = environment.get? setting.variableName)
    (hoptions : ∀ setting : Setting,
      commandLine'.get? setting.optionName = commandLine.get? setting.optionName) :
    (m.layered environment'.entries commandLine'.entries).toOption =
      (m.layered environment.entries commandLine.entries).toOption := by
  have htextIn : Setting.textIn environment' commandLine' =
      Setting.textIn environment commandLine := by
    funext setting
    rw [Setting.textIn, Setting.textIn, hvariables, hoptions]
  have haccepts : m.settings.Accepts environment' commandLine' ↔
      m.settings.Accepts environment commandLine := by
    constructor
    · intro h
      exact h.congr (fun setting => (hvariables setting).symm)
        fun setting => (hoptions setting).symm
    · intro h
      exact h.congr hvariables hoptions
  refine Option.ext fun m' => ?_
  rw [toOption_eq_some_iff, toOption_eq_some_iff, layered_eq_ok, layered_eq_ok, haccepts, htextIn]

/-- Layers are accepted just if the texts under the keys of settings are admitted and the runtime
and the platform of the manifest are valid where no layer overrides them. Then the project and the
dependencies stay, each setting is the text of the command line, or else that of the environment,
or else as it was, and the settings describe an environment. Nothing depends on other keys or on the
order in which the layers are gone through. -/
theorem layering_exact (m : Manifest) (environment commandLine : InsertionMap String String) :
    ((∃ m', m.layered environment.entries commandLine.entries = .ok m') ↔
      m.settings.Accepts environment commandLine) ∧
    (∀ m', m.layered environment.entries commandLine.entries = .ok m' →
      m'.project = m.project ∧ m'.dependencies = m.dependencies ∧
      m'.settings = m.settings.overriddenBy (Setting.textIn environment commandLine) ∧
      ∃ c, m'.settings.toContext = .ok c) ∧
    (∀ environment' commandLine' : InsertionMap String String,
      (∀ setting : Setting,
        environment'.get? setting.variableName = environment.get? setting.variableName) →
      (∀ setting : Setting,
        commandLine'.get? setting.optionName = commandLine.get? setting.optionName) →
      (m.layered environment'.entries commandLine'.entries).toOption =
        (m.layered environment.entries commandLine.entries).toOption) ∧
    (∀ es es' : List (String × String),
      es.Perm environment.entries → es'.Perm commandLine.entries →
      (m.layered es es').toOption =
        (m.layered environment.entries commandLine.entries).toOption) := by
  refine ⟨?_, ?_, fun _ _ => toOption_layered_congr m, ?_⟩
  · constructor
    · rintro ⟨m', hm'⟩
      exact (layered_eq_ok.mp hm').1
    · intro h
      exact ⟨_, layered_eq_ok.mpr ⟨h, rfl⟩⟩
  · intro m' hm'
    obtain ⟨h, rfl⟩ := layered_eq_ok.mp hm'
    exact ⟨rfl, rfl, rfl, h.exists_toContext⟩
  · intro es es' hes hes'
    obtain ⟨environment', rfl⟩ := InsertionMap.exists_entries_of_perm hes
    obtain ⟨commandLine', rfl⟩ := InsertionMap.exists_entries_of_perm hes'
    exact toOption_layered_congr m (fun setting => InsertionMap.get?_of_perm hes _)
      fun setting => InsertionMap.get?_of_perm hes' _

-- an option does not make up for a variable with a text that is not admitted
example : (Manifest.default.layered [("SPRIG_ALLOW_PRERELEASE", "maybe")]
    [("allow-prerelease", "no")]).toOption = none := by cbv

end Manifest

end Depsolve
