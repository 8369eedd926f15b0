import Pagesmith.Command.Run
import Pagesmith.Proofs.Command.Flag
import Pagesmith.Proofs.Settings.Layer

/-!
# A build and the check after it

A build with a check after it reads two configurations from the same settings.  They agree on the
pages, the styles and the way they are read.  Whether the presets are part of the stylesheet is one
setting with two names on the command line: a build asks for `emit-presets`, a check for `presets`,
which is no flag of a build.  So the check knows only what the file and the environment say.

* `Settings.Documented`: settings of the keys that files and the environment may use.
* `SameSite`: a check looks at the pages and styles of a build.
* `presets_layer`, `emitPresets_layer`: the two settings, by flags and by the settings below them.
* `build_check_agree_iff`: when a check after a build counts the presets as the build does.
* `emit_presets_unchecked`: a build with the flag has presets that its check does not know.
-/

namespace Pagesmith

open Pagesmith.Command

/-! ### Documented settings -/

def documentedKeys : List String :=
  ["verbose", "quiet", "color", "source", "build.out-dir", "build.pages", "build.styles",
    "build.stylesheet", "build.emit-presets", "build.concurrency", "render.timeout",
    "render.sanitize", "render.legacy-truncation", "lint.strict", "lint.threshold",
    "lint.output-format", "lint.max-issues-per-linter", "lint.max-same-issues",
    "lint.print-lines", "lint.print-linter-name"]

def isDocumented (name : String) : Bool :=
  documentedKeys.any fun key => key == name || (Settings.below? name key.toList).isSome

/-- Settings with documented names only, whatever their values. -/
def Settings.Documented (s : Settings) : Prop := ∀ f ∈ s.fields, isDocumented f.1 = true

namespace Settings

variable {s : Settings}

theorem Documented.find?_eq_none (h : s.Documented) {key : String} (hdot : '.' ∉ key.toList)
    (hkey : isDocumented key = false) : s.find? key = none := by
  rw [find?_of_no_dot hdot]
  refine Value.field?_eq_none fun f hf heq => ?_
  rw [← heq, h f hf] at hkey
  cases hkey

theorem Documented.find?_presets (h : s.Documented) : s.find? "presets" = none :=
  h.find?_eq_none (by decide) (by decide +kernel)

theorem Documented.find?_emitPresets (h : s.Documented) : s.find? "emit-presets" = none :=
  h.find?_eq_none (by decide) (by decide +kernel)

variable {first : String}

theorem bool_of_none (h : s.find? first = none) (second : String) (usual : Bool) :
    s.bool first second usual = ((s.find? second).map Value.asBool).getD usual := by
  rw [bool, pick, h]
  cases s.find? second <;> rfl

theorem bool_of_some {v : Value} (h : s.find? first = some v) (second : String) (usual : Bool) :
    s.bool first second usual = v.asBool := by
  rw [bool, pick, h]

end Settings

/-! ### Flags over settings -/

namespace Command

theorem FlagKind.Holds.ne_map {kind : FlagKind} {v : Value} (h : kind.Holds v)
    (sub : List (String × Value)) : v ≠ .map sub := by
  rintro rfl
  cases kind <;> exact h

namespace GivenBy

variable {flags : List Flag} {values : List (String × Value)} (h : GivenBy flags values)

include h

theorem flat : Settings.Flat values := by
  intro x hx
  obtain ⟨f, -, -, hholds⟩ := h.holds x hx
  exact hholds.ne_map

theorem field?_eq_none {name : String} (hname : ∀ f ∈ flags, f.name ≠ name) :
    Value.field? values name = none := by
  refine Value.field?_eq_none fun x hx heq => ?_
  obtain ⟨f, hf, hfx, -⟩ := h.holds x hx
  exact hname f hf (hfx.trans heq)

theorem apart {key : List Char} (hkey : ∀ f ∈ flags, Settings.Apart f.name key) :
    ∀ x ∈ values, Settings.Apart x.1 key := by
  intro x hx
  obtain ⟨f, hf, hfx, -⟩ := h.holds x hx
  exact hfx ▸ hkey f hf

end GivenBy

end Command

/-! ### The presets of a build and of its check -/

section Presets

variable {values : List (String × Value)} (hgiven : GivenBy Verb.build.flags values)
  {low : Settings} (hdoc : low.Documented)

include hgiven

/-- No flag of a build leads to the key that files and the environment use. -/
theorem find?_layer_emitPresets (low : Settings) :
    (Settings.layer ⟨values⟩ low).find? "build.emit-presets" = low.find? "build.emit-presets" :=
  Settings.find?_layer_of_apart (hgiven.apart (by decide +kernel)) low

include hdoc

theorem presets_layer :
    (LintSettings.of (Settings.layer ⟨values⟩ low)).presets =
      (BuildSettings.of low).emitPresets := by
  -- neither a flag of a build nor a documented key has the name that a check asks for
  have hlint : (Settings.layer ⟨values⟩ low).find? "presets" = none := by
    rw [Settings.find?_layer hgiven.flat hgiven.ordered (by decide),
      hgiven.field?_eq_none (by decide +kernel), hdoc.find?_presets]
    rfl
  show Settings.bool _ "presets" _ _ = Settings.bool _ "emit-presets" _ _
  rw [Settings.bool_of_none hlint, Settings.bool_of_none hdoc.find?_emitPresets,
    find?_layer_emitPresets hgiven low]

theorem emitPresets_layer :
    (BuildSettings.of (Settings.layer ⟨values⟩ low)).emitPresets =
      ((Value.field? values "emit-presets").map Value.asBool).getD
        (BuildSettings.of low).emitPresets := by
  have hfind : (Settings.layer ⟨values⟩ low).find? "emit-presets" =
      Value.field? values "emit-presets" := by
    rw [Settings.find?_layer hgiven.flat hgiven.ordered (by decide),
      hdoc.find?_emitPresets, Option.or_none]
  show Settings.bool _ "emit-presets" _ _ = _
  cases hflag : Value.field? values "emit-presets" with
  | none =>
    rw [Settings.bool_of_none (hfind.trans hflag), find?_layer_emitPresets hgiven low,
      ← Settings.bool_of_none hdoc.find?_emitPresets]
    rfl
  | some v =>
    rw [Settings.bool_of_some (hfind.trans hflag)]
    rfl

theorem presets_eq_emitPresets_iff :
    (LintSettings.of (Settings.layer ⟨values⟩ low)).presets =
        (BuildSettings.of (Settings.layer ⟨values⟩ low)).emitPresets ↔
      ∀ v, Value.field? values "emit-presets" = some v →
        v.asBool = (BuildSettings.of low).emitPresets := by
  rw [presets_layer hgiven hdoc, emitPresets_layer hgiven hdoc]
  cases Value.field? values "emit-presets" with
  | none => simp
  | some v => simp [eq_comm]

end Presets

structure SameSite (l : Lint.LintConfig) (b : BuildConfig) : Prop where
  sourceDir_eq : l.sourceDir = b.sourceDir
  pages_eq : l.pages = b.pages
  styles_eq : l.styles = b.styles
  truncated_eq : l.truncated = b.compiler.truncated

theorem sameSite_of (s : Settings) :
    SameSite (LintSettings.of s).config (BuildSettings.of s).config :=
  ⟨rfl, rfl, rfl, rfl⟩

namespace Command

theorem settings_eq {p : Process} {parsed : Parsed} {low : Settings}
    (h : loadSettings p.tree p.env (parsed.text "config") = .ok low) :
    p.settings parsed = .ok (Settings.layer ⟨parsed.values⟩ low) := by
  rw [Process.settings, h]
  rfl

theorem run_of_build {p : Process} {line : Line} {s : Settings}
    (hline : parseLine p.args = .ok line) (hbuild : line.command = .build)
    (hs : p.settings line.parsed = .ok s) :
    run p = runBuild p s (line.parsed.isOn "lint") := by
  unfold run
  rw [hline]
  show runLine p line = _
  unfold runLine
  rw [hbuild]
  show withSettings p line.parsed _ = _
  unfold withSettings
  rw [hs]

theorem givenBy_build {args : List String} {line : Line} (hline : parseLine args = .ok line)
    (hbuild : line.command = .build) : GivenBy Verb.build.flags line.parsed.values := by
  rw [← hbuild]
  exact givenBy_of_parseLine hline (by rw [hbuild]; decide)

/-- **A check after a build looks at the site that was built, and it counts the presets as the build
does exactly if the flag for them is not given or says what the file and the environment say.** -/
theorem build_check_agree_iff {p : Process} {line : Line} {low : Settings}
    (hline : parseLine p.args = .ok line) (hbuild : line.command = .build)
    (hlow : loadSettings p.tree p.env (line.parsed.text "config") = .ok low)
    (hdoc : low.Documented) :
    ∃ s, p.settings line.parsed = .ok s ∧ run p = runBuild p s (line.parsed.isOn "lint") ∧
      SameSite (LintSettings.of s).config (BuildSettings.of s).config ∧
      ((LintSettings.of s).config.includePresets = (BuildSettings.of s).config.emitPresets ↔
        ∀ v, Value.field? line.parsed.values "emit-presets" = some v →
          v.asBool = (BuildSettings.of low).emitPresets) := by
  have hsettings := settings_eq hlow
  exact ⟨_, hsettings, run_of_build hline hbuild hsettings, sameSite_of _,
    presets_eq_emitPresets_iff (givenBy_build hline hbuild) hdoc⟩

/-- What the command line of a build says about presets, and what the settings below it say, if they
are documented ones. -/
def Process.presetSources? (p : Process) : Option (Option Bool × Bool) := do
  let line ← (parseLine p.args).toOption
  let low ← (loadSettings p.tree p.env (line.parsed.text "config")).toOption
  if line.command = .build ∧ low.fields.all fun f => isDocumented f.1 then
    some ((Value.field? line.parsed.values "emit-presets").map Value.asBool,
      (BuildSettings.of low).emitPresets)
  else none

theorem exists_of_presetSources? {p : Process} {flag : Option Bool} {below : Bool}
    (h : p.presetSources? = some (flag, below)) :
    ∃ line low, parseLine p.args = .ok line ∧ line.command = .build ∧
      loadSettings p.tree p.env (line.parsed.text "config") = .ok low ∧ low.Documented ∧
      (Value.field? line.parsed.values "emit-presets").map Value.asBool = flag ∧
      (BuildSettings.of low).emitPresets = below := by
  rw [Process.presetSources?] at h
  obtain ⟨line, hline, h⟩ := Option.bind_eq_some_iff.mp h
  obtain ⟨low, hlow, h⟩ := Option.bind_eq_some_iff.mp h
  split at h
  · next hall =>
    cases h
    exact ⟨line, low, toOption_eq_some.mp hline, hall.1, toOption_eq_some.mp hlow,
      List.all_eq_true.mp hall.2, rfl, rfl⟩
  · cases h

/-- The flag is given, and the settings file says the same. -/
theorem build_check_agree_iff_both :
    let p : Process :=
      { args := ["build", "--emit-presets", "--lint"]
        tree := .ofFiles ["w"] [(".animax.yaml", "build:\n  emit-presets: true\n")]
        clock := ⟨"", ""⟩ }
    ∃ line low, (parseLine p.args = .ok line ∧ line.command = .build ∧
        loadSettings p.tree p.env (line.parsed.text "config") = .ok low ∧ low.Documented) ∧
      ∃ s, run p = runBuild p s (line.parsed.isOn "lint") ∧
        (LintSettings.of s).config.includePresets = (BuildSettings.of s).config.emitPresets := by
  intro p
  have hsources : p.presetSources? = some (some true, true) := by decide +kernel
  obtain ⟨line, low, hline, hbuild, hlow, hdoc, hflag, hbelow⟩ := exists_of_presetSources? hsources
  obtain ⟨s, -, hrun, -, hiff⟩ := build_check_agree_iff hline hbuild hlow hdoc
  refine ⟨line, low, ⟨hline, hbuild, hlow, hdoc⟩, s, hrun, hiff.mpr fun v hv => ?_⟩
  rw [hv] at hflag
  exact (Option.some.inj hflag).trans hbelow.symm

/-- **A check does not see the flag that puts the presets into the stylesheet.**  Without a settings
file the check after a build with the flag takes no preset for defined. -/
theorem emit_presets_unchecked :
    ¬ ∀ (p : Process) (line : Line) (low s : Settings), parseLine p.args = .ok line →
      line.command = .build → loadSettings p.tree p.env (line.parsed.text "config") = .ok low →
      low.Documented → p.settings line.parsed = .ok s →
      SameSite (LintSettings.of s).config (BuildSettings.of s).config ∧
        (LintSettings.of s).config.includePresets = (BuildSettings.of s).config.emitPresets := by
  intro h
  let p : Process :=
    { args := ["build", "--emit-presets", "--lint"], tree := .ofFiles ["w"] [], clock := ⟨"", ""⟩ }
  have hsources : p.presetSources? = some (some true, false) := by decide +kernel
  obtain ⟨line, low, hline, hbuild, hlow, hdoc, hflag, hbelow⟩ := exists_of_presetSources? hsources
  obtain ⟨-, hagree⟩ := h p line low _ hline hbuild hlow hdoc (settings_eq hlow)
  obtain ⟨v, hv, hon⟩ := Option.map_eq_some_iff.mp hflag
  have hsame := (presets_eq_emitPresets_iff (givenBy_build hline hbuild) hdoc).mp hagree v hv
  rw [hon, hbelow] at hsame
  cases hsame

end Command

end Pagesmith
