import Chip8.CommandLine.Program
import Chip8.Proofs.SettingsText

/-!
# Settings from options

The settings of a machine have three sources : the options of a command, the file that the options
may name, and the defaults. `CommandLine.FileSettings` says what a file gives, `CommandLine.Merged`
which source has the say for each field. Constraints between fields are those of the merged settings
only.

The command `config` prints the merged settings. As they are valid and are read as they were written
(`Settings.ofText_of_printed`), a command whose only option names a file with this text merges them
to the same settings, and prints the same text.

`CommandLine.settings_of_options` is about both.
-/

namespace Chip8

attribute [ext] Settings

/-! ## Texts in files -/

theorem Text.fromUTF8?_eq_some_iff {bytes : ByteArray} {text : String} :
    String.fromUTF8? bytes = some text ↔ text.toUTF8 = bytes := by
  unfold String.fromUTF8?
  constructor
  · intro h
    split at h
    · rw [← Option.some.inj h]
      rfl
    · cases h
  · rintro rfl
    exact dif_pos text.isValidUTF8

namespace Settings

theorem ofBytes_eq_ok_iff {bytes : ByteArray} {s : Settings} :
    ofBytes bytes = .ok s ↔ ∃ text : String, text.toUTF8 = bytes ∧ ofText text = .ok s := by
  unfold ofBytes
  constructor
  · intro h
    split at h
    · next text htext => exact ⟨text, Text.fromUTF8?_eq_some_iff.1 htext, h⟩
    · cases h
  · rintro ⟨text, htext, h⟩
    rw [Text.fromUTF8?_eq_some_iff.2 htext]
    exact h

/-- Settings are read as they were written, also with a line break behind them. -/
theorem ofText_of_printed {s : Settings} {text : String}
    (h : text = s.toText ∨ text = s.toText ++ "\n") : ofText text = .ok s := by
  have hbreak : Json.Blank ['\n'] := by decide
  refine ofText_of_written ?_
  rcases h with rfl | rfl
  · exact written_toText s
  · rw [String.toList_append]
    exact (written_toText s).append hbreak

end Settings

namespace CommandLine

/-! ## Where settings come from -/

/-- What a file with settings gives, if one is named. -/
inductive FileSettings (files : Files) : Option String → Option Settings → Prop
  | unnamed : FileSettings files none none
  | named {path text : String} {s : Settings} (hread : files path = .ok text.toUTF8)
      (htext : Settings.ofText text = .ok s) : FileSettings files (some path) (some s)

/-- `s` has the values that options give, failing these the values of a file, and failing these the
defaults. The two switches of the options only change a value one way. -/
structure Merged (o : MachineOptions) (file : Option Settings) (s : Settings) : Prop where
  memorySize : s.memorySize = (o.memory.or (file.map (·.memorySize))).getD 0x1000
  stackSize : s.stackSize = (o.stack.or (file.map (·.stackSize))).getD 12
  width : s.width = (o.width.or (file.map (·.width))).getD 64
  height : s.height = (o.height.or (file.map (·.height))).getD 32
  compactLayout : s.compactLayout = ((file.map (·.compactLayout)).getD true && !o.noCompact)
  legacyMode : s.legacyMode = ((file.map (·.legacyMode)).getD false || o.legacy)

theorem merged_iff {o : MachineOptions} {file : Option Settings} {s : Settings} :
    Merged o file s ↔ s = o.merge (file.getD {}) := by
  have hnumber : ∀ {α : Type} (given : Option α) (field : Settings → α),
      (given.or (file.map field)).getD (field {}) = given.getD (field (file.getD {})) := by
    intro α given field
    cases given <;> cases file <;> rfl
  have hswitch : ∀ field : Settings → Bool,
      (file.map field).getD (field {}) = field (file.getD {}) := by
    intro field
    cases file <;> rfl
  have hmemory := hnumber o.memory (·.memorySize)
  have hstack := hnumber o.stack (·.stackSize)
  have hwidth := hnumber o.width (·.width)
  have hheight := hnumber o.height (·.height)
  have hcompact := congrArg (· && !o.noCompact) (hswitch (·.compactLayout))
  have hlegacy := congrArg (· || o.legacy) (hswitch (·.legacyMode))
  constructor
  · intro h
    exact Settings.ext (h.memorySize.trans hmemory) (h.stackSize.trans hstack)
      (h.width.trans hwidth) (h.height.trans hheight) (h.compactLayout.trans hcompact)
      (h.legacyMode.trans hlegacy)
  · rintro rfl
    exact ⟨hmemory.symm, hstack.symm, hwidth.symm, hheight.symm, hcompact.symm, hlegacy.symm⟩

theorem base_eq_ok_iff {o : MachineOptions} {files : Files} {s : Settings} :
    o.base files = .ok s ↔ ∃ file, FileSettings files o.config file ∧ file.getD {} = s := by
  unfold MachineOptions.base
  constructor
  · intro h
    split at h
    · next hconfig =>
      cases h
      exact ⟨none, hconfig ▸ .unnamed, rfl⟩
    · next path hconfig =>
      split at h
      · cases h
      · next bytes hread =>
        obtain ⟨text, rfl, htext⟩ := Settings.ofBytes_eq_ok_iff.1 h
        exact ⟨some s, hconfig ▸ .named hread htext, rfl⟩
  · rintro ⟨file, hfile, rfl⟩
    generalize o.config = config at hfile
    cases hfile with
    | unnamed => rfl
    | named hread htext =>
      simp only [hread]
      exact Settings.ofBytes_eq_ok_iff.2 ⟨_, rfl, htext⟩

theorem settings_eq_ok_iff {o : MachineOptions} {files : Files} {s : Settings} :
    o.settings files = .ok s ↔ ∃ file, FileSettings files o.config file ∧ Merged o file s ∧
      s.Valid := by
  simp only [merged_iff]
  unfold MachineOptions.settings
  constructor
  · intro h
    split at h
    · cases h
    · next t hbase =>
      obtain ⟨file, hfile, rfl⟩ := base_eq_ok_iff.1 hbase
      split at h
      · next hvalid =>
        cases h
        exact ⟨file, hfile, rfl, hvalid⟩
      · cases h
  · rintro ⟨file, hfile, rfl, hvalid⟩
    have hok : (o.merge (file.getD {})).validate = .ok () := hvalid
    simp only [base_eq_ok_iff.2 ⟨file, hfile, rfl⟩, hok]

/-! ## Printing settings -/

theorem settings_of_file {files : Files} {path text : String} {s : Settings}
    (hread : files path = .ok text.toUTF8) (htext : Settings.ofText text = .ok s) (h : s.Valid) :
    ({ config := some path } : MachineOptions).settings files = .ok s := by
  have hmerged : s = ({ config := some path } : MachineOptions).merge s := by
    simp [MachineOptions.merge]
  exact settings_eq_ok_iff.2 ⟨some s, .named hread htext, merged_iff.2 hmerged, h⟩

theorem setOnce_config {path : String} (h : path ≠ "") :
    ({} : Given).setOnce .config path = .ok { machine := { config := some path } } := by
  have hpath : path.isEmpty = false := Bool.eq_false_iff.2 (mt String.isEmpty_iff.1 h)
  simp only [Given.setOnce, Given.has, Given.set, Given.readPath, hpath]
  rfl

/-- The command line that prints the settings in a file, its path behind an equals sign. -/
theorem read_config_attached {path : String} (h : path ≠ "") :
    read ["config", "--config=" ++ path] = .ok ⟨.config { config := some path }, false⟩ := by
  have hchars : ("--config=" ++ path).toList =
      '-' :: '-' :: (['c', 'o', 'n', 'f', 'i', 'g'] ++ '=' :: path.toList) := by
    rw [String.toList_append]
    rfl
  have hne : "--config=" ++ path ≠ "--" := fun heq => by
    rw [heq] at hchars
    cases hchars
  let p : Progress := { scope := some .config }
  have htake : takeArgument p ("--config=" ++ path) = p.takeOption .config (some path) := by
    rw [takeArgument, hchars]
    exact congrArg (fun value => p.takeOption .config (some value)) String.ofList_toList
  have henter : read ["config", "--config=" ++ path] = readArguments p ["--config=" ++ path] := rfl
  rw [henter, readArguments, if_neg hne, if_neg (by simp [p])]
  simp only [htake, p, Progress.takeOption, Progress.settle, Except.bind, setOnce_config h]
  rfl

/-- The path may stand on its own if it does not look like an option. -/
theorem read_config_apart {path : String} (h : path ≠ "") (hdash : path.toList.head? ≠ some '-') :
    read ["config", "--config", path] = .ok ⟨.config { config := some path }, false⟩ := by
  have hne : path ≠ "--" := by
    rintro rfl
    exact hdash rfl
  let p : Progress := { scope := some .config, pending := some (.config, none) }
  have htake : takeArgument p path = .ok { p with pending := some (.config, some path) } := by
    unfold takeArgument
    split
    · next heq => simp [heq] at hdash
    · next heq => simp [heq] at hdash
    · rfl
  have hpending : read ["config", "--config", path] = readArguments p [path] := rfl
  rw [hpending, readArguments, if_neg hne, if_neg (by simp [p])]
  simp only [htake, p, Except.bind, readArguments, Progress.finish, Progress.settle,
    setOnce_config h]
  rfl

theorem start_config {arguments : List String} {o : MachineOptions} {verbose : Bool}
    (h : read arguments = .ok ⟨.config o, verbose⟩) (env : Environment) :
    start env arguments = (.ended (config env o), []) := by
  simp only [start, h]

theorem config_of_settings {env : Environment} {o : MachineOptions} {s : Settings}
    (h : o.settings env.files = .ok s) :
    config env o = { code := 0, output := s.toText ++ "\n" } := by
  simp only [config, h]

theorem exists_settings_of_printed {env : Environment} {o : MachineOptions}
    (h : (config env o).output ≠ "") : ∃ s, o.settings env.files = .ok s := by
  unfold config at h
  split at h
  · exact absurd rfl h
  · next s hs => exact ⟨s, hs⟩

/-- Options give settings exactly if the file that they name, if any, holds settings and the
settings merged from the options, the file and the defaults are valid. Those are the settings that
they give : a value of the file that an option replaces need not be valid.

What a command prints is printed again by a command that reads its settings from a file with this
text and has no other options. The file may do without the line break behind the text. -/
theorem settings_of_options (env : Environment) (o : MachineOptions) :
    (∀ s, o.settings env.files = .ok s ↔
      ∃ file, FileSettings env.files o.config file ∧ Merged o file s ∧ s.Valid) ∧
    ∀ (arguments : List String) (verbose : Bool) (out : Outcome),
      read arguments = .ok ⟨.config o, verbose⟩ → start env arguments = (.ended out, []) →
      out.output ≠ "" →
      ∀ (again : Environment) (path text : String), path ≠ "" →
        again.files path = .ok text.toUTF8 → text = out.output ∨ text ++ "\n" = out.output →
        start again ["config", "--config=" ++ path] = (.ended out, []) ∧
        (path.toList.head? ≠ some '-' →
          start again ["config", "--config", path] = (.ended out, [])) := by
  refine ⟨fun s => settings_eq_ok_iff, ?_⟩
  intro arguments verbose out hread hstart hprinted again path text hpath hfile htext
  obtain rfl : config env o = out := by
    rw [start_config hread] at hstart
    cases hstart
    rfl
  obtain ⟨s, hs⟩ := exists_settings_of_printed hprinted
  obtain ⟨-, -, -, hvalid⟩ := settings_eq_ok_iff.1 hs
  have hparsed : Settings.ofText text = .ok s := by
    rw [config_of_settings hs] at htext
    refine Settings.ofText_of_printed (htext.symm.imp_left fun h => ?_)
    exact String.append_left_inj _ |>.1 h
  have hagain : config again { config := some path } = config env o := by
    rw [config_of_settings hs, config_of_settings (settings_of_file hfile hparsed hvalid)]
  rw [start_config (read_config_attached hpath), hagain]
  refine ⟨rfl, fun hdash => ?_⟩
  rw [start_config (read_config_apart hpath hdash), hagain]

/-- A width that no machine can have is no error in a file if an option replaces it, and what is
printed then is printed again. -/
theorem settings_of_options_overridden : ∃ (file : Settings) (env again : Environment)
    (out : Outcome), ¬file.Valid ∧ env.files "wide" = .ok file.toText.toUTF8 ∧
      start env ["config", "--config=wide", "--width", "64"] = (.ended out, []) ∧
      out.output = ({} : Settings).toText ++ "\n" ∧ again.files "fixed" = .ok out.output.toUTF8 ∧
      start again ["config", "--config", "fixed"] = (.ended out, []) := by
  let file : Settings := { width := 60 }
  let o : MachineOptions := { config := some "wide", width := some 64 }
  let env : Environment := { files := fun _ => .ok file.toText.toUTF8 }
  let again : Environment := { files := fun _ => .ok (config env o).output.toUTF8 }
  have hwidth : file.validate = .error (.widthUnaligned 60) := if_pos (by decide)
  have hinvalid : ¬file.Valid := fun h => by
    rw [Settings.Valid, hwidth] at h
    cases h
  have hread : read ["config", "--config=wide", "--width", "64"] = .ok ⟨.config o, false⟩ := rfl
  obtain ⟨hsettings, hagain⟩ := settings_of_options env o
  have hparsed : Settings.ofText file.toText = .ok file := Settings.ofText_of_printed (.inl rfl)
  have hs : o.settings env.files = .ok {} := (hsettings {}).2
    ⟨some file, .named rfl hparsed, ⟨rfl, rfl, rfl, rfl, rfl, rfl⟩, Settings.valid_default⟩
  have houtput : (config env o).output = ({} : Settings).toText ++ "\n" := by
    rw [config_of_settings hs]
  have hprinted : (config env o).output ≠ "" := by
    rw [houtput]
    simp
  have hstart := start_config hread env
  obtain ⟨-, hapart⟩ := hagain _ false _ hread hstart hprinted again "fixed" _
    (by decide) rfl (.inl rfl)
  exact ⟨file, env, again, _, hinvalid, rfl, hstart, houtput, rfl, hapart (by decide)⟩

end CommandLine

end Chip8
