import HelpAudit.Config.File
import HelpAudit.Proofs.EncodedText
import HelpAudit.Proofs.TomlTables
import HelpAudit.Proofs.WrittenFiles
import HelpAudit.Proofs.YamlDocuments

/-! Configurations that were saved. In both formats the text of a configuration holds it (`ofText?_toText`), as
    long as its numbers can be written; TOML has integers of 64 bits with a sign. A saved configuration is so
    loaded again, with all its texts and rules (`loadConfig_saveConfig`). -/

namespace HelpAudit

/-- The first number that is too large for a format. -/
def ConfigFormat.numberLimit : ConfigFormat → Nat
  | .toml => Toml.intLimit
  | .yaml => Json.wordLimit

/-- The text of a configuration holds it. -/
theorem Config.ofText?_toText {format : ConfigFormat} {config : Config}
    (hnumbers : config.NumbersBelow format.numberLimit) (hrules : (config.rules.map (·.1)).Nodup) :
    ofText? format (config.toText format) = some config := by
  cases format with
  | toml =>
    obtain ⟨value, hvalue, hdenotes⟩ := Toml.ofText?_render hnumbers hrules
    simp only [ofText?, toText, hvalue, Option.bind_some]
    exact DataFormat.config?_of_denotes hrules hdenotes
  | yaml =>
    obtain ⟨value, hvalue, hdenotes⟩ := Yaml.ofText?_render hnumbers hrules
    simp only [ofText?, toText, hvalue, Option.bind_some]
    exact DataFormat.config?_of_denotes hrules hdenotes

namespace FileSystem

theorem readText_of_write {system later : FileSystem} {path text : String}
    (h : system.write path (Text.utf8 text.toList) = .ok later) : later.readText path = .ok text := by
  have hdecode : Text.decodeUtf8? (Text.utf8 text.toList) = some text.toList :=
    Text.decodeUtf8?_eq_some_iff.mpr rfl
  rw [readText, read_write h]
  simp only [bind, Except.bind, hdecode, String.ofList_toList]

/-- A configuration that was saved at a path is loaded from there, in the format that the path asks for. -/
theorem loadConfig_saveConfig {system later : FileSystem} {path : String} {config : Config}
    (hnumbers : config.NumbersBelow (ConfigFormat.ofPath path).numberLimit)
    (hrules : (config.rules.map (·.1)).Nodup) (h : system.saveConfig path config = .ok later) :
    later.readText path = .ok (config.toText (.ofPath path)) ∧
      ∃ loaded, later.loadConfig path = .ok loaded ∧ loaded = config ∧ loaded.warnings = config.warnings := by
  have hwrite : system.write path (configBytes path config) = .ok later := by
    rw [saveConfig] at h
    split at h
    · cases h
      assumption
    · cases h
  have htext := readText_of_write hwrite
  refine ⟨htext, config, ?_, rfl, rfl⟩
  rw [loadConfig, htext]
  simp only [Config.ofText?_toText hnumbers hrules]

/-- A configuration with texts that look like other things, and with the largest number that both formats have. -/
def awkwardConfig : Config where
  version := "1.0 # \"x\"\n\n  'y'\t"
  settings := {
    threads := some 0
    dynamicParameters := { interpreter := "", interpreterArgs := ["- a", "true", "\n"], timeoutMs := Toml.intLimit - 1 } }
  rules := [("a: b", {}), ("? \u2028\r\n", { enabled := false }), ("", {})]

/-- A system with one folder. -/
def oneFolder : FileSystem := { root := .folder [("etc", .folder [])] }

/-- A configuration with awkward texts, saved and loaded in both formats. -/
theorem loadConfig_saveConfig_awkward :
    (∃ later, oneFolder.saveConfig "etc/audit.yml" awkwardConfig = .ok later ∧
      later.readText "etc/audit.yml" = .ok (awkwardConfig.toText (.ofPath "etc/audit.yml")) ∧
      ∃ loaded, later.loadConfig "etc/audit.yml" = .ok loaded ∧ loaded = awkwardConfig ∧
        loaded.warnings = awkwardConfig.warnings) ∧
    ∃ later, oneFolder.saveConfig "etc/audit.toml" awkwardConfig = .ok later ∧
      later.readText "etc/audit.toml" = .ok (awkwardConfig.toText (.ofPath "etc/audit.toml")) ∧
      ∃ loaded, later.loadConfig "etc/audit.toml" = .ok loaded ∧ loaded = awkwardConfig ∧
        loaded.warnings = awkwardConfig.warnings := by
  have hrules : (awkwardConfig.rules.map (·.1)).Nodup := by decide
  have hyaml : awkwardConfig.NumbersBelow (ConfigFormat.ofPath "etc/audit.yml").numberLimit :=
    ⟨by decide, by decide⟩
  have htoml : awkwardConfig.NumbersBelow (ConfigFormat.ofPath "etc/audit.toml").numberLimit :=
    ⟨by decide, by decide⟩
  obtain ⟨inYaml, hinYaml⟩ : ∃ later, oneFolder.saveConfig "etc/audit.yml" awkwardConfig = .ok later := ⟨_, rfl⟩
  obtain ⟨inToml, hinToml⟩ : ∃ later, oneFolder.saveConfig "etc/audit.toml" awkwardConfig = .ok later := ⟨_, rfl⟩
  exact ⟨⟨inYaml, hinYaml, loadConfig_saveConfig hyaml hrules hinYaml⟩,
    inToml, hinToml, loadConfig_saveConfig htoml hrules hinToml⟩

end FileSystem

end HelpAudit
