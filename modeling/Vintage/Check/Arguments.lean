import Vintage.Listing.Item
import Vintage.Listing.Occurrence
import Vintage.Check.Basic

/-!
# Values passed to functions

* `literalArgument?` — an argument that is one plain string literal.
* `settingFindings` — settings passed to `ini_set` and `ini_get` that went.
* `modifierFindings` — the modifier `e` in options of multibyte regular expressions.
-/

namespace Vintage.Check

/-- The position and the text of an argument that is one plain string literal. -/
def literalArgument? (l : Listing) (i n : Nat) : Option (Nat × String) :=
  (l.argument? i n).bind fun item =>
    (l.firstIn? Token.isSignificant item.start item.stop).bind fun first =>
      (l.get? first).bind fun t =>
        if t.kind = .quotedText ∧
            (l.firstIn? Token.isSignificant (first + 1) item.stop).isNone then
          some (first, Text.unquote t.text)
        else none

/-! ## Settings -/

/-- Settings that were deprecated or removed. -/
def settingRows : List Feature.Withdrawal :=
  [⟨"define_syslog_variables", some "5.3", some "5.4", none⟩,
   ⟨"register_globals", some "5.3", some "5.4", none⟩,
   ⟨"register_long_arrays", some "5.3", some "5.4", none⟩,
   ⟨"magic_quotes_gpc", some "5.3", some "5.4", none⟩,
   ⟨"magic_quotes_runtime", some "5.3", some "5.4", none⟩,
   ⟨"magic_quotes_sybase", some "5.3", some "5.4", none⟩,
   ⟨"allow_call_time_pass_reference", some "5.3", some "5.4", none⟩,
   ⟨"highlight.bg", some "5.3", some "5.4", none⟩,
   ⟨"session.bug_compat_42", some "5.3", some "5.4", none⟩,
   ⟨"session.bug_compat_warn", some "5.3", some "5.4", none⟩,
   ⟨"y2k_compliance", some "5.3", some "5.4", none⟩,
   ⟨"zend.ze1_compatibility_mode", none, some "5.3", none⟩,
   ⟨"safe_mode", some "5.3", some "5.4", none⟩,
   ⟨"safe_mode_gid", some "5.3", some "5.4", none⟩,
   ⟨"safe_mode_include_dir", some "5.3", some "5.4", none⟩,
   ⟨"safe_mode_exec_dir", some "5.3", some "5.4", none⟩,
   ⟨"safe_mode_allowed_env_vars", some "5.3", some "5.4", none⟩,
   ⟨"safe_mode_protected_env_vars", some "5.3", some "5.4", none⟩,
   ⟨"iconv.input_encoding", some "5.6", none, some "default_charset"⟩,
   ⟨"iconv.output_encoding", some "5.6", none, some "default_charset"⟩,
   ⟨"iconv.internal_encoding", some "5.6", none, some "default_charset"⟩,
   ⟨"mbstring.http_input", some "5.6", none, some "default_charset"⟩,
   ⟨"mbstring.http_output", some "5.6", none, some "default_charset"⟩,
   ⟨"mbstring.internal_encoding", some "5.6", none, some "default_charset"⟩,
   ⟨"always_populate_raw_post_data", some "5.6", some "7.0", none⟩,
   ⟨"asp_tags", none, some "7.0", none⟩,
   ⟨"xsl.security_prefs", none, some "7.0", none⟩,
   ⟨"session.entropy_file", none, some "7.1", none⟩,
   ⟨"session.entropy_length", none, some "7.1", none⟩,
   ⟨"session.hash_function", none, some "7.1", none⟩,
   ⟨"session.hash_bits_per_character", none, some "7.1", none⟩,
   ⟨"mbstring.func_overload", some "7.2", some "8.0", none⟩,
   ⟨"track_errors", some "7.2", some "8.0", none⟩,
   ⟨"pdo_odbc.db2_instance_name", some "7.3", some "8.0", none⟩,
   ⟨"allow_url_include", some "7.4", none, none⟩,
   ⟨"assert.quiet_eval", none, some "8.0", none⟩,
   ⟨"date.sunrise_zenith", some "8.1", none, none⟩,
   ⟨"date.sunset_zenith", some "8.1", none, none⟩,
   ⟨"filter.default", some "8.1", none, none⟩,
   ⟨"filter.default_flags", some "8.1", none, none⟩,
   ⟨"oci8.old_oci_close_semantics", some "8.1", none, none⟩,
   ⟨"mysqlnd.fetch_data_copy", none, some "8.1", none⟩,
   ⟨"session.sid_length", some "8.4", none, none⟩,
   ⟨"session.sid_bits_per_character", some "8.4", none, none⟩]

/-- The token at a position is spelled like one of the names. -/
def spellsOneOf (l : Listing) (i : Nat) (names : List String) : Bool :=
  (l.get? i).any fun t => names.any t.spells

/-- Settings that were deprecated or removed. -/
def removedSettings : Check where
  catalogue := .ofTable (Feature.withdrawn settingRows)
  wording := ⟨"INI directive '%s'"⟩
  applies := fun l i => spellsOneOf l i ["ini_set", "ini_get"] && l.isGlobalCall i

/-- A finding about a setting that is only read is a warning: reading a removed setting does not
fail. -/
def soften (reading : Bool) (f : Finding) : Finding :=
  if reading then { f with severity := .warning } else f

/-- The findings for the setting passed to the call at a position. -/
def settingReport (l : Listing) (range : VersionRange) (i : Nat) : List Finding :=
  match literalArgument? l i 0 with
  | none => []
  | some (position, name) =>
    match removedSettings.catalogue.find? name with
    | some f =>
      (removedSettings.report l position f range).map (soften (spellsOneOf l i ["ini_get"]))
    | none => []

/-- The findings for all settings passed to `ini_set` and `ini_get`. -/
def settingFindings (l : Listing) (target : Target) : List Finding :=
  (removedSettings.uses l [.name]).flatMap (settingReport l target.range)

/-! ## Modifiers of regular expressions -/

/-- Functions with the place of their options among the arguments, counted from zero. -/
def optionArguments : List (String × Nat) :=
  [("mb_ereg_replace", 3), ("mb_eregi_replace", 3), ("mb_regex_set_options", 0),
   ("mb_ereg_search_init", 2), ("mb_ereg_search", 1), ("mb_ereg_search_pos", 1),
   ("mb_ereg_search_regs", 1)]

/-- The place of the options among the arguments of the function at a position. -/
def optionsPlace? (l : Listing) (i : Nat) : Option Nat :=
  (l.get? i).bind fun t => (optionArguments.find? fun row => t.spells row.1).map (·.2)

/-- The modifier that makes the replacement be evaluated as code. -/
def evalModifier : Except FeatureError Feature :=
  Feature.ofEntries "e"
    [.fact "7.1" .deprecated, .fact "8.0" .removed, .alternative "mb_ereg_replace_callback()",
     .valueCheck .regexOptions]

/-- The modifier `e`. -/
def removedModifiers : Check where
  catalogue := .ofTable (evalModifier.map fun f => [f])
  wording := ⟨"The Mbstring regex \"%s\" modifier"⟩
  applies := fun l i => (optionsPlace? l i).isSome && l.isGlobalCall i

/-- The options have the modifier that the feature stands for. -/
def usesModifier (f : Feature) (options : String) : Bool :=
  f.valueCheck.any fun check => !check.accepts ("'" ++ options ++ "'")

/-- The findings for the options passed to the call at a position. -/
def modifierReport (l : Listing) (range : VersionRange) (f : Feature) (i : Nat) : List Finding :=
  match (optionsPlace? l i).bind (literalArgument? l i) with
  | none => []
  | some (position, options) =>
    if usesModifier f options then removedModifiers.report l position f range else []

/-- The findings for all options of multibyte regular expressions. -/
def modifierFindings (l : Listing) (target : Target) : List Finding :=
  match removedModifiers.catalogue.find? "e" with
  | none => []
  | some f => (removedModifiers.uses l [.name]).flatMap (modifierReport l target.range f)

end Vintage.Check
