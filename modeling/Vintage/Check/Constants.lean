import Vintage.Listing.Occurrence
import Vintage.Check.Basic

/-!
# Constants that came or went

* `newConstants` — uses of constants that came with a later version.
* `removedConstants` — uses of constants that were deprecated or removed.
-/

namespace Vintage.Check

/-- Constants and the versions they came with. -/
def newConstantRows : List Feature.Introduction :=
  [⟨"PHP_VERSION_ID", "5.2.6", "5.2.7"⟩, ⟨"PHP_MAJOR_VERSION", "5.2.6", "5.2.7"⟩,
   ⟨"PHP_MINOR_VERSION", "5.2.6", "5.2.7"⟩, ⟨"PHP_RELEASE_VERSION", "5.2.6", "5.2.7"⟩,
   ⟨"PHP_EXTRA_VERSION", "5.2.6", "5.2.7"⟩, ⟨"E_DEPRECATED", "5.2", "5.3"⟩,
   ⟨"E_USER_DEPRECATED", "5.2", "5.3"⟩, ⟨"PHP_MAXPATHLEN", "5.3.0", "5.3.1"⟩,
   ⟨"ENT_HTML5", "5.3", "5.4"⟩, ⟨"ENT_SUBSTITUTE", "5.3", "5.4"⟩,
   ⟨"JSON_PRETTY_PRINT", "5.3", "5.4"⟩, ⟨"JSON_UNESCAPED_SLASHES", "5.3", "5.4"⟩,
   ⟨"JSON_UNESCAPED_UNICODE", "5.3", "5.4"⟩, ⟨"PASSWORD_BCRYPT", "5.4", "5.5"⟩,
   ⟨"PASSWORD_DEFAULT", "5.4", "5.5"⟩, ⟨"JSON_PRESERVE_ZERO_FRACTION", "5.6.5", "5.6.6"⟩,
   ⟨"PHP_INT_MIN", "5.6", "7.0"⟩, ⟨"PREG_JIT_STACKLIMIT_ERROR", "5.6", "7.0"⟩,
   ⟨"PHP_FD_SETSIZE", "7.0", "7.1"⟩, ⟨"PHP_OS_FAMILY", "7.1", "7.2"⟩,
   ⟨"PHP_FLOAT_EPSILON", "7.1", "7.2"⟩, ⟨"PHP_FLOAT_MAX", "7.1", "7.2"⟩,
   ⟨"PHP_FLOAT_MIN", "7.1", "7.2"⟩, ⟨"PHP_FLOAT_DIG", "7.1", "7.2"⟩,
   ⟨"PASSWORD_ARGON2I", "7.1", "7.2"⟩, ⟨"JSON_INVALID_UTF8_IGNORE", "7.1", "7.2"⟩,
   ⟨"JSON_INVALID_UTF8_SUBSTITUTE", "7.1", "7.2"⟩, ⟨"JSON_THROW_ON_ERROR", "7.2", "7.3"⟩,
   ⟨"PASSWORD_ARGON2ID", "7.2", "7.3"⟩, ⟨"MB_CASE_FOLD", "7.2", "7.3"⟩,
   ⟨"PHP_WINDOWS_EVENT_CTRL_C", "7.3", "7.4"⟩, ⟨"MB_ONIGURUMA_VERSION", "7.3", "7.4"⟩,
   ⟨"FILTER_FLAG_GLOBAL_RANGE", "8.1", "8.2"⟩]

/-- Constants that were deprecated or removed. -/
def removedConstantRows : List Feature.Withdrawal :=
  [⟨"CURLOPT_CLOSEPOLICY", none, some "5.6", none⟩,
   ⟨"CURLCLOSEPOLICY_LEAST_RECENTLY_USED", none, some "5.6", none⟩,
   ⟨"CURLCLOSEPOLICY_OLDEST", none, some "5.6", none⟩,
   ⟨"T_CHARACTER", none, some "7.0", none⟩,
   ⟨"MB_OVERLOAD_MAIL", some "7.2", some "8.0", none⟩,
   ⟨"MB_OVERLOAD_STRING", some "7.2", some "8.0", none⟩,
   ⟨"MB_OVERLOAD_REGEX", some "7.2", some "8.0", none⟩,
   ⟨"INTL_IDNA_VARIANT_2003", some "7.2", some "8.0", some "INTL_IDNA_VARIANT_UTS46"⟩,
   ⟨"FILTER_FLAG_SCHEME_REQUIRED", some "7.3", some "8.0", none⟩,
   ⟨"FILTER_FLAG_HOST_REQUIRED", some "7.3", some "8.0", none⟩,
   ⟨"CURLPIPE_HTTP1", some "7.4", none, none⟩,
   ⟨"ENCHANT_MYSPELL", some "8.0", none, none⟩,
   ⟨"ENCHANT_ISPELL", some "8.0", none, none⟩,
   ⟨"FILTER_SANITIZE_STRING", some "8.1", none, some "htmlspecialchars()"⟩,
   ⟨"FILTER_SANITIZE_STRIPPED", some "8.1", none, some "htmlspecialchars()"⟩,
   ⟨"FILE_BINARY", some "8.1", none, none⟩,
   ⟨"FILE_TEXT", some "8.1", none, none⟩,
   ⟨"MYSQLI_REFRESH_SLAVE", some "8.1", none, some "MYSQLI_REFRESH_REPLICA"⟩]

/-- Uses of constants that came with a later version. -/
def newConstants : Check where
  catalogue := .ofTable (Feature.introduced newConstantRows)
  wording := ⟨"The constant \"%s\""⟩
  applies := Listing.isGlobalConstant

/-- Uses of constants that were deprecated or removed. -/
def removedConstants : Check where
  catalogue := .ofTable (Feature.withdrawn removedConstantRows)
  wording := ⟨"The constant \"%s\""⟩
  applies := Listing.isGlobalConstant

end Vintage.Check
