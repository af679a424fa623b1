import Vintage.Listing.Occurrence
import Vintage.Check.Basic

/-!
# Functions that came or went

* `newFunctions` — calls of functions that came with a later version.
* `removedFunctions` — calls of functions that were deprecated or removed.
-/

namespace Vintage.Check

/-- Functions and the versions they came with. -/
def newFunctionRows : List Feature.Introduction :=
  [⟨"array_replace", "5.2", "5.3"⟩, ⟨"array_replace_recursive", "5.2", "5.3"⟩,
   ⟨"lcfirst", "5.2", "5.3"⟩, ⟨"gc_enable", "5.2", "5.3"⟩, ⟨"get_called_class", "5.2", "5.3"⟩,
   ⟨"hex2bin", "5.3", "5.4"⟩, ⟨"http_response_code", "5.3", "5.4"⟩,
   ⟨"session_status", "5.3", "5.4"⟩, ⟨"class_uses", "5.3", "5.4"⟩, ⟨"array_column", "5.4", "5.5"⟩,
   ⟨"boolval", "5.4", "5.5"⟩, ⟨"json_last_error_msg", "5.4", "5.5"⟩,
   ⟨"password_hash", "5.4", "5.5"⟩, ⟨"password_verify", "5.4", "5.5"⟩,
   ⟨"password_needs_rehash", "5.4", "5.5"⟩, ⟨"hash_pbkdf2", "5.4", "5.5"⟩,
   ⟨"hash_equals", "5.5", "5.6"⟩, ⟨"gmp_root", "5.5", "5.6"⟩, ⟨"random_bytes", "5.6", "7.0"⟩,
   ⟨"random_int", "5.6", "7.0"⟩, ⟨"intdiv", "5.6", "7.0"⟩, ⟨"error_clear_last", "5.6", "7.0"⟩,
   ⟨"preg_replace_callback_array", "5.6", "7.0"⟩, ⟨"is_iterable", "7.0", "7.1"⟩,
   ⟨"curl_multi_errno", "7.0", "7.1"⟩, ⟨"spl_object_id", "7.1", "7.2"⟩,
   ⟨"mb_scrub", "7.1", "7.2"⟩, ⟨"stream_isatty", "7.1", "7.2"⟩, ⟨"array_key_first", "7.2", "7.3"⟩,
   ⟨"array_key_last", "7.2", "7.3"⟩, ⟨"is_countable", "7.2", "7.3"⟩, ⟨"hrtime", "7.2", "7.3"⟩,
   ⟨"mb_str_split", "7.3", "7.4"⟩, ⟨"get_mangled_object_vars", "7.3", "7.4"⟩,
   ⟨"password_algos", "7.3", "7.4"⟩, ⟨"str_contains", "7.4", "8.0"⟩,
   ⟨"str_starts_with", "7.4", "8.0"⟩, ⟨"str_ends_with", "7.4", "8.0"⟩, ⟨"fdiv", "7.4", "8.0"⟩,
   ⟨"get_debug_type", "7.4", "8.0"⟩, ⟨"get_resource_id", "7.4", "8.0"⟩,
   ⟨"array_is_list", "8.0", "8.1"⟩, ⟨"enum_exists", "8.0", "8.1"⟩, ⟨"fsync", "8.0", "8.1"⟩,
   ⟨"ini_parse_quantity", "8.1", "8.2"⟩, ⟨"json_validate", "8.2", "8.3"⟩,
   ⟨"mb_str_pad", "8.2", "8.3"⟩, ⟨"array_find", "8.3", "8.4"⟩, ⟨"array_any", "8.3", "8.4"⟩,
   ⟨"array_all", "8.3", "8.4"⟩]

/-- Functions that were deprecated or removed. -/
def removedFunctionRows : List Feature.Withdrawal :=
  [⟨"call_user_method", some "4.1", some "7.0", some "call_user_func()"⟩,
   ⟨"call_user_method_array", some "4.1", some "7.0", some "call_user_func_array()"⟩,
   ⟨"define_syslog_variables", some "5.3", some "5.4", none⟩,
   ⟨"session_register", some "5.3", some "5.4", some "$_SESSION"⟩,
   ⟨"session_unregister", some "5.3", some "5.4", some "$_SESSION"⟩,
   ⟨"session_is_registered", some "5.3", some "5.4", some "$_SESSION"⟩,
   ⟨"ereg", some "5.3", some "7.0", some "preg_match()"⟩,
   ⟨"eregi", some "5.3", some "7.0", some "preg_match()"⟩,
   ⟨"ereg_replace", some "5.3", some "7.0", some "preg_replace()"⟩,
   ⟨"eregi_replace", some "5.3", some "7.0", some "preg_replace()"⟩,
   ⟨"split", some "5.3", some "7.0", some "preg_split()"⟩,
   ⟨"spliti", some "5.3", some "7.0", some "preg_split()"⟩,
   ⟨"sql_regcase", some "5.3", some "7.0", none⟩,
   ⟨"set_magic_quotes_runtime", some "5.3", some "7.0", none⟩,
   ⟨"magic_quotes_runtime", some "5.3", some "7.0", none⟩,
   ⟨"set_socket_blocking", some "5.4", some "7.0", some "stream_set_blocking()"⟩,
   ⟨"mcrypt_generic_end", some "5.4", some "7.0", some "mcrypt_generic_deinit()"⟩,
   ⟨"create_function", some "7.2", some "8.0", some "an anonymous function"⟩,
   ⟨"each", some "7.2", some "8.0", some "a foreach loop or ArrayIterator"⟩,
   ⟨"read_exif_data", some "7.2", some "8.0", some "exif_read_data()"⟩,
   ⟨"gmp_random", some "7.2", some "8.0", some "gmp_random_bits() or gmp_random_range()"⟩,
   ⟨"png2wbmp", some "7.2", some "8.0", some "imagecreatefrompng() and imagewbmp()"⟩,
   ⟨"jpeg2wbmp", some "7.2", some "8.0", some "imagecreatefromjpeg() and imagewbmp()"⟩,
   ⟨"fgetss", some "7.3", some "8.0", none⟩,
   ⟨"image2wbmp", some "7.3", some "8.0", some "imagewbmp()"⟩,
   ⟨"money_format", some "7.4", some "8.0", some "NumberFormatter::formatCurrency()"⟩,
   ⟨"ezmlm_hash", some "7.4", some "8.0", none⟩,
   ⟨"restore_include_path", some "7.4", some "8.0", some "ini_restore('include_path')"⟩,
   ⟨"get_magic_quotes_gpc", some "7.4", some "8.0", none⟩,
   ⟨"get_magic_quotes_runtime", some "7.4", some "8.0", none⟩,
   ⟨"hebrevc", some "7.4", some "8.0", none⟩,
   ⟨"convert_cyr_string", some "7.4", some "8.0",
     some "mb_convert_encoding(), iconv() or UConverter"⟩,
   ⟨"strftime", some "8.1", none, some "date() or IntlDateFormatter::format()"⟩,
   ⟨"gmstrftime", some "8.1", none, some "date() or IntlDateFormatter::format()"⟩,
   ⟨"date_sunrise", some "8.1", none, some "date_sun_info()"⟩,
   ⟨"date_sunset", some "8.1", none, some "date_sun_info()"⟩,
   ⟨"mhash", some "8.1", none, some "the hash_*() functions"⟩,
   ⟨"odbc_result_all", some "8.1", none, none⟩,
   ⟨"utf8_encode", some "8.2", none, some "mb_convert_encoding()"⟩,
   ⟨"utf8_decode", some "8.2", none, some "mb_convert_encoding()"⟩]

/-- Calls of functions that came with a later version. -/
def newFunctions : Check where
  catalogue := .ofTable (Feature.introduced newFunctionRows)
  wording := ⟨"The function %s()"⟩
  applies := Listing.isGlobalCall

/-- Calls of functions that were deprecated or removed. -/
def removedFunctions : Check where
  catalogue := .ofTable (Feature.withdrawn removedFunctionRows)
  wording := ⟨"Function %s()"⟩
  applies := Listing.isGlobalCall

end Vintage.Check
