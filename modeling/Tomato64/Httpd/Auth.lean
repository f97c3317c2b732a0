import Tomato64.Core.Split
import Tomato64.Shared.Base64

/-!
# Basic authentication

`auth_check` decodes the credentials into a buffer of fixed size, cuts them at
the first colon and compares both parts with the configured ones as C strings.
-/

namespace Tomato64.Auth

open Base64 List Split Text

inductive AuthResult
  | none
  | ok
  | bad
  deriving DecidableEq

/-- `nvram_get`. -/
abbrev NvramGet := String → Option Bytes

def userDefault : Bytes := bytes "root"
def passDefault : Bytes := bytes "admin"

def authinfoSize : ℕ := 512

/-- A variable, or the default when it is unset or empty. -/
def orDefault (value : Option Bytes) (default : Bytes) : Bytes :=
  match value with
  | none => default
  | some [] => default
  | some text => text

variable (nvram : NvramGet)

def configuredUser : Bytes :=
  orDefault (nvram "http_username") userDefault

def configuredPassword : Bytes :=
  orDefault (nvram "http_passwd") passDefault

/-- The part of `auth_check` behind the decoder.  The decoded bytes end with a
NUL, and `strchr` and `strcmp` read them up to the first one. -/
def checkCredentials (authinfo : Bytes) : AuthResult :=
  match splitFirst 58 (cstr authinfo) with
  | none => .none
  | some (user, pass) =>
    if user = configuredUser nvram ∧ pass = configuredPassword nvram then
      .ok
    else .bad

def basicMark : Bytes := bytes "Basic "

/-- `auth_check`.  The header is a C string. -/
def authCheck (authorization : Option Bytes) : AuthResult :=
  match authorization with
  | none => .none
  | some header =>
    if header.take 6 ≠ basicMark then .none
    else
      let encoded := header.drop 6
      if intMax < encoded.length ∨
          authinfoSize ≤ base64DecodedLen encoded.length then .bad
      else
        let authinfo := base64Decode encoded
        if authinfoSize ≤ authinfo.length then .bad
        else checkCredentials nvram authinfo

/-! ## Comparing credentials -/

/-- The text that is encoded in the header. -/
def credentials (user password : Bytes) : Bytes :=
  user ++ 58 :: password

theorem checkCredentials_eq_ok_iff {nvram : NvramGet} {authinfo : Bytes}
    (huser : 58 ∉ configuredUser nvram) :
    checkCredentials nvram authinfo = .ok ↔
      cstr authinfo =
        credentials (configuredUser nvram) (configuredPassword nvram) := by
  rw [checkCredentials]
  constructor
  · intro hok
    split at hok
    · cases hok
    next user pass hcut =>
    split at hok
    · next hsame =>
      rw [(splitFirst_eq_some_iff.1 hcut).1, hsame.1, hsame.2]
      rfl
    · cases hok
  · intro htext
    rw [htext, credentials, splitFirst_append huser]
    exact if_pos ⟨rfl, rfl⟩

/-- Decoded credentials are read up to their first NUL. -/
theorem cstr_credentials_eq_iff {user password name secret : Bytes}
    (huser : 58 ∉ user) (hname : 58 ∉ name) (hnul : NulFree name) :
    cstr (credentials user password) = credentials name secret ↔
      user = name ∧ cstr password = secret := by
  by_cases hfree : NulFree user
  · have hread : cstr (credentials user password) =
        credentials user (cstr password) := by
      rw [credentials, cstr_append hfree]
      rfl
    rw [hread]
    constructor
    · intro hsame
      have hcuts := (splitFirst_append huser (cstr password)).symm.trans
        ((congrArg (splitFirst 58) hsame).trans
          (splitFirst_append hname secret))
      simpa using hcuts
    · rintro ⟨rfl, rfl⟩
      rfl
  · -- the first NUL stands before the colon, so no colon is read
    have hread : 58 ∉ cstr (credentials user password) := by
      rw [credentials, cstr_append_of_not_nulFree hfree]
      exact fun hmem => huser (( takeWhile_prefix _).subset hmem)
    constructor
    · intro hsame
      rw [hsame] at hread
      exact absurd (by simp [credentials]) hread
    · rintro ⟨rfl, _⟩
      exact absurd hnul hfree

/-! ## Headers -/

theorem take_basicMark (encoded : Bytes) :
    (basicMark ++ encoded).take 6 = basicMark :=
  take_left' (by decide)

theorem drop_basicMark (encoded : Bytes) :
    (basicMark ++ encoded).drop 6 = encoded :=
  drop_left' (by decide)

theorem authCheck_of_not_basic {nvram : NvramGet} {header : Bytes}
    (hheader : header.take 6 ≠ basicMark) :
    authCheck nvram (some header) = .none :=
  if_pos hheader

/-- Texts that may not fit into the buffer are refused before decoding. -/
theorem authCheck_of_long {nvram : NvramGet} {encoded : Bytes}
    (hlong : authinfoSize ≤ base64DecodedLen encoded.length) :
    authCheck nvram (some (basicMark ++ encoded)) = .bad := by
  rw [authCheck, if_neg (by simp [take_basicMark])]
  exact if_pos (.inr hlong)

/-- An accepted header decodes to the configured credentials. -/
theorem cstr_eq_of_authCheck_eq_ok {nvram : NvramGet} {encoded : Bytes}
    (huser : 58 ∉ configuredUser nvram)
    (hok : authCheck nvram (some (basicMark ++ encoded)) = .ok) :
    cstr (decodeLoop encoded 0 0) =
      credentials (configuredUser nvram) (configuredPassword nvram) := by
  rw [authCheck, if_neg (by simp [take_basicMark])] at hok
  simp only [drop_basicMark] at hok
  split at hok
  · cases hok
  next hlength =>
  split at hok
  · cases hok
  rw [← base64Decode_eq (Nat.not_lt.mp fun hlong => hlength (.inl hlong))]
  exact (checkCredentials_eq_ok_iff huser).1 hok

/-- A header of moderate length is judged by what it decodes to. -/
theorem authCheck_of_short {nvram : NvramGet} {encoded : Bytes}
    (hlength : encoded.length ≤ 680)
    (hdecoded : (decodeLoop encoded 0 0).length < authinfoSize) :
    authCheck nvram (some (basicMark ++ encoded)) =
      checkCredentials nvram (decodeLoop encoded 0 0) := by
  rw [authCheck, if_neg (by simp [take_basicMark])]
  simp only [drop_basicMark]
  have hintMax : intMax = 2147483647 := rfl
  have hsize : authinfoSize = 512 := rfl
  have hlen : base64DecodedLen encoded.length =
      (encoded.length + 3) / 4 * 3 := if_neg (by omega)
  rw [base64Decode_eq (by omega), hlen, if_neg (by omega), if_neg (by omega)]

/-- The number of base64 digits of a text. -/
def digitCount (text : Bytes) : ℕ :=
  (4 * text.length + 2) / 3

theorem length_digits (text : Bytes) :
    ((packed text).map xlat).length = digitCount text := by
  rw [length_map, length_packed, digitCount]

variable {count : ℕ}

/-- What is left of an encoded text that is cut behind its digits. -/
theorem base64Encode_take_of_le {text : Bytes}
    (hcount : digitCount text ≤ count) :
    ∃ pads, (base64Encode text).take count =
      (packed text).map xlat ++ replicate pads 61 := by
  have hlength := length_digits text
  rw [base64Encode_eq, take_append,
    take_of_length_le (by omega), take_replicate]
  exact ⟨_, rfl⟩

theorem base64Encode_take_of_lt {text : Bytes}
    (hcount : count < digitCount text) :
    (base64Encode text).take count = ((packed text).take count).map xlat := by
  have hlength := length_digits text
  rw [base64Encode_eq, take_append_of_le_length (by omega), map_take]

/-- A header is accepted exactly for the configured credentials, read as C
strings, whether or not its padding is complete. -/
theorem authCheck_encoded_iff {nvram : NvramGet} {user password : Bytes}
    (hconfigured : 58 ∉ configuredUser nvram)
    (hnul : NulFree (configuredUser nvram)) (huser : 58 ∉ user)
    (hfits : (credentials user password).length ≤ 510)
    (hcount : digitCount (credentials user password) ≤ count) :
    authCheck nvram (some (basicMark ++
      (base64Encode (credentials user password)).take count)) = .ok ↔
        user = configuredUser nvram ∧
          cstr password = configuredPassword nvram := by
  have hlength : ((base64Encode (credentials user password)).take
      count).length ≤ 680 := by
    rw [length_take, length_base64Encode]
    omega
  obtain ⟨pads, hpads⟩ := base64Encode_take_of_le hcount
  have hdecoded : decodeLoop ((base64Encode (credentials user password)).take
      count) 0 0 = credentials user password := by
    rw [hpads, decodeLoop_packed]
  rw [authCheck_of_short hlength (by
      rw [hdecoded, authinfoSize]
      omega), hdecoded, checkCredentials_eq_ok_iff hconfigured,
    cstr_credentials_eq_iff huser hconfigured hnul]

/-- The header of the configured credentials is refused as soon as one of its
digits is missing. -/
theorem authCheck_truncated {nvram : NvramGet}
    (hconfigured : 58 ∉ configuredUser nvram) (hcount : count < 6 + digitCount
      (credentials (configuredUser nvram) (configuredPassword nvram))) :
    authCheck nvram (some ((basicMark ++ base64Encode
      (credentials (configuredUser nvram)
        (configuredPassword nvram))).take count)) ≠ .ok := by
  set text := credentials (configuredUser nvram) (configuredPassword nvram)
    with htext
  have hmark : basicMark.length = 6 := by decide
  by_cases hshort : count < 6
  · have hnotBasic : ((basicMark ++ base64Encode text).take count).take 6 ≠
        basicMark := by
      intro hsame
      have hlength := congrArg List.length hsame
      rw [length_take, length_take, hmark] at hlength
      omega
    rw [authCheck_of_not_basic hnotBasic]
    decide
  · have hdigits : count - 6 < digitCount text := by omega
    rw [take_append, take_of_length_le (by omega), hmark]
    intro hok
    have hread := cstr_eq_of_authCheck_eq_ok hconfigured hok
    have hdecoded : decodeLoop ((base64Encode text).take (count - 6)) 0 0 =
        text.take ((count - 6) * 3 / 4) := by
      rw [base64Encode_take_of_lt hdigits, ← append_nil (List.map _ _)]
      exact decodeLoop_take (by rw [length_packed]; exact hdigits.le) 0
    rw [← htext] at hread
    have hlength := congrArg List.length hread
    have hle := length_cstr_le (text.take ((count - 6) * 3 / 4))
    rw [hdecoded] at hlength
    rw [length_take] at hle
    rw [digitCount] at hdigits
    omega

/-- Basic authentication accepts the configured credentials, as C strings, and
nothing else.  Only the padding may be missing. -/
theorem authCheck_exact {nvram : NvramGet}
    (hconfigured : 58 ∉ configuredUser nvram)
    (hnul : NulFree (configuredUser nvram)) :
    (∀ user password count, 58 ∉ user →
      (credentials user password).length ≤ 510 →
      digitCount (credentials user password) ≤ count →
        (authCheck nvram (some (basicMark ++
          (base64Encode (credentials user password)).take count)) = .ok ↔
            user = configuredUser nvram ∧
              cstr password = configuredPassword nvram)) ∧
    authCheck nvram none ≠ .ok ∧
    (∀ header, ¬ basicMark <+: header →
      authCheck nvram (some header) ≠ .ok) ∧
    ∀ count < 6 + digitCount
        (credentials (configuredUser nvram) (configuredPassword nvram)),
      authCheck nvram (some ((basicMark ++ base64Encode
        (credentials (configuredUser nvram)
          (configuredPassword nvram))).take count)) ≠ .ok := by
  refine ⟨?_, nofun, ?_, ?_⟩
  · intro user password count huser hfits hcount
    exact authCheck_encoded_iff hconfigured hnul huser hfits hcount
  · intro header hheader
    have hnotBasic : header.take 6 ≠ basicMark := by
      intro hsame
      exact hheader (hsame ▸ take_prefix 6 header)
    rw [authCheck_of_not_basic hnotBasic]
    decide
  · intro count hcount
    exact authCheck_truncated hconfigured hcount

/-- A router with the default user and the password `secret`. -/
def secretConfig : NvramGet := fun name =>
  if name = "http_passwd" then some (bytes "secret") else none

theorem authCheck_exact_secret :
    authCheck secretConfig (some (basicMark ++ (base64Encode
      (credentials (bytes "root") (bytes "secret"))).take 16)) = .ok := by
  have hconfigured : 58 ∉ configuredUser secretConfig := by decide
  have hnul : NulFree (configuredUser secretConfig) := by decide
  have hexact := (authCheck_exact hconfigured hnul).1 (bytes "root")
    (bytes "secret") 16 (by decide) (by decide)
    (by decide)
  exact hexact.2 (by decide)

/-- The password `secret` followed by a NUL and more text. -/
def paddedSecret : Bytes := bytes "secret" ++ [0, 120]

/-- A password of the greatest length that the buffer has room for. -/
def longConfig : NvramGet := fun name =>
  if name = "http_passwd" then some (replicate 506 120) else none

/-- A header that has lost its last character is accepted, so is a password
that goes on behind a NUL, and credentials of 511 bytes are refused. -/
theorem authCheck_not_exact :
    (authCheck secretConfig (some ((basicMark ++ base64Encode
        (credentials (bytes "root") (bytes "secret"))).take 21)) = .ok ∧
      21 < (basicMark ++ base64Encode
        (credentials (bytes "root") (bytes "secret"))).length) ∧
    (authCheck secretConfig (some (basicMark ++ base64Encode
        (credentials (bytes "root") paddedSecret))) = .ok ∧
      paddedSecret ≠ configuredPassword secretConfig) ∧
    (authCheck longConfig (some (basicMark ++ base64Encode
        (credentials (configuredUser longConfig)
          (configuredPassword longConfig)))) = .bad ∧
      (credentials (configuredUser longConfig)
        (configuredPassword longConfig)).length < authinfoSize) := by
  refine ⟨by decide, by decide, ?_, by decide +kernel⟩
  apply authCheck_of_long
  rw [length_base64Encode]
  decide +kernel

end Tomato64.Auth
