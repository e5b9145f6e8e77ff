/-
Purpose: The texts people read off a screen and type back
  (`linux/device/go/internal/authd/offlinecode.go` and `credential.go`): the
  8-character codes, the offline response, and the persistent credential, with
  the string functions they are read by.
Trusted boundary: none
-/
import Mathlib.Algebra.GroupWithZero.Nat
import Mathlib.Algebra.Ring.Int.Defs
import Mathlib.Data.List.Basic

namespace HelixKit.Authd

abbrev Bytes : Type := List UInt8

/-- A 64-bit `int`: arithmetic wraps. -/
def wrap64 (n : Int) : Int := Int.bmod n (2 ^ 64)

/-! ### Strings -/

/-- `unicode.IsSpace`. -/
def isSpace (c : Char) : Bool :=
  c.toNat ∈ [0x09, 0x0A, 0x0B, 0x0C, 0x0D, 0x20, 0x85, 0xA0, 0x1680, 0x2028, 0x2029, 0x202F,
    0x205F, 0x3000] || (0x2000 ≤ c.toNat && c.toNat ≤ 0x200A)

/-- `strings.TrimSpace`. -/
def trimSpace (s : String) : String :=
  .ofList ((s.toList.dropWhile isSpace).reverse.dropWhile isSpace).reverse

/-- `unicode.ToUpper` on the runes whose upper case is ASCII: the small letters,
the dotless i and the long s.  No other rune has an ASCII upper case, and every
text compared with an upper-case one here is ASCII, so the others stay. -/
def upperRune (c : Char) : Char :=
  if c.toNat = 0x131 then 'I' else if c.toNat = 0x17F then 'S' else c.toUpper

/-- `unicode.ToLower` on the runes whose lower case is ASCII: the capital
letters, the dotted I and the Kelvin sign; the others stay. -/
def lowerRune (c : Char) : Char :=
  if c.toNat = 0x130 then 'i' else if c.toNat = 0x212A then 'k' else c.toLower

/-- `strings.ToUpper`. -/
def toUpper (s : String) : String := .ofList (s.toList.map upperRune)

/-- `strings.ToLower`. -/
def toLower (s : String) : String := .ofList (s.toList.map lowerRune)

/-- The digits of `strconv.Atoi`. -/
def digitsValue : List Char → Option Nat
  | [] => none
  | digits =>
    if digits.all Char.isDigit then
      some (digits.foldl (fun n c => 10 * n + (c.toNat - '0'.toNat)) 0)
    else none

/-- `strconv.Atoi`; `none` is any of its errors. -/
def atoi (s : String) : Option Int := do
  let n : Int ← match s.toList with
    | '-' :: digits => (digitsValue digits).map fun n => -(n : Int)
    | '+' :: digits => (digitsValue digits).map Int.ofNat
    | digits => (digitsValue digits).map Int.ofNat
  if -(2 ^ 63) ≤ n ∧ n < 2 ^ 63 then some n else none

/-- What stands before the first underscore and what stands after it. -/
def splitUnderscore : List Char → Option (List Char × List Char)
  | [] => none
  | c :: rest =>
    if c = '_' then some ([], rest)
    else (splitUnderscore rest).map fun (before, after) => (c :: before, after)

/-! ### Codes -/

def codeAlphabet : List Char := "ABCDEFGHJKLMNPQRSTUVWXYZ23456789".toList
def codeRawBytes : Nat := 5
def codeChars : Nat := 8
def codeGroup : Nat := 4
def offlineDomain : Bytes := [0x48, 0x58, 0x4F, 0x46, 0x46, 0x31]

/-- The last `count` digits of `n` in base `2 ^ bits`, most significant first. -/
def digitsOf (bits count n : Nat) : List Nat :=
  (List.range count).reverse.map fun i => n / 2 ^ (bits * i) % 2 ^ bits

/-- The number whose digits in base `2 ^ bits` these are. -/
def packed (bits : Nat) (digits : List Nat) : Nat :=
  digits.foldl (fun n digit => n * 2 ^ bits + digit) 0

/-- `encodeCode`; `none` is its error. -/
def encodeCode (raw : Bytes) : Option String :=
  if raw.length ≠ codeRawBytes then none
  else some (.ofList ((digitsOf 5 codeChars (packed 8 (raw.map UInt8.toNat))).map
    fun digit => codeAlphabet.getD digit 'A'))

def normalizeCode (code : String) : String :=
  .ofList ((toUpper (trimSpace code)).toList.filter fun c => c ≠ '-' && c ≠ ' ')

/-- `decodeCode`; `none` is its error. -/
def decodeCode (code : String) : Option Bytes :=
  let normalized := normalizeCode code
  if normalized.utf8ByteSize ≠ codeChars then none
  else do
    let digits ← normalized.toList.mapM fun c => codeAlphabet.idxOf? c
    return (digitsOf 8 codeRawBytes (packed 5 digits)).map UInt8.ofNat

/-- `formatCode`; the slices cut bytes, which for a code are its characters. -/
def formatCode (code : String) : String :=
  let normalized := normalizeCode code
  if normalized.utf8ByteSize ≠ codeChars then normalized
  else .ofList (normalized.toList.take codeGroup) ++ "-" ++
    .ofList (normalized.toList.drop codeGroup)

/-! ### The offline response -/

structure OfflineBinding where
  deviceID : String
  userID : String
  linuxUID : UInt32
  challenge : String
deriving DecidableEq, Repr

/-- The low `count` bytes of `n`, big-endian. -/
def bigEndian (count n : Nat) : Bytes := (digitsOf 8 count n).map UInt8.ofNat

def writeLengthPrefixed (value : String) : Bytes :=
  bigEndian 2 value.utf8ByteSize ++ value.toUTF8.data.toList

section Keyed

-- HMAC-SHA-256 of a message under a key.
variable (hmac : Bytes → Bytes → Bytes)

/-- `OfflineResponse`; `none` is its error. -/
def offlineResponse (secret : Bytes) (binding : OfflineBinding) : Option String := do
  let challenge ← decodeCode binding.challenge
  if secret.length = 0 then none
  else
    encodeCode ((hmac secret (offlineDomain ++ writeLengthPrefixed binding.deviceID ++
      writeLengthPrefixed binding.userID ++ bigEndian 8 binding.linuxUID.toNat ++
      challenge)).take codeRawBytes)

/-! ### Persistent credentials -/

/-- `HXCRED1`, the domain of the credential verifiers. -/
def credentialDomain : Bytes := [0x48, 0x58, 0x43, 0x52, 0x45, 0x44, 0x31]

def hexDigit (n : Nat) : Char := "0123456789abcdef".toList.getD n '0'

/-- `hex.EncodeToString`. -/
def hexEncode (bytes : Bytes) : String :=
  .ofList (bytes.flatMap fun b => [hexDigit (b.toNat / 16), hexDigit (b.toNat % 16)])

/-- `CredentialVerifier`; `none` is its error. -/
def credentialVerifier (deviceKey secret : Bytes) : Option String :=
  if deviceKey.length = 0 then none
  else some (hexEncode (hmac deviceKey (credentialDomain ++ secret)))

end Keyed

def verifierMatches (expected got : String) : Bool := expected = got

def credentialPrefix : String := "hlx1"
def credentialIDChars : Nat := 8
def credentialIDBytes : Nat := 5
def credentialSecretSz : Nat := 32

structure PersistentCredential where
  id : String
  secret : Bytes
deriving DecidableEq, Repr

def base64URLAlphabet : List Char :=
  "ABCDEFGHIJKLMNOPQRSTUVWXYZabcdefghijklmnopqrstuvwxyz0123456789-_".toList

/-- `base64.RawURLEncoding.EncodeToString`. -/
def base64Encode : Bytes → List Char
  | [] => []
  | [a] => ((digitsOf 6 2 (a.toNat * 2 ^ 4)).map fun d => base64URLAlphabet.getD d 'A')
  | [a, b] => ((digitsOf 6 3 (packed 8 [a.toNat, b.toNat] * 2 ^ 2)).map
      fun d => base64URLAlphabet.getD d 'A')
  | a :: b :: c :: rest => ((digitsOf 6 4 (packed 8 [a.toNat, b.toNat, c.toNat])).map
      fun d => base64URLAlphabet.getD d 'A') ++ base64Encode rest

/-- The bytes of a list of base64 digits; bits left over at the end are
dropped, as outside strict mode. -/
def base64Bytes : List Nat → Option Bytes
  | [] => some []
  | [_] => none
  | [a, b] => some (bigEndian 1 (packed 6 [a, b] / 2 ^ 4))
  | [a, b, c] => some (bigEndian 2 (packed 6 [a, b, c] / 2 ^ 2))
  | a :: b :: c :: d :: rest =>
    (base64Bytes rest).map fun bytes => bigEndian 3 (packed 6 [a, b, c, d]) ++ bytes

/-- `base64.RawURLEncoding.DecodeString`, which skips line breaks; `none` is its
error. -/
def base64Decode (text : List Char) : Option Bytes := do
  let digits ← (text.filter fun c => c ≠ '\n' && c ≠ '\r').mapM
    fun c => base64URLAlphabet.idxOf? c
  base64Bytes digits

/-- `PersistentCredential.String`. -/
def PersistentCredential.string (c : PersistentCredential) : String :=
  credentialPrefix ++ "_" ++ c.id ++ "_" ++ .ofList (base64Encode c.secret)

/-- `ParseCredential`; `none` is any of its errors. -/
def parseCredential (token : String) : Option PersistentCredential := do
  let (format, rest) ← splitUnderscore (trimSpace token).toList
  let (id, secret) ← splitUnderscore rest
  if String.ofList format ≠ credentialPrefix then none
  else if (String.ofList id).utf8ByteSize ≠ credentialIDChars then none
  else do
    let _ ← decodeCode (.ofList id)
    let secret ← base64Decode secret
    if secret.length ≠ credentialSecretSz then none
    else return { id := .ofList id, secret }

end HelixKit.Authd
