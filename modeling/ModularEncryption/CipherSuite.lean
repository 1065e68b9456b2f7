import ModularEncryption.Frame
import ModularEncryption.Error.Basic

/-! # Cipher suites

A file is written with one of two suites: either every module is authenticated, or the pages are
encrypted in counter mode and all else is authenticated. The algorithm record of a file names the
suite and carries what a reader needs for the additional data: the bytes that make the file unique,
and perhaps metadata by which to find the writer's prefix. -/

namespace ModularEncryption

/-- The two suites. -/
inductive CipherSuite where
  | aesGcmV1
  | aesGcmCtrV1
deriving DecidableEq, Repr

namespace CipherSuite

/-- The suite chosen where none is named. -/
def default : CipherSuite := .aesGcmV1

/-- The name of a suite. -/
def name : CipherSuite → String
  | .aesGcmV1 => "AES_GCM_V1"
  | .aesGcmCtrV1 => "AES_GCM_CTR_V1"

/-- The mode of data and dictionary pages. -/
def dataMode : CipherSuite → Mode
  | .aesGcmV1 => .gcm
  | .aesGcmCtrV1 => .ctr

/-- The mode of all other modules. -/
def metadataMode (_ : CipherSuite) : Mode := .gcm

/-- An ASCII letter in upper case; other characters stay as they are. -/
def upperChar (c : Char) : Char :=
  if 'a' ≤ c ∧ c ≤ 'z' then Char.ofNat (c.toNat - 32) else c

/-- The suite with a name, in which ASCII letters may have either case. -/
def ofName? (s : String) : Option CipherSuite :=
  let upper := String.ofList (s.toList.map upperChar)
  if upper = CipherSuite.aesGcmV1.name then some .aesGcmV1
  else if upper = CipherSuite.aesGcmCtrV1.name then some .aesGcmCtrV1
  else none

/-- The suite with a name, or the error that there is none. -/
def ofName (s : String) : Except Error CipherSuite :=
  match ofName? s with
  | some suite => .ok suite
  | none => .error { cause := .unsupportedAlgorithm s }

/-- The name of a suite in listings. -/
def listingName : CipherSuite → String
  | .aesGcmV1 => "AesGcmV1"
  | .aesGcmCtrV1 => "AesGcmCtrV1"

end CipherSuite

/-- What a file says about its encryption. -/
structure AlgorithmRecord where
  suite : CipherSuite
  aadMetadata : Option Bytes
  aadFileUnique : Bytes
deriving DecidableEq, Repr

namespace AlgorithmRecord

/-- The number of bytes that make a file unique. -/
def uniqueLength : Nat := 8

/-- The listing of an algorithm record. -/
def listing (a : AlgorithmRecord) : Text.Listing :=
  .variant a.suite.listingName [.record "AesParameters"
    [.field "aad_metadata" (.option .bytes a.aadMetadata),
     .field "aad_file_unique" (.bytes a.aadFileUnique)]]

end AlgorithmRecord

end ModularEncryption
