import ModularEncryption.CipherSuite

/-! # The ciphers of a column

A column has a cipher for its data and dictionary pages and one for its metadata, page headers and
indexes. Both have the same key, and the suite gives each its mode. -/

namespace ModularEncryption

/-- The two ciphers of a column. -/
structure ColumnCiphers where
  data : FrameCipher
  metadata : FrameCipher
deriving DecidableEq

namespace ColumnCiphers

/-- The ciphers that a suite gives a key. -/
def ofKey (suite : CipherSuite) (key : AesKey) : ColumnCiphers :=
  ⟨⟨suite.dataMode, key⟩, ⟨suite.metadataMode, key⟩⟩

/-- The listing of the ciphers of a column. -/
def listing (c : ColumnCiphers) : Text.Listing :=
  .record "ColumnDecryptors" [.field "data" c.data.listing, .field "metadata" c.metadata.listing]

end ColumnCiphers

end ModularEncryption
