import ModularEncryption.Error.Report
import ModularEncryption.Session.Files
import ModularEncryption.Text.Base64.Canonical
import ModularEncryption.Proofs.File.RoundTrip
import ModularEncryption.Proofs.Frame.Acceptance
import ModularEncryption.Proofs.Keys.Shared
import ModularEncryption.Proofs.Read.Requests
import ModularEncryption.Proofs.Read.WriteOnce
import ModularEncryption.Proofs.Keys.SharedStore
import ModularEncryption.Proofs.Read.Isolation
import ModularEncryption.Proofs.Keys.Usable
import ModularEncryption.Proofs.Frame.Tampering
import ModularEncryption.Proofs.Frame.CounterMode
import ModularEncryption.Proofs.Keys.Lifetime
import ModularEncryption.Proofs.Keys.Recency
import ModularEncryption.Proofs.Read.Signature
import ModularEncryption.Proofs.Module.Pages
import ModularEncryption.Proofs.Write.Requests
import ModularEncryption.Proofs.Read.Failures
import ModularEncryption.Proofs.Keys.Reversal
import ModularEncryption.Proofs.Read.Registration
import ModularEncryption.Proofs.Read.Acceptance
import ModularEncryption.Proofs.Write.Acceptance
import ModularEncryption.Proofs.Draws.Run
import ModularEncryption.Proofs.ColumnPath
import ModularEncryption.Proofs.Settings.Acceptance
import ModularEncryption.Proofs.Write.Column
import ModularEncryption.Proofs.Redaction.Texts
