import ConfigStore.Keyfile.Document
import ConfigStore.Value.Reading
import ConfigStore.Main
import ConfigStore.Proofs.Keyfile.Report
import ConfigStore.Proofs.Keyfile.Agreement
import ConfigStore.Proofs.Keyfile.Replay
import ConfigStore.Proofs.Files.Operations
import ConfigStore.Proofs.Tool.SetThenGet
import ConfigStore.Proofs.Tool.Tree
import ConfigStore.Proofs.Backend.Sharing
import ConfigStore.Proofs.Backend.LifeCycle
import ConfigStore.Proofs.Keyfile.Links
import ConfigStore.Proofs.Keyfile.Repetition
import ConfigStore.Proofs.Keyfile.Sink
import ConfigStore.Proofs.Keyfile.Interrupted
import ConfigStore.Proofs.Keyfile.Continued
import ConfigStore.Proofs.Path.Domain
import ConfigStore.Proofs.Registry.Opening
import ConfigStore.Proofs.Backend.Likeness
import ConfigStore.Proofs.Backend.Creation
import ConfigStore.Proofs.Backend.Isolation
import ConfigStore.Proofs.Backend.Unlinked
import ConfigStore.Proofs.Number.Integer
import ConfigStore.Proofs.Number.Leading
import ConfigStore.Proofs.Number.SixDigits
import ConfigStore.Proofs.Number.Shortest
import ConfigStore.Proofs.Number.Settled
import ConfigStore.Proofs.Value.Strict
