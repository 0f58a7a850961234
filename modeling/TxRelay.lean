import TxRelay.Main
import TxRelay.Proofs.Command.Influence
import TxRelay.Proofs.Command.Merging
import TxRelay.Proofs.Command.Room
import TxRelay.Proofs.Conversion.Padding
import TxRelay.Proofs.Conversion.Repair
import TxRelay.Proofs.Endpoint.Kept
import TxRelay.Proofs.Endpoint.Printed
import TxRelay.Proofs.Feed.Numbering
import TxRelay.Proofs.Relay.Chronicle
import TxRelay.Proofs.Relay.Independence
import TxRelay.Proofs.Relay.Isolation
import TxRelay.Proofs.Relay.Omission
import TxRelay.Proofs.Relay.Skew
import TxRelay.Proofs.Settings.Agreement
import TxRelay.Proofs.Signal.Families
import TxRelay.Proofs.Transport.Numbering
import TxRelay.Proofs.Wire.CutOff
import TxRelay.Proofs.Wire.Forms
import TxRelay.Proofs.Wire.Tolerance
import TxRelay.Proofs.Worker.Fold
