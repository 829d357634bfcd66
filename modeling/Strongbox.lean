import Strongbox.Main
import Strongbox.Proofs.Download.Delivery
import Strongbox.Proofs.Gate
import Strongbox.Proofs.Interchange
import Strongbox.Proofs.Isolation
import Strongbox.Proofs.Receiving.Atomic
import Strongbox.Proofs.RoundTrip
import Strongbox.Proofs.Sending.Stall
import Strongbox.Proofs.Traffic.Failed
import Strongbox.Proofs.Upload.Verdict
import Strongbox.Settings
import Strongbox.Store.Archive
import Strongbox.Store.Faulty
import Strongbox.Store.Resident
import Strongbox.Traffic
import Strongbox.Proofs.Upload.Settling
import Strongbox.Proofs.Store.History
import Strongbox.Proofs.Store.WriteOnce
import Strongbox.Proofs.Store.Completion
import Strongbox.Proofs.Store.Filtering
import Strongbox.Proofs.Store.Numbering
import Strongbox.Proofs.Sealing
import Strongbox.Proofs.Message
import Strongbox.Proofs.Sending.Agreement
import Strongbox.Proofs.Traffic.Fetchable
import Strongbox.Proofs.Store.Escaping
import Strongbox.Proofs.Text.Lower
import Strongbox.Proofs.Download.Opening
import Strongbox.Proofs.Traffic.Calls
import Strongbox.Proofs.Visibility
import Strongbox.Proofs.Partition.Balance
import Strongbox.Proofs.Plan.Layout
import Strongbox.Proofs.Sending.Once
import Strongbox.Proofs.Store.Paging
import Strongbox.Proofs.Name.Last
import Strongbox.Proofs.Message.Widened
import Strongbox.Proofs.Token.Minted
import Strongbox.Proofs.Settings
import Strongbox.Proofs.Text.Hex.Exact
