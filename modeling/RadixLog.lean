import RadixLog.Clock
import RadixLog.Display
import RadixLog.Proofs.Arena.CutAndFold
import RadixLog.Proofs.Cursor.Around
import RadixLog.Proofs.EntryId.Written
import RadixLog.Proofs.Faultless
import RadixLog.Proofs.Journal.Exclusive
import RadixLog.Proofs.Journal.Generation
import RadixLog.Proofs.Journal.Handles
import RadixLog.Proofs.Journal.Identifiers
import RadixLog.Proofs.Key.Text
import RadixLog.Proofs.Tree.Count
import RadixLog.Proofs.Tree.InPlace
import RadixLog.Proofs.Tree.Preorder
import RadixLog.Proofs.Tree.Slots
import RadixLog.Proofs.Tree.Typed
import RadixLog.Proofs.Workspace.Shrink
