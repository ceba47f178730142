import ClassImage.Program.Files
import ClassImage.Program.Listing
import ClassImage.Program.Lowering
import ClassImage.Proofs.Codec.Image
import ClassImage.Proofs.Program.Code
import ClassImage.Proofs.Program.Edits
import ClassImage.Proofs.Program.Session
import ClassImage.Proofs.Program.Targets
import ClassImage.Proofs.Program.Uses
import ClassImage.Proofs.Lowering.Allotment
import ClassImage.Proofs.Lowering.Exact
import ClassImage.Proofs.Copy.RoundTrip
import ClassImage.Proofs.Copy.Normal
import ClassImage.Proofs.Codec.Survival
import ClassImage.Proofs.Program.Blame
import ClassImage.Proofs.Copy.Legible
import ClassImage.Proofs.Merge.Order
import ClassImage.Proofs.Program.Atomic
import ClassImage.Proofs.Program.Registry
import ClassImage.Proofs.Program.Cursor
import ClassImage.Proofs.Merge.Conflicts
import ClassImage.Proofs.Codec.Prefixes
import ClassImage.Proofs.Copy.Renaming
import ClassImage.Proofs.Codec.Unchecked
import ClassImage.Proofs.Program.Unchecked
import ClassImage.Proofs.Program.Decoding
import ClassImage.Proofs.Codec.Corruption
import ClassImage.Proofs.Copy.Signatures
import ClassImage.Proofs.Copy.Flags
import ClassImage.Proofs.Copy.Dispatch
import ClassImage.Proofs.Lowering.Overwrites
import ClassImage.Proofs.Program.Straddling
import ClassImage.Proofs.Program.Replacing
import ClassImage.Proofs.Types.Parameters
import ClassImage.Proofs.Lowering.Interning
import ClassImage.Proofs.Program.Shapes
import ClassImage.Proofs.Program.Inserting
import ClassImage.Proofs.Codec.Misread
import ClassImage.Proofs.Lowering.Entries
