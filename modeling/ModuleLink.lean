import ModuleLink.Main
import ModuleLink.Proofs.Android.LinkedSet
import ModuleLink.Proofs.Android.ParamNames
import ModuleLink.Proofs.Linking.Recognition
import ModuleLink.Proofs.Linking.Calls
import ModuleLink.Proofs.Linking.Footprint
import ModuleLink.Proofs.Linking.Resolved
import ModuleLink.Proofs.Patch.Inverse
import ModuleLink.Proofs.Ios.BestProject
import ModuleLink.Proofs.Ios.ClosedProject
import ModuleLink.Proofs.Ios.FailedEdits
import ModuleLink.Proofs.Ios.HeaderFolders
import ModuleLink.Proofs.Ios.LinkedPods
import ModuleLink.Proofs.Ios.SystemLibraries
import ModuleLink.Proofs.Library.Discovery
import ModuleLink.Proofs.Text.Edits
import ModuleLink.Proofs.Text.Pieces
import ModuleLink.Proofs.Xcode.Overlaps
import ModuleLink.Proofs.Xcode.FieldEdits
import ModuleLink.Proofs.Xcode.Keys
import ModuleLink.Proofs.Xcode.LoadFaults
import ModuleLink.Proofs.Xcode.Restored
import ModuleLink.Proofs.Xcode.Placement
import ModuleLink.Proofs.Xcode.Slots
import ModuleLink.Proofs.Xcode.Settings
import ModuleLink.Proofs.Xcode.Spans
import ModuleLink.Proofs.Xcode.Undo
