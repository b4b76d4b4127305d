import Codemod.Main
import Codemod.Proofs.FileTree
import Codemod.Proofs.Passes
import Codemod.Proofs.Replacing
import Codemod.Proofs.Walk
import Codemod.Proofs.EditOrder
import Codemod.Proofs.DryRun
import Codemod.Proofs.RealRun
import Codemod.Proofs.Scanning
import Codemod.Proofs.Annotation
import Codemod.Proofs.Imports
import Codemod.Proofs.Tokens
import Codemod.Proofs.Settling
import Codemod.Proofs.Leftovers
import Codemod.Proofs.Footprint
import Codemod.Proofs.Interplay
import Codemod.Proofs.AtOnce
import Codemod.Proofs.WrittenRules
import Codemod.Proofs.ImportScan
import Codemod.Proofs.CallbackScan
import Codemod.Proofs.Visible
import Codemod.Proofs.Registration
import Codemod.Proofs.Detection
import Codemod.Proofs.SettingsSearch
import Codemod.Proofs.Discovery
import Codemod.Proofs.ArgumentOrder
import Codemod.Proofs.Staging
import Codemod.Proofs.Verdict
