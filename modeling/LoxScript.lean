import LoxScript.Host.Toolbox
import LoxScript.Machine.Inspection
import LoxScript.Main
import LoxScript.Tree.Printer
import LoxScript.Tree.References
import LoxScript.Proofs.Token.Tiling
import LoxScript.Proofs.Scope.Exactness
import LoxScript.Proofs.Scope.Reuse
import LoxScript.Proofs.Session.Locals
import LoxScript.Proofs.Session.Renaming
import LoxScript.Proofs.Session.Restoration
import LoxScript.Proofs.Session.Tables
import LoxScript.Proofs.Tree.Exactness
import LoxScript.Proofs.Machine.Endurance
import LoxScript.Proofs.Machine.Reaching
import LoxScript.Proofs.Machine.Requiring
import LoxScript.Proofs.Seclusion.Runs
import LoxScript.Proofs.Session.Inclusion
import LoxScript.Proofs.Session.Pieces
import LoxScript.Proofs.Session.Rejection
import LoxScript.Proofs.Session.Endings
import LoxScript.Proofs.Machine.WithinReach
import LoxScript.Proofs.Session.Superclasses
import LoxScript.Proofs.Session.Spellings
import LoxScript.Proofs.Session.Truncation
import LoxScript.Proofs.Scope.Nearest
import LoxScript.Proofs.Session.Cancellation
import LoxScript.Proofs.Session.Globals
import LoxScript.Proofs.Session.Properties
import LoxScript.Proofs.Direct.Meaning
import LoxScript.Proofs.Token.Faults
import LoxScript.Proofs.Token.Rescanning
import LoxScript.Proofs.Session.Dialogue
import LoxScript.Proofs.Tree.Totality
import LoxScript.Proofs.Token.Encodings
import LoxScript.Proofs.Scope.Balance
import LoxScript.Proofs.Store.History
import LoxScript.Proofs.Tree.Unambiguity
