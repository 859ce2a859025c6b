import ObjectPath.Evaluator
import ObjectPath.Container
import ObjectPath.Catalog.TypeNames
import ObjectPath.Derive.Code
import ObjectPath.Proofs.Atomicity
import ObjectPath.Proofs.Divergence
import ObjectPath.Proofs.Extension
import ObjectPath.Proofs.PutGet
import ObjectPath.Proofs.Prefixes
import ObjectPath.Proofs.Refusal
import ObjectPath.Proofs.Resolution
import ObjectPath.Proofs.Scanning
import ObjectPath.Proofs.Binding
import ObjectPath.Proofs.Validation
import ObjectPath.Proofs.Preservation
import ObjectPath.Proofs.Growth
import ObjectPath.Proofs.Composition
import ObjectPath.Proofs.Addressing
import ObjectPath.Proofs.Overwriting
import ObjectPath.Proofs.Commuting
import ObjectPath.Proofs.FieldFaults
import ObjectPath.Proofs.Relaxation
import ObjectPath.Proofs.Overrides
import ObjectPath.Proofs.SyntaxOffsets
import ObjectPath.Proofs.Rendering
import ObjectPath.Proofs.AtomTexts
import ObjectPath.Proofs.BlankStrings
import ObjectPath.Proofs.AccessorNames
import ObjectPath.Proofs.Operations
import ObjectPath.Proofs.Outlines
import ObjectPath.Proofs.Derivation
