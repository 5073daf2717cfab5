import Eligibility.Engine
import Eligibility.Proofs.Provenance
import Eligibility.Proofs.StoredText
import Eligibility.Snapshot.Frame
import Eligibility.Token.Json
import Eligibility.Proofs.GroupedForm
import Eligibility.Proofs.PayloadBytes
import Eligibility.Proofs.PayloadContent
import Eligibility.Proofs.Restoring
import Eligibility.Proofs.Reload
import Eligibility.Proofs.JsonNumber
import Eligibility.Proofs.JsonText
import Eligibility.Proofs.JsonDocument
import Eligibility.Proofs.FormulaJson
import Eligibility.Proofs.RuleJson
import Eligibility.Proofs.Dialogue
import Eligibility.Proofs.Parentheses
import Eligibility.Proofs.PayloadPrefix
import Eligibility.Proofs.StoreHistory
import Eligibility.Proofs.Interleaving
import Eligibility.Proofs.Resumption
import Eligibility.Proofs.Verdicts
import Eligibility.Proofs.RestoredNumbers
import Eligibility.Proofs.AttributeJson
import Eligibility.Proofs.Diagnosis
import Eligibility.Proofs.Misspelling
import Eligibility.Proofs.Numbering
import Eligibility.Proofs.Combining
import Eligibility.Proofs.Framing
import Eligibility.Proofs.Normalization
import Eligibility.Proofs.Dependence
import Eligibility.Proofs.EqualValues
import Eligibility.Proofs.Spacing
import Eligibility.Proofs.NormalGroups
import Eligibility.Proofs.PredictedDepth
import Eligibility.Proofs.Loading
