import Reckoner.Main
import Reckoner.Proofs.Calculator.Acceptance
import Reckoner.Proofs.Calculator.Session
import Reckoner.Proofs.Infix.Climbing
import Reckoner.Proofs.Evaluation.Growth
import Reckoner.Proofs.Calculator.Stability
import Reckoner.Proofs.Calculator.Sharing
import Reckoner.Proofs.Foreseen
import Reckoner.Proofs.Token.Filled
import Reckoner.Proofs.Postfix.Soundness
import Reckoner.Proofs.Calculator.Safety
import Reckoner.Proofs.Postfix.Ending
import Reckoner.Proofs.Postfix.Relocation
import Reckoner.Proofs.Evaluation.Relocation
import Reckoner.Proofs.Calculator.Blanks
import Reckoner.Proofs.Calculator.Leniency
import Reckoner.Proofs.Token.Lexing
import Reckoner.Proofs.CommandLine.Settling
import Reckoner.Proofs.CommandLine.Conversation
import Reckoner.Proofs.Postfix.Rejection
import Reckoner.Proofs.Evaluation.Exactness
import Reckoner.Proofs.Postfix.Rearrangement
import Reckoner.Proofs.Postfix.Substitution
import Reckoner.Proofs.Calculator.Inquiry
import Reckoner.Proofs.Calculator.Independence
import Reckoner.Proofs.Evaluation.Ending
import Reckoner.Proofs.Evaluation.Depth
import Reckoner.Proofs.Calculator.Caret
import Reckoner.Proofs.Calculator.Attribution
import Reckoner.Proofs.Calculator.Answers
import Reckoner.Proofs.Infix.Latest
import Reckoner.Proofs.Postfix.Topmost
import Reckoner.Proofs.Postfix.Breakdown
import Reckoner.Proofs.Settings.Validation
import Reckoner.Proofs.Settings.Overlay
import Reckoner.Proofs.Postfix.Regrouping
import Reckoner.Proofs.Calculator.Regrouping
import Reckoner.Proofs.CommandLine.Naming
import Reckoner.Proofs.Number.Power
import Reckoner.Proofs.Settings.Hiding
import Reckoner.Proofs.Postfix.Stacks
